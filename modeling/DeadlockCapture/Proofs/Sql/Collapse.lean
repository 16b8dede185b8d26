import DeadlockCapture.Sql.Redaction
import Mathlib.Data.List.Forall2

/-!
Shortened lists of placeholders. Shortening keeps the first token, sees texts only, and leaves
nothing to shorten.
-/

namespace DeadlockCapture.Sql

theorem collapseLists_cons (t : Token) (r : List Token) :
    collapseLists (t :: r) = t :: match surplus t r with
      | some n => r.take 2 ++ collapseLists (r.drop (2 + n))
      | none => collapseLists r := by
  rw [collapseLists.eq_def]
  cases hfound : surplus t r <;> simp only [hfound]

theorem collapseLists_nil : collapseLists [] = [] := by
  rw [collapseLists.eq_def]

theorem head_collapseLists (ts : List Token) : (collapseLists ts).head? = ts.head? := by
  cases ts with
  | nil => rw [collapseLists_nil]
  | cons t r => rw [collapseLists_cons]; rfl

theorem spells_in_of_single {t : Token} {c : Char} (h : t.text = [c]) : t.spells "IN" = false := by
  simp [Token.spells, h]

theorem surplus_of_single {t : Token} {c : Char} (h : t.text = [c]) (r : List Token) :
    surplus t r = none := by
  simp [surplus, spells_in_of_single h]

/-- A run of placeholders starts with one and ends before the closing parenthesis. -/
theorem placeholderRun_some {ts : List Token} {m : Nat} (h : placeholderRun ts = some m) :
    0 < m ∧ (∃ item r, ts = item :: r ∧ item.text = placeholderText) ∧
      ∃ close r, ts.drop m = close :: r ∧ close.text = [')'] := by
  fun_induction placeholderRun ts generalizing m with
  | case1 item next r hfirst hclosing =>
      cases h
      exact ⟨Nat.one_pos, ⟨item, _, rfl, hfirst⟩, next, r, rfl, hclosing⟩
  | case2 item next r hfirst hclosing hcomma ih =>
      obtain ⟨n, hfound, rfl⟩ := Option.map_eq_some_iff.mp h
      obtain ⟨-, -, close, q, hrest, hlast⟩ := ih hfound
      exact ⟨by omega, ⟨item, _, rfl, hfirst⟩, close, q, hrest, hlast⟩
  | case3 => cases h
  | case4 => cases h
  | case5 => cases h

/-- A list that can be shortened: the word IN, a parenthesis and a first placeholder. -/
theorem surplus_some {t : Token} {r : List Token} {n : Nat} (h : surplus t r = some n) :
    ∃ opening item inner, r = opening :: item :: inner ∧ item.text = placeholderText ∧
      ∃ close q, r.drop (2 + n) = close :: q ∧ close.text = [')'] := by
  unfold surplus at h
  split at h
  · rename_i hlist
    obtain ⟨m, hrun, rfl⟩ := Option.map_eq_some_iff.mp h
    obtain ⟨hpos, ⟨item, inner, htail, hfirst⟩, close, q, hrest, hlast⟩ := placeholderRun_some hrun
    cases r with
    | nil => cases htail
    | cons opening r =>
        rw [List.tail_cons] at htail hrest
        refine ⟨opening, item, inner, by rw [htail], hfirst, close, q, ?_, hlast⟩
        rw [show 2 + (m - 1) = m + 1 by omega, List.drop_succ_cons, hrest]
  · cases h

theorem placeholderRun_collapseLists (ts : List Token) :
    placeholderRun (collapseLists ts) = placeholderRun ts := by
  fun_induction placeholderRun ts with
  | case1 item next r hfirst hclosing =>
      rw [collapseLists_cons, surplus_of_single hfirst, collapseLists_cons]
      simp [placeholderRun, hfirst, hclosing]
  | case2 item next r hfirst hclosing hcomma ih =>
      rw [collapseLists_cons, surplus_of_single hfirst, collapseLists_cons,
        surplus_of_single hcomma]
      simp [placeholderRun, hfirst, hcomma, ih]
  | case3 item next r hfirst hclosing hcomma =>
      rw [collapseLists_cons, surplus_of_single hfirst, collapseLists_cons]
      simp [placeholderRun, hclosing, hcomma]
  | case4 item next r hfirst =>
      rw [collapseLists_cons]
      unfold placeholderRun
      split <;> simp_all
  | case5 ts hshort =>
      cases ts with
      | nil => rw [collapseLists_nil]; rfl
      | cons t r =>
          cases r with
          | nil => rw [collapseLists_cons]; simp [surplus, collapseLists_nil, placeholderRun]
          | cons u r => exact absurd rfl (hshort t u r)

theorem surplus_collapseLists (t : Token) (r : List Token) :
    surplus t (collapseLists r) = surplus t r := by
  cases r with
  | nil => rw [collapseLists_nil]
  | cons opening r =>
      unfold surplus
      rw [head_collapseLists]
      split
      · rename_i hlist
        have hsingle : opening.text = ['('] := by simpa using hlist.2.2
        rw [collapseLists_cons, surplus_of_single hsingle]
        exact congrArg (Option.map (· - 1)) (placeholderRun_collapseLists r)
      · rfl

theorem surplus_of_one {t opening item close : Token} {inner q : List Token} {n : Nat}
    (h : surplus t (opening :: item :: inner) = some n) (hfirst : item.text = placeholderText)
    (hlast : close.text = [')']) : surplus t (opening :: item :: close :: q) = some 0 := by
  unfold surplus at h ⊢
  split at h
  · rename_i hlist
    rw [List.head?_cons] at hlist ⊢
    rw [if_pos hlist]
    simp [placeholderRun, hfirst, hlast]
  · cases h

/-- A list that has been shortened is not shortened again. -/
theorem collapseLists_collapseLists (ts : List Token) :
    collapseLists (collapseLists ts) = collapseLists ts := by
  fun_induction collapseLists ts with
  | case1 => exact collapseLists_nil
  | case2 t r n hfound ih =>
      obtain ⟨opening, item, inner, rfl, hfirst, close, q, hrest, hlast⟩ := surplus_some hfound
      rw [hrest] at ih ⊢
      rw [collapseLists_cons close q] at ih ⊢
      simp only [List.take_succ_cons, List.take_zero, List.cons_append, List.nil_append]
      rw [collapseLists_cons t, surplus_of_one hfound hfirst hlast]
      simp only [List.take_succ_cons, List.take_zero, List.cons_append, List.nil_append,
        Nat.add_zero, List.drop_succ_cons, List.drop_zero]
      rw [ih]
  | case3 t r hfound ih => rw [collapseLists_cons, surplus_collapseLists, hfound, ih]

theorem collapseLists_sublist (ts : List Token) : (collapseLists ts).Sublist ts := by
  fun_induction collapseLists ts with
  | case1 => exact .refl _
  | case2 t r n hfound ih =>
      have hlater := ih.trans (List.drop_sublist_drop_left r (Nat.le_add_right 2 n))
      have hkept := (List.Sublist.refl (r.take 2)).append hlater
      rw [List.take_append_drop] at hkept
      exact hkept.cons_cons t
  | case3 t r hfound ih => exact ih.cons_cons t

/-! ### Shortening in changed tokens -/

/-- The word IN, in front of a list that may be shortened. -/
def Token.IsIn (t : Token) : Prop :=
  t.kind = .word ∧ t.spells "IN" = true

/-- Shortening sees no difference between two tokens. -/
structure Token.ActsAs (t u : Token) : Prop where
  single : ∀ c : Char, t.text = [c] ↔ u.text = [c]
  isIn : t.IsIn ↔ u.IsIn

theorem Token.ActsAs.placeholder {t u : Token} (h : t.ActsAs u) :
    t.text = placeholderText ↔ u.text = placeholderText :=
  h.single '?'

theorem placeholderRun_of_acts {ts us : List Token} (hacts : List.Forall₂ Token.ActsAs us ts) :
    placeholderRun us = placeholderRun ts := by
  fun_induction placeholderRun ts generalizing us with
  | case1 item next r hfirst hclosing =>
      obtain _ | ⟨hactsFirst, _ | ⟨hactsNext, -⟩⟩ := hacts
      simp [placeholderRun, hactsFirst.placeholder, hactsNext.single, hfirst, hclosing]
  | case2 item next r hfirst hclosing hcomma ih =>
      obtain _ | ⟨hactsFirst, _ | ⟨hactsNext, hrest⟩⟩ := hacts
      simp [placeholderRun, hactsFirst.placeholder, hactsNext.single, hfirst, hcomma, ih hrest]
  | case3 item next r hfirst hclosing hcomma =>
      obtain _ | ⟨-, _ | ⟨hactsNext, -⟩⟩ := hacts
      simp [placeholderRun, hactsNext.single, hclosing, hcomma]
  | case4 item next r hfirst =>
      obtain _ | ⟨hactsFirst, _ | ⟨-, -⟩⟩ := hacts
      simp [placeholderRun, hactsFirst.placeholder, hfirst]
  | case5 ts hshort =>
      obtain _ | ⟨-, _ | ⟨-, -⟩⟩ := hacts
      · rfl
      · rfl
      · exact absurd rfl (hshort _ _ _)

theorem surplus_of_acts {t u : Token} {r s : List Token} (hfirst : u.ActsAs t)
    (hacts : List.Forall₂ Token.ActsAs s r) : surplus u s = surplus t r := by
  have hopening : s.head?.any (·.text == ['(']) = r.head?.any (·.text == ['(']) := by
    cases hacts with
    | nil => rfl
    | cons hacts hrest =>
        have hsingle := hacts.single '('
        rw [Bool.eq_iff_iff]
        simpa using hsingle
  have hlist : (u.kind = .word ∧ u.spells "IN" = true ∧ s.head?.any (·.text == ['(']) = true) ↔
      (t.kind = .word ∧ t.spells "IN" = true ∧ r.head?.any (·.text == ['(']) = true) := by
    rw [hopening, ← and_assoc, ← and_assoc]
    exact and_congr_left' hfirst.isIn
  have htails : List.Forall₂ Token.ActsAs s.tail r.tail := by
    cases hacts with
    | nil => exact .nil
    | cons _ hrest => exact hrest
  simp only [surplus, hlist, placeholderRun_of_acts htails]

/-- Shortening sees the single characters among tokens, and which of them are the word IN. -/
theorem collapseLists_of_acts {R : Token → Token → Prop} (hacts : ∀ {u t}, R u t → u.ActsAs t)
    {us ts : List Token} (h : List.Forall₂ R us ts) :
    List.Forall₂ R (collapseLists us) (collapseLists ts) := by
  fun_induction collapseLists ts generalizing us with
  | case1 =>
      cases h
      rw [collapseLists_nil]
      exact .nil
  | case2 t r n hfound ih =>
      cases h with
      | @cons u _ s _ hfirst hrest =>
          have hsame := surplus_of_acts (hacts hfirst) (hrest.imp fun _ _ => hacts)
          rw [collapseLists_cons, hsame, hfound]
          exact .cons hfirst (List.rel_append (List.forall₂_take 2 hrest)
            (ih (List.forall₂_drop (2 + n) hrest)))
  | case3 t r hfound ih =>
      cases h with
      | cons hfirst hrest =>
          have hsame := surplus_of_acts (hacts hfirst) (hrest.imp fun _ _ => hacts)
          rw [collapseLists_cons, hsame, hfound]
          exact .cons hfirst (ih hrest)

theorem collapseLists_map {f : Token → Token} {ts : List Token}
    (hacts : ∀ t ∈ ts, (f t).ActsAs t) : collapseLists (ts.map f) = (collapseLists ts).map f := by
  have himages : List.Forall₂ (fun u t => u = f t ∧ u.ActsAs t) (ts.map f) ts :=
    List.forall₂_map_left_iff.mpr (List.forall₂_same.mpr fun t hmember => ⟨rfl, hacts t hmember⟩)
  have hshortened := (collapseLists_of_acts And.right himages).imp fun _ _ => And.left
  rw [← List.forall₂_map_right_iff, List.forall₂_eq_eq_eq] at hshortened
  exact hshortened

end DeadlockCapture.Sql
