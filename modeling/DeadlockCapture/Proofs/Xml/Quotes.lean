import DeadlockCapture.Proofs.Xml.Pieces

/-!
A quote divides a text for the reader: no reference and no mark reaches over it. So what stands on
one side of it may give way to something else without a change on the other side.
-/

namespace DeadlockCapture.Xml

open DeadlockCapture.Text

/-! ### Runs of allowed characters -/

/-- Where nothing stops a run in `w`, the run is first one of allowed characters. -/
theorem allowedRun_append {stops : List Char → Bool} {w r : List Char}
    (hgoes : ∀ u v, u ++ v = w → v ≠ [] → stops (v ++ r) = false) (offset : Nat) :
    allowedRun stops offset (w ++ r) =
      (allowedRun (fun _ => false) offset w).bind fun _ =>
        (allowedRun stops (offset + w.length) r).map (· + w.length) := by
  induction w generalizing offset with
  | nil =>
      rw [List.nil_append, List.length_nil, Nat.add_zero]
      cases allowedRun stops offset r <;> rfl
  | cons c w ih =>
      have hfirst : stops (c :: (w ++ r)) = false := hgoes [] (c :: w) rfl (List.cons_ne_nil c w)
      have hrest := ih (fun u v hsplit => hgoes (c :: u) v (congrArg (c :: ·) hsplit)) (offset + 1)
      rw [Nat.add_right_comm] at hrest
      rw [List.cons_append, allowedRun, allowedRun, hfirst, hrest, List.length_cons,
        ← Nat.add_assoc]
      cases isAllowed c with
      | false => rfl
      | true =>
          cases allowedRun (fun _ => false) (offset + 1) w with
          | error f => rfl
          | ok n => cases allowedRun stops (offset + w.length + 1) r <;> rfl

theorem closedRun_append {close : String} {w r : List Char}
    (hgoes : ∀ u v, u ++ v = w → v ≠ [] → close.toList.isPrefixOf (v ++ r) = false) (offset : Nat) :
    closedRun close offset (w ++ r) =
      (allowedRun (fun _ => false) offset w).bind fun _ =>
        (closedRun close (offset + w.length) r).map (· + w.length) := by
  rw [closedRun, allowedRun_append hgoes, closedRun]
  cases allowedRun (fun _ => false) offset w with
  | error f => rfl
  | ok m =>
      cases allowedRun (close.toList.isPrefixOf ·) (offset + w.length) r with
      | error f => rfl
      | ok n =>
          have hrest : (w ++ r).drop (n + w.length) = r.drop n := by
            rw [Nat.add_comm, ← List.drop_drop, List.drop_left]
          simp only [Except.bind, Except.map, hrest]
          split
          · rw [Nat.add_right_comm]
          · rw [Nat.add_comm n, Nat.add_assoc]

theorem allowedRun_of_allowed {w : List Char} (hallowed : ∀ c ∈ w, isAllowed c = true)
    (offset : Nat) : allowedRun (fun _ => false) offset w = .ok w.length := by
  induction w generalizing offset with
  | nil => rfl
  | cons c w ih =>
      obtain ⟨hfirst, hrest⟩ := List.forall_mem_cons.mp hallowed
      rw [allowedRun, hfirst, ih hrest]
      rfl

/-- Allowed characters may give way to as many others. -/
theorem allowedRun_other {w w' : List Char} (hallowed : ∀ c ∈ w, isAllowed c = true)
    (hallowed' : ∀ c ∈ w', isAllowed c = true) (hlength : w.length = w'.length) (offset : Nat)
    (u r : List Char) :
    allowedRun (fun _ => false) offset (u ++ (w ++ r)) =
      allowedRun (fun _ => false) offset (u ++ (w' ++ r)) := by
  have hsplit (offset : Nat) (u r : List Char) : allowedRun (fun _ => false) offset (u ++ r) =
      (allowedRun (fun _ => false) offset u).bind fun _ =>
        (allowedRun (fun _ => false) (offset + u.length) r).map (· + u.length) :=
    allowedRun_append (fun _ _ _ _ => rfl) offset
  rw [hsplit, hsplit offset u (w' ++ r), hsplit _ w r, hsplit _ w' r,
    allowedRun_of_allowed hallowed, allowedRun_of_allowed hallowed', hlength]

/-! ### Marks that do not reach over a quote -/

section Separate

variable {q : Char} {run : List Char} (hapart : q ∉ run)

include hapart

theorem isPrefixOf_append_cons (w r : List Char) :
    run.isPrefixOf (w ++ q :: r) = run.isPrefixOf w := by
  induction w generalizing run with
  | nil =>
      cases run with
      | nil => rfl
      | cons d run =>
          have hother : (d == q) = false :=
            beq_eq_false_iff_ne.mpr fun hsame => hapart (hsame ▸ List.mem_cons_self)
          rw [List.nil_append, List.isPrefixOf_cons_cons, hother]
          rfl
  | cons c w ih =>
      cases run with
      | nil => rfl
      | cons d run =>
          rw [List.cons_append, List.isPrefixOf_cons_cons, List.isPrefixOf_cons_cons,
            ih fun hmember => hapart (List.mem_cons_of_mem d hmember)]

theorem holdsRun_append_cons (hsome : run ≠ []) (w r : List Char) :
    holdsRun run (w ++ q :: r) = (holdsRun run w || holdsRun run r) := by
  induction w with
  | nil =>
      have hfirst := isPrefixOf_append_cons hapart [] r
      cases run with
      | nil => exact absurd rfl hsome
      | cons d run =>
          change ((d :: run).isPrefixOf (q :: r) || holdsRun (d :: run) r) = _
          rw [List.nil_append] at hfirst
          rw [hfirst]
          rfl
  | cons c w ih =>
      rw [List.cons_append, holdsRun, ← List.cons_append, isPrefixOf_append_cons hapart, ih,
        holdsRun, Bool.or_assoc]

end Separate

theorem not_isPrefixOf_of_holdsRun {run w : List Char} (hnone : holdsRun run w = false)
    {u v : List Char} (hsplit : u ++ v = w) (hsome : v ≠ []) : run.isPrefixOf v = false := by
  subst hsplit
  induction u with
  | nil =>
      cases v with
      | nil => exact absurd rfl hsome
      | cons c v => exact (Bool.or_eq_false_iff.mp hnone).1
  | cons c u ih => exact ih (Bool.or_eq_false_iff.mp hnone).2

/-- A mark that is not found in front of a quote is not found across it. -/
theorem goes_of_holdsRun {q : Char} {run x : List Char} (hapart : q ∉ run) (hsome : run ≠ [])
    (hnone : holdsRun run x = false) (r : List Char) :
    ∀ u v, u ++ v = x ++ [q] → v ≠ [] → run.isPrefixOf (v ++ r) = false := by
  intro u v hsplit hfilled
  obtain ⟨w, d, rfl⟩ := (List.eq_nil_or_concat v).resolve_left hfilled
  rw [List.concat_eq_append] at hsplit ⊢
  rw [← List.append_assoc] at hsplit
  obtain ⟨hwhole, hlast⟩ := List.append_inj' hsplit rfl
  obtain rfl : d = q := List.singleton_inj.mp hlast
  rw [List.append_assoc, List.singleton_append, isPrefixOf_append_cons hapart]
  cases w with
  | nil =>
      cases run with
      | nil => exact absurd rfl hsome
      | cons e run => rfl
  | cons c w => exact not_isPrefixOf_of_holdsRun hnone hwhole (List.cons_ne_nil c w)

/-! ### References that do not reach over a quote -/

theorem referenceBody?_append_quote (s r : List Char) :
    referenceBody? (s ++ '\x27' :: r) = referenceBody? s := by
  have hstops {p : Char → Bool} (hnone : p '\x27' = false) (w : List Char) :
      (w ++ '\x27' :: r).takeWhile p = w.takeWhile p :=
    takeWhile_append_of_stops (by rintro c ⟨⟩; exact hnone)
  cases s with
  | nil => rfl
  | cons c t =>
      by_cases hmark : c = '#'
      · subst hmark
        cases t with
        | nil => rfl
        | cons d t =>
            by_cases hhexadecimal : d = 'x'
            · subst hhexadecimal
              change numbered? 16 2 ((t ++ '\x27' :: r).takeWhile isHexDigit) = _
              rw [hstops rfl]
              rfl
            · have hother : ∀ t v : List Char, d :: t = 'x' :: v → False :=
                fun t v hsame => hhexadecimal (List.cons.inj hsame).1
              rw [List.cons_append, List.cons_append, referenceBody?.eq_2 _ (hother _),
                referenceBody?.eq_2 _ (hother _), ← List.cons_append, hstops rfl]
      · have hother : ∀ t v : List Char, c = '#' → t = 'x' :: v → False :=
          fun _ _ hsame => absurd hsame hmark
        rw [List.cons_append, referenceBody?.eq_3 _ _ (hother _) hmark,
          referenceBody?.eq_3 _ _ (hother _) hmark, hstops rfl]

theorem reference?_le {s : List Char} {ref : Reference} {n : Nat}
    (h : reference? s = some (ref, n)) : n ≤ s.length := by
  unfold reference? at h
  split at h
  · rename_i ref' m hbody
    obtain ⟨hmark, hsame⟩ := Option.ite_none_right_eq_some.mp h
    have hshort : m < s.length := by
      apply Nat.lt_of_not_le
      intro hpast
      rw [List.drop_eq_nil_of_le hpast] at hmark
      cases hmark
    cases hsame
    exact hshort
  · cases h

theorem length_of_numbered? {base skip n : Nat} {digits : List Char} {ref : Reference}
    (h : numbered? base skip digits = some (ref, n)) : n = skip + digits.length := by
  unfold numbered? at h
  split at h
  · cases h
  · obtain ⟨c, -, hsame⟩ := Option.map_eq_some_iff.mp h
    exact (congrArg Prod.snd hsame).symm

theorem referenceBody?_le {s : List Char} {ref : Reference} {n : Nat}
    (h : referenceBody? s = some (ref, n)) : n ≤ s.length := by
  have hwithin (p : Char → Bool) (t : List Char) : (t.takeWhile p).length ≤ t.length := run_le p t
  revert h
  fun_cases referenceBody? s with
  | case1 t =>
      intro h
      have hrun := hwithin isHexDigit t
      rw [length_of_numbered? h, List.length_cons, List.length_cons]
      omega
  | case2 t hother =>
      intro h
      have hrun := hwithin Char.isDigit t
      rw [length_of_numbered? h, List.length_cons]
      omega
  | case3 c t hother hmark hstart name d hnamed =>
      rintro ⟨⟩
      exact Nat.succ_le_succ (hwithin inName t)
  | case4 c t hother hmark hstart name hunknown =>
      rintro ⟨⟩
      exact Nat.succ_le_succ (hwithin inName t)
  | case5 => rintro ⟨⟩
  | case6 => rintro ⟨⟩

theorem reference?_append_quote (s r : List Char) :
    reference? (s ++ '\x27' :: r) = reference? s := by
  rw [reference?, reference?, referenceBody?_append_quote]
  cases hbody : referenceBody? s with
  | none => rfl
  | some answer =>
      obtain ⟨ref, n⟩ := answer
      have hends : ((s ++ '\x27' :: r).drop n).head? = some ';' ↔ (s.drop n).head? = some ';' := by
        rw [List.drop_append_of_le_length (referenceBody?_le hbody)]
        cases s.drop n with
        | nil => exact iff_of_false (by simp) (by simp)
        | cons c t => exact Iff.rfl
      simp only [hends]

/-- A quote divides a text for the reader of references. -/
theorem glyphsFrom_append_quote (offset : Nat) (w r : List Char) :
    glyphsFrom offset (w ++ '\x27' :: r) =
      (glyphsFrom offset w).bind fun g =>
        (glyphsFrom (offset + w.length + 1) r).map (g ++ .written '\x27' :: ·) := by
  fun_induction glyphsFrom offset w with
  | case1 offset =>
      rw [List.nil_append, glyphsFrom, if_neg (by decide)]
      rfl
  | case2 offset t d n hfound ih =>
      have hshort := reference?_le hfound
      have hlength : offset + 1 + n + (t.drop n).length + 1 = offset + ('&' :: t).length + 1 := by
        rw [List.length_drop, List.length_cons]
        omega
      rw [hlength] at ih
      rw [List.cons_append, glyphsFrom, if_pos rfl, reference?_append_quote, hfound]
      simp only
      rw [List.drop_append_of_le_length hshort, ih]
      cases glyphsFrom (offset + 1 + n) (t.drop n) with
      | error f => rfl
      | ok g => cases glyphsFrom (offset + ('&' :: t).length + 1) r <;> rfl
  | case3 offset t name n hfound =>
      rw [List.cons_append, glyphsFrom, if_pos rfl, reference?_append_quote, hfound]
      rfl
  | case4 offset t hfound =>
      rw [List.cons_append, glyphsFrom, if_pos rfl, reference?_append_quote, hfound]
      rfl
  | case5 offset c t hother ih =>
      have hlength : offset + 1 + t.length + 1 = offset + (c :: t).length + 1 := by
        rw [List.length_cons]
        omega
      rw [hlength] at ih
      rw [List.cons_append, glyphsFrom, if_neg hother, ih]
      cases glyphsFrom (offset + 1) t with
      | error f => rfl
      | ok g => cases glyphsFrom (offset + (c :: t).length + 1) r <;> rfl

end DeadlockCapture.Xml
