import DeadlockCapture.Proofs.Sql.Literals
import DeadlockCapture.Proofs.Sql.Shape

/-!
No literal in a redacted text. Where runs of digits are replaced as well, a name falls into pieces
when it is read again; none of them is a literal, and none makes a literal of what follows.
-/

namespace DeadlockCapture.Sql

open DeadlockCapture.Text

def LexemeKind.IsLiteral (kind : LexemeKind) : Prop :=
  kind = .token .text ∨ kind = .token .number

/-- The lexer finds no literal in the text. -/
def Discreet (s : List Char) : Prop :=
  ∃ ls, textOf ls = s ∧ Readable ls ∧ ∀ l ∈ ls, ¬ l.kind.IsLiteral

theorem Discreet.cons {l : Lexeme} {s : List Char} (h : Discreet s) (hstands : l.Stands s)
    (hshows : ¬ l.kind.IsLiteral) : Discreet (l.text ++ s) := by
  obtain ⟨ls, rfl, hreadable, hnone⟩ := h
  exact ⟨l :: ls, rfl, ⟨hstands, hreadable⟩, List.forall_mem_cons.mpr ⟨hshows, hnone⟩⟩

/-- A discreet text does not begin with a literal. -/
theorem Discreet.leading {c : Char} {r : List Char} (h : Discreet (c :: r)) :
    ∃ kind n, leading c r = .ok (kind, n) ∧ ¬ kind.IsLiteral := by
  obtain ⟨ls, htext, hreadable, hnone⟩ := h
  cases ls with
  | nil => cases htext
  | cons l ls =>
      obtain ⟨⟨d, w, hfirst, hfound⟩, -⟩ := hreadable
      rw [textOf_cons, hfirst, List.cons_append] at htext
      obtain ⟨rfl, rfl⟩ := List.cons.inj htext
      exact ⟨l.kind, w.length, hfound, hnone l List.mem_cons_self⟩

theorem leading_of_startsNumber {c : Char} {r : List Char} (h : startsNumber (c :: r) = true) :
    ∃ n, leading c r = .ok (.token .number, n) := by
  simp only [startsNumber, Bool.or_eq_true, Bool.and_eq_true, beq_iff_eq] at h
  rcases h with hdigit | ⟨rfl, hdigit⟩
  · rw [leading, ruleFor_digit hdigit]
    split
    · exact ⟨_, rfl⟩
    · exact ⟨_, rfl⟩
  · have hrule : ruleFor '.' r = .fraction := by
      have hplain : isBlank '.' = false ∧ '.'.isDigit = false := by decide
      simp [ruleFor, hplain, hdigit]
    rw [leading, hrule]
    exact ⟨_, rfl⟩

theorem Discreet.startsNumber {s : List Char} (h : Discreet s) : startsNumber s = false := by
  cases s with
  | nil => rfl
  | cons c r =>
      obtain ⟨kind, n, hfound, hnone⟩ := h.leading
      rw [← Bool.not_eq_true]
      intro hstarts
      obtain ⟨m, hnumber⟩ := leading_of_startsNumber hstarts
      rw [hnumber] at hfound
      cases hfound
      exact hnone (.inr rfl)

theorem Discreet.not_quote {s : List Char} (h : Discreet s) : s.head? ≠ some '\x27' := by
  cases s with
  | nil => simp
  | cons c r =>
      obtain ⟨kind, n, hfound, hnone⟩ := h.leading
      intro hquote
      obtain rfl : c = '\x27' := by simpa using hquote
      rw [Sql.leading, ruleFor_quote, Rule.read] at hfound
      split at hfound
      · cases hfound
        exact hnone (.inl rfl)
      · cases hfound

/-! ### Pieces of a name -/

/-- A character of a name without its digits. -/
def Fragment (c : Char) : Prop :=
  c = '?' ∨ (continuesName c = true ∧ c.isDigit = false)

theorem fragments_replaceDigitsAfter {inRun : Bool} {s : List Char}
    (hname : ∀ c ∈ s, continuesName c = true) :
    ∀ c ∈ replaceDigitsAfter inRun s, Fragment c := by
  fun_induction replaceDigitsAfter inRun s with
  | case1 => simp
  | case2 d r hdigit ih => exact ih (List.forall_mem_cons.mp hname).2
  | case3 inRun d r hdigit hrun ih =>
      exact List.forall_mem_cons.mpr ⟨.inl rfl, ih (List.forall_mem_cons.mp hname).2⟩
  | case4 inRun d r hother ih =>
      obtain ⟨hfirst, hrest⟩ := List.forall_mem_cons.mp hname
      exact List.forall_mem_cons.mpr ⟨.inr ⟨hfirst, by simpa using hother⟩, ih hrest⟩

/-- A fragment is none of the characters that begin anything but a name or a variable. -/
theorem Fragment.plain {c : Char} (h : Fragment c) : isBlank c = false ∧ c.isDigit = false ∧
    ∀ d ∈ ['-', '/', '\x27', '[', '"', '\x60', '0', '.', ':'], c ≠ d := by
  rcases h with rfl | ⟨hname, hdigit⟩
  · exact ⟨by decide, by decide, forall_mem_of_all (by decide)⟩
  · refine ⟨?_, hdigit, ?_⟩
    · rw [← Bool.not_eq_true]
      intro hblank
      simp [continuesName_of_inert (.inl hblank)] at hname
    · rintro d hd rfl
      have hother : ∀ d ∈ ['-', '/', '\x27', '[', '"', '\x60', '0', '.', ':'],
          continuesName d = false ∨ d.isDigit = true := forall_mem_of_all (by decide)
      rcases hother c hd with houtside | hnumber
      · simp [hname] at houtside
      · simp [hdigit] at hnumber

theorem ruleFor_fragment {d : Char} {r : List Char} (h : Fragment d)
    (hquote : r.head? ≠ some '\x27') (hnumber : startsNumber r = false) :
    ruleFor d r =
      if d = '@' ∧ r.head?.any startsName then .namedVariable
      else if d = '@' ∧ r.head? = some '@' then .globalVariable
      else if d = '?' then .placeholder
      else if startsName d ∨ d = '$' then .word
      else .mark := by
  obtain ⟨hblank, hdigit, hother⟩ := h.plain
  simp only [List.forall_mem_cons] at hother
  simp [ruleFor, hblank, hdigit, hother, hquote, hnumber]

theorem not_quote_of_fragments {v s : List Char} (hrest : ∀ c ∈ v, Fragment c) (h : Discreet s) :
    (v ++ s).head? ≠ some '\x27' := by
  cases v with
  | nil => exact h.not_quote
  | cons c v =>
      have hplain := (hrest c List.mem_cons_self).plain.2.2
      simpa using hplain '\x27' (by simp)

theorem startsNumber_of_fragments {v s : List Char} (hrest : ∀ c ∈ v, Fragment c)
    (h : Discreet s) : startsNumber (v ++ s) = false := by
  cases v with
  | nil => exact h.startsNumber
  | cons c v =>
      obtain ⟨-, hnoDigit, hnoMark⟩ := (hrest c List.mem_cons_self).plain
      simp [Sql.startsNumber, hnoDigit, hnoMark '.' (by simp)]

/-- The lexer reads a name, a variable, a placeholder or a mark from fragments, and it does not go
on into the text after them. -/
theorem leading_fragment {d : Char} {v s : List Char} (hfirst : Fragment d)
    (hrest : ∀ c ∈ v, Fragment c) (hstops : ∀ c ∈ s.head?, continuesName c = false)
    (h : Discreet s) :
    ∃ kind n, leading d (v ++ s) = .ok (.token kind, n) ∧
      kind ∈ [.word, .variable, .placeholder, .mark] ∧ n ≤ v.length := by
  rw [leading, ruleFor_fragment hfirst (not_quote_of_fragments hrest h)
    (startsNumber_of_fragments hrest h)]
  by_cases hnamed : d = '@' ∧ (v ++ s).head?.any startsName
  · rw [if_pos hnamed]
    exact ⟨_, _, rfl, by decide, run_le_of_stops hstops⟩
  rw [if_neg hnamed]
  by_cases hglobally : d = '@' ∧ (v ++ s).head? = some '@'
  · rw [if_pos hglobally]
    refine ⟨_, _, rfl, by decide, ?_⟩
    cases v with
    | nil => exact absurd (hstops '@' hglobally.2) (by decide)
    | cons c v =>
        have hinside : nameRun (v ++ s) ≤ v.length := run_le_of_stops hstops
        rw [List.cons_append, List.tail_cons, List.length_cons]
        omega
  rw [if_neg hglobally]
  by_cases hplaceholder : d = '?'
  · rw [if_pos hplaceholder]
    exact ⟨_, _, rfl, by decide, Nat.zero_le _⟩
  rw [if_neg hplaceholder]
  by_cases hword : startsName d ∨ d = '$'
  · rw [if_pos hword]
    exact ⟨_, _, rfl, by decide, run_le_of_stops hstops⟩
  · rw [if_neg hword]
    exact ⟨_, _, rfl, by decide, Nat.zero_le _⟩

/-- Fragments make no literal in front of a discreet text that goes on with no name. -/
theorem Discreet.fragments {s : List Char} (h : Discreet s)
    (hstops : ∀ c ∈ s.head?, continuesName c = false) {u : List Char} (hu : ∀ c ∈ u, Fragment c) :
    Discreet (u ++ s) := by
  match u, hu with
  | [], _ => exact h
  | d :: v, hu =>
      obtain ⟨hfirst, hrest⟩ := List.forall_mem_cons.mp hu
      obtain ⟨kind, n, hfound, hshows, hinside⟩ := leading_fragment hfirst hrest hstops h
      have hlater := h.fragments hstops fun c hc => hrest c (List.mem_of_mem_drop (i := n) hc)
      have hlength : (v.take n).length = n := by rw [List.length_take, Nat.min_eq_left hinside]
      have hwhole : d :: v ++ s = (d :: v.take n) ++ (v.drop n ++ s) := by
        rw [List.cons_append, List.cons_append, ← List.append_assoc, List.take_append_drop]
      rw [hwhole]
      have hplain : ¬ (LexemeKind.token kind).IsLiteral := by
        rintro (htext | hnumber)
        · cases htext
          simp at hshows
        · cases hnumber
          simp at hshows
      refine hlater.cons (l := ⟨.token kind, d :: v.take n⟩) (stands_cons_iff.mpr ?_) hplain
      rw [← List.append_assoc, List.take_append_drop, hlength]
      exact hfound
termination_by u.length

/-! ### Replaced digits -/

/-- A token as it is left when the digits in names are replaced. -/
def Token.veiled (t : Token) : Token :=
  if t.kind = .word ∨ t.kind = .quotedName then { t with text := replaceDigitRuns t.text } else t

theorem spaced_veiled (t : Token) : t.veiled.spaced = t.spaced := by
  unfold Token.veiled
  split <;> rfl

theorem veiled_of_placeholder {t : Token} (h : t.text = placeholderText) :
    t.veiled.text = placeholderText := by
  unfold Token.veiled
  split
  · rw [h]
    rfl
  · exact h

theorem Calmer.veiled {r r' : List Char} (h : Calmer r r') (w : List Char) :
    Calmer (w ++ r) (replaceDigitRuns w ++ r') := by
  induction w with
  | nil => exact h
  | cons c w ih =>
      rw [replaceDigitRuns, replaceDigitsAfter]
      cases hdigit : c.isDigit with
      | true =>
          refine Calmer.of_inert ?_
          rintro d ⟨⟩
          exact .inr rfl
      | false => exact ih.cons c

theorem quotedLength_veiled {close : Char} (hplain : ¬ Inert close ∧ close.isDigit = false)
    {inRun : Bool} {w : List Char} (h : quotedLength close w = some w.length) :
    quotedLength close (replaceDigitsAfter inRun w) = some (replaceDigitsAfter inRun w).length := by
  have hnoDigit := hplain.2
  have hother : '?' ≠ close := fun hsame => hplain.1 (.inr hsame.symm)
  fun_induction quotedLength close w generalizing inRun with
  | case1 => simp at h
  | case2 => simp [replaceDigitsAfter, hnoDigit, quotedLength]
  | case3 => simp at h
  | case4 r ih =>
      have hinner : quotedLength close (replaceDigitsAfter false r) =
          some (replaceDigitsAfter false r).length := ih (by simpa using h)
      simp [replaceDigitsAfter, hnoDigit, quotedLength, hinner]
  | case5 d r hdiffers => simp at h
  | case6 c d r hdiffers ih =>
      have hinner : ∀ b, quotedLength close (replaceDigitsAfter b (d :: r)) =
          some (replaceDigitsAfter b (d :: r)).length := fun b => ih (by simpa using h)
      have hfilled : ∀ b, replaceDigitsAfter b (d :: r) ≠ [] := by
        intro b hempty
        have hfound := hinner b
        simp [hempty, quotedLength] at hfound
      rw [replaceDigitsAfter]
      split
      · split
        · exact hinner true
        · rw [quotedLength_cons hother (hfilled true), hinner true]
          rfl
      · rw [quotedLength_cons hdiffers (hfilled false), hinner false]
        rfl

/-- Words and quoted names do not begin with a digit, and quoted names are quotations. -/
theorem first_of_stands {t : Token} {r : List Char} (hstands : t.lexeme.Stands r)
    (hname : t.kind = .word ∨ t.kind = .quotedName) :
    ∃ c w, t.text = c :: w ∧ c.isDigit = false := by
  obtain ⟨c, w, htext, hfound⟩ := hstands
  refine ⟨c, w, htext, ?_⟩
  rw [← Bool.not_eq_true]
  intro hdigit
  have hstarts : startsNumber (c :: (w ++ r)) = true := by simp [startsNumber, hdigit]
  obtain ⟨n, hnumber⟩ := leading_of_startsNumber hstarts
  rw [hnumber] at hfound
  have hkind : TokenKind.number = t.kind := by
    have hsame := congrArg Prod.fst (Except.ok.inj hfound)
    simpa [Token.lexeme] using hsame
  rw [← hkind] at hname
  rcases hname with hname | hname <;> cases hname

/-- Replacing the digits of a name that begins with none keeps its first character. -/
theorem replaceDigitRuns_cons {c : Char} (h : c.isDigit = false) (w : List Char) :
    replaceDigitRuns (c :: w) = c :: replaceDigitRuns w := by
  rw [replaceDigitRuns, replaceDigitsAfter, if_neg (by simp [h])]
  rfl

theorem ruleFor_of_word {c : Char} {w r : List Char}
    (hfound : leading c (w ++ r) = .ok (.token .word, w.length)) : ruleFor c (w ++ r) = .word := by
  have hsees := ruleFor_sees c (w ++ r)
  unfold leading at hfound
  cases hrule : ruleFor c (w ++ r) with
  | word => rfl
  | quotation construct token close skip =>
      rw [hrule] at hfound hsees
      obtain ⟨hsame, -, -⟩ := read_quotation_iff.mp hfound
      obtain rfl : TokenKind.word = token := by simpa using hsame
      cases skip with
      | zero => rcases hsees with ⟨hother, -⟩ | ⟨hother, -⟩ <;> cases hother
      | succ skip => cases hsees.1
  | blockComment =>
      rw [hrule] at hfound
      cases (read_blockComment_iff.mp hfound).1
  | _ => simp [hrule, Rule.read] at hfound

/-- A word starts as a name does, or with the sign of a currency, and goes on as a name does. -/
theorem text_of_word {t : Token} {r : List Char} (hstands : t.lexeme.Stands r)
    (hkind : t.kind = .word) :
    ∃ c w, t.text = c :: w ∧ (startsName c = true ∨ c = '$') ∧
      (∀ d ∈ w, continuesName d = true) ∧ ∀ d ∈ r.head?, continuesName d = false := by
  obtain ⟨c, w, htext, hfound⟩ := hstands
  rw [Token.lexeme, hkind] at hfound
  have hsees := ruleFor_sees c (w ++ r)
  have hrule := ruleFor_of_word hfound
  rw [leading, hrule] at hfound
  rw [hrule] at hsees
  have hrun : nameRun (w ++ r) = w.length := by simpa [Rule.read] using hfound
  exact ⟨c, w, htext, hsees, run_eq_length_iff.mp hrun⟩

theorem name_of_word {t : Token} {r : List Char} (hstands : t.lexeme.Stands r)
    (hkind : t.kind = .word) :
    (∀ c ∈ t.text, continuesName c = true) ∧ ∀ d ∈ r.head?, continuesName d = false := by
  obtain ⟨c, w, htext, hstarts, hinside, hstops⟩ := text_of_word hstands hkind
  rw [htext]
  refine ⟨List.forall_mem_cons.mpr ⟨?_, hinside⟩, hstops⟩
  rcases hstarts with hname | rfl
  · exact continuesName_of_startsName hname
  · decide

/-- A quoted name is still one when its digits are replaced. -/
theorem quotedName_veiled {t : Token} {r r' : List Char} (hstands : t.lexeme.Stands r)
    (hkind : t.kind = .quotedName) (hcalm : Calmer r r') : t.veiled.lexeme.Stands r' := by
  obtain ⟨c, w, htext, -⟩ := id hstands
  rw [Token.lexeme, hkind] at hstands htext
  have htext : t.text = c :: w := htext
  rw [htext, quotedName_stands_iff] at hstands
  obtain ⟨close, hmarks, hclosed, hstops⟩ := hstands
  obtain ⟨hopens, hplain⟩ := mem_of_quotations hmarks
  have hveiled : t.veiled.lexeme = ⟨.token .quotedName, c :: replaceDigitRuns w⟩ := by
    rw [Token.veiled, if_pos (.inr hkind), Token.lexeme, hkind, htext, replaceDigitRuns_cons hopens]
  rw [hveiled, quotedName_stands_iff]
  exact ⟨close, hmarks, quotedLength_veiled hplain hclosed, mt (hcalm.mark hplain) hstops⟩

/-- Tokens without literals make a discreet text also when the digits in names are replaced, and it
carries a lexeme before it no further. -/
theorem discreet_of_legible {ts : List Token} (hlegible : Legible ts)
    (hshows : ∀ t ∈ ts, t.kind ≠ .text ∧ t.kind ≠ .number) :
    Discreet (renderRest (ts.map Token.veiled)) ∧
      Calmer (renderRest ts) (renderRest (ts.map Token.veiled)) := by
  induction ts with
  | nil => exact ⟨⟨[], rfl, trivial, by simp⟩, Calmer.refl _⟩
  | cons t r ih =>
      obtain ⟨hstands, hrest⟩ := hlegible
      obtain ⟨⟨hnoText, hnoNumber⟩, hothers⟩ := List.forall_mem_cons.mp hshows
      obtain ⟨hdiscreet, hcalm⟩ := ih hrest hothers
      have hplain : ¬ t.lexeme.kind.IsLiteral := by
        simpa [Token.lexeme, LexemeKind.IsLiteral] using ⟨hnoText, hnoNumber⟩
      have hfront : Discreet (t.veiled.text ++ renderRest (r.map Token.veiled)) := by
        by_cases hword : t.kind = .word
        · obtain ⟨hname, hstops⟩ := name_of_word hstands hword
          rw [Token.veiled, if_pos (.inl hword)]
          refine hdiscreet.fragments ?_ (fragments_replaceDigitsAfter hname)
          exact hcalm.stops continuesName_of_inert continuesName_of_isDigit hstops
        by_cases hquoted : t.kind = .quotedName
        · have hshown : ¬ t.veiled.lexeme.kind.IsLiteral := by
            rw [Token.veiled, if_pos (.inr hquoted)]
            exact hplain
          exact hdiscreet.cons (quotedName_veiled hstands hquoted hcalm) hshown
        · rw [Token.veiled, if_neg (not_or.mpr ⟨hword, hquoted⟩)]
          exact hdiscreet.cons (hstands.calmer rfl hcalm) hplain
      have hnear : Calmer (t.text ++ renderRest r)
          (t.veiled.text ++ renderRest (r.map Token.veiled)) := by
        unfold Token.veiled
        split
        · exact hcalm.veiled t.text
        · exact hcalm.append t.text
      rw [List.map_cons, renderRest_cons, renderRest_cons, spaced_veiled]
      cases hspaced : t.spaced with
      | true =>
          have hspace : Lexeme.Stands ⟨.blank, [' ']⟩
              (t.veiled.text ++ renderRest (r.map Token.veiled)) := stands_blank (by decide) _
          refine ⟨hfront.cons hspace (by simp [LexemeKind.IsLiteral]), Calmer.of_inert ?_⟩
          rintro c ⟨⟩
          exact .inl (by decide)
      | false => exact ⟨hfront, hnear⟩

/-! ### Redacted statements -/

theorem replaceDigitRuns_of_plain {s : List Char} (h : ∀ c ∈ s, c.isDigit = false) :
    replaceDigitRuns s = s := by
  induction s with
  | nil => rfl
  | cons c s ih =>
      obtain ⟨hfirst, hrest⟩ := List.forall_mem_cons.mp h
      rw [replaceDigitRuns_cons hfirst, ih hrest]

theorem mem_replaceDigitRuns {s : List Char} {c : Char} (h : c ∈ s) (hdigit : c.isDigit = true) :
    '?' ∈ replaceDigitRuns s := by
  induction s with
  | nil => cases h
  | cons d s ih =>
      rw [replaceDigitRuns, replaceDigitsAfter]
      split
      · exact List.mem_cons_self
      · rename_i hother
        obtain rfl | hlater := List.mem_cons.mp h
        · exact absurd hdigit hother
        · exact List.mem_cons_of_mem d (ih hlater)

theorem not_spells_of_mem {t : Token} {word : String} {c : Char} (h : c ∈ t.text)
    (hforeign : c.toUpper ∉ word.toList) : t.spells word = false := by
  rw [← Bool.not_eq_true]
  intro hspells
  have hsame : t.text.map Char.toUpper = word.toList := by simpa [Token.spells] using hspells
  exact hforeign (hsame ▸ List.mem_map_of_mem h)

/-- Replacing the digits of a name does not make the word IN of it. -/
theorem isIn_veiled (t : Token) : t.veiled.IsIn ↔ t.IsIn := by
  unfold Token.veiled
  split
  · by_cases hplain : ∀ c ∈ t.text, c.isDigit = false
    · rw [replaceDigitRuns_of_plain hplain]
    · obtain ⟨c, hinside, hdigit⟩ : ∃ c ∈ t.text, c.isDigit = true := by simpa using hplain
      have hmark : '?'.toUpper ∉ "IN".toList := by decide
      have hupper : c.toUpper ∉ "IN".toList := by
        rw [toUpper_of_isDigit hdigit]
        intro hletter
        have hnone : ∀ d ∈ "IN".toList, d.isDigit = false := forall_mem_of_all (by decide)
        simp [hnone c hletter] at hdigit
      have hother : t.spells "IN" = false := not_spells_of_mem hinside hupper
      have hveiled : ({ t with text := replaceDigitRuns t.text } : Token).spells "IN" = false :=
        not_spells_of_mem (mem_replaceDigitRuns hinside hdigit) hmark
      simp [Token.IsIn, hother, hveiled]
  · exact Iff.rfl

theorem veiled_actsAs {t : Token} {r : List Char} (hstands : t.lexeme.Stands r) :
    t.veiled.ActsAs t := by
  refine ⟨?_, isIn_veiled t⟩
  intro d
  unfold Token.veiled
  split
  · rename_i hname
    obtain ⟨c, w, htext, hdigit⟩ := first_of_stands hstands hname
    simp only [htext, replaceDigitRuns_cons hdigit, List.cons.injEq]
    refine and_congr_right fun _ => ⟨fun hempty => ?_, fun hempty => ?_⟩
    · exact Decidable.byContradiction fun hfilled => replaceDigitsAfter_ne_nil hfilled hempty
    · rw [hempty]
      rfl
  · exact Iff.rfl

theorem veiled_actsAs_of_placeholder {t : Token} (h : t.text = placeholderText) :
    t.veiled.ActsAs t :=
  ⟨fun c => by rw [veiled_of_placeholder h, h], isIn_veiled t⟩

def RedactionOptions.keepingDigits (o : RedactionOptions) : RedactionOptions :=
  { o with replaceDigits := false }

theorem redact_keepingDigits (o : RedactionOptions) (t : Token) :
    o.keepingDigits.redact t = if o.hides t then { t with text := placeholderText } else t :=
  redact_eq rfl t

/-- Redaction that replaces digits hides literals first. -/
theorem redact_of_digits {o : RedactionOptions} (hdigits : o.replaceDigits = true) (t : Token) :
    o.redact t = (o.keepingDigits.redact t).veiled := by
  have hplain : o.keepingDigits.replaceDigits = false := rfl
  obtain ⟨kind, text, spaced⟩ := t
  cases kind with
  | word =>
      have hvalue : o.keepingDigits.isLiteralWord ⟨.word, text, spaced⟩ =
          o.isLiteralWord ⟨.word, text, spaced⟩ := rfl
      simp only [RedactionOptions.redact, RedactionOptions.redactedText, hvalue, hdigits, hplain,
        Token.veiled]
      split
      · rfl
      · simp
  | quotedName =>
      simp [RedactionOptions.redact, RedactionOptions.redactedText, hdigits, hplain, Token.veiled]
  | _ => rfl

theorem pieces_of_digits {o : RedactionOptions} (hdigits : o.replaceDigits = true)
    {ls : List Lexeme} (hreadable : Readable ls) (gap : Bool) :
    o.pieces (tokensAfter gap ls) =
      (o.keepingDigits.pieces (tokensAfter gap ls)).map Token.veiled := by
  have hsame : (tokensAfter gap ls).map o.redact =
      ((tokensAfter gap ls).map o.keepingDigits.redact).map Token.veiled := by
    rw [List.map_map]
    exact List.map_congr_left fun t _ => redact_of_digits hdigits t
  have hacts : ∀ u ∈ (tokensAfter gap ls).map o.keepingDigits.redact, u.veiled.ActsAs u := by
    intro u hmember
    obtain ⟨t, hinside, rfl⟩ := List.mem_map.mp hmember
    obtain ⟨r, hstands⟩ := hreadable.stands_of_mem (mem_of_mem_tokensAfter hinside)
    rw [redact_keepingDigits]
    split
    · exact veiled_actsAs_of_placeholder rfl
    · exact veiled_actsAs hstands
  have hlists : o.keepingDigits.collapseLists = o.collapseLists := rfl
  rw [RedactionOptions.pieces, RedactionOptions.pieces, hlists, hsame]
  cases o.collapseLists with
  | true => exact collapseLists_map hacts
  | false => rfl

theorem text_veiled_shown (t : Token) : t.shown.veiled.text = t.veiled.text := by
  by_cases hhidden : t.text = placeholderText
  · rw [veiled_of_placeholder hhidden, veiled_of_placeholder ((text_shown t).trans hhidden)]
  · rw [shown_of_ne hhidden]

theorem render_veiled_shown (ts : List Token) :
    render ((ts.map Token.shown).map Token.veiled) = render (ts.map Token.veiled) := by
  cases ts with
  | nil => rfl
  | cons t r =>
      simp only [List.map_cons, render, renderRest, List.flatMap_map, text_veiled_shown,
        spaced_veiled, spaced_shown]

theorem unspaced_map_shown (ts : List Token) :
    unspaced (ts.map Token.shown) = (unspaced ts).map Token.shown := by
  cases ts with
  | nil => rfl
  | cons t r =>
      simp only [List.map_cons, unspaced, Token.shown]
      split <;> simp_all

theorem unspaced_map_veiled (ts : List Token) :
    unspaced (ts.map Token.veiled) = (unspaced ts).map Token.veiled := by
  cases ts with
  | nil => rfl
  | cons t r =>
      simp only [List.map_cons, unspaced, Token.veiled]
      split <;> simp_all

theorem Discreet.tokens {s : List Char} (h : Discreet s) :
    ∃ ts, tokens s = .ok ts ∧ ∀ t ∈ ts, t.kind ≠ .text ∧ t.kind ≠ .number := by
  obtain ⟨ls, htext, hreadable, hnone⟩ := h
  refine ⟨tokensAfter false ls, tokens_eq_ok_iff.mpr ⟨ls, htext, hreadable, rfl⟩,
    fun t hmember => ?_⟩
  have hshows := hnone t.lexeme (mem_of_mem_tokensAfter hmember)
  simpa [Token.lexeme, LexemeKind.IsLiteral] using hshows

/-- A redacted text is divided into tokens none of which is a literal; and where digits are left
alone, none is a word for a value that is not to be kept. -/
theorem redacted_shows_no_literal (o : RedactionOptions) (x : String) :
    ∃ ts, tokens (o.normalize x).redacted.toList = .ok ts ∧
      (∀ t ∈ ts, t.kind ≠ .text ∧ t.kind ≠ .number) ∧
      (o.replaceDigits = false → o.keepNull = false → o.keepBoolean = false →
        ∀ t ∈ ts, t.kind = .word →
          t.spells "NULL" = false ∧ t.spells "TRUE" = false ∧ t.spells "FALSE" = false) := by
  obtain hconcealed | ⟨ls, htext, hreadable, hrendered⟩ := redacted_cases o x
  · rw [hconcealed]
    exact ⟨_, tokens_placeholder, by simp, by simp⟩
  · rw [hrendered]
    cases hdigits : o.replaceDigits with
    | false =>
        have hfound := tokens_eq_ok_iff.mpr ⟨ls, htext, hreadable, rfl⟩
        refine ⟨_, tokens_render_pieces hdigits hfound, ?_, ?_⟩
        · exact fun t hmember => (kind_of_mem_unspaced hdigits hmember).1
        · intro _ hkeepNull hkeepBoolean t hmember hword
          have hvalue := (kind_of_mem_unspaced hdigits hmember).2 hword
          simpa [RedactionOptions.isLiteralWord, hkeepNull, hkeepBoolean, and_assoc] using hvalue
    | true =>
        have hlegible := legible_pieces (o := o.keepingDigits) rfl hreadable false
        have hdiscreet := (discreet_of_legible hlegible.unspaced
          fun t hmember => (kind_of_mem_unspaced rfl hmember).1).1
        rw [← unspaced_map_veiled, ← render_eq, render_veiled_shown,
          ← pieces_of_digits hdigits hreadable] at hdiscreet
        obtain ⟨ts, hdivided, hkinds⟩ := hdiscreet.tokens
        exact ⟨ts, hdivided, hkinds, by simp⟩

end DeadlockCapture.Sql
