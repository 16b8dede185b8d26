import DeadlockCapture.Proofs.Xml.Scanning

/-!
The pieces of a document between its tags: comments, instructions, sections, stretches of text and
end tags. Each is read alike wherever it stands, but for the offsets of its tokens.
-/

namespace DeadlockCapture.Xml

open DeadlockCapture.Text

/-- In front of any text and at any offset, `w` is read as the tokens `found`, and reading goes on
after it in the mode `next`. -/
def Piece (mode : Mode) (w : List Char) (found : Nat → List Token) (next : Mode) : Prop :=
  ∀ offset r,
    tokensFrom mode offset (w ++ r) = found offset ++ tokensFrom next (offset + w.length) r

theorem tokensFrom_step {mode next : Mode} {offset : Nat} {c : Char} {t r : List Char}
    {found : List Token} (h : step mode offset c (t ++ r) = .ok ⟨found, t.length, next⟩) :
    tokensFrom mode offset (c :: t ++ r) =
      found ++ tokensFrom next (offset + (c :: t).length) r := by
  rw [List.cons_append, tokensFrom, h]
  simp only [List.drop_left, List.length_cons, Nat.add_assoc, Nat.add_comm 1]

theorem tokensFrom_append {mode next : Mode} {offset : Nat} {w r : List Char} {found : List Token}
    (hsome : w ≠ [])
    (h : ∀ c t, c :: t = w ++ r → step mode offset c t = .ok ⟨found, w.length - 1, next⟩) :
    tokensFrom mode offset (w ++ r) = found ++ tokensFrom next (offset + w.length) r := by
  cases w with
  | nil => exact absurd rfl hsome
  | cons c w => exact tokensFrom_step (h c (w ++ r) rfl)

/-- What has been taken in without a fault began with a step that found no fault. -/
theorem step_of_takeAll {b b' : Builder} {mode : Mode} {offset : Nat} {c : Char} {r : List Char}
    (h : b.takeAll (tokensFrom mode offset (c :: r)) = .ok b') :
    ∃ s, step mode offset c r = .ok s ∧
      b.takeAll (s.tokens ++ tokensFrom s.next (offset + 1 + s.used) (r.drop s.used)) = .ok b' := by
  rw [tokensFrom] at h
  cases hfound : step mode offset c r with
  | error f => simp [hfound, Builder.takeAll, Builder.take] at h
  | ok s =>
      simp only [hfound] at h
      exact ⟨s, rfl, h⟩

theorem expectMark_eq_ok_iff {wanted : Char} {offset : Nat} {s : List Char} {u : Unit} :
    expectMark wanted offset s = .ok u ↔ ∃ r, s = wanted :: r := by
  cases s with
  | nil => simp [expectMark]
  | cons c r => simp [expectMark]

theorem head?_append_of_some {w : List Char} (hsome : w ≠ []) (r : List Char) :
    (w ++ r).head? = w.head? := by
  cases w with
  | nil => exact absurd rfl hsome
  | cons c w => rfl

theorem ne_nil_of_head? {w : List Char} {c : Char} (h : w.head? = some c) : w ≠ [] := by
  rintro rfl
  cases h

theorem length_lt_append {w : List Char} (hsome : w ≠ []) (r : List Char) :
    r.length < (w ++ r).length := by
  have hpos := List.length_pos_iff.mpr hsome
  rw [List.length_append]
  omega

/-- A text that holds a character is no part of a front without it. -/
theorem not_prefix_of_mem {w front : List Char} {c : Char} (h : c ∈ w) (h' : c ∉ front) :
    ¬ w <+: front :=
  fun hstart => h' (hstart.subset h)

/-! ### Marks in a text -/

theorem holdsRun_append_of_not_mem {mark u : List Char} {c : Char} (hc : c ∉ u) (v : List Char) :
    holdsRun (c :: mark) (u ++ v) = holdsRun (c :: mark) v := by
  induction u with
  | nil => rfl
  | cons d u ih =>
      rw [List.mem_cons, not_or] at hc
      obtain ⟨hd, hu⟩ := hc
      have hfront : (c :: mark).isPrefixOf (d :: (u ++ v)) = false := by
        simp [List.isPrefixOf, hd]
      rw [List.cons_append, holdsRun, hfront, ih hu, Bool.false_or]

/-- A text without a mark holds no longer one that starts with it. -/
theorem holdsRun_of_prefix {mark longer u : List Char} (hmark : mark <+: longer)
    (h : holdsRun mark u = false) : holdsRun longer u = false := by
  induction u with
  | nil =>
      cases mark with
      | nil => cases h
      | cons c mark =>
          obtain ⟨rest, rfl⟩ := hmark
          rfl
  | cons d u ih =>
      rw [holdsRun, Bool.or_eq_false_iff] at h ⊢
      refine ⟨?_, ih h.2⟩
      rw [← Bool.not_eq_true, List.isPrefixOf_iff_prefix] at h ⊢
      exact fun hlonger => h.1 (hmark.trans hlonger)

theorem isAllowed_of_isSpace {c : Char} (h : isSpace c = true) : isAllowed c = true := by
  simp only [isSpace, Bool.or_eq_true, beq_iff_eq] at h
  obtain ((rfl | rfl) | rfl) | rfl := h <;> rfl

theorem isAllowed_of_inName {c : Char} (h : inName c = true) : isAllowed c = true := by
  have hvalue : c.val.toNat = c.toNat := rfl
  have hn : 0x20 ≤ c.toNat ∧ c.toNat ≠ 0xFFFE ∧ c.toNat ≠ 0xFFFF := by
    unfold inName inLocalName startsLocalName at h
    delta Char.isAlpha Char.isUpper Char.isLower Char.isDigit at h
    simp only [Bool.or_eq_true, Bool.and_eq_true, decide_eq_true_eq, beq_iff_eq,
      UInt32.le_iff_toNat_le, ← Char.toNat_inj, hvalue, Char.reduceToNat, Char.reduceVal,
      UInt32.reduceToNat, ge_iff_le] at h
    omega
  simp [isAllowed, hn, Nat.not_lt.mpr hn.1]

/-! ### Comments and instructions -/

/-- Outside tags, comments and instructions are read the same way everywhere. -/
def Mode.isOutsideTags : Mode → Bool
  | .tag _ => false
  | .before | .content _ | .after => true

theorem step_comment {mode : Mode} (h : mode.isOutsideTags = true) (offset : Nat) (t : List Char) :
    step mode offset '<' ('!' :: '-' :: '-' :: t) =
      comment mode offset ('!' :: '-' :: '-' :: t) := by
  cases mode with
  | tag depth => cases h
  | before => simp [step, outsideStep, isSpace]
  | content depth => simp [step, contentStep]
  | after => simp [step, outsideStep, isSpace]

theorem step_instruction {mode : Mode} (h : mode.isOutsideTags = true) (offset : Nat)
    (t : List Char) :
    step mode offset '<' ('?' :: t) = instruction mode offset ('?' :: t) := by
  cases mode with
  | tag depth => cases h
  | before => simp [step, outsideStep, isSpace]
  | content depth => simp [step, contentStep]
  | after => simp [step, outsideStep, isSpace]

theorem comment_eq_ok_iff {mode : Mode} {offset : Nat} {t : List Char} {s : Step} :
    comment mode offset ('!' :: '-' :: '-' :: t) = .ok s ↔
      ∃ body r, t = body ++ ("-->".toList ++ r) ∧ IsUpTo ['-', '-'] body ∧
        body.getLast? ≠ some '-' ∧ s = ⟨[.aside offset], body.length + 6, mode⟩ := by
  have hclose : "-->".toList = ['-', '-'] ++ ['>'] := rfl
  have hclosed {offset n : Nat} {s : List Char} :=
    @closedRun_eq_ok_iff _ _ _ hclose (by decide) (by decide) offset n s
  simp only [comment, List.drop_succ_cons, List.drop_zero, bind_eq_ok_iff, hclosed]
  constructor
  · rintro ⟨n, ⟨body, r, rfl, rfl, hbody⟩, h⟩
    have htext : (body ++ ("-->".toList ++ r)).take (body.length + "-->".length - 3) = body :=
      List.take_left
    rw [htext] at h
    split at h
    · cases h
    · rename_i hfree
      rw [Bool.not_eq_true, Bool.or_eq_false_iff] at hfree
      cases h
      refine ⟨body, r, rfl, ⟨hbody.allowed, hfree.1⟩, by simpa using hfree.2, ?_⟩
      rw [Nat.add_comm 3]
      rfl
  · rintro ⟨body, r, rfl, hbody, hlast, rfl⟩
    have hdashes : IsUpTo "-->".toList body :=
      ⟨hbody.allowed, holdsRun_of_prefix ⟨['>'], rfl⟩ hbody.free⟩
    refine ⟨body.length + 3, ⟨body, r, rfl, rfl, hdashes⟩, ?_⟩
    have htext : (body ++ ("-->".toList ++ r)).take (body.length + 3 - 3) = body := List.take_left
    rw [htext, if_neg (by simp [hbody.free, hlast]), Nat.add_comm 3]

def targetLength (t : List Char) : Nat :=
  (t.takeWhile inName).length + spaceRun (t.drop (t.takeWhile inName).length)

theorem targetLength_split (t : List Char) :
    ∃ front r, t = front ++ r ∧ targetLength t = front.length ∧
      ∀ c ∈ front, inName c = true ∨ isSpace c = true := by
  obtain ⟨b, r, hsplit, hlength, hblank, -⟩ := spaceRun_split (t.drop (t.takeWhile inName).length)
  refine ⟨t.takeWhile inName ++ b, r, ?_, ?_, List.forall_mem_append.mpr ⟨?_, ?_⟩⟩
  · rw [List.append_assoc, ← hsplit, run_split]
  · rw [targetLength, hlength, List.length_append]
  · exact fun c hc => .inl (List.all_eq_true.mp List.all_takeWhile c hc)
  · exact fun c hc => .inr (hblank c hc)

/-- The target of an instruction and the blanks after it lie before its end. -/
theorem targetLength_append_mark (body r : List Char) :
    targetLength (body ++ '?' :: r) = targetLength body := by
  have hname : (body ++ '?' :: r).takeWhile inName = body.takeWhile inName :=
    takeWhile_append_of_stops (by rintro c ⟨⟩; decide)
  have hspace (u : List Char) : spaceRun (u ++ '?' :: r) = spaceRun u :=
    congrArg List.length (takeWhile_append_of_stops (by rintro c ⟨⟩; decide))
  rw [targetLength, hname, List.drop_append_of_le_length (run_le inName body), hspace, targetLength]

/-- The end of an instruction may be looked for after its target. -/
theorem isUpTo_append_iff {front body : List Char}
    (hfront : ∀ c ∈ front, inName c = true ∨ isSpace c = true) :
    IsUpTo ['?', '>'] (front ++ body) ↔ IsUpTo ['?', '>'] body := by
  have hmark : '?' ∉ front := fun hc => absurd (hfront '?' hc) (by decide)
  have hallowed : ∀ c ∈ front, isAllowed c = true := fun c hc =>
    (hfront c hc).elim isAllowed_of_inName isAllowed_of_isSpace
  constructor
  · rintro ⟨hall, hfree⟩
    exact ⟨(List.forall_mem_append.mp hall).2, holdsRun_append_of_not_mem hmark body ▸ hfree⟩
  · rintro ⟨hall, hfree⟩
    exact ⟨List.forall_mem_append.mpr ⟨hallowed, hall⟩,
      (holdsRun_append_of_not_mem hmark body).trans hfree⟩

/-- Whether a text starts an instruction is decided before its end. -/
theorem instructs_reader_iff {body r : List Char} :
    Dialect.reader.Instructs body ↔
      ['?', 'x', 'm', 'l', ' '].isPrefixOf ('?' :: (body ++ '?' :: r)) = false ∧
        (body ++ '?' :: r).head?.any startsName = true := by
  have hfirst : (body ++ '?' :: r).head?.any startsName = body.head?.any startsName := by
    cases body with
    | nil =>
        have hquestion : startsName '?' = false := by decide
        exact hquestion
    | cons c body => rfl
  have hmark : "xml ".toList <+: body ++ '?' :: r ↔ "xml ".toList <+: body := by
    constructor
    · intro hstart
      refine (List.prefix_or_prefix_of_prefix hstart (List.prefix_append body _)).elim id ?_
      rintro ⟨rest, hrest⟩
      -- The mark of the end would stand within the mark of a declaration.
      obtain ⟨_, hwhole⟩ := hstart
      rw [← hrest, List.append_assoc, List.append_cancel_left_eq] at hwhole
      cases rest with
      | nil => exact ⟨[], by rw [← hrest]; simp⟩
      | cons d rest =>
          obtain ⟨rfl, -⟩ := List.cons.inj hwhole
          have hmem : '?' ∈ "xml ".toList := hrest ▸ List.mem_append_right body List.mem_cons_self
          exact absurd hmem (by decide)
    · exact fun hstart => hstart.trans (List.prefix_append body _)
  have hdeclares : ['?', 'x', 'm', 'l', ' '].isPrefixOf ('?' :: (body ++ '?' :: r)) = false ↔
      ¬ "xml ".toList <+: body := by
    rw [← hmark, ← Bool.not_eq_true, List.isPrefixOf_iff_prefix, List.cons_prefix_cons]
    simp
  rw [hfirst, hdeclares, and_comm]
  rfl

/-- An instruction is read by its target first, and then up to its end. -/
theorem instruction_eq_ok_iff_closedRun {mode : Mode} {offset : Nat} {t : List Char} {s : Step} :
    instruction mode offset ('?' :: t) = .ok s ↔
      (['?', 'x', 'm', 'l', ' '].isPrefixOf ('?' :: t) = false ∧ t.head?.any startsName = true) ∧
        ∃ n, closedRun "?>" (offset + 2 + targetLength t) (t.drop (targetLength t)) = .ok n ∧
          s = ⟨[.aside offset], 1 + targetLength t + n, mode⟩ := by
  simp only [instruction, List.drop_succ_cons, List.drop_zero, targetLength]
  split
  · rename_i hdeclares
    simp [hdeclares]
  · rename_i hdeclares
    split
    · rename_i hstarts
      rw [bind_eq_ok_iff]
      simp only [Except.ok.injEq, hdeclares, hstarts, true_and, eq_comm]
    · rename_i hstarts
      simp [hstarts]

theorem instruction_eq_ok_iff {mode : Mode} {offset : Nat} {t : List Char} {s : Step} :
    instruction mode offset ('?' :: t) = .ok s ↔
      ∃ body r, t = body ++ ("?>".toList ++ r) ∧ IsUpTo ['?', '>'] body ∧
        Dialect.reader.Instructs body ∧ s = ⟨[.aside offset], body.length + 3, mode⟩ := by
  have hclose : "?>".toList = ['?'] ++ ['>'] := rfl
  have hclosed {offset n : Nat} {s : List Char} :=
    @closedRun_eq_ok_iff _ _ _ hclose (by decide) (by decide) offset n s
  have hlength : "?>".length = 2 := rfl
  rw [instruction_eq_ok_iff_closedRun]
  constructor
  · rintro ⟨hinstructs, n, hend, rfl⟩
    obtain ⟨front, rest, rfl, hfront, hname⟩ := targetLength_split t
    rw [hfront, List.drop_left] at hend
    obtain ⟨body, r, rfl, rfl, hbody⟩ := hclosed.mp hend
    refine ⟨front ++ body, r, (List.append_assoc ..).symm, (isUpTo_append_iff hname).mpr hbody, ?_,
      ?_⟩
    · refine (instructs_reader_iff (r := '>' :: r)).mpr ?_
      rw [List.append_assoc]
      exact hinstructs
    · rw [hfront, List.length_append, hlength]
      simp only [Step.mk.injEq, true_and, and_true]
      omega
  · rintro ⟨whole, r, rfl, hwhole, hinstructs, rfl⟩
    obtain ⟨front, body, rfl, hfront, hname⟩ := targetLength_split whole
    have htarget : targetLength (front ++ body ++ ("?>".toList ++ r)) = front.length :=
      (targetLength_append_mark _ _).trans hfront
    refine ⟨instructs_reader_iff.mp hinstructs, body.length + 2, ?_, ?_⟩
    · rw [htarget, List.append_assoc, List.drop_left]
      exact hclosed.mpr ⟨body, r, rfl, rfl, (isUpTo_append_iff hname).mp hwhole⟩
    · rw [htarget, List.length_append]
      simp only [Step.mk.injEq, true_and, and_true]
      omega

theorem Dialect.IsAside.head? {d : Dialect} {w : List Char} (h : d.IsAside w) :
    w.head? = some '<' := by
  obtain ⟨⟨⟩⟩ | ⟨⟨⟩⟩ := h <;> rfl

/-- A comment or an instruction is read wherever it stands outside tags. -/
theorem Dialect.IsAside.piece {w : List Char} (h : Dialect.reader.IsAside w) {mode : Mode}
    (hmode : mode.isOutsideTags = true) :
    Piece mode w (fun offset => [.aside offset]) mode := by
  intro offset r
  obtain hcomment | hinstruction := h
  · obtain @⟨body, hbody, hlast⟩ := hcomment
    apply tokensFrom_step
    rw [List.cons_append, List.cons_append, List.cons_append, step_comment hmode]
    refine comment_eq_ok_iff.mpr ⟨body, r, List.append_assoc .., hbody, hlast, ?_⟩
    simp
  · obtain @⟨body, hbody, hinstructs⟩ := hinstruction
    apply tokensFrom_step
    rw [List.cons_append, step_instruction hmode]
    refine instruction_eq_ok_iff.mpr ⟨body, r, List.append_assoc .., hbody, hinstructs, ?_⟩
    simp

theorem comment_part {mode : Mode} {offset : Nat} {t : List Char} {s : Step}
    (h : comment mode offset ('!' :: '-' :: '-' :: t) = .ok s) :
    ∃ w r, '<' :: '!' :: '-' :: '-' :: t = w ++ r ∧ Dialect.reader.IsAside w ∧
      s = ⟨[.aside offset], w.length - 1, mode⟩ := by
  obtain ⟨body, r, rfl, hbody, hlast, rfl⟩ := comment_eq_ok_iff.mp h
  exact ⟨_, r, by simp, .inl (.mk hbody hlast), by simp⟩

theorem instruction_part {mode : Mode} {offset : Nat} {t : List Char} {s : Step}
    (h : instruction mode offset ('?' :: t) = .ok s) :
    ∃ w r, '<' :: '?' :: t = w ++ r ∧ Dialect.reader.IsAside w ∧
      s = ⟨[.aside offset], w.length - 1, mode⟩ := by
  obtain ⟨body, r, rfl, hbody, hinstructs, rfl⟩ := instruction_eq_ok_iff.mp h
  exact ⟨_, r, by simp, .inr (.mk hbody hinstructs), by simp⟩

/-! ### Sections -/

theorem characterSection_eq_ok_iff {depth offset : Nat} {t : List Char} {s : Step} :
    characterSection depth offset ('!' :: ("[CDATA[".toList ++ t)) = .ok s ↔
      ∃ raw r, t = raw ++ ("]]>".toList ++ r) ∧ IsUpTo [']', ']', '>'] raw ∧
        s = ⟨[.verbatim raw offset], raw.length + 11, .content depth⟩ := by
  have hclose : "]]>".toList = [']', ']'] ++ ['>'] := rfl
  have hclosed {offset n : Nat} {s : List Char} :=
    @closedRun_eq_ok_iff _ _ _ hclose (by decide) (by decide) offset n s
  have hfront : ('!' :: ("[CDATA[".toList ++ t)).drop 8 = t := rfl
  simp only [characterSection, hfront, bind_eq_ok_iff, hclosed]
  constructor
  · rintro ⟨n, ⟨raw, r, rfl, rfl, hraw⟩, h⟩
    have htext : (raw ++ ("]]>".toList ++ r)).take (raw.length + "]]>".length - 3) = raw :=
      List.take_left
    rw [htext, Nat.add_comm 8] at h
    cases h
    exact ⟨raw, r, rfl, hraw, rfl⟩
  · rintro ⟨raw, r, rfl, hraw, rfl⟩
    refine ⟨raw.length + 3, ⟨raw, r, rfl, rfl, hraw⟩, ?_⟩
    have htext : (raw ++ ("]]>".toList ++ r)).take (raw.length + 3 - 3) = raw := List.take_left
    rw [htext, Nat.add_comm 8]

theorem step_section (depth offset : Nat) (t : List Char) :
    step (.content depth) offset '<' ('!' :: ("[CDATA[".toList ++ t)) =
      characterSection depth offset ('!' :: ("[CDATA[".toList ++ t)) := by
  have hstart : "[CDATA[".toList.isPrefixOf ("[CDATA[".toList ++ t) = true :=
    List.isPrefixOf_iff_prefix.mpr (List.prefix_append _ _)
  have hother : ['-', '-'].isPrefixOf ("[CDATA[".toList ++ t) = false := rfl
  simp only [step, contentStep, if_true, hstart, hother, Bool.false_eq_true, if_false]

theorem IsSection.allowed {raw w : List Char} (h : IsSection raw w) :
    ∀ c ∈ raw, isAllowed c = true := by
  obtain ⟨hraw⟩ := h
  exact hraw.allowed

theorem IsSection.head? {raw w : List Char} (h : IsSection raw w) : w.head? = some '<' := by
  cases h
  rfl

theorem IsSection.piece {raw w : List Char} (h : IsSection raw w) (depth : Nat) :
    Piece (.content depth) w (fun offset => [.verbatim raw offset]) (.content depth) := by
  obtain ⟨hraw⟩ := h
  intro offset r
  apply tokensFrom_step
  rw [List.cons_append, List.append_assoc, step_section]
  refine characterSection_eq_ok_iff.mpr ⟨raw, r, List.append_assoc .., hraw, ?_⟩
  simp

theorem characterSection_part {depth offset : Nat} {t : List Char} {s : Step}
    (h : characterSection depth offset ('!' :: ("[CDATA[".toList ++ t)) = .ok s) :
    ∃ raw w r, '<' :: '!' :: ("[CDATA[".toList ++ t) = w ++ r ∧ IsSection raw w ∧
      s = ⟨[.verbatim raw offset], w.length - 1, .content depth⟩ := by
  obtain ⟨raw, r, rfl, hraw, rfl⟩ := characterSection_eq_ok_iff.mp h
  exact ⟨raw, _, r, by simp, .mk hraw, by simp⟩

/-! ### End tags -/

theorem inName_of_isSpace {c : Char} (h : isSpace c = true) : inName c = false := by
  simp only [isSpace, Bool.or_eq_true, beq_iff_eq] at h
  obtain ((rfl | rfl) | rfl) | rfl := h <;> decide

theorem inLocalName_of_isSpace {c : Char} (h : isSpace c = true) : inLocalName c = false := by
  rw [← Bool.not_eq_true, inLocalName_iff, inName_of_isSpace h]
  simp

/-- The target of an instruction is all that is read of a name there. -/
theorem IsLocalName.takeWhile_append {target data r : List Char} (h : IsLocalName target)
    (hdata : data.head?.all isSpace = true) (hstop : ∀ c ∈ r.head?, inLocalName c = false) :
    (target ++ (data ++ r)).takeWhile inLocalName = target := by
  refine takeWhile_eq_iff.mpr ⟨h.inside, ?_⟩
  cases data with
  | nil => exact hstop
  | cons d data =>
      rintro c ⟨⟩
      exact inLocalName_of_isSpace hdata

/-- Blanks end a name, and so does a mark that belongs to none. -/
theorem stops_name {b r : List Char} {mark : Char} (hblank : Blanks b)
    (hother : inName mark = false) : ∀ c ∈ (b ++ mark :: r).head?, inName c = false := by
  cases b with
  | nil =>
      rintro c ⟨⟩
      exact hother
  | cons d b =>
      rintro c ⟨⟩
      exact inName_of_isSpace (hblank d List.mem_cons_self)

theorem closing_append {depth offset : Nat} {name : Name} {w b r : List Char}
    (hfound : name? (w ++ (b ++ r)) = some (name, w.length))
    (hspaces : spaceRun (b ++ r) = b.length) :
    closing depth offset ('/' :: (w ++ (b ++ r))) = (do
      expectMark '>' (offset + (w ++ b).length + 2) r
      .ok ⟨[.closing name offset (offset + (w ++ b).length + 3)], (w ++ b).length + 2,
        afterElement depth⟩) := by
  have hlast : 1 + w.length + b.length = (w ++ b).length + 1 := by simp; omega
  have hrest : ('/' :: (w ++ (b ++ r))).drop ((w ++ b).length + 1) = r := by
    rw [List.drop_succ_cons, ← List.append_assoc, List.drop_left]
  have hafter : ('/' :: (w ++ (b ++ r))).drop (1 + w.length) = b ++ r := by
    rw [Nat.add_comm, List.drop_succ_cons, List.drop_left]
  have hshift : offset + 1 + ((w ++ b).length + 1) = offset + (w ++ b).length + 2 := by omega
  simp only [closing, List.drop_succ_cons, List.drop_zero, hfound, hafter, hspaces, hlast, hrest,
    hshift]
  rfl

theorem closing_eq_ok_iff {depth offset : Nat} {t : List Char} {s : Step} :
    closing depth offset ('/' :: t) = .ok s ↔
      ∃ name w b r, t = w ++ (b ++ '>' :: r) ∧ Dialect.reader.IsName name w ∧ Blanks b ∧
        s = ⟨[.closing name offset (offset + (w ++ b).length + 3)], (w ++ b).length + 2,
          afterElement depth⟩ := by
  constructor
  · intro h
    cases hfound : name? t with
    | none => simp [closing, hfound] at h
    | some answer =>
        obtain ⟨name, n⟩ := answer
        obtain ⟨w, r, rfl, rfl, hnamed, -⟩ := name?_eq_some_iff.mp hfound
        obtain ⟨b, r, rfl, hspaces, hblank, -⟩ := spaceRun_split r
        rw [closing_append hfound hspaces] at h
        obtain ⟨_, hmarked, h⟩ := bind_eq_ok_iff.mp h
        obtain ⟨r, rfl⟩ := expectMark_eq_ok_iff.mp hmarked
        cases h
        exact ⟨name, w, b, r, rfl, hnamed, hblank, rfl⟩
  · rintro ⟨name, w, b, r, rfl, hnamed, hblank, rfl⟩
    have hfound : name? (w ++ (b ++ '>' :: r)) = some (name, w.length) :=
      name?_eq_some_iff.mpr ⟨w, _, rfl, rfl, hnamed, stops_name hblank (by decide)⟩
    have hspaces : spaceRun (b ++ '>' :: r) = b.length :=
      spaceRun_append hblank (by rintro c ⟨⟩; decide)
    rw [closing_append hfound hspaces]
    rfl

theorem step_closing (depth offset : Nat) (t : List Char) :
    step (.content depth) offset '<' ('/' :: t) = closing depth offset ('/' :: t) := by
  simp [step, contentStep]

theorem Dialect.IsEndTag.head? {d : Dialect} {name : Name} {w : List Char}
    (h : d.IsEndTag name w) (r : List Char) : (w ++ r).head? = some '<' := by
  cases h
  rfl

theorem Dialect.IsEndTag.piece {name : Name} {w : List Char} (h : Dialect.reader.IsEndTag name w)
    (depth : Nat) :
    Piece (.content depth) w (fun offset => [.closing name offset (offset + w.length)])
      (afterElement depth) := by
  obtain @⟨written, b, hname, hblank⟩ := h
  intro offset r
  apply tokensFrom_step
  rw [List.cons_append, step_closing]
  refine closing_eq_ok_iff.mpr ⟨name, written, b, r, by simp, hname, hblank, ?_⟩
  simp [Nat.add_assoc]

theorem closing_part {depth offset : Nat} {t : List Char} {s : Step}
    (h : closing depth offset ('/' :: t) = .ok s) :
    ∃ name w r, '<' :: '/' :: t = w ++ r ∧ Dialect.reader.IsEndTag name w ∧
      s = ⟨[.closing name offset (offset + w.length)], w.length - 1, afterElement depth⟩ := by
  obtain ⟨name, w, b, r, rfl, hname, hblank, rfl⟩ := closing_eq_ok_iff.mp h
  exact ⟨name, _, r, by simp, .mk hname hblank, by simp [Nat.add_assoc]⟩

/-! ### Text -/

theorem runs_bracket_iff {w r : List Char} :
    Runs (fun t => decide (t.head? = some '<')) w r ↔
      (∀ c ∈ w, isAllowed c = true) ∧ '<' ∉ w := by
  induction w with
  | nil => simp [Runs]
  | cons c w ih =>
      rw [Runs, ih, List.forall_mem_cons, List.mem_cons, not_or]
      simp only [List.head?_cons, Option.some.injEq, decide_eq_false_iff_not, eq_comm (a := c)]
      constructor
      · rintro ⟨hallowed, hother, hallowed', hnone⟩
        exact ⟨⟨hallowed, hallowed'⟩, hother, hnone⟩
      · rintro ⟨⟨hallowed, hallowed'⟩, hother, hnone⟩
        exact ⟨hallowed, hother, hallowed', hnone⟩

theorem step_text {c : Char} (h : c ≠ '<') (depth offset : Nat) (r : List Char) :
    step (.content depth) offset c r = textRun depth offset c r := by
  simp [step, contentStep, h]

/-- What a step over text takes is a stretch of text up to the next bracket. -/
theorem textRun_isText {depth offset : Nat} {c : Char} {t : List Char} {s : Step} (hother : c ≠ '<')
    (h : textRun depth offset c t = .ok s) :
    ∃ w r, c :: t = c :: w ++ r ∧ IsText (c :: w) ∧ (∀ d ∈ r.head?, d = '<') ∧
      s = ⟨[.text (c :: w) offset], w.length, .content depth⟩ := by
  obtain ⟨n, hrun, h⟩ := bind_eq_ok_iff.mp h
  obtain ⟨raw, r, hsplit, rfl, hruns, hstops⟩ := allowedRun_split hrun
  cases raw with
  | nil =>
      obtain rfl | ⟨-, hstart⟩ := hstops
      · cases hsplit
      · rw [List.nil_append] at hsplit
        simp [← hsplit, hother] at hstart
  | cons d w =>
      rw [List.cons_append] at hsplit
      obtain ⟨rfl, rfl⟩ := List.cons.inj hsplit
      have htext : (c :: (w ++ r)).take (c :: w).length = c :: w := List.take_left
      simp only [htext] at h
      split at h
      · cases h
      · rename_i hfree
        cases h
        obtain ⟨hallowed, hnone⟩ := runs_bracket_iff.mp hruns
        refine ⟨w, r, rfl, ⟨by simp, hallowed, hnone, by simpa using hfree⟩, ?_, rfl⟩
        obtain rfl | ⟨-, hstart⟩ := hstops
        · intro d hmember
          cases hmember
        · simp only [decide_eq_true_eq] at hstart
          rw [hstart]
          rintro d ⟨⟩
          rfl

/-- Text is read up to the bracket after it. -/
theorem IsText.piece {raw : List Char} (h : IsText raw) (depth offset : Nat) {r : List Char}
    (hbracket : ∀ d ∈ r.head?, d = '<') :
    tokensFrom (.content depth) offset (raw ++ r) =
      .text raw offset :: tokensFrom (.content depth) (offset + raw.length) r := by
  cases raw with
  | nil => exact absurd rfl h.filled
  | cons c w =>
      have hother : c ≠ '<' := fun hsame => h.noBracket (hsame ▸ List.mem_cons_self)
      have hstops : Stops (fun t => decide (t.head? = some '<')) r := by
        cases r with
        | nil => exact .inl rfl
        | cons d r =>
            rw [hbracket d rfl]
            exact .inr ⟨by simp; decide, by simp⟩
      have hrun := (allowedRun_append_iff offset).mpr
        ⟨runs_bracket_iff.mpr ⟨h.allowed, h.noBracket⟩, hstops⟩
      have htext : (c :: (w ++ r)).take (c :: w).length = c :: w := List.take_left
      have hread : step (.content depth) offset c (w ++ r) =
          .ok ⟨[.text (c :: w) offset], w.length, .content depth⟩ := by
        rw [step_text hother, textRun]
        rw [List.cons_append] at hrun
        simp only [hrun, bind, Except.bind, htext, h.noSectionEnd]
        rfl
      exact tokensFrom_step hread

/-! ### Steps in the content of an element -/

/-- What the content of an element goes on with at an offset, and the step that takes it. -/
inductive ContentPart (depth offset : Nat) (s : List Char) (taken : Step) : Prop
  | aside {w r : List Char} : s = w ++ r → Dialect.reader.IsAside w →
      taken = ⟨[.aside offset], w.length - 1, .content depth⟩ → ContentPart depth offset s taken
  | verbatim {raw w r : List Char} : s = w ++ r → IsSection raw w →
      taken = ⟨[.verbatim raw offset], w.length - 1, .content depth⟩ →
      ContentPart depth offset s taken
  | closing {name : Name} {w r : List Char} : s = w ++ r → Dialect.reader.IsEndTag name w →
      taken = ⟨[.closing name offset (offset + w.length)], w.length - 1, afterElement depth⟩ →
      ContentPart depth offset s taken
  | text {raw r : List Char} : s = raw ++ r → IsText raw → (∀ d ∈ r.head?, d = '<') →
      taken = ⟨[.text raw offset], raw.length - 1, .content depth⟩ →
      ContentPart depth offset s taken
  | opening {t : List Char} {name : Name} {n : Nat} : s = '<' :: t → name? t = some (name, n) →
      taken = ⟨[.opening name offset], n, .tag (depth + 1)⟩ → ContentPart depth offset s taken

theorem contentStep_part {depth offset : Nat} {c : Char} {t : List Char} {s : Step}
    (h : step (.content depth) offset c t = .ok s) : ContentPart depth offset (c :: t) s := by
  by_cases hbracket : c = '<'
  · subst hbracket
    simp only [step, contentStep, if_true] at h
    split at h
    · cases h
    · rename_i d t
      split at h
      · rename_i hexclamation
        subst hexclamation
        split at h
        · rename_i hdashes
          obtain ⟨t, rfl⟩ := List.isPrefixOf_iff_prefix.mp hdashes
          obtain ⟨w, r, hsplit, haside, htaken⟩ := comment_part h
          exact .aside hsplit haside htaken
        · split at h
          · rename_i hmark
            obtain ⟨t, rfl⟩ := List.isPrefixOf_iff_prefix.mp hmark
            obtain ⟨raw, w, r, hsplit, hsection, htaken⟩ := characterSection_part h
            exact .verbatim hsplit hsection htaken
          · cases h
      · split at h
        · rename_i hquestion
          subst hquestion
          obtain ⟨w, r, hsplit, haside, htaken⟩ := instruction_part h
          exact .aside hsplit haside htaken
        · split at h
          · rename_i hslash
            subst hslash
            obtain ⟨name, w, r, hsplit, hendTag, htaken⟩ := closing_part h
            exact .closing hsplit hendTag htaken
          · unfold Xml.opening at h
            split at h
            · cases h
            · rename_i name n hfound
              exact .opening rfl hfound (Except.ok.inj h).symm
  · rw [step_text hbracket] at h
    obtain ⟨w, r, hsplit, htext, hnext, htaken⟩ := textRun_isText hbracket h
    exact .text hsplit htext hnext htaken

end DeadlockCapture.Xml
