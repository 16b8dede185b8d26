import DeadlockCapture.Proofs.Xml.Pieces
import DeadlockCapture.Proofs.Xml.References

/-!
Start tags. A tag opens the same element wherever it stands: its attributes are read alike, and
their offsets matter only for faults.
-/

namespace DeadlockCapture.Xml

open DeadlockCapture.Text

/-! ### Attributes -/

theorem runs_quote_iff {q : Char} {v r : List Char} :
    Runs (fun t => t.head? = some q || t.head? = some '<') v r ↔ Quotable q v := by
  unfold Quotable
  induction v with
  | nil => simp [Runs]
  | cons c v ih =>
      rw [Runs, ih]
      simp [and_assoc]

/-- The value of an attribute, read from its opening quote on, `k` characters into the attribute. -/
def readValue (name : Name) (offset k : Nat) : List Char → Except Fault (Token × Nat)
  | [] => .error ⟨.unexpectedEnd, offset + k⟩
  | quote :: r =>
    if quote = '"' ∨ quote = '\x27' then do
      let length ←
        allowedRun (fun t => t.head? = some quote || t.head? = some '<') (offset + k + 1) r
      expectMark quote (offset + k + 1 + length) (r.drop length)
      .ok (.assignment name offset (r.take length) (offset + k + 1), k + 1 + length + 1)
    else .error ⟨.expectedQuote quote, offset + k⟩

theorem readAttribute_append {offset : Nat} {name : Name} {w b b' r : List Char}
    (hfound : name? (w ++ (b ++ '=' :: (b' ++ r))) = some (name, w.length))
    (hblank : Blanks b) (hspaces : spaceRun (b' ++ r) = b'.length) :
    readAttribute offset (w ++ (b ++ '=' :: (b' ++ r))) =
      readValue name offset ((w ++ b).length + 1 + b'.length) r := by
  have hfirst : spaceRun (b ++ '=' :: (b' ++ r)) = b.length :=
    spaceRun_append hblank (by rintro c ⟨⟩; decide)
  have hequals : (w ++ (b ++ '=' :: (b' ++ r))).drop (w ++ b).length = '=' :: (b' ++ r) := by
    rw [← List.append_assoc, List.drop_left]
  have hafter : (w ++ (b ++ '=' :: (b' ++ r))).drop ((w ++ b).length + 1) = b' ++ r := by
    rw [← List.drop_drop, hequals, List.drop_succ_cons, List.drop_zero]
  have hlast : (w ++ (b ++ '=' :: (b' ++ r))).drop ((w ++ b).length + 1 + b'.length) = r := by
    rw [← List.drop_drop, hafter, List.drop_left]
  have hmark : ∀ offset, expectMark '=' offset ('=' :: (b' ++ r)) = .ok () := fun _ => rfl
  simp only [readAttribute, hfound, List.drop_left, hfirst, ← List.length_append, hequals, hmark,
    hafter, hspaces, hlast]
  cases r <;> rfl

theorem readValue_eq_ok_iff {name : Name} {offset k n : Nat} {t : Token} {s : List Char} :
    readValue name offset k s = .ok (t, n) ↔
      ∃ q v r, s = q :: (v ++ q :: r) ∧ (q = '"' ∨ q = '\x27') ∧ Quotable q v ∧
        t = .assignment name offset v (offset + k + 1) ∧ n = k + v.length + 2 := by
  constructor
  · intro h
    cases s with
    | nil => cases h
    | cons q s =>
        rw [readValue] at h
        split at h
        · rename_i hquote
          obtain ⟨length, hrun, h⟩ := bind_eq_ok_iff.mp h
          obtain ⟨v, r, rfl, rfl, hruns, -⟩ := allowedRun_split hrun
          obtain ⟨_, hmarked, h⟩ := bind_eq_ok_iff.mp h
          rw [List.drop_left] at hmarked
          obtain ⟨r, rfl⟩ := expectMark_eq_ok_iff.mp hmarked
          rw [List.take_left] at h
          cases h
          exact ⟨q, v, r, rfl, hquote, runs_quote_iff.mp hruns, rfl, by omega⟩
        · cases h
  · rintro ⟨q, v, r, rfl, hquote, hplain, rfl, rfl⟩
    have hstops : Stops (fun t => t.head? = some q || t.head? = some '<') (q :: r) := by
      refine .inr ⟨?_, by simp⟩
      obtain rfl | rfl := hquote <;> rfl
    have hrun := (allowedRun_append_iff (offset + k + 1)).mpr
      ⟨runs_quote_iff.mpr hplain, hstops⟩
    have hmark : ∀ offset, expectMark q offset (q :: r) = .ok () := fun _ => by simp [expectMark]
    simp only [readValue, hquote, if_true, hrun, bind, Except.bind, List.drop_left, hmark,
      List.take_left]
    congr 2
    omega

/-- The token of an attribute `w` with the raw value `raw`. -/
def attributeToken (name : Name) (raw w : List Char) (offset : Nat) : Token :=
  .assignment name offset raw (offset + (w.length - (raw.length + 1)))

theorem Dialect.IsAttribute.start {name : Name} {raw w : List Char}
    (h : Dialect.reader.IsAttribute name raw w) : ∃ c t, w = c :: t ∧ startsName c = true := by
  obtain ⟨hname, -⟩ := h
  obtain ⟨c, t, rfl, hc⟩ := hname.start
  exact ⟨c, _, rfl, hc⟩

/-- An attribute is read in front of any text and at any offset. -/
theorem Dialect.IsAttribute.reads {name : Name} {raw w : List Char}
    (h : Dialect.reader.IsAttribute name raw w) (offset : Nat) (r : List Char) :
    readAttribute offset (w ++ r) = .ok (attributeToken name raw w offset, w.length) := by
  obtain @⟨written, b, b', q, hname, hb, hb', hq, hraw⟩ := h
  have hparts : written ++ (b ++ '=' :: (b' ++ q :: (raw ++ [q]))) ++ r =
      written ++ (b ++ '=' :: (b' ++ q :: (raw ++ q :: r))) := by simp
  have hfound : name? (written ++ (b ++ '=' :: (b' ++ q :: (raw ++ q :: r)))) =
      some (name, written.length) :=
    name?_eq_some_iff.mpr ⟨written, _, rfl, rfl, hname, stops_name hb (by decide)⟩
  have hspaces : spaceRun (b' ++ q :: (raw ++ q :: r)) = b'.length :=
    spaceRun_append hb' (by rintro c ⟨⟩; obtain rfl | rfl := hq <;> decide)
  rw [hparts, readAttribute_append hfound hb hspaces]
  refine readValue_eq_ok_iff.mpr ⟨q, raw, r, rfl, hq, hraw, ?_, ?_⟩
  · simp only [attributeToken, List.length_append, List.length_cons, List.length_nil,
      Token.assignment.injEq, true_and]
    omega
  · simp only [List.length_append, List.length_cons, List.length_nil]
    omega

theorem readAttribute_part {offset n : Nat} {s : List Char} {t : Token}
    (h : readAttribute offset s = .ok (t, n)) :
    ∃ name raw w r, s = w ++ r ∧ Dialect.reader.IsAttribute name raw w ∧ n = w.length ∧
      t = attributeToken name raw w offset := by
  cases hfound : name? s with
  | none => simp [readAttribute, hfound] at h
  | some answer =>
      obtain ⟨name, m⟩ := answer
      obtain ⟨written, t₁, rfl, rfl, hname, -⟩ := name?_eq_some_iff.mp hfound
      obtain ⟨b, t₂, rfl, hspaces, hb, -⟩ := spaceRun_split t₁
      have hequals : (written ++ (b ++ t₂)).drop (written.length + b.length) = t₂ := by
        rw [← List.append_assoc, ← List.length_append, List.drop_left]
      have hmark := h
      simp only [readAttribute, hfound, List.drop_left, hspaces, hequals] at hmark
      obtain ⟨_, hmark, -⟩ := bind_eq_ok_iff.mp hmark
      obtain ⟨t₃, rfl⟩ := expectMark_eq_ok_iff.mp hmark
      obtain ⟨b', t₄, rfl, hspaces', hb', -⟩ := spaceRun_split t₃
      rw [readAttribute_append hfound hb hspaces'] at h
      obtain ⟨q, raw, r, rfl, hq, hraw, -, -⟩ := readValue_eq_ok_iff.mp h
      have hattribute : Dialect.reader.IsAttribute name raw
          (written ++ (b ++ '=' :: (b' ++ q :: (raw ++ [q])))) := .mk hname hb hb' hq hraw
      have hparts : written ++ (b ++ '=' :: (b' ++ q :: (raw ++ q :: r))) =
          written ++ (b ++ '=' :: (b' ++ q :: (raw ++ [q]))) ++ r := by simp
      rw [← readAttribute_append hfound hb hspaces', hparts, hattribute.reads] at h
      cases h
      exact ⟨name, raw, _, r, hparts, hattribute, rfl, rfl⟩

/-! ### Steps in a start tag -/

theorem tagStep_append {depth offset : Nat} {c d : Char} {r b t : List Char}
    (hsplit : c :: r = b ++ d :: t) (hblank : Blanks b) (hstop : isSpace d = false) :
    tagStep depth offset c r =
      if d = '/' then (do
        expectMark '>' (offset + b.length + 1) t
        .ok ⟨[.opened true (offset + b.length + 2)], b.length + 1, afterElement depth⟩)
      else if d = '>' then
        .ok ⟨[.opened false (offset + b.length + 1)], b.length, .content depth⟩
      else if b.length = 0 then .error ⟨.expectedSpace d, offset + b.length⟩
      else (do
        let (token, length) ← readAttribute (offset + b.length) (d :: t)
        .ok ⟨[token], b.length + length - 1, .tag depth⟩) := by
  have hspaces : spaceRun (b ++ d :: t) = b.length :=
    spaceRun_append hblank (by rintro c ⟨⟩; exact hstop)
  simp only [tagStep, hsplit, hspaces, List.drop_left]

/-- Where reading goes on after a start tag that has this many open elements around it. -/
def afterTag (isEmpty : Bool) (depth : Nat) : Mode :=
  if isEmpty then afterElement depth else .content depth

/-- What a step in a start tag takes: the end of the tag or one more attribute. -/
inductive TagPart (depth : Nat) : List Char → (Nat → List Token) → Mode → Prop
  | opened {b : List Char} {isEmpty : Bool} : Blanks b →
      TagPart depth (b ++ tagEnd isEmpty)
        (fun offset => [.opened isEmpty (offset + (b ++ tagEnd isEmpty).length)])
        (afterTag isEmpty depth)
  | assigned {b w raw : List Char} {name : Name} : b ≠ [] → Blanks b →
      Dialect.reader.IsAttribute name raw w →
      TagPart depth (b ++ w) (fun offset => [attributeToken name raw w (offset + b.length)])
        (.tag depth)

/-- What starts a name is no blank and ends no tag. -/
theorem startsName_marks {c : Char} (h : startsName c = true) :
    isSpace c = false ∧ c ≠ '/' ∧ c ≠ '>' ∧ c ≠ '!' ∧ c ≠ '?' := by
  refine ⟨?_, ?_, ?_, ?_, ?_⟩
  · cases hspace : isSpace c with
    | false => rfl
    | true =>
        simp only [isSpace, Bool.or_eq_true, beq_iff_eq] at hspace
        obtain ((rfl | rfl) | rfl) | rfl := hspace <;> cases h
  all_goals
    rintro rfl
    cases h

theorem tagEnd_ne_nil (isEmpty : Bool) : tagEnd isEmpty ≠ [] := by
  cases isEmpty <;> simp [tagEnd]

theorem TagPart.piece {depth : Nat} {w : List Char} {found : Nat → List Token} {next : Mode}
    (h : TagPart depth w found next) : Piece (.tag depth) w found next := by
  intro offset r
  cases h with
  | @opened b isEmpty hblank =>
      apply tokensFrom_append (by simp [tagEnd_ne_nil])
      intro c t hsplit
      rw [List.append_assoc] at hsplit
      cases isEmpty with
      | true =>
          have hparts : c :: t = b ++ '/' :: '>' :: r := hsplit
          rw [step, tagStep_append hparts hblank (by decide)]
          simp [expectMark, bind, Except.bind, tagEnd, afterTag, Nat.add_assoc]
      | false =>
          have hparts : c :: t = b ++ '>' :: r := hsplit
          rw [step, tagStep_append hparts hblank (by decide)]
          simp [tagEnd, afterTag, Nat.add_assoc]
  | @assigned b w raw name hsome hblank hattribute =>
      apply tokensFrom_append (by simp [hsome])
      intro c t hsplit
      have hread := hattribute.reads (offset + b.length) r
      obtain ⟨d, u, rfl, hstart⟩ := hattribute.start
      rw [List.append_assoc, List.cons_append] at hsplit
      obtain ⟨hstop, hslash, hbracket, -⟩ := startsName_marks hstart
      rw [List.cons_append] at hread
      rw [step, tagStep_append hsplit hblank hstop, if_neg hslash, if_neg hbracket,
        if_neg (by simpa using hsome), hread]
      simp [bind, Except.bind]

theorem tagStep_part {depth offset : Nat} {c : Char} {r : List Char} {s : Step}
    (h : tagStep depth offset c r = .ok s) :
    ∃ w t found next, c :: r = w ++ t ∧ TagPart depth w found next ∧
      s = ⟨found offset, w.length - 1, next⟩ := by
  obtain ⟨b, t, hsplit, hspaces, hblank, hstop⟩ := spaceRun_split (c :: r)
  cases t with
  | nil =>
      have hnone : (c :: r).drop (spaceRun (c :: r)) = [] := by
        rw [hspaces, hsplit, List.append_nil, List.drop_length]
      simp [tagStep, hnone] at h
  | cons d t =>
      rw [tagStep_append hsplit hblank (hstop d rfl)] at h
      split at h
      · rename_i hslash
        obtain ⟨_, hmarked, h⟩ := bind_eq_ok_iff.mp h
        obtain ⟨t, rfl⟩ := expectMark_eq_ok_iff.mp hmarked
        cases h
        have hpart : TagPart depth (b ++ tagEnd true) _ _ := .opened hblank
        exact ⟨_, t, _, _, by simp [hsplit, hslash, tagEnd], hpart,
          by simp [tagEnd, afterTag, Nat.add_assoc]⟩
      · split at h
        · rename_i hbracket
          cases h
          have hpart : TagPart depth (b ++ tagEnd false) _ _ := .opened hblank
          exact ⟨_, t, _, _, by simp [hsplit, hbracket, tagEnd], hpart,
            by simp [tagEnd, afterTag, Nat.add_assoc]⟩
        · split at h
          · cases h
          · rename_i hsome
            obtain ⟨⟨token, length⟩, hread, h⟩ := bind_eq_ok_iff.mp h
            obtain ⟨name, raw, w, u, hwhole, hattribute, rfl, rfl⟩ := readAttribute_part hread
            cases h
            refine ⟨b ++ w, u, _, _, by rw [hsplit, hwhole, List.append_assoc],
              .assigned (by simpa using hsome) hblank hattribute, by simp⟩

/-! ### The names in a start tag -/

/-- The start tag has this name and these attributes, wherever they stand. -/
structure Pending.Says (p : Pending) (name : Name) (l : List (Name × List Char)) : Prop where
  name : p.name = name
  declared : p.declared = l.filterMap Dialect.reader.declaration?
  attributes :
    p.attributes.map (fun a => (a.1, a.2.2)) = l.filter fun a => !Dialect.reader.declares a.1

/-- The declarations among attributes are not refused when they are read. -/
structure Admissible (l : List (Name × List Char)) : Prop where
  declared : ∀ a ∈ l, a.1.space = xmlns → Dialect.reader.MayDeclare a.1.base a.2
  declaredDefault : ∀ a ∈ l, Dialect.reader.declaresDefault a.1 = true →
    a.2 ≠ xmlSpace ∧ a.2 ≠ xmlnsSpace
  distinct : Dialect.reader.Distinct l

theorem Admissible.nil : Admissible [] :=
  ⟨by simp, by simp, List.nodup_nil⟩

/-- The prefixes that attributes declare. -/
def declaredPrefixes (l : List (Name × List Char)) : List (List Char) :=
  (l.filterMap Dialect.reader.declaration?).filterMap (·.1)

theorem declaredPrefixes_append (l l' : List (Name × List Char)) :
    declaredPrefixes (l ++ l') = declaredPrefixes l ++ declaredPrefixes l' := by
  simp only [declaredPrefixes, List.filterMap_append]

theorem Admissible.of_append {l l' : List (Name × List Char)} (h : Admissible (l ++ l')) :
    Admissible l where
  declared a ha := h.declared a (List.mem_append_left _ ha)
  declaredDefault a ha := h.declaredDefault a (List.mem_append_left _ ha)
  distinct := by
    have hdistinct : (declaredPrefixes (l ++ l')).Nodup := h.distinct
    rw [declaredPrefixes_append] at hdistinct
    exact (List.nodup_append.mp hdistinct).1

theorem admissible_concat {l : List (Name × List Char)} {a : Name × List Char} :
    Admissible (l ++ [a]) ↔ Admissible l ∧
      (a.1.space = xmlns → Dialect.reader.MayDeclare a.1.base a.2) ∧
      (Dialect.reader.declaresDefault a.1 = true → a.2 ≠ xmlSpace ∧ a.2 ≠ xmlnsSpace) ∧
      (declaredPrefixes [a]).Nodup ∧ ∀ s ∈ declaredPrefixes l, s ∉ declaredPrefixes [a] := by
  constructor
  · intro h
    have hdistinct : (declaredPrefixes (l ++ [a])).Nodup := h.distinct
    rw [declaredPrefixes_append, List.nodup_append] at hdistinct
    obtain ⟨-, hlast, hapart⟩ := hdistinct
    have hmem : a ∈ l ++ [a] := List.mem_append_right _ List.mem_cons_self
    exact ⟨h.of_append, h.declared a hmem, h.declaredDefault a hmem, hlast,
      fun s hs hs' => hapart s hs s hs' rfl⟩
  · rintro ⟨h, hdeclared, hdefault, hlast, hapart⟩
    refine ⟨?_, ?_, ?_⟩
    · exact List.forall_mem_append.mpr ⟨h.declared, List.forall_mem_singleton.mpr hdeclared⟩
    · exact List.forall_mem_append.mpr ⟨h.declaredDefault, List.forall_mem_singleton.mpr hdefault⟩
    · have hdistinct : (declaredPrefixes (l ++ [a])).Nodup := by
        rw [declaredPrefixes_append, List.nodup_append]
        exact ⟨h.distinct, hlast, fun s hs s' hs' hsame => hapart s hs (hsame ▸ hs')⟩
      exact hdistinct

theorem mem_declaredPrefixes {l : List (Name × List Char)} {s : List Char} :
    s ∈ declaredPrefixes l ↔ ∃ a ∈ l, a.1.space = xmlns ∧ a.2 ≠ xmlSpace ∧ a.1.base = s := by
  simp only [declaredPrefixes, List.mem_filterMap]
  constructor
  · rintro ⟨e, ⟨a, ha, hdeclares⟩, hs⟩
    refine ⟨a, ha, ?_⟩
    unfold Dialect.declaration? at hdeclares
    split at hdeclares
    · rename_i hspace
      split at hdeclares
      · cases hdeclares
      · rename_i hvalue
        cases hdeclares
        exact ⟨hspace, hvalue, Option.some.inj hs⟩
    · split at hdeclares
      · cases hdeclares
        cases hs
      · cases hdeclares
  · rintro ⟨a, ha, hspace, hvalue, rfl⟩
    refine ⟨(some a.1.base, a.2), ⟨a, ha, ?_⟩, rfl⟩
    rw [Dialect.declaration?, if_pos hspace, if_neg hvalue]

/-- The prefix `xml` is not kept among the declared ones. -/
theorem Admissible.xml_not_mem {l : List (Name × List Char)} (h : Admissible l) :
    xml ∉ declaredPrefixes l := by
  intro hmem
  obtain ⟨a, ha, hspace, hvalue, hbase⟩ := mem_declaredPrefixes.mp hmem
  exact hvalue ((h.declared a ha hspace).2.1.mp hbase)

theorem Pending.Says.any_declared {p : Pending} {name : Name} {l : List (Name × List Char)}
    (h : p.Says name l) (s : List Char) :
    p.declared.any (·.1 == some s) = decide (s ∈ declaredPrefixes l) := by
  rw [Bool.eq_iff_iff, List.any_eq_true, decide_eq_true_eq, h.declared, declaredPrefixes,
    List.mem_filterMap]
  simp only [beq_iff_eq]

theorem Pending.Says.declare_isOk_iff {p : Pending} {name : Name} {l : List (Name × List Char)}
    (h : p.Says name l) (hl : Admissible l) (s value : List Char) (offset : Nat) :
    (∃ q, p.declare offset s value = .ok q) ↔
      Dialect.reader.MayDeclare s value ∧ (value ≠ xmlSpace → s ∉ declaredPrefixes l) := by
  have hxml := hl.xml_not_mem
  have hother : xmlSpace ≠ xmlnsSpace := by decide
  simp only [Pending.declare, h.any_declared, decide_eq_true_eq, Dialect.MayDeclare, and_true]
  by_cases hreserved : value = xmlnsSpace
  · simp [hreserved]
  · by_cases hvalue : value = xmlSpace
    · by_cases hs : s = xml
      · simp [hvalue, hs, hxml, hother]
      · simp [hvalue, hs, hother]
    · by_cases hs : s = xml
      · simp [hreserved, hvalue, hs]
      · by_cases hmem : s ∈ declaredPrefixes l <;> simp [hreserved, hvalue, hs, hmem]

/-- One more attribute is taken in if its declaration may join those before it. -/
theorem Pending.Says.assign_isOk_iff {p : Pending} {name : Name} {l : List (Name × List Char)}
    (h : p.Says name l) (hl : Admissible l) (a : Name × List Char) (offset : Nat) :
    (∃ q, p.assign a.1 offset a.2 = .ok q) ↔ Admissible (l ++ [a]) := by
  have hmem (s : List Char) :
      s ∈ declaredPrefixes [a] ↔ a.1.space = xmlns ∧ a.2 ≠ xmlSpace ∧ a.1.base = s := by
    simp [mem_declaredPrefixes]
  have hnodup : (declaredPrefixes [a]).Nodup := by
    unfold declaredPrefixes
    cases hdeclared : Dialect.reader.declaration? a with
    | none => simp [hdeclared]
    | some e => cases hprefix : e.1 <;> simp [hdeclared, hprefix]
  have hother : xmlSpace ≠ xmlnsSpace := by decide
  rw [admissible_concat, Pending.assign]
  simp only [hl, hnodup, hmem, true_and]
  by_cases hspace : a.1.space = xmlns
  · have hdefault : Dialect.reader.declaresDefault a.1 = false := by
      simp [Dialect.declaresDefault, hspace]
    simp only [hspace, if_true, h.declare_isOk_iff hl, hdefault, forall_const, Bool.false_eq_true,
      false_imp_iff, true_and]
    refine and_congr_right fun _ => ?_
    constructor
    · rintro hfresh s hs ⟨hvalue, rfl⟩
      exact hfresh hvalue hs
    · exact fun hfresh hvalue hs => hfresh _ hs ⟨hvalue, rfl⟩
  · have hdefault : Dialect.reader.declaresDefault a.1 = true ↔ a.1.base = xmlns := by
      simp [Dialect.declaresDefault, hspace]
    simp only [hspace, if_false, false_imp_iff, hdefault, false_and, not_false_eq_true,
      implies_true, and_true, true_and]
    by_cases hbase : a.1.base = xmlns
    · by_cases hvalue : a.2 = xmlSpace
      · simp [hbase, hvalue, Pending.declareDefault]
      · by_cases hvalue' : a.2 = xmlnsSpace
        · simp [hbase, hvalue', hother.symm, Pending.declareDefault]
        · simp [hbase, hvalue, hvalue', Pending.declareDefault]
    · simp [hbase]

theorem Pending.declare_eq_ok {p q : Pending} {offset : Nat} {s value : List Char}
    (h : p.declare offset s value = .ok q) :
    q = { p with
      declared := p.declared ++ if value = xmlSpace then [] else [(some s, value)] } := by
  simp only [Pending.declare, guard_eq_ok_iff] at h
  obtain ⟨-, -, -, -, h⟩ := h
  split at h
  · rename_i hvalue
    cases h
    rw [if_pos hvalue, List.append_nil]
  · rename_i hvalue
    cases h
    rw [if_neg hvalue]

theorem Pending.declareDefault_eq_ok {p q : Pending} {offset : Nat} {value : List Char}
    (h : p.declareDefault offset value = .ok q) :
    q = { p with declared := p.declared ++ [(none, value)] } := by
  simp only [Pending.declareDefault, guard_eq_ok_iff] at h
  obtain ⟨-, -, h⟩ := h
  exact (Except.ok.inj h).symm

/-- An attribute joins the declarations of its tag, or else the attributes. -/
theorem Pending.assign_eq_ok {p q : Pending} {a : Name × List Char} {offset : Nat}
    (h : p.assign a.1 offset a.2 = .ok q) :
    q = { p with
      declared := p.declared ++ (Dialect.reader.declaration? a).toList
      attributes := p.attributes ++
        if Dialect.reader.declares a.1 then [] else [(a.1, offset, a.2)] } := by
  unfold Pending.assign at h
  by_cases hspace : a.1.space = xmlns
  · rw [if_pos hspace] at h
    rw [Pending.declare_eq_ok h, Dialect.declares, Dialect.declaration?, if_pos hspace]
    by_cases hvalue : a.2 = xmlSpace <;> simp [hspace, hvalue]
  · rw [if_neg hspace] at h
    by_cases hbase : a.1.base = xmlns
    · rw [if_pos hbase] at h
      rw [Pending.declareDefault_eq_ok h]
      simp [Dialect.declares, Dialect.declaresDefault, Dialect.declaration?, hspace, hbase]
    · rw [if_neg hbase] at h
      cases h
      simp [Dialect.declares, Dialect.declaresDefault, Dialect.declaration?, hspace, hbase]

theorem Pending.Says.assign {p q : Pending} {name : Name} {l : List (Name × List Char)}
    (h : p.Says name l) {a : Name × List Char} {offset : Nat}
    (hassign : p.assign a.1 offset a.2 = .ok q) : q.Says name (l ++ [a]) ∧ q.start = p.start := by
  obtain rfl := Pending.assign_eq_ok hassign
  refine ⟨⟨h.name, ?_, ?_⟩, rfl⟩
  · rw [List.filterMap_append, ← h.declared]
    cases hdeclared : Dialect.reader.declaration? a <;> simp [hdeclared]
  · rw [List.filter_append, ← h.attributes, List.map_append]
    cases hdeclares : Dialect.reader.declares a.1 <;> simp [hdeclares]

/-! ### What a start tag opens -/

theorem attributeSpace_eq_ok_iff {scope : Scope} {name : Name} {offset : Nat}
    {space : Option (List Char)} :
    attributeSpace scope name offset = .ok space ↔
      Resolves scope name ∧ space = spaceOf scope name := by
  unfold attributeSpace Resolves spaceOf
  by_cases hxml : name.space = xml
  · rw [if_pos hxml, if_pos hxml, Except.ok.injEq]
    exact ⟨fun h => ⟨.inl hxml, h.symm⟩, fun h => h.2.symm⟩
  · rw [if_neg hxml, if_neg hxml]
    by_cases hnone : name.space = []
    · have hempty : name.space.isEmpty = true := by rw [hnone]; rfl
      rw [if_pos hempty, if_pos hempty, Except.ok.injEq]
      exact ⟨fun h => ⟨.inr (.inl hnone), h.symm⟩, fun h => h.2.symm⟩
    · have hsome : ¬ name.space.isEmpty = true := by simpa using hnone
      rw [if_neg hsome, if_neg hsome]
      cases hfound : scope.space? (some name.space) with
      | none => simp [hxml, hnone]
      | some s =>
          rw [Except.ok.injEq]
          exact ⟨fun h => ⟨.inr (.inr rfl), h.symm⟩, fun h => h.2.symm⟩

/-- Attributes are resolved if their prefixes are, and if no two have the same name. -/
theorem resolveAttributes_eq_ok_iff {scope : Scope} {seen found : List Attribute}
    {l : List (Name × Nat × List Char)} (hseen : (seen.map fun a => (a.space, a.base)).Nodup) :
    resolveAttributes scope seen l = .ok found ↔
      (∀ a ∈ l, Resolves scope a.1) ∧
        found = seen ++ l.map (fun a => ⟨spaceOf scope a.1, a.1.base, a.2.2⟩) ∧
        (found.map fun a => (a.space, a.base)).Nodup := by
  induction l generalizing seen with
  | nil =>
      rw [resolveAttributes]
      constructor
      · rintro ⟨⟩
        exact ⟨by simp, by simp, hseen⟩
      · rintro ⟨-, hfound, -⟩
        rw [hfound, List.map_nil, List.append_nil]
  | cons a l ih =>
      obtain ⟨name, offset, value⟩ := a
      rw [resolveAttributes, List.forall_mem_cons, List.map_cons]
      cases hspace : attributeSpace scope name offset with
      | error f =>
          refine iff_of_false (by simp) ?_
          rintro ⟨⟨hresolves, -⟩, -⟩
          have hok := (@attributeSpace_eq_ok_iff _ _ offset _).mpr ⟨hresolves, rfl⟩
          rw [hspace] at hok
          cases hok
      | ok space =>
          obtain ⟨hresolves, rfl⟩ := attributeSpace_eq_ok_iff.mp hspace
          have hany : (seen.any fun a => a.space == spaceOf scope name && a.base == name.base) =
              true ↔ (spaceOf scope name, name.base) ∈ seen.map fun a => (a.space, a.base) := by
            simp [List.mem_map, Prod.ext_iff]
          simp only
          split
          · rename_i htwice
            refine iff_of_false (by simp) ?_
            rintro ⟨-, rfl, hnodup⟩
            rw [List.map_append, List.nodup_append] at hnodup
            exact hnodup.2.2 _ (hany.mp htwice) _ List.mem_cons_self rfl
          · rename_i hfresh
            let next : Attribute := ⟨spaceOf scope name, name.base, value⟩
            have hnext : ((seen ++ [next]).map fun a => (a.space, a.base)).Nodup := by
              rw [List.map_append, List.nodup_append]
              refine ⟨hseen, by simp, ?_⟩
              intro s hs s' hs' hsame
              rw [List.map_singleton, List.mem_singleton] at hs'
              exact hfresh (hany.mpr (hs' ▸ hsame ▸ hs))
            rw [ih hnext, List.append_assoc, List.singleton_append]
            simp only [hresolves, true_and, next]

/-- The element is open, and nothing of its content has been read. -/
def Head.opened (h : Head) (start : Nat) : Open :=
  ⟨h.name, h.attributes, start, h.scope, []⟩

section Says

variable {p : Pending} {name : Name} {l : List (Name × List Char)}

theorem Pending.Says.scope_eq (h : p.Says name l) (outer : Scope) :
    p.scope outer = Dialect.reader.scopeOf outer l := by
  rw [Pending.scope, h.declared]
  rfl

theorem Pending.Says.resolves_iff (h : p.Says name l) (scope : Scope) :
    (∀ a ∈ p.attributes, Resolves scope a.1) ↔
      ∀ a ∈ l, Dialect.reader.declares a.1 = false → Resolves scope a.1 := by
  have hmap : (∀ a ∈ p.attributes.map (fun a => (a.1, a.2.2)), Resolves scope a.1) ↔
      ∀ a ∈ p.attributes, Resolves scope a.1 := List.forall_mem_map
  rw [← hmap, h.attributes]
  simp [List.mem_filter]

theorem Pending.Says.resolve_eq_ok_iff (h : p.Says name l) {scope : Scope}
    {found : List Attribute} :
    resolveAttributes scope [] p.attributes = .ok found ↔
      (∀ a ∈ l, Dialect.reader.declares a.1 = false → Resolves scope a.1) ∧
        found = Dialect.reader.attributesOf scope l ∧
        (found.map fun a => (a.space, a.base)).Nodup := by
  have hresolved : p.attributes.map (fun a =>
      (⟨spaceOf scope a.1, a.1.base, a.2.2⟩ : Attribute)) =
      Dialect.reader.attributesOf scope l := by
    rw [Dialect.attributesOf, ← h.attributes, List.map_map]
    rfl
  rw [@resolveAttributes_eq_ok_iff scope [] found _ List.nodup_nil, List.nil_append, hresolved,
    h.resolves_iff]

theorem knows_reader_iff {scope : Scope} {space : List Char} :
    Dialect.reader.Knows scope space ↔
      space.isEmpty = true ∨ (scope.space? (some space)).isSome = true := by
  simp [Dialect.Knows]

theorem Pending.Says.open_eq_ok_iff (h : p.Says name l) {outer : Scope} {o : Open} :
    p.open outer = .ok o ↔
      (∀ a ∈ l, Dialect.reader.declares a.1 = false →
        Resolves (Dialect.reader.scopeOf outer l) a.1) ∧
      ((Dialect.reader.attributesOf (Dialect.reader.scopeOf outer l) l).map
        fun a => (a.space, a.base)).Nodup ∧
      Dialect.reader.Knows (Dialect.reader.scopeOf outer l) name.space ∧
      o = (Dialect.reader.headOf outer name l).opened p.start := by
  rw [Pending.open, h.scope_eq, knows_reader_iff]
  cases hfound : resolveAttributes (Dialect.reader.scopeOf outer l) [] p.attributes with
  | error f =>
      refine iff_of_false (by simp) ?_
      rintro ⟨hresolves, hnodup, -⟩
      have hok := h.resolve_eq_ok_iff.mpr ⟨hresolves, rfl, hnodup⟩
      rw [hfound] at hok
      cases hok
  | ok attributes =>
      obtain ⟨hresolves, rfl, hnodup⟩ := h.resolve_eq_ok_iff.mp hfound
      simp only [h.name]
      split
      · rename_i hprefix
        rw [Except.ok.injEq]
        exact ⟨fun h => ⟨hresolves, hnodup, hprefix, h.symm⟩, fun h => h.2.2.2.symm⟩
      · rename_i hprefix
        exact iff_of_false (by simp) fun h => hprefix h.2.2.1

end Says

theorem Dialect.Fits.admissible {outer : Scope} {name : Name} {l : List (Name × List Char)}
    (h : Dialect.reader.Fits outer name l) : Admissible l :=
  ⟨h.declared, h.declaredDefault, h.distinct⟩

theorem Pending.Says.open_iff_fits {p : Pending} {name : Name} {l : List (Name × List Char)}
    (h : p.Says name l) (hname : name.space ≠ xmlns) (hl : Admissible l) {outer : Scope}
    {o : Open} :
    p.open outer = .ok o ↔
      Dialect.reader.Fits outer name l ∧
        o = (Dialect.reader.headOf outer name l).opened p.start := by
  rw [h.open_eq_ok_iff]
  constructor
  · rintro ⟨hresolved, hunique, hknown, rfl⟩
    exact ⟨⟨hname, hknown, hl.declared, hl.declaredDefault, hl.distinct, hresolved, hunique⟩, rfl⟩
  · rintro ⟨hfits, rfl⟩
    exact ⟨hfits.resolved, hfits.unique, hfits.known, rfl⟩

/-! ### Whole start tags -/

/-- The tokens are taken in without a fault, and then the document is complete. -/
def Builder.Completes (b : Builder) (l : List Token) (root : Node) : Prop :=
  ∃ b', b.takeAll l = .ok b' ∧ b'.stack = [] ∧ b'.root = some root

theorem Builder.takeAll_cons {b b' : Builder} {t : Token} (h : b.take t = .ok b')
    (l : List Token) : b.takeAll (t :: l) = b'.takeAll l := by
  rw [Builder.takeAll, h]

theorem Builder.Completes.take {b : Builder} {t : Token} {l : List Token} {root : Node}
    (h : b.Completes (t :: l) root) : ∃ b', b.take t = .ok b' ∧ b'.Completes l root := by
  obtain ⟨last, htaken, hdone⟩ := h
  cases hfound : b.take t with
  | error f => simp [Builder.takeAll, hfound] at htaken
  | ok b' =>
      rw [Builder.takeAll_cons hfound] at htaken
      exact ⟨b', rfl, last, htaken, hdone⟩

/-- What has been read once a start tag is complete. -/
def Builder.started (b : Builder) (h : Head) (isEmpty : Bool) (start stop : Nat) : Builder :=
  let b := { b with pending := none, inText := false }
  if isEmpty then b.add ((h.opened start).close stop)
  else { b with stack := h.opened start :: b.stack }

section Pending

variable {b b' : Builder} {p q : Pending} {name : Name} {raw w : List Char} {offset : Nat}

theorem take_attributeToken (hpending : b.pending = some p) {g : List Glyph}
    (hg : Dialect.reader.Spells raw g) (hassign : p.assign name offset (valueChars g) = .ok q) :
    b.take (attributeToken name raw w offset) = .ok { b with pending := some q } := by
  have hread {offset : Nat} : attributeText offset raw = .ok (valueChars g) :=
    attributeText_eq_ok_iff.mpr ⟨g, hg, rfl⟩
  simp only [attributeToken, Builder.take, hpending, hread, hassign]

theorem assign_of_take (hpending : b.pending = some p)
    (h : b.take (attributeToken name raw w offset) = .ok b') :
    ∃ g q, Dialect.reader.Spells raw g ∧ p.assign name offset (valueChars g) = .ok q ∧
      b' = { b with pending := some q } := by
  simp only [attributeToken, Builder.take, hpending] at h
  split at h
  · cases h
  · rename_i value hread
    obtain ⟨g, hg, rfl⟩ := attributeText_eq_ok_iff.mp hread
    split at h
    · cases h
    · rename_i q hassign
      cases h
      exact ⟨g, q, hg, hassign, rfl⟩

theorem take_opened (hpending : b.pending = some p) {head : Head}
    (h : p.open b.scope = .ok (head.opened p.start)) (isEmpty : Bool) (stop : Nat) :
    b.take (.opened isEmpty stop) = .ok (b.started head isEmpty p.start stop) := by
  simp only [Builder.take, hpending, h, Builder.started]
  cases isEmpty <;> rfl

theorem open_of_take (hpending : b.pending = some p) {isEmpty : Bool} {stop : Nat}
    (h : b.take (.opened isEmpty stop) = .ok b') : ∃ o, p.open b.scope = .ok o := by
  simp only [Builder.take, hpending] at h
  split at h
  · cases h
  · rename_i o hopen
    exact ⟨o, hopen⟩

end Pending

/-- Attributes are taken in one after the other. -/
theorem takeAll_attributes {l : List (Name × List Char)} {w : List Char}
    (h : Dialect.reader.AreAttributes l w) {p : Pending} {name : Name}
    {done : List (Name × List Char)} (hp : p.Says name done) (hl : Admissible (done ++ l))
    {b : Builder} (hpending : b.pending = some p) (depth offset : Nat) (r : List Char) :
    ∃ q : Pending, q.Says name (done ++ l) ∧ q.start = p.start ∧
      b.takeAll (tokensFrom (.tag depth) offset (w ++ r)) =
        Builder.takeAll { b with pending := some q }
          (tokensFrom (.tag depth) (offset + w.length) r) := by
  induction h generalizing p done b offset with
  | nil =>
      refine ⟨p, by rwa [List.append_nil], rfl, ?_⟩
      rw [← hpending]
      rfl
  | @cons key raw blanks w rest g l hsome hblank hattribute hg _ ih =>
      rw [← List.singleton_append, ← List.append_assoc] at hl ⊢
      have hfirst := hl.of_append
      obtain ⟨q, hassign⟩ :=
        (hp.assign_isOk_iff hfirst.of_append _ (offset + blanks.length)).mpr hfirst
      obtain ⟨hq, hstart⟩ := hp.assign hassign
      have htake := take_attributeToken (w := w) hpending hg hassign
      obtain ⟨q', hq', hstart', hread⟩ := ih hq hl (b := { b with pending := some q }) rfl
        (offset + (blanks ++ w).length)
      refine ⟨q', hq', hstart'.trans hstart, ?_⟩
      have hparts : blanks ++ (w ++ rest) ++ r = blanks ++ w ++ (rest ++ r) := by simp
      rw [hparts, (TagPart.assigned hsome hblank hattribute).piece, List.singleton_append,
        Builder.takeAll_cons htake, hread]
      simp only [List.length_append, Nat.add_assoc]

/-- The end of a start tag opens the element. -/
theorem takeAll_tagEnd {b : Builder} {p : Pending} {name : Name} {l : List (Name × List Char)}
    (hp : p.Says name l) (hpending : b.pending = some p)
    (hfits : Dialect.reader.Fits b.scope name l) {blanks : List Char} (hblank : Blanks blanks)
    (isEmpty : Bool) (depth offset : Nat) (r : List Char) :
    b.takeAll (tokensFrom (.tag depth) offset (blanks ++ tagEnd isEmpty ++ r)) =
      (b.started (Dialect.reader.headOf b.scope name l) isEmpty p.start
          (offset + (blanks ++ tagEnd isEmpty).length)).takeAll
        (tokensFrom (afterTag isEmpty depth) (offset + (blanks ++ tagEnd isEmpty).length) r) := by
  have hopen := (hp.open_iff_fits hfits.unreserved hfits.admissible).mpr ⟨hfits, rfl⟩
  rw [(TagPart.opened hblank).piece, List.singleton_append]
  exact Builder.takeAll_cons (take_opened hpending hopen isEmpty _) _

/-- Where reading stands before an element that has this many open elements around it. -/
def beforeElement : Nat → Mode
  | 0 => .before
  | depth + 1 => .content depth

theorem step_opening {name : Name} {n : Nat} {r : List Char} (hfound : name? r = some (name, n))
    (depth offset : Nat) :
    step (beforeElement depth) offset '<' r = .ok ⟨[.opening name offset], n, .tag depth⟩ := by
  obtain ⟨w, t, rfl, -, hnamed, -⟩ := name?_eq_some_iff.mp hfound
  obtain ⟨c, w, rfl, hstart⟩ := hnamed.start
  obtain ⟨-, hslash, -, hexclamation, hquestion⟩ := startsName_marks hstart
  have hopens : opening depth offset (c :: w ++ t) =
      .ok ⟨[.opening name offset], n, .tag depth⟩ := by
    rw [opening, hfound]
  rw [List.cons_append] at hopens ⊢
  cases depth with
  | zero =>
      have hfirst : ∀ p : List Char, ('!' :: p).isPrefixOf (c :: (w ++ t)) = false := by
        intro p
        simp [List.isPrefixOf, Ne.symm hexclamation]
      have hspace : isSpace '<' = false := by decide
      have hmarks : "!DOCTYPE".toList = '!' :: "DOCTYPE".toList := rfl
      simp only [beforeElement, step, outsideStep, hspace, hmarks, hfirst, List.head?_cons,
        Option.some.injEq, hquestion, hopens]
      simp
  | succ depth =>
      simp only [beforeElement, step, contentStep, if_true, hexclamation, hquestion, hslash,
        if_false, hopens]

/-- The name in front of a start tag is read up to a character that belongs to no name. -/
theorem tokensFrom_opening {name : Name} {w r : List Char} (hname : Dialect.reader.IsName name w)
    (hstop : ∀ c ∈ r.head?, inName c = false) (depth offset : Nat) :
    tokensFrom (beforeElement depth) offset ('<' :: w ++ r) =
      .opening name offset :: tokensFrom (.tag depth) (offset + ('<' :: w).length) r :=
  tokensFrom_step
    (step_opening (name?_eq_some_iff.mpr ⟨w, r, rfl, rfl, hname, hstop⟩) depth offset)

theorem take_opening (b : Builder) {name : Name} (hname : name.space ≠ xmlns) (offset : Nat) :
    b.take (.opening name offset) =
      .ok { b with pending := some ⟨name, offset, [], []⟩, inText := false } := by
  simp [Builder.take, hname]

theorem says_nil (name : Name) (start : Nat) : Pending.Says ⟨name, start, [], []⟩ name [] :=
  ⟨rfl, rfl, rfl⟩

theorem stops_tagEnd {b : List Char} (hb : Blanks b) (isEmpty : Bool) (r : List Char) :
    ∀ c ∈ (b ++ tagEnd isEmpty ++ r).head?, inName c = false := by
  rw [List.append_assoc]
  cases isEmpty with
  | true => exact stops_name hb (by decide)
  | false => exact stops_name hb (by decide)

theorem stops_attributes {l : List (Name × List Char)} {w : List Char}
    (h : Dialect.reader.AreAttributes l w) {r : List Char}
    (hstop : ∀ c ∈ r.head?, inName c = false) : ∀ c ∈ (w ++ r).head?, inName c = false := by
  cases h with
  | nil => exact hstop
  | @cons _ _ b w rest _ _ hsome hblank =>
      obtain ⟨d, b, rfl⟩ := List.exists_cons_of_ne_nil hsome
      rintro c ⟨⟩
      exact inName_of_isSpace (hblank d List.mem_cons_self)

theorem Dialect.IsStartTag.head? {d : Dialect} {outer : Scope} {w : List Char} {isEmpty : Bool}
    {head : Head} (h : d.IsStartTag outer w isEmpty head) (r : List Char) :
    (w ++ r).head? = some '<' := by
  cases h
  rfl

theorem Dialect.IsStartTag.ne_nil {d : Dialect} {outer : Scope} {w : List Char} {isEmpty : Bool}
    {head : Head} (h : d.IsStartTag outer w isEmpty head) : w ≠ [] := by
  cases h
  exact List.cons_ne_nil _ _

/-- A start tag opens its element wherever it stands. -/
theorem Dialect.IsStartTag.reads {outer : Scope} {w : List Char} {isEmpty : Bool} {head : Head}
    (h : Dialect.reader.IsStartTag outer w isEmpty head) {b : Builder} (hscope : b.scope = outer)
    (depth offset : Nat) (r : List Char) :
    b.takeAll (tokensFrom (beforeElement depth) offset (w ++ r)) =
      (b.started head isEmpty offset (offset + w.length)).takeAll
        (tokensFrom (afterTag isEmpty depth) (offset + w.length) r) := by
  subst hscope
  obtain @⟨name, l, written, attributes, blanks, _, hname, hattributes, hblank, hfits⟩ := h
  have hparts : '<' :: (written ++ (attributes ++ (blanks ++ tagEnd isEmpty))) ++ r =
      '<' :: written ++ (attributes ++ (blanks ++ tagEnd isEmpty ++ r)) := by simp
  have hstop := stops_attributes hattributes (stops_tagEnd hblank isEmpty r)
  let begun : Builder := { b with pending := some ⟨name, offset, [], []⟩, inText := false }
  obtain ⟨q, hq, hstart, hread⟩ := takeAll_attributes hattributes (says_nil name offset)
    hfits.admissible (b := begun) rfl depth (offset + ('<' :: written).length)
    (blanks ++ tagEnd isEmpty ++ r)
  have hend := takeAll_tagEnd (b := { begun with pending := some q }) hq rfl hfits hblank isEmpty
    depth (offset + ('<' :: written).length + attributes.length) r
  have hlength : offset + ('<' :: written).length + attributes.length +
      (blanks ++ tagEnd isEmpty).length =
        offset + ('<' :: (written ++ (attributes ++ (blanks ++ tagEnd isEmpty)))).length := by
    simp only [List.length_append, List.length_cons]
    omega
  rw [hparts, tokensFrom_opening hname hstop,
    Builder.takeAll_cons (take_opening b hfits.unreserved _), hread, hend, hlength, hstart]
  rfl

/-- The attributes of a start tag are read to its end, or the document is not complete. -/
theorem attributes_of_completes {depth offset : Nat} {s : List Char} {b : Builder} {p : Pending}
    {name : Name} {done : List (Name × List Char)} {root : Node} (hp : p.Says name done)
    (hdone : Admissible done) (hpending : b.pending = some p)
    (hunfinished : b.stack = [] → b.root = none)
    (h : b.Completes (tokensFrom (.tag depth) offset s) root) :
    ∃ l attributes blanks isEmpty r, s = attributes ++ (blanks ++ tagEnd isEmpty ++ r) ∧
      Dialect.reader.AreAttributes l attributes ∧ Blanks blanks ∧ Admissible (done ++ l) ∧
      ∃ (q : Pending) (o : Open), q.Says name (done ++ l) ∧ q.open b.scope = .ok o := by
  induction hlength : s.length using Nat.strongRecOn generalizing s b p done offset with
  | ind n ih =>
  subst hlength
  cases s with
  | nil =>
      obtain ⟨b', htaken, hstack, hroot⟩ := h
      rw [tokensFrom] at htaken
      cases htaken
      rw [hunfinished hstack] at hroot
      cases hroot
  | cons c s =>
      obtain ⟨_, htaken, -⟩ := id h
      obtain ⟨step, hstep, -⟩ := step_of_takeAll htaken
      obtain ⟨w, t, found, next, hsplit, hpart, -⟩ := tagStep_part hstep
      rw [hsplit] at h ⊢
      rw [hpart.piece] at h
      cases hpart with
      | @opened blanks isEmpty hblank =>
          obtain ⟨_, htake, -⟩ := h.take
          obtain ⟨o, hopen⟩ := open_of_take hpending htake
          refine ⟨[], [], blanks, isEmpty, t, rfl, .nil, hblank, ?_, p, o, ?_, hopen⟩
          · rwa [List.append_nil]
          · rwa [List.append_nil]
      | @assigned blanks w raw key hsome hblank hattribute =>
          obtain ⟨_, htake, h⟩ := h.take
          obtain ⟨g, q, hg, hassign, rfl⟩ := assign_of_take hpending htake
          have hadmissible := (hp.assign_isOk_iff hdone (key, valueChars g) _).mp ⟨q, hassign⟩
          have hq := (hp.assign (a := (key, valueChars g)) hassign).1
          have hshorter : t.length < (c :: s).length := by
            rw [hsplit]
            exact length_lt_append (List.append_ne_nil_of_left_ne_nil hsome w) t
          obtain ⟨l, attributes, blanks', isEmpty, r, rfl, hattributes, hblank', hl, hopens⟩ :=
            ih _ hshorter hq hadmissible (b := { b with pending := some q }) rfl hunfinished h rfl
          rw [List.append_assoc, List.singleton_append] at hl hopens
          exact ⟨_, blanks ++ (w ++ attributes), blanks', isEmpty, r, by simp,
            .cons hsome hblank hattribute hg hattributes, hblank', hl, hopens⟩

/-- What begins with a name after its bracket is a start tag, or the document is not complete. -/
theorem isStartTag_of_completes (depth : Nat) {offset : Nat} {s : List Char} {b : Builder}
    {root : Node} {name : Name} {n : Nat} (hfound : name? s = some (name, n))
    (hunfinished : b.stack = [] → b.root = none)
    (h : b.Completes (tokensFrom (beforeElement depth) offset ('<' :: s)) root) :
    ∃ w r isEmpty head, '<' :: s = w ++ r ∧
      Dialect.reader.IsStartTag b.scope w isEmpty head := by
  obtain ⟨written, t, rfl, rfl, hname, hstop⟩ := name?_eq_some_iff.mp hfound
  rw [← List.cons_append, tokensFrom_opening hname hstop] at h
  obtain ⟨_, htake, h⟩ := h.take
  have hfree : name.space ≠ xmlns := by
    intro hreserved
    simp [Builder.take, hreserved] at htake
  rw [take_opening b hfree] at htake
  cases htake
  let begun : Builder := { b with pending := some ⟨name, offset, [], []⟩, inText := false }
  obtain ⟨l, attributes, blanks, isEmpty, r, rfl, hattributes, hblank, hl, q, o, hq, hopen⟩ :=
    attributes_of_completes (b := begun) (says_nil name offset) .nil rfl hunfinished h
  have hfits := ((hq.open_iff_fits hfree hl).mp hopen).1
  exact ⟨_, r, isEmpty, _, by simp, .mk hname hattributes hblank hfits⟩

end DeadlockCapture.Xml
