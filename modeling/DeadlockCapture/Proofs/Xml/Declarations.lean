import DeadlockCapture.Proofs.Xml.Tags

/-!
The declaration in front of a document. It is taken part by part, and its length says where it ends,
whatever comes after it.
-/

namespace DeadlockCapture.Xml

open DeadlockCapture.Text

/-! ### Parts of a declaration -/

/-- An attribute that starts with a keyword. -/
def IsKeyed (key w : List Char) : Prop :=
  key <+: w ∧ ∃ name raw, Dialect.reader.IsAttribute name raw w

/-- In front of `r`, a part of the declaration is there or is left out. -/
def IsPart (key w r : List Char) : Prop :=
  w = [] ∧ ¬ key <+: r ∨ IsKeyed key w

/-- Blanks in front of `r` that divide it from the part before them. There may be none in front of
the end of the declaration. -/
structure Divides (b r : List Char) : Prop where
  blank : Blanks b
  stops : ∀ c ∈ r.head?, isSpace c = false
  ends : b = [] → r = [] ∨ "?>".toList <+: r

theorem drop_add_length {s w r : List Char} {k : Nat} (h : s.drop k = w ++ r) :
    s.drop (k + w.length) = r := by
  rw [← List.drop_drop, h, List.drop_left]

theorem Dialect.IsAttribute.mem_equals {d : Dialect} {name : Name} {raw w : List Char}
    (h : d.IsAttribute name raw w) : '=' ∈ w := by
  obtain ⟨-⟩ := h
  simp

/-- A keyword in front of an attribute lies in its name. -/
theorem Dialect.IsAttribute.prefix_iff {name : Name} {raw w key : List Char}
    (h : Dialect.reader.IsAttribute name raw w) (hkey : '=' ∉ key) (r : List Char) :
    key <+: w ++ r ↔ key <+: w := by
  have hsame := isPrefixOf_append_of_not (not_prefix_of_mem h.mem_equals hkey) r []
  rwa [List.append_nil, Bool.eq_iff_iff, List.isPrefixOf_iff_prefix, List.isPrefixOf_iff_prefix]
    at hsame

theorem declarationSpace_append {b r : List Char} (hblank : Blanks b)
    (hstops : ∀ c ∈ r.head?, isSpace c = false) {offset n : Nat} :
    declarationSpace offset (b ++ r) = .ok n ↔
      n = b.length ∧ (b = [] → r = [] ∨ "?>".toList <+: r) := by
  rw [eq_comm (a := n)]
  cases b with
  | nil =>
      cases r with
      | nil => simp [declarationSpace]
      | cons c r =>
          have hspace : isSpace c = false := hstops c rfl
          have hmark : "?>".toList = ['?', '>'] := rfl
          rw [List.nil_append, declarationSpace, hspace, hmark, ← List.isPrefixOf_iff_prefix]
          cases ['?', '>'].isPrefixOf (c :: r) <;> simp
  | cons c b =>
      have hspace : isSpace c = true := hblank c List.mem_cons_self
      have hlength := spaceRun_append hblank hstops
      rw [List.cons_append] at hlength ⊢
      rw [declarationSpace, if_pos hspace, hlength]
      simp

theorem declarationSpace_eq_ok_iff {offset n : Nat} {s : List Char} :
    declarationSpace offset s = .ok n ↔ ∃ b r, s = b ++ r ∧ n = b.length ∧ Divides b r := by
  constructor
  · intro h
    obtain ⟨b, r, rfl, -, hblank, hstops⟩ := spaceRun_split s
    obtain ⟨hlength, hends⟩ := (declarationSpace_append hblank hstops).mp h
    exact ⟨b, r, rfl, hlength, hblank, hstops, hends⟩
  · rintro ⟨b, r, rfl, hlength, hblank, hstops, hends⟩
    exact (declarationSpace_append hblank hstops).mpr ⟨hlength, hends⟩

theorem declarationPart_eq_ok_iff {key : String} (hkey : '=' ∉ key.toList) {offset n : Nat}
    {s : List Char} :
    declarationPart key offset s = .ok n ↔
      ∃ w r, s = w ++ r ∧ n = w.length ∧ IsPart key.toList w r := by
  unfold declarationPart
  constructor
  · intro h
    split at h
    · rename_i hstart
      obtain ⟨⟨t, m⟩, hread, hsame⟩ := bind_eq_ok_iff.mp h
      cases hsame
      obtain ⟨name, raw, w, r, rfl, hattribute, rfl, -⟩ := readAttribute_part hread
      rw [List.isPrefixOf_iff_prefix, hattribute.prefix_iff hkey] at hstart
      exact ⟨w, r, rfl, rfl, .inr ⟨hstart, name, raw, hattribute⟩⟩
    · rename_i hstart
      cases h
      rw [List.isPrefixOf_iff_prefix] at hstart
      exact ⟨[], s, rfl, rfl, .inl ⟨rfl, hstart⟩⟩
  · rintro ⟨w, r, rfl, rfl, ⟨rfl, hstart⟩ | ⟨hstart, name, raw, hattribute⟩⟩
    · rw [← List.isPrefixOf_iff_prefix] at hstart
      exact if_neg hstart
    · have hstart' := List.isPrefixOf_iff_prefix.mpr ((hattribute.prefix_iff hkey r).mpr hstart)
      rw [if_pos hstart', hattribute.reads]
      rfl

/-! ### The whole declaration -/

/-- The parts of a declaration in the order in which they are read: blanks, the version, blanks, the
encoding, blanks after it, the statement on outside markup, and blanks. After its end comes `r`. -/
structure Declared (b v b₁ e b₂ t b₃ r : List Char) : Prop where
  blank : Blanks b
  version : IsKeyed "version".toList v
  divided : Divides b₁ (e ++ (b₂ ++ (t ++ (b₃ ++ ("?>".toList ++ r)))))
  encoding : IsPart "encoding".toList e (b₂ ++ (t ++ (b₃ ++ ("?>".toList ++ r))))
  divided' : e = [] ∧ b₂ = [] ∨ e ≠ [] ∧ Divides b₂ (t ++ (b₃ ++ ("?>".toList ++ r)))
  standalone : IsPart "standalone".toList t (b₃ ++ ("?>".toList ++ r))
  blank' : Blanks b₃

theorem IsKeyed.stops {key w : List Char} (h : IsKeyed key w) (r : List Char) :
    ∀ c ∈ (w ++ r).head?, isSpace c = false := by
  obtain ⟨-, name, raw, hattribute⟩ := h
  obtain ⟨c, w, rfl, hc⟩ := hattribute.start
  rintro d ⟨⟩
  exact (startsName_marks hc).1

theorem IsKeyed.not_ends {key w : List Char} (h : IsKeyed key w) (r : List Char) :
    ¬ (w ++ r = [] ∨ "?>".toList <+: w ++ r) := by
  obtain ⟨-, name, raw, hattribute⟩ := h
  obtain ⟨c, w, rfl, hc⟩ := hattribute.start
  rintro (hnone | hstart)
  · cases hnone
  · obtain ⟨rfl, -⟩ := List.cons_prefix_cons.mp hstart
    cases hc

theorem IsKeyed.ne_nil {key w : List Char} (h : IsKeyed key w) : w ≠ [] := by
  rintro rfl
  have hstop := h.not_ends []
  exact hstop (.inl rfl)

/-- The length of a declaration up to `e` and of what follows there: the statement on outside
markup, blanks, and the end. -/
def declarationEnd (offset e : Nat) (s : List Char) : Except Fault Nat := do
  let f := e + (← declarationPart "standalone" (offset + e) (s.drop e))
  let g := f + spaceRun (s.drop f)
  if ['?', '>'].isPrefixOf (s.drop g) then .ok (g + 2)
  else .error ⟨.expectedText "?>", offset + g⟩

theorem declarationEnd_eq_ok_iff {offset e n : Nat} {s : List Char} :
    declarationEnd offset e s = .ok n ↔ ∃ t b r, s.drop e = t ++ (b ++ ("?>".toList ++ r)) ∧
      IsPart "standalone".toList t (b ++ ("?>".toList ++ r)) ∧ Blanks b ∧
      n = e + t.length + b.length + 2 := by
  have hpart {offset n : Nat} {s : List Char} :=
    @declarationPart_eq_ok_iff "standalone" (by decide) offset n s
  simp only [declarationEnd, bind_eq_ok_iff, hpart]
  constructor
  · rintro ⟨_, ⟨t, u, hs, rfl, ht⟩, h⟩
    obtain ⟨b, v, rfl, hlength, hb, -⟩ := spaceRun_split u
    have hs' := drop_add_length hs
    rw [hs', hlength, drop_add_length hs'] at h
    split at h
    · rename_i hend
      cases h
      obtain ⟨r, rfl⟩ := List.isPrefixOf_iff_prefix.mp hend
      exact ⟨t, b, r, hs, ht, hb, rfl⟩
    · cases h
  · rintro ⟨t, b, r, hs, ht, hb, rfl⟩
    refine ⟨t.length, ⟨t, _, hs, rfl, ht⟩, ?_⟩
    have hs' := drop_add_length hs
    have hlength : spaceRun (b ++ ("?>".toList ++ r)) = b.length :=
      spaceRun_append hb (by rintro c ⟨⟩; decide)
    have hend : ['?', '>'].isPrefixOf ("?>".toList ++ r) = true :=
      List.isPrefixOf_iff_prefix.mpr (List.prefix_append _ r)
    rw [hs', hlength, drop_add_length hs', if_pos hend]

theorem declarationLength_of_present {s : List Char} (h : "<?xml ".toList <+: s) (offset : Nat) :
    declarationLength offset s =
      let a := 5 + spaceRun (s.drop 5)
      if "version".toList.isPrefixOf (s.drop a) then do
        let (_, version) ← readAttribute (offset + a) (s.drop a)
        let b := a + version
        let c := b + (← declarationSpace (offset + b) (s.drop b))
        let encoding ← declarationPart "encoding" (offset + c) (s.drop c)
        let d := c + encoding
        if encoding = 0 then declarationEnd offset d s
        else do
          let e := d + (← declarationSpace (offset + d) (s.drop d))
          declarationEnd offset e s
      else .error ⟨.expectedText "version", offset + a⟩ := by
  rw [declarationLength, if_pos (List.isPrefixOf_iff_prefix.mpr h)]
  rfl

theorem declared_of_declarationLength {offset n : Nat} {s : List Char}
    (hpresent : "<?xml ".toList <+: s) (h : declarationLength offset s = .ok n) :
    ∃ b v b₁ e b₂ t b₃ r,
      s.drop 5 = b ++ (v ++ (b₁ ++ (e ++ (b₂ ++ (t ++ (b₃ ++ ("?>".toList ++ r))))))) ∧
      Declared b v b₁ e b₂ t b₃ r ∧
      n = 5 + b.length + v.length + b₁.length + e.length + b₂.length + t.length + b₃.length +
        2 := by
  have hpart {offset n : Nat} {s : List Char} :=
    @declarationPart_eq_ok_iff "encoding" (by decide) offset n s
  have hversion : '=' ∉ "version".toList := by decide
  rw [declarationLength_of_present hpresent] at h
  obtain ⟨b, r₀, hs₀, hlength, hb, -⟩ := spaceRun_split (s.drop 5)
  have hs₁ := drop_add_length hs₀
  simp only [hlength, hs₁] at h
  split at h
  · rename_i hstart
    obtain ⟨⟨token, k⟩, hread, h⟩ := bind_eq_ok_iff.mp h
    obtain ⟨name, raw, v, r₁, rfl, hv, rfl, -⟩ := readAttribute_part hread
    rw [List.isPrefixOf_iff_prefix, hv.prefix_iff hversion] at hstart
    have hs₂ := drop_add_length hs₁
    obtain ⟨_, hspace, h⟩ := bind_eq_ok_iff.mp h
    rw [hs₂] at hspace
    obtain ⟨b₁, r₂, rfl, rfl, hb₁⟩ := declarationSpace_eq_ok_iff.mp hspace
    have hs₃ := drop_add_length hs₂
    obtain ⟨_, hencoding, h⟩ := bind_eq_ok_iff.mp h
    rw [hs₃] at hencoding
    obtain ⟨e, r₃, rfl, rfl, he⟩ := hpart.mp hencoding
    have hs₄ := drop_add_length hs₃
    split at h
    · rename_i hnone
      obtain rfl := List.length_eq_zero_iff.mp hnone
      obtain ⟨t, b₃, r, hs₅, ht, hb₃, rfl⟩ := declarationEnd_eq_ok_iff.mp h
      obtain rfl := hs₄.symm.trans hs₅
      exact ⟨b, v, b₁, [], [], t, b₃, r, hs₀,
        ⟨hb, ⟨hstart, name, raw, hv⟩, hb₁, he, .inl ⟨rfl, rfl⟩, ht, hb₃⟩, rfl⟩
    · rename_i hsome
      obtain ⟨_, hspace, h⟩ := bind_eq_ok_iff.mp h
      rw [hs₄] at hspace
      obtain ⟨b₂, r₄, rfl, rfl, hb₂⟩ := declarationSpace_eq_ok_iff.mp hspace
      have hs₅ := drop_add_length hs₄
      obtain ⟨t, b₃, r, hs₆, ht, hb₃, rfl⟩ := declarationEnd_eq_ok_iff.mp h
      obtain rfl := hs₅.symm.trans hs₆
      have hfilled : e ≠ [] := fun hnone => hsome (List.length_eq_zero_iff.mpr hnone)
      exact ⟨b, v, b₁, e, b₂, t, b₃, r, hs₀,
        ⟨hb, ⟨hstart, name, raw, hv⟩, hb₁, he, .inr ⟨hfilled, hb₂⟩, ht, hb₃⟩, rfl⟩
  · cases h

theorem Declared.declarationLength {s b v b₁ e b₂ t b₃ r : List Char}
    (h : Declared b v b₁ e b₂ t b₃ r) (hpresent : "<?xml ".toList <+: s)
    (hs₀ : s.drop 5 = b ++ (v ++ (b₁ ++ (e ++ (b₂ ++ (t ++ (b₃ ++ ("?>".toList ++ r))))))))
    (offset : Nat) :
    declarationLength offset s = .ok (5 + b.length + v.length + b₁.length + e.length + b₂.length +
      t.length + b₃.length + 2) := by
  obtain ⟨hb, hv, hb₁, he, hb₂, ht, hb₃⟩ := h
  have hpart {offset n : Nat} {s : List Char} :=
    @declarationPart_eq_ok_iff "encoding" (by decide) offset n s
  have hversion : '=' ∉ "version".toList := by decide
  rw [declarationLength_of_present hpresent]
  have hlength : spaceRun (s.drop 5) = b.length := by
    rw [hs₀]
    exact spaceRun_append hb (hv.stops _)
  obtain ⟨hstart, name, raw, hattribute⟩ := hv
  have hs₁ := drop_add_length hs₀
  have hs₂ := drop_add_length hs₁
  have hs₃ := drop_add_length hs₂
  have hs₄ := drop_add_length hs₃
  have hs₅ := drop_add_length hs₄
  have hstart' (r : List Char) :=
    List.isPrefixOf_iff_prefix.mpr ((hattribute.prefix_iff hversion r).mpr hstart)
  simp only [hlength, hs₁]
  rw [if_pos (hstart' _), hattribute.reads]
  refine bind_eq_ok_iff.mpr ⟨_, rfl, bind_eq_ok_iff.mpr ⟨b₁.length, ?_, ?_⟩⟩
  · rw [hs₂]
    exact declarationSpace_eq_ok_iff.mpr ⟨b₁, _, rfl, rfl, hb₁⟩
  refine bind_eq_ok_iff.mpr ⟨e.length, ?_, ?_⟩
  · rw [hs₃]
    exact hpart.mpr ⟨e, _, rfl, rfl, he⟩
  have hend := (@declarationEnd_eq_ok_iff offset
    (5 + b.length + v.length + b₁.length + e.length + b₂.length) _ s).mpr
      ⟨t, b₃, r, hs₅, ht, hb₃, rfl⟩
  obtain ⟨rfl, rfl⟩ | ⟨hsome, hb₂⟩ := hb₂
  · exact hend
  · rw [if_neg fun hnone => hsome (List.length_eq_zero_iff.mp hnone)]
    refine bind_eq_ok_iff.mpr ⟨b₂.length, ?_, hend⟩
    rw [hs₄]
    exact declarationSpace_eq_ok_iff.mpr ⟨b₂, _, rfl, rfl, hb₂⟩

theorem declares_reader_iff {key w : List Char} {isValue : List Char → Prop} :
    Dialect.reader.Declares key isValue w ↔
      ∃ b a, w = b ++ a ∧ b ≠ [] ∧ Blanks b ∧ IsKeyed key a := by
  constructor
  · rintro ⟨b, a, name, raw, rfl, hsome, hb, hattribute, hkey⟩
    exact ⟨b, a, rfl, hsome, hb, hkey, name, raw, hattribute⟩
  · rintro ⟨b, a, rfl, hsome, hb, hkey, name, raw, hattribute⟩
    exact ⟨b, a, name, raw, rfl, hsome, hb, hattribute, hkey⟩

theorem Blanks.append {b b' : List Char} (h : Blanks b) (h' : Blanks b') : Blanks (b ++ b') :=
  List.forall_mem_append.mpr ⟨h, h'⟩

theorem Divides.ne_nil {key b w r : List Char} (h : Divides b (w ++ r)) (hw : IsKeyed key w) :
    b ≠ [] :=
  fun hnone => hw.not_ends r (h.ends hnone)

/-- What is read of a declaration in front of any text is a declaration. -/
theorem Declared.isDeclaration {b v b₁ e b₂ t b₃ r : List Char} (h : Declared b v b₁ e b₂ t b₃ r)
    (hspace : b.head? = some ' ') :
    Dialect.reader.IsDeclaration
      ("<?xml".toList ++ (b ++ (v ++ (b₁ ++ (e ++ (b₂ ++ (t ++ (b₃ ++ "?>".toList)))))))) := by
  obtain ⟨hb, hv, hb₁, he, hb₂, ht, hb₃⟩ := h
  have hsome : b ≠ [] := by
    rintro rfl
    cases hspace
  have hversion : Dialect.reader.Declares "version".toList IsVersion (b ++ v) :=
    declares_reader_iff.mpr ⟨b, v, rfl, hsome, hb, hv⟩
  have hspace' : (b ++ v).head? = some ' ' := by rw [head?_append_of_some hsome, hspace]
  obtain ⟨rfl, rfl⟩ | ⟨hfilled, hb₂⟩ := hb₂
  · obtain ⟨rfl, -⟩ | ht := ht
    · exact ⟨b ++ v, [], [], b₁ ++ b₃, by simp, hversion, .inl rfl, .inl rfl, hb₁.blank.append hb₃,
        hspace'⟩
    · rw [List.nil_append, List.nil_append] at hb₁
      refine ⟨b ++ v, [], b₁ ++ t, b₃, by simp, hversion, .inl rfl, .inr ?_, hb₃, hspace'⟩
      exact declares_reader_iff.mpr ⟨b₁, t, rfl, hb₁.ne_nil ht, hb₁.blank, ht⟩
  · have he := he.resolve_left fun hnone => hfilled hnone.1
    have hencoding : Dialect.reader.Declares "encoding".toList IsEncoding (b₁ ++ e) :=
      declares_reader_iff.mpr ⟨b₁, e, rfl, hb₁.ne_nil he, hb₁.blank, he⟩
    obtain ⟨rfl, -⟩ | ht := ht
    · exact ⟨b ++ v, b₁ ++ e, [], b₂ ++ b₃, by simp, hversion, .inr hencoding, .inl rfl,
        hb₂.blank.append hb₃, hspace'⟩
    · refine ⟨b ++ v, b₁ ++ e, b₂ ++ t, b₃, by simp, hversion, .inr hencoding, .inr ?_, hb₃,
        hspace'⟩
      exact declares_reader_iff.mpr ⟨b₂, t, rfl, hb₂.ne_nil ht, hb₂.blank, ht⟩

theorem IsKeyed.divides {key b w : List Char} (h : IsKeyed key w) (hb : Blanks b) (hsome : b ≠ [])
    (r : List Char) : Divides b (w ++ r) :=
  ⟨hb, h.stops r, fun hnone => absurd hnone hsome⟩

theorem divides_end {b : List Char} (hb : Blanks b) (r : List Char) :
    Divides b ("?>".toList ++ r) :=
  ⟨hb, by rintro c ⟨⟩; decide, fun _ => .inr (List.prefix_append _ r)⟩

theorem isPart_nil_end {key : List Char} (hsome : key ≠ []) (hkey : '?' ∉ key) (r : List Char) :
    IsPart key [] ("?>".toList ++ r) := by
  refine .inl ⟨rfl, ?_⟩
  cases key with
  | nil => exact absurd rfl hsome
  | cons c key =>
      intro hstart
      obtain ⟨rfl, -⟩ := List.cons_prefix_cons.mp hstart
      exact hkey List.mem_cons_self

/-- A declaration is read in front of any text. -/
theorem Dialect.IsDeclaration.declared {w : List Char} (h : Dialect.reader.IsDeclaration w)
    (r : List Char) : ∃ b v b₁ e b₂ t b₃,
      w = "<?xml".toList ++ (b ++ (v ++ (b₁ ++ (e ++ (b₂ ++ (t ++ (b₃ ++ "?>".toList))))))) ∧
      b.head? = some ' ' ∧ Declared b v b₁ e b₂ t b₃ r := by
  obtain ⟨version, encoding, standalone, b₃, rfl, hversion, hencoding, hstandalone, hb₃,
    hspace⟩ := h
  obtain ⟨b, v, rfl, hsome, hb, hv⟩ := declares_reader_iff.mp hversion
  replace hspace : b.head? = some ' ' := by rwa [head?_append_of_some hsome] at hspace
  have hnoPart : IsPart "standalone".toList [] ("?>".toList ++ r) :=
    isPart_nil_end (by simp) (by decide) r
  obtain rfl | hencoding := hencoding
  · obtain rfl | hstandalone := hstandalone
    · refine ⟨b, v, b₃, [], [], [], [], by simp, hspace, hb, hv, divides_end hb₃ r, ?_,
        .inl ⟨rfl, rfl⟩, hnoPart, Blanks.nil⟩
      exact isPart_nil_end (by simp) (by decide) r
    · obtain ⟨b₁, t, rfl, hsome₁, hb₁, ht⟩ := declares_reader_iff.mp hstandalone
      refine ⟨b, v, b₁, [], [], t, b₃, by simp, hspace, hb, hv, ht.divides hb₁ hsome₁ _, ?_,
        .inl ⟨rfl, rfl⟩, .inr ht, hb₃⟩
      -- The statement on outside markup is no encoding.
      refine .inl ⟨rfl, fun hstart => ?_⟩
      obtain ⟨t, rfl⟩ := ht.1
      obtain ⟨u, hu⟩ := hstart
      cases (List.cons.inj hu).1
  · obtain ⟨b₁, e, rfl, hsome₁, hb₁, he⟩ := declares_reader_iff.mp hencoding
    obtain rfl | hstandalone := hstandalone
    · exact ⟨b, v, b₁, e, b₃, [], [], by simp, hspace, hb, hv, he.divides hb₁ hsome₁ _, .inr he,
        .inr ⟨he.ne_nil, divides_end hb₃ r⟩, hnoPart, Blanks.nil⟩
    · obtain ⟨b₂, t, rfl, hsome₂, hb₂, ht⟩ := declares_reader_iff.mp hstandalone
      exact ⟨b, v, b₁, e, b₂, t, b₃, by simp, hspace, hb, hv, he.divides hb₁ hsome₁ _, .inr he,
        .inr ⟨he.ne_nil, ht.divides hb₂ hsome₂ _⟩, .inr ht, hb₃⟩

theorem head?_of_space {b r u : List Char} {c : Char} (h : b ++ r = c :: u)
    (hspace : isSpace c = true) (hstops : ∀ d ∈ r.head?, isSpace d = false) :
    b.head? = some c := by
  cases b with
  | nil =>
      have hother : isSpace c = false := hstops c (by rw [show r = c :: u from h]; rfl)
      rw [hspace] at hother
      cases hother
  | cons d b =>
      obtain ⟨rfl, -⟩ := List.cons.inj h
      rfl

/-- The length is that of the declaration in front, or nothing without the mark of one. -/
theorem declarationLength_eq_ok_iff {offset n : Nat} {s : List Char} :
    declarationLength offset s = .ok n ↔ n = 0 ∧ ¬ "<?xml ".toList <+: s ∨
      ∃ w r, s = w ++ r ∧ Dialect.reader.IsDeclaration w ∧ n = w.length := by
  constructor
  · intro h
    by_cases hpresent : "<?xml ".toList <+: s
    · obtain ⟨b, v, b₁, e, b₂, t, b₃, r, hs, hparts, rfl⟩ :=
        declared_of_declarationLength hpresent h
      obtain ⟨u, rfl⟩ := hpresent
      have hrest : ("<?xml ".toList ++ u).drop 5 = ' ' :: u := rfl
      have hspace : b.head? = some ' ' :=
        head?_of_space (hs.symm.trans hrest) (by decide) (hparts.version.stops _)
      have hwhole : "<?xml ".toList ++ u = "<?xml".toList ++ ("<?xml ".toList ++ u).drop 5 := rfl
      refine .inr ⟨_, r, ?_, hparts.isDeclaration hspace, ?_⟩
      · rw [hwhole, hs]
        simp
      · simp only [List.length_append, String.length_toList]
        have hlength : "<?xml".length = 5 ∧ "?>".length = 2 := ⟨rfl, rfl⟩
        omega
    · rw [declarationLength, if_neg (fun h => hpresent (List.isPrefixOf_iff_prefix.mp h))] at h
      cases h
      exact .inl ⟨rfl, hpresent⟩
  · rintro (⟨rfl, habsent⟩ | ⟨w, r, rfl, hw, rfl⟩)
    · rw [declarationLength, if_neg (fun h => habsent (List.isPrefixOf_iff_prefix.mp h))]
    · obtain ⟨b, v, b₁, e, b₂, t, b₃, rfl, hspace, hparts⟩ := hw.declared r
      obtain ⟨b, rfl⟩ := List.head?_eq_some_iff.mp hspace
      have hread := hparts.declarationLength (s := "<?xml".toList ++ (' ' :: b ++ (v ++ (b₁ ++
        (e ++ (b₂ ++ (t ++ (b₃ ++ ("?>".toList ++ r)))))))) ) ⟨_, rfl⟩ rfl offset
      simp only [List.append_assoc]
      rw [hread]
      simp only [List.length_append, String.length_toList]
      have hlength : "<?xml".length = 5 ∧ "?>".length = 2 := ⟨rfl, rfl⟩
      congr 1
      omega

/-- A declaration is read from the characters up to the end of the tag after it. -/
theorem declarationLength_append {offset n : Nat} {u r : List Char} (hmark : '>' ∈ u)
    (h : declarationLength offset (u ++ r) = .ok n) (hshort : n ≤ u.length) (r' : List Char) :
    declarationLength offset (u ++ r') = .ok n := by
  obtain ⟨rfl, habsent⟩ | ⟨w, s, hsplit, hw, rfl⟩ := declarationLength_eq_ok_iff.mp h
  · refine declarationLength_eq_ok_iff.mpr (.inl ⟨rfl, ?_⟩)
    have hsame := isPrefixOf_append_of_not (not_prefix_of_mem hmark
      (show '>' ∉ "<?xml ".toList by decide)) r' r
    rwa [← List.isPrefixOf_iff_prefix, hsame, List.isPrefixOf_iff_prefix]
  · obtain ⟨v, rfl⟩ : w <+: u :=
      List.prefix_of_prefix_length_le ⟨s, hsplit.symm⟩ (List.prefix_append u r) hshort
    exact declarationLength_eq_ok_iff.mpr (.inr ⟨w, v ++ r', List.append_assoc .., hw, rfl⟩)

end DeadlockCapture.Xml
