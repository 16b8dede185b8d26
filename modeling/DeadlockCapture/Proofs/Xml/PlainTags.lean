import DeadlockCapture.Proofs.Xml.Pieces

/-!
Tags with plain names: no name has a prefix, and no name space is declared. Such tags are the same
in all dialects.
-/

namespace DeadlockCapture.Xml

theorem isLocalName_iff {w : List Char} :
    IsLocalName w ↔ w.head?.any startsLocalName = true ∧ w.all inLocalName = true :=
  ⟨fun h => ⟨h.starts, List.all_eq_true.mpr h.inside⟩,
    fun h => ⟨h.1, List.all_eq_true.mp h.2⟩⟩

instance (w : List Char) : Decidable (IsLocalName w) :=
  decidable_of_iff' _ isLocalName_iff

/-- A value that is read as it is written. -/
def isPlain (v : List Char) : Bool :=
  v.all fun c => isAllowed c && c != '\x27' && c != '<' && c != '&'

theorem isPlain_iff {v : List Char} :
    isPlain v = true ↔ ∀ c ∈ v, isAllowed c = true ∧ c ≠ '\x27' ∧ c ≠ '<' ∧ c ≠ '&' := by
  simp [isPlain, and_assoc]

/-- Attributes as they are written, each after a space and with its value between apostrophes. -/
def writtenAttributes (l : List (List Char × List Char)) : List Char :=
  l.flatMap fun a => ' ' :: (a.1 ++ '=' :: '\x27' :: (a.2 ++ ['\x27']))

/-- Names and values of attributes that are written as they are. -/
structure ArePlain (l : List (List Char × List Char)) : Prop where
  names : ∀ a ∈ l, IsLocalName a.1 ∧ a.1 ≠ xmlns
  values : ∀ a ∈ l, isPlain a.2 = true
  distinct : (l.map (·.1)).Nodup

theorem arePlain_iff {l : List (List Char × List Char)} :
    ArePlain l ↔ (∀ a ∈ l, IsLocalName a.1 ∧ a.1 ≠ xmlns) ∧
      (∀ a ∈ l, isPlain a.2 = true) ∧ (l.map (·.1)).Nodup :=
  ⟨fun h => ⟨h.names, h.values, h.distinct⟩, fun h => ⟨h.1, h.2.1, h.2.2⟩⟩

instance (l : List (List Char × List Char)) : Decidable (ArePlain l) :=
  decidable_of_iff' _ arePlain_iff

/-- The attributes with the values that are read. -/
def namedValues (l : List (List Char × List Char)) : List (Name × List Char) :=
  l.map fun a => (⟨[], a.1⟩, valueChars (a.2.map .written))

section Plain

variable {d : Dialect} {l : List (List Char × List Char)}

theorem Dialect.spells_map_written {v : List Char} (h : '&' ∉ v) :
    d.Spells v (v.map .written) := by
  induction v with
  | nil => exact .nil
  | cons c v ih =>
      rw [List.mem_cons, not_or] at h
      exact .written (Ne.symm h.1) (ih h.2)

theorem Dialect.areAttributes_of_plain
    (hnames : ∀ a ∈ l, IsLocalName a.1)
    (hvalues : ∀ a ∈ l, isPlain a.2 = true) :
    d.AreAttributes (namedValues l) (writtenAttributes l) := by
  induction l with
  | nil => exact .nil
  | cons a l ih =>
      obtain ⟨hname, hnames⟩ := List.forall_mem_cons.mp hnames
      obtain ⟨hvalue, hvalues⟩ := List.forall_mem_cons.mp hvalues
      have hblank : Blanks [' '] := by simp [Blanks, isSpace]
      rw [isPlain_iff] at hvalue
      have hquotable : Quotable '\x27' a.2 := by
        intro c hc
        obtain ⟨hallowed, hquote, hbracket, -⟩ := hvalue c hc
        exact ⟨hallowed, hquote, hbracket⟩
      have hspells : d.Spells a.2 (a.2.map .written) :=
        d.spells_map_written fun hc => (hvalue _ hc).2.2.2 rfl
      have hattribute : d.IsAttribute ⟨[], a.1⟩ a.2
          (a.1 ++ '=' :: '\x27' :: (a.2 ++ ['\x27'])) :=
        .mk (.plain hname) Blanks.nil Blanks.nil (.inr rfl) hquotable
      exact .cons (List.cons_ne_nil _ _) hblank hattribute hspells (ih hnames hvalues)

theorem ArePlain.names_of_mem (h : ArePlain l) :
    ∀ a ∈ namedValues l, a.1.space = [] ∧ a.1.base ≠ xmlns := by
  intro a ha
  obtain ⟨b, hb, rfl⟩ := List.mem_map.mp ha
  exact ⟨rfl, (h.names b hb).2⟩

theorem ArePlain.declaresDefault (h : ArePlain l) :
    ∀ a ∈ namedValues l, d.declaresDefault a.1 = false := by
  intro a ha
  have hbase := (h.names_of_mem a ha).2
  cases d with
  | standard =>
      refine decide_eq_false fun hsame => hbase ?_
      rw [hsame]
  | reader => simp [Dialect.declaresDefault, hbase]

theorem ArePlain.declaration? (h : ArePlain l) : (namedValues l).filterMap d.declaration? = [] := by
  refine List.filterMap_eq_nil_iff.mpr fun a ha => ?_
  have hspace : a.1.space ≠ xmlns := by
    rw [(h.names_of_mem a ha).1]
    decide
  rw [Dialect.declaration?, if_neg hspace, h.declaresDefault a ha]
  rfl

theorem ArePlain.scopeOf (h : ArePlain l) : d.scopeOf [] (namedValues l) = [] := by
  rw [Dialect.scopeOf, h.declaration?]
  rfl

theorem ArePlain.nodup (h : ArePlain l) : ((namedValues l).map (·.1)).Nodup := by
  have hnames : (namedValues l).map (·.1) = (l.map (·.1)).map (Name.mk []) := by
    simp [namedValues]
  rw [hnames, List.Nodup, List.pairwise_map]
  exact h.distinct.imp fun hother hsame => hother (Name.mk.inj hsame).2

theorem ArePlain.distinct_namedValues (h : ArePlain l) : d.Distinct (namedValues l) := by
  cases d with
  | standard => exact h.nodup
  | reader =>
      rw [Dialect.Distinct, h.declaration?]
      exact List.nodup_nil

theorem ArePlain.fits (h : ArePlain l) {base : List Char} :
    d.Fits [] ⟨[], base⟩ (namedValues l) where
  unreserved := show ([] : List Char) ≠ xmlns by decide
  known := .inl rfl
  declared a ha hspace := by
    rw [(h.names_of_mem a ha).1] at hspace
    cases hspace
  declaredDefault a ha hdefault := by
    rw [h.declaresDefault a ha] at hdefault
    cases hdefault
  distinct := h.distinct_namedValues
  resolved a ha _ := .inr (.inl (h.names_of_mem a ha).1)
  unique := by
    rw [Dialect.attributesOf, List.map_map, List.Nodup, List.pairwise_map]
    refine ((List.pairwise_map.mp h.nodup).sublist List.filter_sublist).imp_of_mem ?_
    rintro ⟨⟨space, base⟩, value⟩ ⟨⟨space', base'⟩, value'⟩ ha hb hother hsame
    obtain rfl : space = [] := (h.names_of_mem _ (List.mem_filter.mp ha).1).1
    obtain rfl : space' = [] := (h.names_of_mem _ (List.mem_filter.mp hb).1).1
    exact hother (congrArg (Name.mk []) (Prod.mk.inj hsame).2)

theorem ArePlain.isStartTag (h : ArePlain l) {base : List Char} (hbase : IsLocalName base)
    (isEmpty : Bool) :
    d.IsStartTag [] ('<' :: (base ++ (writtenAttributes l ++ tagEnd isEmpty))) isEmpty
      ⟨⟨[], base⟩, d.attributesOf [] (namedValues l), []⟩ := by
  have hattributes : d.AreAttributes (namedValues l) (writtenAttributes l) :=
    d.areAttributes_of_plain (fun a ha => (h.names a ha).1) h.values
  have htag : d.IsStartTag [] _ isEmpty _ := .mk (.plain hbase) hattributes Blanks.nil h.fits
  rwa [Dialect.headOf, h.scopeOf] at htag

theorem isStartTag_of_base {base : List Char} (h : IsLocalName base) (isEmpty : Bool) :
    d.IsStartTag [] ('<' :: (base ++ tagEnd isEmpty)) isEmpty ⟨⟨[], base⟩, [], []⟩ :=
  have hnone : ArePlain [] := by decide
  hnone.isStartTag h isEmpty

theorem isEndTag_of_base {base : List Char} (h : IsLocalName base) :
    d.IsEndTag ⟨[], base⟩ ('<' :: '/' :: (base ++ ['>'])) :=
  .mk (.plain h) Blanks.nil

end Plain

end DeadlockCapture.Xml
