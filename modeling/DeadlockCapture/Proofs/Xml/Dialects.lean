import DeadlockCapture.Proofs.Xml.Documents

/-!
Texts that are documents in both dialects. Whatever the standard allows in front of a root element
and below it is written as the reader would have it, except for document type declarations; so a
text that both take has the same pieces at the same places, whatever either makes of them.
-/

namespace DeadlockCapture.Xml

open DeadlockCapture.Text

/-! ### What the standard writes as the reader does -/

section Reader

variable {d : Dialect}

theorem Dialect.NamesSpace.reader {w : List Char} (h : d.NamesSpace w) :
    Dialect.reader.NamesSpace w := by
  cases d with
  | standard => exact .inr h
  | reader => exact h

theorem Dialect.IsName.reader {name : Name} {w : List Char} (h : d.IsName name w) :
    Dialect.reader.IsName name w := by
  cases h with
  | plain hbase => exact .plain hbase
  | qualified hspace hbase => exact .qualified hspace.reader hbase

theorem Dialect.Numbers.reader {n : Nat} {c : Char} (h : d.Numbers n c) :
    Dialect.reader.Numbers n c := by
  cases d with
  | standard =>
      obtain ⟨rfl, hallowed⟩ := h
      have hvalid : c.toNat.isValidChar := c.valid
      refine ⟨?_, ?_, hallowed⟩
      · have hsmall : c.toNat < 0x110000 := by
          unfold Nat.isValidChar at hvalid
          omega
        exact Nat.le_trans hsmall.le (by decide)
      · rw [if_pos hvalid, Char.ofNat_toNat]
  | reader => exact h

theorem Dialect.Refers.reader {name : List Char} {c : Char} (h : d.Refers name c) :
    Dialect.reader.Refers name c := by
  cases h with
  | named hname => exact .named hname
  | decimal hsome hdigits hnumber => exact .decimal hsome hdigits hnumber.reader
  | hexadecimal hsome hdigits hnumber => exact .hexadecimal hsome hdigits hnumber.reader

theorem Dialect.Spells.reader {raw : List Char} {g : List Glyph} (h : d.Spells raw g) :
    Dialect.reader.Spells raw g := by
  induction h with
  | nil => exact .nil
  | referred hrefers _ ih => exact .referred hrefers.reader ih
  | written hother _ ih => exact .written hother ih

theorem Dialect.IsAttribute.reader {name : Name} {raw w : List Char}
    (h : d.IsAttribute name raw w) : Dialect.reader.IsAttribute name raw w := by
  obtain ⟨hname, hb, hb', hquote, hraw⟩ := h
  exact .mk hname.reader hb hb' hquote hraw

theorem Dialect.AreAttributes.reader {l : List (Name × List Char)} {w : List Char}
    (h : d.AreAttributes l w) : Dialect.reader.AreAttributes l w := by
  induction h with
  | nil => exact .nil
  | cons hsome hblank hattribute hspells _ ih =>
      exact .cons hsome hblank hattribute.reader hspells.reader ih

theorem Dialect.IsEndTag.reader {name : Name} {w : List Char} (h : d.IsEndTag name w) :
    Dialect.reader.IsEndTag name w := by
  obtain ⟨hname, hblank⟩ := h
  exact .mk hname.reader hblank

/-- The target of an instruction starts like a name, and it is not that of a declaration. -/
theorem Dialect.Instructs.reader {body : List Char} (h : d.Instructs body) :
    Dialect.reader.Instructs body := by
  cases d with
  | reader => exact h
  | standard =>
      obtain ⟨target, data, rfl, htarget, hother, hdata⟩ := h
      constructor
      · cases target with
        | nil => cases htarget.starts
        | cons c target => exact startsName_of_local htarget.starts
      · rintro ⟨r, hr⟩
        have hrun := htarget.takeWhile_append hdata (r := []) (by rintro c ⟨⟩)
        have hdeclares : ("xml ".toList ++ r).takeWhile inLocalName = xml :=
          takeWhile_eq_iff (w := xml) (r := ' ' :: r).mpr
            ⟨forall_mem_of_all (by decide), by rintro c ⟨⟩; decide⟩
        rw [List.append_nil, ← hr, hdeclares] at hrun
        rw [← hrun] at hother
        exact hother (by decide)

theorem Dialect.IsAside.reader {w : List Char} (h : d.IsAside w) : Dialect.reader.IsAside w := by
  obtain hcomment | ⟨hbody, hinstructs⟩ := h
  · exact .inl hcomment
  · exact .inr (.mk hbody hinstructs.reader)

theorem Dialect.IsMisc.reader {w : List Char} (h : d.IsMisc w) : Dialect.reader.IsMisc w := by
  induction h with
  | nil => exact .nil
  | blank hspace _ ih => exact .blank hspace ih
  | aside haside _ ih => exact .aside haside.reader ih

end Reader

/-! ### Start tags as they are written -/

/-- A start tag as it is written, whatever its names stand for. -/
inductive IsTag (name : Name) (isEmpty : Bool) : List Char → Prop
  | mk {l : List (Name × List Char)} {w attributes b : List Char} :
      Dialect.reader.IsName name w → Dialect.reader.AreAttributes l attributes → Blanks b →
      IsTag name isEmpty ('<' :: (w ++ (attributes ++ (b ++ tagEnd isEmpty))))

theorem Dialect.IsStartTag.isTag {d : Dialect} {outer : Scope} {w : List Char} {isEmpty : Bool}
    {head : Head} (h : d.IsStartTag outer w isEmpty head) : IsTag head.name isEmpty w := by
  obtain ⟨hname, hattributes, hblank, -⟩ := h
  exact .mk hname.reader hattributes.reader hblank

theorem Piece.append {mode middle next : Mode} {w w' : List Char} {found found' : Nat → List Token}
    (h : Piece mode w found middle) (h' : Piece middle w' found' next) :
    Piece mode (w ++ w') (fun offset => found offset ++ found' (offset + w.length)) next := by
  intro offset r
  rw [List.append_assoc, h, h', List.length_append, List.append_assoc, Nat.add_assoc]

def Token.isOpened : Token → Bool
  | .opened .. => true
  | .opening .. | .assignment .. | .closing .. | .text .. | .verbatim .. | .aside _ | .fault _ =>
    false

theorem Dialect.AreAttributes.piece {l : List (Name × List Char)} {w : List Char}
    (h : Dialect.reader.AreAttributes l w) (depth : Nat) :
    ∃ found, Piece (.tag depth) w found (.tag depth) ∧
      ∀ offset, ∀ t ∈ found offset, t.isOpened = false := by
  induction h with
  | nil => exact ⟨fun _ => [], fun _ _ => rfl, by simp⟩
  | cons hsome hblank hattribute _ _ ih =>
      obtain ⟨found, hpiece, hothers⟩ := ih
      have hfirst : TagPart depth _ _ _ := .assigned hsome hblank hattribute
      have hwhole := hfirst.piece.append hpiece
      rw [List.append_assoc] at hwhole
      refine ⟨_, hwhole, fun offset => List.forall_mem_append.mpr ⟨?_, hothers _⟩⟩
      exact List.forall_mem_singleton.mpr rfl

/-- The tokens of a start tag: its end is marked by the last and by no other. -/
theorem IsTag.piece {name : Name} {isEmpty : Bool} {w : List Char} (h : IsTag name isEmpty w)
    (depth : Nat) :
    ∃ (found : Nat → List Token) (stop : Nat → Nat),
      (∀ offset, ∀ t ∈ found offset, t.isOpened = false) ∧
      Piece (beforeElement depth) w
        (fun offset => .opening name offset :: (found offset ++ [.opened isEmpty (stop offset)]))
        (afterTag isEmpty depth) := by
  obtain @⟨l, written, attributes, b, hname, hattributes, hblank⟩ := h
  obtain ⟨found, hpiece, hothers⟩ := hattributes.piece depth
  have hend : TagPart depth (b ++ tagEnd isEmpty) _ _ := .opened hblank
  have hrest := hpiece.append hend.piece
  refine ⟨fun offset => found (offset + ('<' :: written).length),
    fun offset => offset + ('<' :: written).length + attributes.length +
      (b ++ tagEnd isEmpty).length, fun _ => hothers _, ?_⟩
  intro offset r
  have hparts : '<' :: (written ++ (attributes ++ (b ++ tagEnd isEmpty))) ++ r =
      '<' :: written ++ (attributes ++ (b ++ tagEnd isEmpty) ++ r) := by simp
  have hstop := stops_attributes hattributes (stops_tagEnd hblank isEmpty r)
  have hlength : offset + ('<' :: written).length + (attributes ++ (b ++ tagEnd isEmpty)).length =
      offset + ('<' :: (written ++ (attributes ++ (b ++ tagEnd isEmpty)))).length := by
    rw [Nat.add_assoc, ← List.length_append, List.cons_append]
  rw [← List.append_assoc] at hstop
  rw [hparts, tokensFrom_opening hname hstop, hrest, hlength]
  rfl

/-- In the content of an element there is a token for all that is read. -/
theorem eq_nil_of_tokensFrom {depth offset : Nat} {s : List Char}
    (h : tokensFrom (.content depth) offset s = []) : s = [] := by
  cases s with
  | nil => rfl
  | cons c t =>
      rw [tokensFrom] at h
      cases hstep : step (.content depth) offset c t with
      | error f => simp [hstep] at h
      | ok s =>
          rw [hstep] at h
          cases contentStep_part hstep <;> simp_all

/-- Of two pieces with one token each, none is a part of the other. -/
theorem Piece.eq_nil {w v : List Char} {found found' : Nat → Token} {next : Mode} {depth : Nat}
    (h : Piece (.content 1) w (fun offset => [found offset]) (.content depth))
    (h' : Piece (.content 1) (w ++ v) (fun offset => [found' offset]) next) : v = [] := by
  have hshort := h 0 v
  have hlong := h' 0 []
  rw [List.append_nil, hshort, tokensFrom] at hlong
  simp only [List.cons_append, List.nil_append, List.cons.injEq] at hlong
  exact eq_nil_of_tokensFrom hlong.2

/-- Two pieces with one token each in front of one text are the same. -/
theorem Piece.unique {w w' r r' : List Char} {found found' : Nat → Token} {depth depth' : Nat}
    (h : Piece (.content 1) w (fun offset => [found offset]) (.content depth))
    (h' : Piece (.content 1) w' (fun offset => [found' offset]) (.content depth'))
    (hsame : w ++ r = w' ++ r') : w = w' ∧ r = r' := by
  obtain ⟨v, rfl, rfl⟩ | ⟨v, rfl, rfl⟩ := List.append_eq_append_iff.mp hsame
  · obtain rfl := h.eq_nil h'
    exact ⟨(List.append_nil w).symm, rfl⟩
  · obtain rfl := h'.eq_nil h
    exact ⟨List.append_nil w', rfl⟩

theorem eq_of_isOpened {l l' r : List Token} {t t' : Token}
    (h : ∀ u ∈ l, u.isOpened = false) (h' : ∀ u ∈ l', u.isOpened = false)
    (ht : t.isOpened = true) (ht' : t'.isOpened = true) (hsame : l ++ t :: r = l' ++ [t']) :
    t = t' ∧ r = [] := by
  induction l generalizing l' with
  | nil =>
      cases l' with
      | nil => simpa using hsame
      | cons u l' =>
          obtain ⟨rfl, -⟩ := List.cons.inj hsame
          rw [h' _ List.mem_cons_self] at ht
          cases ht
  | cons u l ih =>
      cases l' with
      | nil =>
          obtain ⟨rfl, -⟩ := List.cons.inj hsame
          rw [h _ List.mem_cons_self] at ht'
          cases ht'
      | cons u' l' =>
          exact ih (List.forall_mem_cons.mp h).2 (List.forall_mem_cons.mp h').2
            (List.cons.inj hsame).2

theorem IsTag.eq_nil {name name' : Name} {isEmpty isEmpty' : Bool} {w v : List Char}
    (h : IsTag name isEmpty w) (h' : IsTag name' isEmpty' (w ++ v)) :
    v = [] ∧ name = name' ∧ isEmpty = isEmpty' := by
  obtain ⟨found, stop, hothers, hpiece⟩ := h.piece 2
  obtain ⟨found', stop', hothers', hpiece'⟩ := h'.piece 2
  have hshort := hpiece 0 v
  have hlong := hpiece' 0 []
  rw [List.append_nil, hshort, tokensFrom, List.append_nil, List.cons_append, List.append_assoc,
    List.singleton_append] at hlong
  obtain ⟨hfirst, hrest⟩ := List.cons.inj hlong
  obtain ⟨hlast, hnone⟩ := eq_of_isOpened (hothers 0) (hothers' 0) rfl rfl hrest
  obtain ⟨rfl, -⟩ := Token.opening.inj hfirst
  obtain ⟨rfl, -⟩ := Token.opened.inj hlast
  cases isEmpty with
  | true => exact ⟨@eq_nil_of_tokensFrom 1 _ _ hnone, rfl, rfl⟩
  | false => exact ⟨@eq_nil_of_tokensFrom 2 _ _ hnone, rfl, rfl⟩

/-- A text starts with one start tag at most. -/
theorem IsTag.unique {name name' : Name} {isEmpty isEmpty' : Bool} {w w' r r' : List Char}
    (h : IsTag name isEmpty w) (h' : IsTag name' isEmpty' w') (hsame : w ++ r = w' ++ r') :
    w = w' ∧ r = r' ∧ name = name' ∧ isEmpty = isEmpty' := by
  obtain ⟨v, rfl, rfl⟩ | ⟨v, rfl, rfl⟩ := List.append_eq_append_iff.mp hsame
  · obtain ⟨rfl, hname, hempty⟩ := h.eq_nil h'
    exact ⟨(List.append_nil w).symm, rfl, hname, hempty⟩
  · obtain ⟨rfl, hname, hempty⟩ := h'.eq_nil h
    exact ⟨List.append_nil w', rfl, hname.symm, hempty.symm⟩

/-! ### Markup of one text -/

/-- What content starts with, told from its first characters. -/
inductive Lead where
  | text
  | verbatim
  | aside
  | tag
  | closing

def leadOf : List Char → Lead
  | '<' :: '/' :: _ => .closing
  | '<' :: '!' :: '[' :: _ => .verbatim
  | '<' :: '!' :: _ => .aside
  | '<' :: '?' :: _ => .aside
  | '<' :: _ => .tag
  | _ => .text

/-- Behind the markup stands the end tag of an element. -/
def Markup.lead : Markup → Lead
  | .nil => .closing
  | .text .. => .text
  | .verbatim .. => .verbatim
  | .aside .. => .aside
  | .empty .. | .element .. => .tag

theorem leadOf_tag {c : Char} (h : startsName c = true) (r : List Char) :
    leadOf ('<' :: c :: r) = .tag := by
  have hother : c ≠ '/' ∧ c ≠ '!' ∧ c ≠ '?' := by
    refine ⟨?_, ?_, ?_⟩ <;>
    · rintro rfl
      cases h
  unfold leadOf
  split <;> simp_all

theorem IsTag.leadOf {name : Name} {isEmpty : Bool} {w : List Char} (h : IsTag name isEmpty w)
    (r : List Char) : leadOf (w ++ r) = .tag := by
  obtain ⟨hname, -⟩ := h
  obtain ⟨c, t, rfl, hc⟩ := hname.start
  exact leadOf_tag hc _

theorem Dialect.IsAside.leadOf {d : Dialect} {w : List Char} (h : d.IsAside w) (r : List Char) :
    leadOf (w ++ r) = .aside := by
  obtain ⟨⟨⟩⟩ | ⟨⟨⟩⟩ := h <;> rfl

theorem IsText.leadOf {raw : List Char} (h : IsText raw) (r : List Char) :
    leadOf (raw ++ r) = .text := by
  cases raw with
  | nil => exact absurd rfl h.filled
  | cons c raw =>
      have hother : c ≠ '<' := fun hsame => h.noBracket (hsame ▸ List.mem_cons_self)
      unfold Xml.leadOf
      split <;> simp_all

/-- Markup and the end tag behind it start as the markup says. -/
theorem Markup.Stands.leadOf {d : Dialect} {scope : Scope} {c : Markup} (h : c.Stands d scope)
    {name : Name} {close : List Char} (hend : d.IsEndTag name close) (r : List Char) :
    leadOf (c.source ++ (close ++ r)) = c.lead := by
  cases h with
  | nil =>
      cases hend
      rfl
  | text htext =>
      rw [source, List.append_assoc]
      exact htext.leadOf _
  | verbatim hsection =>
      cases hsection
      rfl
  | aside haside =>
      rw [source, List.append_assoc]
      exact haside.leadOf _
  | empty hstart =>
      rw [source, List.append_assoc]
      exact hstart.isTag.leadOf _
  | element hstart =>
      rw [source, List.append_assoc]
      exact hstart.isTag.leadOf _

/-- Two ways to see one text as markup. What is written is the same, piece by piece; what it says
may differ. -/
inductive Markup.Alike : Markup → Markup → Prop
  | nil : Alike .nil .nil
  | text {raw content content' : List Char} {next next' : Markup} : Alike next next' →
      Alike (.text raw content next) (.text raw content' next')
  | verbatim {raw raw' written : List Char} {next next' : Markup} : Alike next next' →
      Alike (.verbatim raw written next) (.verbatim raw' written next')
  | aside {written : List Char} {next next' : Markup} : Alike next next' →
      Alike (.aside written next) (.aside written next')
  | empty {tag : List Char} {head head' : Head} {next next' : Markup} : Alike next next' →
      Alike (.empty tag head next) (.empty tag head' next')
  | element {tag close : List Char} {head head' : Head} {inner inner' next next' : Markup} :
      Alike inner inner' → Alike next next' →
      Alike (.element tag head inner close next) (.element tag head' inner' close next')

theorem IsText.unique {raw raw' r r' : List Char} (h : IsText raw) (h' : IsText raw')
    (hbracket : r.head? = some '<') (hbracket' : r'.head? = some '<')
    (hsame : raw ++ r = raw' ++ r') : raw = raw' ∧ r = r' := by
  have hrun {raw r : List Char} (h : IsText raw) (hbracket : r.head? = some '<') :
      (raw ++ r).takeWhile (· != '<') = raw := by
    refine takeWhile_eq_iff.mpr ⟨fun c hmember => ?_, fun c hc => ?_⟩
    · exact bne_iff_ne.mpr fun hc => h.noBracket (hc ▸ hmember)
    · rw [hbracket] at hc
      cases hc
      rfl
  obtain rfl : raw = raw' := by rw [← hrun h hbracket, hsame, hrun h' hbracket']
  exact ⟨rfl, List.append_cancel_left hsame⟩

theorem IsSection.unique {raw raw' w w' r r' : List Char} (h : IsSection raw w)
    (h' : IsSection raw' w') (hsame : w ++ r = w' ++ r') : w = w' ∧ r = r' :=
  (h.piece 1).unique (h'.piece 1) hsame

theorem Dialect.IsAside.unique {d d' : Dialect} {w w' r r' : List Char} (h : d.IsAside w)
    (h' : d'.IsAside w') (hsame : w ++ r = w' ++ r') : w = w' ∧ r = r' :=
  have hmode : (Mode.content 1).isOutsideTags = true := rfl
  (h.reader.piece hmode).unique (h'.reader.piece hmode) hsame

theorem Dialect.IsEndTag.unique {d d' : Dialect} {name name' : Name} {w w' r r' : List Char}
    (h : d.IsEndTag name w) (h' : d'.IsEndTag name' w') (hsame : w ++ r = w' ++ r') :
    w = w' ∧ r = r' :=
  (h.reader.piece 1).unique (h'.reader.piece 1) hsame

theorem Markup.Stands.lead_eq {d d' : Dialect} {scope scope' : Scope} {c c' : Markup}
    (h : c.Stands d scope) (h' : c'.Stands d' scope') {name name' : Name}
    {close close' r r' : List Char} (hend : d.IsEndTag name close)
    (hend' : d'.IsEndTag name' close')
    (hsame : c.source ++ (close ++ r) = c'.source ++ (close' ++ r')) : c.lead = c'.lead := by
  rw [← h.leadOf hend r, hsame, h'.leadOf hend']

theorem Markup.Alike.source_eq {c c' : Markup} (h : c.Alike c') : c.source = c'.source := by
  induction h with
  | nil => rfl
  | text _ ih => rw [source, source, ih]
  | verbatim _ ih => rw [source, source, ih]
  | aside _ ih => rw [source, source, ih]
  | empty _ ih => rw [source, source, ih]
  | element _ _ ih ihNext => rw [source, source, ih, ihNext]

/-- Of the markup in front of an end tag there is one way only to see it. -/
theorem Markup.Stands.alike {d d' : Dialect} {scope scope' : Scope} {c c' : Markup}
    (h : c.Stands d scope) (h' : c'.Stands d' scope') {name name' : Name}
    {close close' r r' : List Char} (hend : d.IsEndTag name close)
    (hend' : d'.IsEndTag name' close')
    (hsame : c.source ++ (close ++ r) = c'.source ++ (close' ++ r')) :
    c.Alike c' ∧ close = close' ∧ r = r' := by
  induction h generalizing c' scope' name name' close close' r r' with
  | nil =>
      have hlead := (@Stands.nil d scope').lead_eq h' hend hend' hsame
      cases h' with
      | nil => exact ⟨.nil, hend.unique hend' hsame⟩
      | _ => cases hlead
  | @text _ raw content next htext hread hnoText hnext ih =>
      have hlead := (Stands.text htext hread hnoText hnext).lead_eq h' hend hend' hsame
      cases h' with
      | @text _ raw' content' next' htext' hread' hnoText' hnext' =>
          simp only [source, List.append_assoc] at hsame
          obtain ⟨rfl, hrest⟩ := htext.unique htext' (hnext.head? hnoText (hend.head? r))
            (hnext'.head? hnoText' (hend'.head? r')) hsame
          obtain ⟨halike, hclose⟩ := ih hnext' hend hend' hrest
          exact ⟨.text halike, hclose⟩
      | _ => cases hlead
  | @verbatim _ raw written next hsection hnext ih =>
      have hlead := (Stands.verbatim hsection hnext).lead_eq h' hend hend' hsame
      cases h' with
      | verbatim hsection' hnext' =>
          simp only [source, List.append_assoc] at hsame
          obtain ⟨rfl, hrest⟩ := hsection.unique hsection' hsame
          obtain ⟨halike, hclose⟩ := ih hnext' hend hend' hrest
          exact ⟨.verbatim halike, hclose⟩
      | _ => cases hlead
  | @aside _ written next haside hnext ih =>
      have hlead := (Stands.aside haside hnext).lead_eq h' hend hend' hsame
      cases h' with
      | aside haside' hnext' =>
          simp only [source, List.append_assoc] at hsame
          obtain ⟨rfl, hrest⟩ := haside.unique haside' hsame
          obtain ⟨halike, hclose⟩ := ih hnext' hend hend' hrest
          exact ⟨.aside halike, hclose⟩
      | _ => cases hlead
  | @empty _ tag head next hstart hnext ih =>
      have hlead := (Stands.empty hstart hnext).lead_eq h' hend hend' hsame
      cases h' with
      | empty hstart' hnext' =>
          simp only [source, List.append_assoc] at hsame
          obtain ⟨rfl, hrest, -⟩ := hstart.isTag.unique hstart'.isTag hsame
          obtain ⟨halike, hclose⟩ := ih hnext' hend hend' hrest
          exact ⟨.empty halike, hclose⟩
      | element hstart' =>
          simp only [source, List.append_assoc] at hsame
          cases (hstart.isTag.unique hstart'.isTag hsame).2.2.2
      | _ => cases hlead
  | @element _ tag close₀ head inner next hstart hinner hclosed hnext ih ihNext =>
      have hlead := (Stands.element hstart hinner hclosed hnext).lead_eq h' hend hend' hsame
      cases h' with
      | element hstart' hinner' hclosed' hnext' =>
          simp only [source, List.append_assoc] at hsame
          obtain ⟨rfl, hinside, -⟩ := hstart.isTag.unique hstart'.isTag hsame
          obtain ⟨halike, rfl, hrest⟩ := ih hinner' hclosed hclosed' hinside
          obtain ⟨halikeNext, hclose⟩ := ihNext hnext' hend hend' hrest
          exact ⟨.element halike halikeNext, hclose⟩
      | empty hstart' =>
          simp only [source, List.append_assoc] at hsame
          cases (hstart.isTag.unique hstart'.isTag hsame).2.2.2
      | _ => cases hlead

/-- Nor is there another way to see a root element. -/
theorem Markup.IsRoot.alike {d d' : Dialect} {c c' : Markup} (h : c.IsRoot d) (h' : c'.IsRoot d')
    {r r' : List Char} (hsame : c.source ++ r = c'.source ++ r') : c.Alike c' ∧ r = r' := by
  cases h with
  | empty hstart =>
      cases h' with
      | empty hstart' =>
          simp only [source, List.append_assoc] at hsame
          obtain ⟨rfl, hrest, -⟩ := hstart.isTag.unique hstart'.isTag hsame
          exact ⟨.empty .nil, hrest⟩
      | element hstart' =>
          simp only [source, List.append_assoc] at hsame
          cases (hstart.isTag.unique hstart'.isTag hsame).2.2.2
  | element hstart hinner hclosed =>
      cases h' with
      | empty hstart' =>
          simp only [source, List.append_assoc] at hsame
          cases (hstart.isTag.unique hstart'.isTag hsame).2.2.2
      | element hstart' hinner' hclosed' =>
          simp only [source, List.append_assoc] at hsame
          obtain ⟨rfl, hinside, -⟩ := hstart.isTag.unique hstart'.isTag hsame
          obtain ⟨halike, rfl, hrest⟩ := hinner.alike hinner' hclosed hclosed' hinside
          exact ⟨.element halike .nil, hrest⟩

/-! ### In front of the root element -/

/-- What a declaration holds between its question marks. -/
def Declaring (c : Char) : Prop :=
  isSpace c = true ∨ inName c = true ∨ c = '=' ∨ c = '"' ∨ c = '\x27'

theorem Declaring.plain {c : Char} (h : Declaring c) : isAllowed c = true ∧ c ≠ '?' := by
  obtain hspace | hname | rfl | rfl | rfl := h
  · refine ⟨isAllowed_of_isSpace hspace, ?_⟩
    rintro rfl
    cases hspace
  · refine ⟨isAllowed_of_inName hname, ?_⟩
    rintro rfl
    cases hname
  · decide
  · decide
  · decide

theorem inName_of_isDigit {c : Char} (h : c.isDigit = true) : inName c = true := by
  simp [inName, inLocalName, h]

theorem inName_of_isAlphanum {c : Char} (h : c.isAlphanum = true) : inName c = true := by
  rw [Char.isAlphanum, Bool.or_eq_true] at h
  obtain halpha | hdigit := h
  · simp [inName, inLocalName, startsLocalName, halpha]
  · exact inName_of_isDigit hdigit

theorem IsVersion.inName {v : List Char} (h : IsVersion v) : ∀ c ∈ v, inName c = true := by
  obtain ⟨digits, rfl, -, hdigits⟩ := h
  refine List.forall_mem_cons.mpr ⟨by decide, List.forall_mem_cons.mpr ⟨by decide, ?_⟩⟩
  exact fun c hc => inName_of_isDigit (hdigits c hc)

theorem IsEncoding.inName {v : List Char} (h : IsEncoding v) : ∀ c ∈ v, inName c = true := by
  intro c hc
  obtain halphanum | hmark := h.2 c hc
  · exact inName_of_isAlphanum halphanum
  · simp only [List.mem_cons, List.not_mem_nil, or_false] at hmark
    obtain rfl | rfl | rfl := hmark <;> decide

theorem IsAnswer.inName {v : List Char} (h : IsAnswer v) : ∀ c ∈ v, inName c = true := by
  obtain rfl | rfl := h <;> exact forall_mem_of_all (by decide)

/-- A name without a prefix is written as it is. -/
theorem Dialect.IsName.written {base w : List Char} (h : Dialect.standard.IsName ⟨[], base⟩ w) :
    w = base := by
  cases h with
  | plain hbase => rfl
  | qualified hspace hbase => cases hspace.starts

theorem Dialect.Declares.reader {d : Dialect} {key w : List Char} {isValue : List Char → Prop}
    (h : d.Declares key isValue w) : Dialect.reader.Declares key isValue w := by
  cases d with
  | reader => exact h
  | standard =>
      obtain ⟨b, a, name, raw, rfl, hsome, hb, hattribute, rfl, -⟩ := h
      refine ⟨b, a, _, raw, rfl, hsome, hb, hattribute.reader, ?_⟩
      obtain ⟨hname⟩ := hattribute
      exact hname.written ▸ List.prefix_append _ _

theorem Dialect.Declares.declaring {key w : List Char} {isValue : List Char → Prop}
    (h : Dialect.standard.Declares key isValue w)
    (hvalue : ∀ {v}, isValue v → ∀ c ∈ v, inName c = true) : ∀ c ∈ w, Declaring c := by
  obtain ⟨b, a, name, raw, rfl, -, hb, hattribute, -, hraw⟩ := h
  obtain @⟨written, b₁, b₂, q, hname, hb₁, hb₂, hquote, -⟩ := hattribute
  have hblanks {b : List Char} (hb : Blanks b) : ∀ c ∈ b, Declaring c :=
    fun c hc => .inl (hb c hc)
  have hq : Declaring q := by
    obtain rfl | rfl := hquote
    · exact .inr (.inr (.inr (.inl rfl)))
    · exact .inr (.inr (.inr (.inr rfl)))
  simp only [List.forall_mem_append, List.forall_mem_cons]
  exact ⟨hblanks hb, fun c hc => .inr (.inl (hname.reader.inName c hc)), hblanks hb₁,
    .inr (.inr (.inl rfl)), hblanks hb₂, hq, fun c hc => .inr (.inl (hvalue hraw c hc)), hq,
    List.forall_mem_nil _⟩

/-- The reader takes a declaration of the standard as one, or else, if another blank than a space
stands behind its name, as an instruction. -/
theorem Dialect.IsDeclaration.reader_or_aside {w : List Char}
    (h : Dialect.standard.IsDeclaration w) :
    Dialect.reader.IsDeclaration w ∨ Dialect.reader.IsAside w := by
  obtain ⟨version, encoding, standalone, b, rfl, hversion, hencoding, hstandalone, hb, -⟩ := h
  by_cases hspace : version.head? = some ' '
  · exact .inl ⟨version, encoding, standalone, b, rfl, hversion.reader,
      hencoding.imp_right .reader, hstandalone.imp_right .reader, hb, hspace⟩
  · have hsome : version ≠ [] := by
      obtain ⟨b', a, -, -, rfl, hsome, -⟩ := hversion
      simp [hsome]
    have hdeclaring : ∀ c ∈ xml ++ (version ++ (encoding ++ (standalone ++ b))), Declaring c := by
      simp only [List.forall_mem_append]
      have hname : ∀ c ∈ xml, inName c = true := forall_mem_of_all (by decide)
      refine ⟨fun c hc => .inr (.inl (hname c hc)), hversion.declaring IsVersion.inName, ?_, ?_,
        fun c hc => .inl (hb c hc)⟩
      · obtain rfl | hencoding := hencoding
        · exact List.forall_mem_nil _
        · exact hencoding.declaring IsEncoding.inName
      · obtain rfl | hstandalone := hstandalone
        · exact List.forall_mem_nil _
        · exact hstandalone.declaring IsAnswer.inName
    have hbody : IsUpTo ['?', '>'] (xml ++ (version ++ (encoding ++ (standalone ++ b)))) :=
      ⟨fun c hc => (hdeclaring c hc).plain.1, holdsRun_of_not_mem (c := '?') (by decide)
        fun hquestion => (hdeclaring _ hquestion).plain.2 rfl⟩
    have hinstructs : Dialect.reader.Instructs
        (xml ++ (version ++ (encoding ++ (standalone ++ b)))) := by
      refine ⟨by rfl, ?_⟩
      obtain ⟨c, version, rfl⟩ := List.exists_cons_of_ne_nil hsome
      rintro ⟨u, hu⟩
      have hrest : ' ' :: u = _ := @List.append_cancel_left _ xml _ _ hu
      obtain ⟨rfl, -⟩ := List.cons.inj hrest
      exact hspace rfl
    have haside : Dialect.reader.IsAside _ := .inr (.mk hbody hinstructs)
    have hwhole : "<?xml".toList ++ (version ++ (encoding ++ (standalone ++ (b ++ "?>".toList)))) =
        '<' :: '?' :: (xml ++ (version ++ (encoding ++ (standalone ++ b))) ++ "?>".toList) := by
      simp only [List.append_assoc]
      rfl
    exact .inr (hwhole ▸ haside)

/-- Whatever may stand in front of a root element may stand there for the reader, up to a document
type declaration. -/
theorem Dialect.IsFront.reader_or_type {d : Dialect} {w : List Char} (h : d.IsFront w) :
    Dialect.reader.IsFront w ∨
      ∃ u t, w = u ++ ("<!DOCTYPE".toList ++ t) ∧ Dialect.reader.IsFront u := by
  cases d with
  | reader => exact .inl h
  | standard =>
      obtain @⟨mark, declaration, misc, more, hmark, hdeclaration, hmisc, hmore⟩ := h
      have hfront : Dialect.reader.IsFront (mark ++ (declaration ++ misc)) := by
        rw [isFront_reader_iff]
        obtain rfl | hdeclaration := hdeclaration
        · exact ⟨mark, [], misc, rfl, hmark, .inl rfl, hmisc.reader⟩
        · obtain hdeclaration | haside := hdeclaration.reader_or_aside
          · exact ⟨mark, declaration, misc, rfl, hmark, .inr hdeclaration, hmisc.reader⟩
          · exact ⟨mark, [], declaration ++ misc, rfl, hmark, .inl rfl, .aside haside hmisc.reader⟩
      obtain rfl | ⟨type, r, rfl, htype, -⟩ := hmore
      · rw [List.append_nil]
        exact .inl hfront
      · obtain ⟨b, name, written, b', rfl, -⟩ := htype
        exact .inr ⟨_, b ++ (written ++ (b' ++ (['>'] ++ r))), by simp only [List.append_assoc],
          hfront⟩

/-- A document type declaration is never read. -/
theorem not_completes_documentType {front t : List Char} (hfront : Dialect.reader.IsFront front)
    {root : Node} :
    ¬ Builder.empty.Completes (tokens (front ++ ("<!DOCTYPE".toList ++ t))) root := by
  intro h
  have hread := hfront.reads (r := "<!DOCTYPE".toList ++ t) ⟨'!', _, rfl, by decide⟩
  obtain ⟨last, htaken, -⟩ := h.congr hread
  obtain ⟨taken, hstep, -⟩ := step_of_takeAll htaken
  have hfault : step .before front.length '<' ("!DOCTYPE".toList ++ t) =
      .error ⟨.documentType, front.length⟩ := by
    simp [step, outsideStep, isSpace]
  cases hfault.symm.trans hstep

/-! ### Documents of both dialects -/

theorem IsTag.found {name : Name} {isEmpty : Bool} {w : List Char} (h : IsTag name isEmpty w)
    (r : List Char) : ∃ t n, w ++ r = '<' :: t ∧ name? t = some (name, n) := by
  obtain @⟨l, written, attributes, b, hname, hattributes, hblank⟩ := h
  have hstop := stops_attributes hattributes (stops_tagEnd hblank isEmpty r)
  have hparts : written ++ (attributes ++ (b ++ tagEnd isEmpty)) ++ r =
      written ++ (attributes ++ (b ++ tagEnd isEmpty ++ r)) := by
    simp only [List.append_assoc]
  exact ⟨_, written.length, rfl,
    name?_eq_some_iff.mpr ⟨written, _, hparts, rfl, hname, hstop⟩⟩

theorem Markup.IsRoot.found {d : Dialect} {c : Markup} (h : c.IsRoot d) (r : List Char) :
    ∃ t name n, c.source ++ r = '<' :: t ∧ name? t = some (name, n) := by
  cases h with
  | empty hstart =>
      obtain ⟨t, n, hsource, hfound⟩ := hstart.isTag.found r
      exact ⟨t, _, n, by rw [source, source, List.append_nil, hsource], hfound⟩
  | element hstart =>
      rw [source, List.append_assoc]
      obtain ⟨t, n, hsource, hfound⟩ := hstart.isTag.found _
      exact ⟨t, _, n, hsource, hfound⟩

/-- A document of the reader that is a document of another dialect too is the same there, piece by
piece. -/
theorem Dialect.IsDocument.alike {d : Dialect} {s : List Char} {root root' : Node}
    (h : Dialect.reader.IsDocument s root) (h' : d.IsDocument s root') :
    ∃ (front post : List Char) (c c' : Markup), s = front ++ (c.source ++ post) ∧
      (Dialect.reader.IsFront front ∧ c.IsRoot .reader ∧ Dialect.reader.IsMisc post ∧
        c.onto front.length [] = [root]) ∧
      (d.IsFront front ∧ c'.IsRoot d ∧ d.IsMisc post) ∧ c.Alike c' := by
  obtain ⟨front, post, c', rfl, hfront', hroot', hpost', -⟩ := h'
  have hcompletes := h.completes
  obtain hfront | ⟨u, t, rfl, hu⟩ := hfront'.reader_or_type
  · obtain ⟨t, name, n, hsource, hfound⟩ := hroot'.found post
    rw [hsource] at hcompletes
    obtain ⟨c, post', hwhole, hroot, hpost, hnode⟩ := hfront.root_of_completes hfound hcompletes
    rw [← hsource] at hwhole
    obtain ⟨halike, rfl⟩ := hroot.alike hroot' hwhole.symm
    exact ⟨front, _, c, c', by rw [hwhole], ⟨hfront, hroot, hpost, hnode⟩,
      ⟨hfront', hroot', hpost'⟩, halike⟩
  · simp only [List.append_assoc] at hcompletes
    exact absurd hcompletes (not_completes_documentType hu)

end DeadlockCapture.Xml
