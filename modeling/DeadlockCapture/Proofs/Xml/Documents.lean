import DeadlockCapture.Proofs.Xml.Declarations
import DeadlockCapture.Proofs.Xml.Markup

/-!
Whole documents. What the reader accepts are the documents of its grammar, each with the tree that
the grammar gives it.
-/

namespace DeadlockCapture.Xml

open DeadlockCapture.Text

/-! ### Around the root element -/

/-- What stands outside the root element at an offset, and the step that takes it: blanks, comments
and instructions, and the root's start tag after them. -/
inductive OutsidePart (mode : Mode) (offset : Nat) (s : List Char) (taken : Step) : Prop
  | blanks {b r : List Char} : s = b ++ r → b ≠ [] → Blanks b →
      (∀ c ∈ r.head?, isSpace c = false) → taken = ⟨[], b.length - 1, mode⟩ →
      OutsidePart mode offset s taken
  | aside {w r : List Char} : s = w ++ r → Dialect.reader.IsAside w →
      taken = ⟨[.aside offset], w.length - 1, mode⟩ → OutsidePart mode offset s taken
  | opening {t : List Char} {name : Name} {n : Nat} : mode = .before → s = '<' :: t →
      name? t = some (name, n) → taken = ⟨[.opening name offset], n, .tag 0⟩ →
      OutsidePart mode offset s taken

theorem outsideStep_part {mode : Mode} {offset : Nat} {c : Char} {t : List Char} {s : Step}
    (h : outsideStep mode offset c t = .ok s) : OutsidePart mode offset (c :: t) s := by
  unfold outsideStep at h
  split at h
  · rename_i hspace
    obtain ⟨b, r, rfl, hlength, hblank, hstop⟩ := spaceRun_split t
    rw [hlength] at h
    exact .blanks (b := c :: b) rfl (by simp) (List.forall_mem_cons.mpr ⟨hspace, hblank⟩) hstop
      (Except.ok.inj h).symm
  · split at h
    · rename_i hmarks
      obtain ⟨rfl, hdashes⟩ := hmarks
      obtain ⟨t, rfl⟩ := List.isPrefixOf_iff_prefix.mp hdashes
      obtain ⟨w, r, hsplit, haside, htaken⟩ := comment_part h
      exact .aside hsplit haside htaken
    · split at h
      · rename_i hmarks
        obtain ⟨rfl, hquestion⟩ := hmarks
        obtain ⟨t, rfl⟩ : ∃ u, t = '?' :: u := List.head?_eq_some_iff.mp hquestion
        obtain ⟨w, r, hsplit, haside, htaken⟩ := instruction_part h
        exact .aside hsplit haside htaken
      · split at h
        · rename_i hmarks
          obtain ⟨hbefore, rfl⟩ := hmarks
          split at h
          · cases h
          · unfold Xml.opening at h
            split at h
            · cases h
            · rename_i name n hfound
              exact .opening hbefore rfl hfound (Except.ok.inj h).symm
        · cases h

/-- Outside the root element, and before it or after it. -/
def Mode.IsOutside (mode : Mode) : Prop :=
  mode = .before ∨ mode = .after

theorem Mode.IsOutside.step {mode : Mode} (h : mode.IsOutside) (offset : Nat) (c : Char)
    (r : List Char) : step mode offset c r = outsideStep mode offset c r := by
  obtain rfl | rfl := h <;> rfl

theorem Mode.IsOutside.isOutsideTags {mode : Mode} (h : mode.IsOutside) :
    mode.isOutsideTags = true := by
  obtain rfl | rfl := h <;> rfl

theorem tokensFrom_blanks {mode : Mode} (h : mode.IsOutside) {b r : List Char} (hblank : Blanks b)
    (hstop : ∀ c ∈ r.head?, isSpace c = false) (offset : Nat) :
    tokensFrom mode offset (b ++ r) = tokensFrom mode (offset + b.length) r := by
  cases b with
  | nil => rfl
  | cons c b =>
      obtain ⟨hspace, hblank⟩ := List.forall_mem_cons.mp hblank
      have hread : Xml.step mode offset c (b ++ r) = .ok ⟨[], b.length, mode⟩ := by
        rw [h.step, outsideStep, if_pos hspace, spaceRun_append hblank hstop]
      exact tokensFrom_step hread

theorem tokensFrom_blank {mode : Mode} (h : mode.IsOutside) {c : Char} (hspace : isSpace c = true)
    (offset : Nat) (t : List Char) :
    tokensFrom mode offset (c :: t) = tokensFrom mode (offset + 1) t := by
  obtain ⟨b, r, rfl, -, hblank, hstop⟩ := spaceRun_split t
  have hblank' : Blanks (c :: b) := List.forall_mem_cons.mpr ⟨hspace, hblank⟩
  rw [← List.cons_append, tokensFrom_blanks h hblank' hstop, tokensFrom_blanks h hblank hstop,
    List.length_cons, Nat.add_right_comm, Nat.add_assoc]

/-- A comment or an instruction outside the root element leaves no trace. -/
theorem takeAll_aside_outside {mode : Mode} (h : mode.IsOutside) {w : List Char}
    (haside : Dialect.reader.IsAside w) (root : Option Node) (offset : Nat) (r : List Char) :
    (Builder.mk [] none root false).takeAll (tokensFrom mode offset (w ++ r)) =
      (Builder.mk [] none root false).takeAll (tokensFrom mode (offset + w.length) r) := by
  rw [haside.piece h.isOutsideTags, List.singleton_append]
  exact Builder.takeAll_cons rfl _

/-- Nor does anything else that may stand there. -/
theorem Dialect.IsMisc.reads {w : List Char} (h : Dialect.reader.IsMisc w) {mode : Mode}
    (hmode : mode.IsOutside) (root : Option Node) (offset : Nat) (r : List Char) :
    (Builder.mk [] none root false).takeAll (tokensFrom mode offset (w ++ r)) =
      (Builder.mk [] none root false).takeAll (tokensFrom mode (offset + w.length) r) := by
  induction h generalizing offset with
  | nil => rfl
  | @blank c w hspace _ ih =>
      rw [List.cons_append, tokensFrom_blank hmode hspace, ih, List.length_cons,
        Nat.add_right_comm, Nat.add_assoc]
  | @aside w w' haside _ ih =>
      rw [List.append_assoc, takeAll_aside_outside hmode haside, ih, List.length_append,
        Nat.add_assoc]

theorem Dialect.IsMisc.blanks_append {d : Dialect} {b r : List Char} (hblank : Blanks b)
    (h : d.IsMisc r) : d.IsMisc (b ++ r) := by
  induction b with
  | nil => exact h
  | cons c b ih =>
      obtain ⟨hspace, hblank⟩ := List.forall_mem_cons.mp hblank
      exact .blank hspace (ih hblank)

/-- Outside its root element a complete document has blanks, comments and instructions, up to its
end or to the root's start tag. -/
theorem misc_of_completes {mode : Mode} (houtside : mode.IsOutside) {s : List Char}
    {top : Option Node} {root : Node} {offset : Nat}
    (h : Builder.Completes ⟨[], none, top, false⟩ (tokensFrom mode offset s) root) :
    ∃ misc r, s = misc ++ r ∧ Dialect.reader.IsMisc misc ∧
      (r = [] ∧ top = some root ∨
        mode = .before ∧ ∃ t name n, r = '<' :: t ∧ name? t = some (name, n)) := by
  induction hlength : s.length using Nat.strongRecOn generalizing s offset with
  | ind n ih =>
  subst hlength
  cases s with
  | nil =>
      obtain ⟨last, htaken, -, hroot⟩ := h
      rw [tokensFrom] at htaken
      cases htaken
      exact ⟨[], [], rfl, .nil, .inl ⟨rfl, hroot⟩⟩
  | cons c t =>
      obtain ⟨last, htaken, -⟩ := id h
      obtain ⟨step, hstep, -⟩ := step_of_takeAll htaken
      rw [houtside.step] at hstep
      cases outsideStep_part hstep with
      | @blanks b r hsplit hsome hblank hstop =>
          rw [hsplit] at h ih ⊢
          rw [tokensFrom_blanks houtside hblank hstop] at h
          obtain ⟨misc, r, rfl, hmisc, hrest⟩ := ih _ (length_lt_append hsome r) h rfl
          exact ⟨b ++ misc, r, by simp, .blanks_append hblank hmisc, hrest⟩
      | @aside w r hsplit haside =>
          rw [hsplit] at h ih ⊢
          have hnext := h.congr (takeAll_aside_outside houtside haside _ _ r)
          obtain ⟨misc, r, rfl, hmisc, hrest⟩ :=
            ih _ (length_lt_append (ne_nil_of_head? haside.head?) r) hnext rfl
          exact ⟨w ++ misc, r, by simp, .aside haside hmisc, hrest⟩
      | @opening t name n hbefore hsplit hfound =>
          exact ⟨[], _, rfl, .nil, .inr ⟨hbefore, t, name, n, hsplit, hfound⟩⟩

theorem isMisc_of_completes {s : List Char} {top root : Node} {offset : Nat}
    (h : Builder.Completes ⟨[], none, some top, false⟩ (tokensFrom .after offset s) root) :
    Dialect.reader.IsMisc s := by
  obtain ⟨misc, r, rfl, hmisc, ⟨rfl, -⟩ | ⟨hbefore, -⟩⟩ := misc_of_completes (.inr rfl) h
  · rwa [List.append_nil]
  · cases hbefore

theorem prolog_of_completes {s : List Char} {root : Node} {offset : Nat}
    (h : Builder.empty.Completes (tokensFrom .before offset s) root) :
    ∃ misc t name n, s = misc ++ '<' :: t ∧ Dialect.reader.IsMisc misc ∧
      name? t = some (name, n) := by
  obtain ⟨misc, r, rfl, hmisc, ⟨-, hroot⟩ | ⟨-, t, name, n, rfl, hfound⟩⟩ :=
    misc_of_completes (.inl rfl) h
  · cases hroot
  · exact ⟨misc, t, name, n, rfl, hmisc, hfound⟩

/-! ### In front of the root element -/

def markLength (s : List Char) : Nat :=
  if s.head? = some '\uFEFF' then 1 else 0

theorem tokens_of_declarationLength {s : List Char} {n : Nat}
    (h : declarationLength (markLength s) (s.drop (markLength s)) = .ok n) :
    tokens s = tokensFrom .before (markLength s + n) (s.drop (markLength s + n)) := by
  rw [tokens, ← List.drop_drop]
  simp only [← markLength.eq_def, h]

/-- A bracket that starts neither an instruction nor a declaration. -/
def StartsTag (r : List Char) : Prop :=
  ∃ c t, r = '<' :: c :: t ∧ c ≠ '?'

theorem StartsTag.head? {r : List Char} (h : StartsTag r) : r.head? = some '<' := by
  obtain ⟨c, t, rfl, -⟩ := h
  rfl

theorem StartsTag.no_declaration {r : List Char} (h : StartsTag r) : ¬ "<?xml ".toList <+: r := by
  obtain ⟨c, t, rfl, hc⟩ := h
  rintro ⟨u, hu⟩
  obtain ⟨-, hu⟩ := List.cons.inj hu
  exact hc (List.cons.inj hu).1.symm

theorem startsTag_of_name {t : List Char} {name : Name} {n : Nat}
    (hfound : name? t = some (name, n)) : StartsTag ('<' :: t) := by
  obtain ⟨w, r, rfl, -, hname, -⟩ := name?_eq_some_iff.mp hfound
  obtain ⟨c, w, rfl, hstart⟩ := hname.start
  exact ⟨c, w ++ r, rfl, (startsName_marks hstart).2.2.2.2⟩

/-- An instruction is no declaration. -/
theorem Dialect.IsAside.no_declaration {w : List Char} (h : Dialect.reader.IsAside w)
    (r : List Char) : ¬ "<?xml ".toList <+: w ++ r := by
  obtain hcomment | hinstruction := h
  · obtain ⟨-, -⟩ := hcomment
    rintro ⟨u, hu⟩
    obtain ⟨-, hu⟩ := List.cons.inj hu
    cases (List.cons.inj hu).1
  · obtain @⟨body, -, hinstructs⟩ := hinstruction
    have hother := ((instructs_reader_iff (r := '>' :: r)).mp hinstructs).1
    have hparts : '<' :: '?' :: (body ++ "?>".toList) ++ r =
        '<' :: '?' :: (body ++ '?' :: '>' :: r) := by simp
    rw [hparts]
    intro hstart
    obtain ⟨-, hrest⟩ := List.cons_prefix_cons.mp hstart
    rw [← Bool.not_eq_true, List.isPrefixOf_iff_prefix] at hother
    exact hother hrest

theorem Dialect.IsMisc.no_declaration {w r : List Char} (h : Dialect.reader.IsMisc w)
    (hr : StartsTag r) : ¬ "<?xml ".toList <+: w ++ r := by
  cases h with
  | nil => exact hr.no_declaration
  | @blank c w hspace =>
      rintro ⟨u, hu⟩
      obtain ⟨rfl, -⟩ := List.cons.inj hu
      cases hspace
  | @aside w w' haside =>
      rw [List.append_assoc]
      exact haside.no_declaration _

theorem Dialect.IsDeclaration.head? {d : Dialect} {w : List Char} (h : d.IsDeclaration w) :
    w.head? = some '<' := by
  obtain ⟨version, encoding, standalone, b, rfl, -⟩ := h
  rfl

/-- Without a byte order mark, a document starts with a blank or a tag. -/
theorem head?_of_declaration {declaration misc r : List Char}
    (hdeclaration : declaration = [] ∨ Dialect.reader.IsDeclaration declaration)
    (hmisc : Dialect.reader.IsMisc misc) (hr : r.head? = some '<') :
    ∀ c ∈ (declaration ++ (misc ++ r)).head?, isSpace c = true ∨ c = '<' := by
  obtain rfl | hdeclaration := hdeclaration
  · cases hmisc with
    | nil =>
        rw [List.nil_append, List.nil_append, hr]
        rintro c ⟨⟩
        exact .inr rfl
    | blank hspace =>
        rintro c ⟨⟩
        exact .inl hspace
    | aside haside =>
        rw [List.nil_append, List.append_assoc, head?_of_head? haside.head?]
        rintro c ⟨⟩
        exact .inr rfl
  · rw [head?_of_head? hdeclaration.head?]
    rintro c ⟨⟩
    exact .inr rfl

/-- What the reader takes in front of a root element. -/
theorem isFront_reader_iff {w : List Char} :
    Dialect.reader.IsFront w ↔ ∃ mark declaration misc, w = mark ++ (declaration ++ misc) ∧
      (mark = [] ∨ mark = ['\uFEFF']) ∧
      (declaration = [] ∨ Dialect.reader.IsDeclaration declaration) ∧
      Dialect.reader.IsMisc misc := by
  constructor
  · rintro ⟨hmark, hdeclaration, hmisc, rfl | ⟨_, _, _, htype, _⟩⟩
    · exact ⟨_, _, _, by rw [List.append_nil], hmark, hdeclaration, hmisc⟩
    · exact htype.elim
  · rintro ⟨mark, declaration, misc, rfl, hmark, hdeclaration, hmisc⟩
    have hfront : Dialect.reader.IsFront (mark ++ (declaration ++ (misc ++ []))) :=
      .mk hmark hdeclaration hmisc (.inl rfl)
    rwa [List.append_nil] at hfront

/-- What stands in front of a tag leads to it. -/
theorem Dialect.IsFront.reads {w r : List Char} (h : Dialect.reader.IsFront w)
    (hr : StartsTag r) :
    Builder.empty.takeAll (tokens (w ++ r)) =
      Builder.empty.takeAll (tokensFrom .before w.length r) := by
  obtain ⟨mark, declaration, misc, rfl, hmark, hdeclaration, hmisc⟩ := isFront_reader_iff.mp h
  have hdeclared (offset : Nat) :
      declarationLength offset (declaration ++ (misc ++ r)) = .ok declaration.length := by
    obtain rfl | hdeclaration := hdeclaration
    · exact declarationLength_eq_ok_iff.mpr (.inl ⟨rfl, hmisc.no_declaration hr⟩)
    · exact declarationLength_eq_ok_iff.mpr (.inr ⟨_, _, rfl, hdeclaration, rfl⟩)
  have hlength : markLength (mark ++ (declaration ++ (misc ++ r))) = mark.length := by
    obtain rfl | rfl := hmark
    · refine if_neg fun hhead => ?_
      obtain hspace | hbracket := head?_of_declaration hdeclaration hmisc hr.head? _ hhead
      · cases hspace
      · cases hbracket
    · rfl
  have hparts : mark ++ (declaration ++ misc) ++ r = mark ++ (declaration ++ (misc ++ r)) := by
    simp
  have hread := @tokens_of_declarationLength (mark ++ (declaration ++ (misc ++ r)))
    declaration.length (by rw [hlength, List.drop_left]; exact hdeclared _)
  rw [hlength, ← List.drop_drop, List.drop_left, List.drop_left] at hread
  rw [hparts, hread, Builder.empty, hmisc.reads (.inl rfl)]
  simp only [List.length_append, Nat.add_assoc]

/-! ### The root element -/

theorem parse_eq_ok_iff_completes {document : String} {root : Node} :
    parse document = .ok root ↔ Builder.empty.Completes (tokens document.toList) root := by
  unfold parse Builder.Completes
  cases htaken : Builder.empty.takeAll (tokens document.toList) with
  | error f => simp
  | ok b =>
      obtain ⟨stack, pending, root, inText⟩ := b
      cases stack with
      | nil => cases root <;> simp [Builder.finish]
      | cons o out => simp [Builder.finish]

theorem Dialect.IsStartTag.startsTag {outer : Scope} {w : List Char} {isEmpty : Bool}
    {head : Head} (h : Dialect.reader.IsStartTag outer w isEmpty head) (r : List Char) :
    StartsTag (w ++ r) := by
  obtain ⟨hname, -⟩ := h
  obtain ⟨c, t, rfl, hc⟩ := hname.start
  exact ⟨c, _, rfl, (startsName_marks hc).2.2.2.2⟩

theorem Markup.IsRoot.startsTag {c : Markup} (h : c.IsRoot .reader) (r : List Char) :
    StartsTag (c.source ++ r) := by
  cases h with
  | empty hstart =>
      rw [source, List.append_assoc]
      exact hstart.startsTag _
  | element hstart =>
      rw [source, List.append_assoc]
      exact hstart.startsTag _

theorem Markup.IsRoot.onto_eq {d : Dialect} {c : Markup} (h : c.IsRoot d) (offset : Nat) :
    ∃ root, c.onto offset [] = [root] := by
  cases h with
  | empty => exact ⟨_, rfl⟩
  | element => exact ⟨_, rfl⟩

/-- Once the root element has been read, the document is complete if only blanks, comments and
instructions come after it. -/
theorem Dialect.IsMisc.completes {w : List Char} (h : Dialect.reader.IsMisc w) (root : Node)
    (offset : Nat) :
    Builder.Completes ⟨[], none, some root, false⟩ (tokensFrom .after offset w) root := by
  have hread := h.reads (.inr rfl) (some root) offset []
  rw [List.append_nil] at hread
  exact ⟨⟨[], none, some root, false⟩, by rw [hread, tokensFrom]; rfl, rfl, rfl⟩

theorem Markup.IsRoot.completes {c : Markup} (h : c.IsRoot .reader) {post : List Char}
    (hpost : Dialect.reader.IsMisc post) {root : Node} {offset : Nat}
    (hroot : c.onto offset [] = [root]) :
    Builder.empty.Completes (tokensFrom .before offset (c.source ++ post)) root := by
  cases h with
  | @empty tag head hstart =>
      cases hroot
      have hread := hstart.reads (b := .empty) rfl 0 offset post
      rw [source, source, List.append_nil]
      exact (hpost.completes _ _).congr hread.symm
  | @element tag close head inner hstart hinner hend =>
      cases hroot
      have hread := takeAll_element (b := .empty) hstart hinner.reads hend 0 offset post
      have hwhole : (Markup.element tag head inner close .nil).source ++ post =
          tag ++ (inner.source ++ (close ++ post)) := by
        simp [source]
      rw [hwhole]
      exact (hpost.completes _ _).congr hread.symm

theorem Builder.Completes.unique {b : Builder} {l : List Token} {root root' : Node}
    (h : b.Completes l root) (h' : b.Completes l root') : root = root' := by
  obtain ⟨last, htaken, -, hroot⟩ := h
  obtain ⟨last', htaken', -, hroot'⟩ := h'
  rw [htaken] at htaken'
  cases htaken'
  rw [hroot] at hroot'
  exact Option.some.inj hroot'

/-- The root element of a document that is read to its end, from its start tag on. -/
theorem isRoot_of_completes {t : List Char} {root : Node} {offset : Nat} {name : Name} {n : Nat}
    (hfound : name? t = some (name, n))
    (h : Builder.empty.Completes (tokensFrom .before offset ('<' :: t)) root) :
    ∃ (c : Markup) (post : List Char), '<' :: t = c.source ++ post ∧ c.IsRoot .reader ∧
      Dialect.reader.IsMisc post := by
  obtain ⟨w, r, isEmpty, head, hwhole, hstart⟩ :=
    isStartTag_of_completes 0 hfound (fun _ => rfl) h
  rw [hwhole] at h ⊢
  have hstarted := h.congr (hstart.reads (b := .empty) rfl 0 offset r)
  cases isEmpty with
  | true =>
      exact ⟨.empty w head .nil, r, by simp [Markup.source], .empty hstart,
        isMisc_of_completes hstarted⟩
  | false =>
      have hopened : (Builder.inside (head.opened offset) [] none).Completes
          (tokensFrom (.content 0) (offset + w.length) r) root := hstarted
      obtain ⟨inner, close, post, rfl, hinner, hend⟩ := stands_of_completes hopened
      have hclosed := h.congr
        (takeAll_element (b := .empty) hstart hinner.reads hend 0 offset post)
      exact ⟨.element w head inner close .nil, post, by simp [Markup.source],
        .element hstart hinner hend, isMisc_of_completes hclosed⟩

/-! ### Whole documents -/

theorem Dialect.IsDocument.completes {s : List Char} {root : Node}
    (h : Dialect.reader.IsDocument s root) : Builder.empty.Completes (tokens s) root := by
  obtain ⟨front, post, c, rfl, hfront, hroot, hpost, hnode⟩ := h
  exact (hroot.completes hpost hnode).congr (hfront.reads (hroot.startsTag post)).symm

/-- What stands in front of the tags of a document, if its declaration finds no fault. -/
theorem front_of_declarationLength {s : List Char} {n : Nat}
    (h : declarationLength (markLength s) (s.drop (markLength s)) = .ok n) :
    ∃ mark declaration r, s = mark ++ (declaration ++ r) ∧ (mark = [] ∨ mark = ['\uFEFF']) ∧
      (declaration = [] ∨ Dialect.reader.IsDeclaration declaration) ∧
      markLength s = mark.length ∧ n = declaration.length := by
  obtain ⟨mark, u, rfl, hmark, hlength⟩ : ∃ mark u, s = mark ++ u ∧
      (mark = [] ∨ mark = ['\uFEFF']) ∧ markLength s = mark.length := by
    unfold markLength
    split
    · rename_i hhead
      obtain ⟨u, rfl⟩ := List.head?_eq_some_iff.mp hhead
      exact ⟨['\uFEFF'], u, rfl, .inr rfl, rfl⟩
    · exact ⟨[], s, rfl, .inl rfl, rfl⟩
  rw [hlength, List.drop_left] at h
  obtain ⟨rfl, -⟩ | ⟨declaration, r, rfl, hdeclaration, rfl⟩ := declarationLength_eq_ok_iff.mp h
  · exact ⟨mark, [], u, rfl, hmark, .inl rfl, hlength, rfl⟩
  · exact ⟨mark, declaration, r, rfl, hmark, .inr hdeclaration, hlength, rfl⟩

/-- In a complete document the root element comes after what stands in front of a start tag. -/
theorem Dialect.IsFront.root_of_completes {front t : List Char}
    (hfront : Dialect.reader.IsFront front) {name : Name} {n : Nat}
    (hfound : name? t = some (name, n)) {root : Node}
    (h : Builder.empty.Completes (tokens (front ++ '<' :: t)) root) :
    ∃ (c : Markup) (post : List Char), '<' :: t = c.source ++ post ∧ c.IsRoot .reader ∧
      Dialect.reader.IsMisc post ∧ c.onto front.length [] = [root] := by
  have hread := h.congr (hfront.reads (startsTag_of_name hfound))
  obtain ⟨c, post, hwhole, hroot, hpost⟩ := isRoot_of_completes hfound hread
  obtain ⟨root', hnode⟩ := hroot.onto_eq front.length
  rw [hwhole] at hread
  obtain rfl := hread.unique (hroot.completes hpost hnode)
  exact ⟨c, post, hwhole, hroot, hpost, hnode⟩

theorem isDocument_of_completes {s : List Char} {root : Node}
    (h : Builder.empty.Completes (tokens s) root) : Dialect.reader.IsDocument s root := by
  cases hdeclared : declarationLength (markLength s) (s.drop (markLength s)) with
  | error f =>
      obtain ⟨last, htaken, -⟩ := h
      simp [tokens, ← markLength.eq_def, hdeclared, Builder.takeAll, Builder.take] at htaken
  | ok n =>
      have hread := h
      rw [tokens_of_declarationLength hdeclared] at hread
      obtain ⟨mark, declaration, r, rfl, hmark, hdeclaration, hlength, rfl⟩ :=
        front_of_declarationLength hdeclared
      rw [hlength, ← List.drop_drop, List.drop_left, List.drop_left] at hread
      obtain ⟨misc, t, name, m, rfl, hmisc, hfound⟩ := prolog_of_completes hread
      have hfront : Dialect.reader.IsFront (mark ++ (declaration ++ misc)) :=
        isFront_reader_iff.mpr ⟨mark, declaration, misc, rfl, hmark, hdeclaration, hmisc⟩
      have hparts : mark ++ (declaration ++ (misc ++ '<' :: t)) =
          mark ++ (declaration ++ misc) ++ '<' :: t := by simp
      rw [hparts] at h ⊢
      obtain ⟨c, post, hwhole, hroot, hpost, hnode⟩ := hfront.root_of_completes hfound h
      exact ⟨_, post, c, by rw [hwhole], hfront, hroot, hpost, hnode⟩

/-- The reader accepts the documents of its grammar and no other text, and finds their trees. -/
theorem parse_eq_ok_iff {document : String} {root : Node} :
    parse document = .ok root ↔ Dialect.reader.IsDocument document.toList root :=
  parse_eq_ok_iff_completes.trans ⟨isDocument_of_completes, Dialect.IsDocument.completes⟩

/-- What a document may start with: a byte order mark, a blank or a tag. -/
def StartsDocument (c : Char) : Prop :=
  c = '\uFEFF' ∨ isSpace c = true ∨ c = '<'

theorem Dialect.IsDocument.starts {s : List Char} {root : Node}
    (h : Dialect.reader.IsDocument s root) : ∀ c ∈ s.head?, StartsDocument c := by
  obtain ⟨front, post, c, rfl, hfront, hroot, -⟩ := h
  obtain ⟨mark, declaration, misc, rfl, hmark, hdeclaration, hmisc⟩ := isFront_reader_iff.mp hfront
  have hhead := head?_of_declaration hdeclaration hmisc (hroot.startsTag post).head?
  rw [List.append_assoc, List.append_assoc]
  obtain rfl | rfl := hmark
  · exact fun e he => .inr (hhead e he)
  · rintro e ⟨⟩
    exact .inl rfl

end DeadlockCapture.Xml
