import DeadlockCapture.Proofs.Report.Focus

/-!
The elements in the markup of a document. The content of each of them may give way to any other
content that may stand there; the document is then accepted as before, and an element with the same
start tag holds the other content.
-/

namespace DeadlockCapture.Report

open DeadlockCapture.Xml

/-! ### The elements of markup -/

/-- An element of markup that starts at an offset. -/
def elementAt (offset : Nat) (tag : List Char) (head : Head) (inner : Markup) (close : List Char) :
    Node :=
  head.node offset (offset + tag.length + inner.source.length + close.length)
    (inner.onto (offset + tag.length) []).reverse

/-- The elements in markup at an offset, in document order. -/
def elementsIn : Markup → Nat → List Node
  | .nil, _ => []
  | .text raw _ next, offset => elementsIn next (offset + raw.length)
  | .verbatim _ written next, offset => elementsIn next (offset + written.length)
  | .aside written next, offset => elementsIn next (offset + written.length)
  | .empty tag head next, offset =>
    head.node offset (offset + tag.length) [] :: elementsIn next (offset + tag.length)
  | .element tag head inner close next, offset =>
    elementAt offset tag head inner close :: (elementsIn inner (offset + tag.length) ++
      elementsIn next (offset + (tag ++ (inner.source ++ close)).length))

/-- The elements in and below nodes in reverse order, in document order. -/
def elementsOf (done : List Node) : List Node :=
  (laidOut done).filter (·.name?.isSome)

theorem elementsOf_cons (n : Node) (done : List Node) :
    elementsOf (n :: done) = elementsOf done ++ n.descendants.filter (·.name?.isSome) := by
  rw [elementsOf, laidOut_cons, List.filter_append]
  rfl

theorem elementsOf_pushText (content : List Char) (start : Nat) (done : List Node) :
    elementsOf (pushText content start done) = elementsOf done := by
  unfold pushText
  split
  · rw [elementsOf_cons, elementsOf_cons]
    rfl
  · exact (elementsOf_cons _ _).trans (List.append_nil _)

theorem elementsOf_node_cons (head : Head) (start stop : Nat) (inner done : List Node) :
    elementsOf (head.node start stop inner.reverse :: done) =
      elementsOf done ++ head.node start stop inner.reverse :: elementsOf inner := by
  rw [elementsOf_cons, Head.node, Node.descendants, List.filter_cons_of_pos rfl]
  rfl

/-- The elements among the nodes of markup are those of the markup. -/
theorem elementsOf_onto (c : Markup) (offset : Nat) (done : List Node) :
    elementsOf (c.onto offset done) = elementsOf done ++ elementsIn c offset := by
  induction c generalizing offset done with
  | nil => exact (List.append_nil _).symm
  | text raw content next ih => rw [Markup.onto, ih, elementsOf_pushText, elementsIn]
  | verbatim raw written next ih => rw [Markup.onto, ih, elementsOf_pushText, elementsIn]
  | aside written next ih =>
      rw [Markup.onto, ih, elementsOf_cons, elementsIn]
      exact congrArg (· ++ _) (List.append_nil _)
  | empty tag head next ih =>
      have hown := elementsOf_node_cons head offset (offset + tag.length) [] done
      rw [List.reverse_nil] at hown
      rw [Markup.onto, ih, hown, List.append_assoc]
      rfl
  | element tag head inner close next ih ihNext =>
      have hstop : offset + (tag ++ (inner.source ++ close)).length =
          offset + tag.length + inner.source.length + close.length := by
        simp only [List.length_append, Nat.add_assoc]
      rw [Markup.onto, ihNext, elementsOf_node_cons, ih, elementsIn, elementAt, hstop,
        List.append_assoc]
      rfl

/-! ### Other content in an element -/

/-- The place of an element's content in markup at an offset. With any other content in this place
the markup is a `Whole` again, and an element with the same start tag holds that content. -/
structure Slot (Whole : Markup → Prop) (offset : Nat) (c : Markup) (e : Node) where
  before : List Char
  tag : List Char
  head : Head
  inner : Markup
  close : List Char
  after : List Char
  ending : Dialect.reader.IsEndTag head.name close
  source : c.source = before ++ (tag ++ (inner.source ++ (close ++ after)))
  element : e = elementAt (offset + before.length) tag head inner close
  refilled : ∀ i : Markup, i.Stands .reader head.scope → ∃ c', Whole c' ∧
    c'.source = before ++ (tag ++ (i.source ++ (close ++ after))) ∧
    elementAt (offset + before.length) tag head i close ∈ elementsIn c' offset

/-- The slot of an element that starts where the markup starts. -/
def Slot.here {Whole : Markup → Prop} {offset : Nat} {tag close : List Char} {head : Head}
    {inner next : Markup} (hending : Dialect.reader.IsEndTag head.name close)
    (hwhole : ∀ i : Markup, i.Stands .reader head.scope → Whole (.element tag head i close next)) :
    Slot Whole offset (.element tag head inner close next)
      (elementAt offset tag head inner close) where
  before := []
  tag
  head
  inner
  close
  after := next.source
  ending := hending
  source := rfl
  element := rfl
  refilled i hstands := ⟨_, hwhole i hstands, rfl, List.mem_cons_self⟩

/-- A slot of markup that stands between `w` and `w'` in other markup. -/
def Slot.within {Whole Part : Markup → Prop} {offset : Nat} {w w' : List Char} {part : Markup}
    {e : Node} (s : Slot Part (offset + w.length) part e) (around : Markup → Markup)
    (hsource : ∀ c, (around c).source = w ++ (c.source ++ w'))
    (helements : ∀ c, ∀ n ∈ elementsIn c (offset + w.length), n ∈ elementsIn (around c) offset)
    (hwhole : ∀ c, Part c → Whole (around c)) : Slot Whole offset (around part) e where
  before := w ++ s.before
  tag := s.tag
  head := s.head
  inner := s.inner
  close := s.close
  after := s.after ++ w'
  ending := s.ending
  source := by
    rw [hsource, s.source]
    simp only [List.append_assoc]
  element := by rw [List.length_append, ← Nat.add_assoc, ← s.element]
  refilled i hstands := by
    obtain ⟨c, hfits, htext, hmember⟩ := s.refilled i hstands
    refine ⟨around c, hwhole c hfits, ?_, ?_⟩
    · rw [hsource, htext]
      simp only [List.append_assoc]
    · rw [List.length_append, ← Nat.add_assoc]
      exact helements c _ hmember

/-- A slot of markup behind a first part `w`. -/
def Slot.behind {Whole Next : Markup → Prop} {offset : Nat} {w : List Char} {next : Markup}
    {e : Node} (s : Slot Next (offset + w.length) next e) (first : Markup → Markup)
    (hsource : ∀ c, (first c).source = w ++ c.source)
    (helements : ∀ c, ∀ n ∈ elementsIn c (offset + w.length), n ∈ elementsIn (first c) offset)
    (hwhole : ∀ c, Next c → Whole (first c)) : Slot Whole offset (first next) e :=
  s.within first (fun c => (hsource c).trans (by rw [List.append_nil])) helements hwhole

/-- Every element of markup that has content has a slot. -/
theorem slot_of_stands {c : Markup} {scope : Scope} (hstands : c.Stands .reader scope)
    {offset : Nat} {e : Node} (hmember : e ∈ elementsIn c offset) (hsome : e.children ≠ []) :
    Nonempty (Slot (InPlaceOf scope c) offset c e) := by
  induction hstands generalizing offset with
  | nil => cases hmember
  | @text _ raw content next htext hread hnoText hstands ih =>
      obtain ⟨s⟩ := ih hmember
      refine ⟨s.behind (.text raw content) (fun _ => rfl) (fun _ _ => id) ?_⟩
      rintro c ⟨hsame, hstands⟩
      exact ⟨rfl, .text htext hread (hsame.trans hnoText) hstands⟩
  | @verbatim _ raw written next hsection hstands ih =>
      obtain ⟨s⟩ := ih hmember
      exact ⟨s.behind (.verbatim raw written) (fun _ => rfl) (fun _ _ => id)
        fun c hfits => ⟨rfl, .verbatim hsection hfits.2⟩⟩
  | @aside _ written next haside hstands ih =>
      obtain ⟨s⟩ := ih hmember
      exact ⟨s.behind (.aside written) (fun _ => rfl) (fun _ _ => id)
        fun c hfits => ⟨rfl, .aside haside hfits.2⟩⟩
  | @empty _ tag head next hstart hstands ih =>
      obtain rfl | hmember := List.mem_cons.mp hmember
      · exact absurd rfl hsome
      · obtain ⟨s⟩ := ih hmember
        exact ⟨s.behind (.empty tag head) (fun _ => rfl) (fun _ _ => List.mem_cons_of_mem _)
          fun c hfits => ⟨rfl, .empty hstart hfits.2⟩⟩
  | @element _ tag close head inner next hstart hstands hending hstandsNext ih ihNext =>
      obtain rfl | hmember := List.mem_cons.mp hmember
      · exact ⟨.here hending fun i hfits => ⟨rfl, .element hstart hfits hending hstandsNext⟩⟩
      · obtain hinside | hlater := List.mem_append.mp hmember
        · obtain ⟨s⟩ := ih hinside
          refine ⟨s.within (fun i => .element tag head i close next) (fun _ => rfl) ?_
            fun i hfits => ⟨rfl, .element hstart hfits.2 hending hstandsNext⟩⟩
          exact fun _ _ hmember => List.mem_cons_of_mem _ (List.mem_append_left _ hmember)
        · obtain ⟨s⟩ := ihNext hlater
          refine ⟨s.behind (.element tag head inner close) (fun c => ?_) ?_
            fun c hfits => ⟨rfl, .element hstart hstands hending hfits.2⟩⟩
          · simp [Markup.source]
          · exact fun _ _ hmember => List.mem_cons_of_mem _ (List.mem_append_right _ hmember)

theorem slot_of_isRoot {c : Markup} (hroot : c.IsRoot .reader) {offset : Nat}
    {e : Node} (hmember : e ∈ elementsIn c offset) (hsome : e.children ≠ []) :
    Nonempty (Slot (·.IsRoot .reader) offset c e) := by
  cases hroot with
  | empty hstart =>
      obtain rfl | hmember := List.mem_cons.mp hmember
      · exact absurd rfl hsome
      · cases hmember
  | @element rootTag close head inner hstart hstands hending =>
      obtain rfl | hmember := List.mem_cons.mp hmember
      · exact ⟨.here hending fun i hfits => .element hstart hfits hending⟩
      · obtain ⟨s⟩ := slot_of_stands hstands (List.append_nil _ ▸ hmember) hsome
        refine ⟨s.within (fun i => .element rootTag head i close .nil) (fun _ => rfl) ?_
          fun i hfits => .element hstart hfits.2 hending⟩
        exact fun _ _ hmember => List.mem_cons_of_mem _ (List.mem_append_left _ hmember)

/-! ### Other content in a document -/

/-- A document with other content in place of what stands from `start` up to `stop`. -/
def withContent (document : String) (start stop : Nat) (content : List Char) : String :=
  String.ofList (document.toList.take start ++ (content ++ document.toList.drop stop))

theorem withContent_of_split {document : String} {pre w post : List Char}
    (hsplit : document.toList = pre ++ (w ++ post)) (content : List Char) :
    (withContent document pre.length (pre.length + w.length) content).toList =
      pre ++ (content ++ post) := by
  rw [withContent, String.toList_ofList, hsplit, List.take_left, ← List.drop_drop, List.drop_left,
    List.drop_left]

/-- The document is read with an element that has the tag and the place of `e` and these
children. -/
def ReadsWith (document : String) (e : Node) (children : List Node) : Prop :=
  ∃ root e', parse document = .ok root ∧ e' ∈ root.descendants ∧ e'.start = e.start ∧
    e'.name? = e.name? ∧ e'.attributes = e.attributes ∧ e'.children = children

theorem children_of_contentStretch? {document : List Char} {e : Node} {place : Nat × Nat}
    (hcontent : contentStretch? document e = some place) :
    e.name?.isSome = true ∧ e.children ≠ [] := by
  cases e with
  | text content start => cases hcontent
  | aside start => cases hcontent
  | element tag children =>
      cases children with
      | nil => cases hcontent
      | cons first rest => exact ⟨rfl, List.cons_ne_nil _ _⟩

theorem elementsIn_eq_of_onto {c : Markup} {offset : Nat} {root : Node}
    (hnode : c.onto offset [] = [root]) :
    elementsIn c offset = root.descendants.filter (·.name?.isSome) := by
  have hall := elementsOf_onto c offset []
  rw [hnode, elementsOf_cons] at hall
  exact hall.symm

/-- The content of an element with a slot lies behind the element's start tag. -/
theorem Slot.contentStretch? {Whole : Markup → Prop} {front post : List Char} {c : Markup}
    {e : Node} (s : Slot Whole front.length c e) (hsome : e.children ≠ []) :
    contentStretch? (front ++ (c.source ++ post)) e =
      Option.some ((front ++ s.before ++ s.tag).length,
        (front ++ s.before ++ s.tag).length + s.inner.source.length) := by
  have hfilled : s.inner ≠ .nil := by
    intro hnone
    rw [s.element, hnone] at hsome
    exact hsome rfl
  have hparts : front ++ (c.source ++ post) = front ++ s.before ++
      (s.tag ++ (s.inner.source ++ (s.close ++ (s.after ++ post)))) := by
    rw [s.source]
    simp only [List.append_assoc]
  rw [hparts, List.length_append]
  refine (congrArg (Report.contentStretch? _) s.element).trans ?_
  rw [elementAt, ← List.length_append]
  exact contentStretch?_node s.ending hfilled

/-- In a document that is accepted, the content of an element may give way to whatever may stand
there. -/
theorem exists_readsWith {y : String} {root e : Node} (haccepted : parse y = .ok root)
    (hinside : e ∈ root.descendants) {start stop : Nat}
    (hcontent : contentStretch? y.toList e = some (start, stop)) :
    ∃ scope, ∀ i : Markup, i.Stands .reader scope →
      ReadsWith (withContent y start stop i.source) e (i.onto start []).reverse := by
  obtain ⟨hnamed, hsome⟩ := children_of_contentStretch? hcontent
  obtain ⟨front, post, c, hdocument, hfront, hroot, hmisc, hnode⟩ := parse_eq_ok_iff.mp haccepted
  have hmember : e ∈ elementsIn c front.length := by
    rw [elementsIn_eq_of_onto hnode]
    exact List.mem_filter.mpr ⟨hinside, hnamed⟩
  obtain ⟨s⟩ := slot_of_isRoot hroot hmember hsome
  rw [hdocument, s.contentStretch? hsome] at hcontent
  cases hcontent
  refine ⟨s.head.scope, fun i hstands => ?_⟩
  -- The markup with the other content stands between the same parts of the document.
  obtain ⟨c', hroot', hsource, hmember'⟩ := s.refilled i hstands
  obtain ⟨root', hnode'⟩ := hroot'.onto_eq front.length
  have hsplit : y.toList = front ++ s.before ++ s.tag ++
      (s.inner.source ++ (s.close ++ s.after ++ post)) := by
    rw [hdocument, s.source]
    simp only [List.append_assoc]
  have hchanged := withContent_of_split hsplit i.source
  have hwhole : front ++ (c'.source ++ post) = front ++ s.before ++ s.tag ++
      (i.source ++ (s.close ++ s.after ++ post)) := by
    rw [hsource]
    simp only [List.append_assoc]
  rw [elementsIn_eq_of_onto hnode'] at hmember'
  have haccepted' := parse_eq_ok_iff.mpr
    ⟨front, post, c', hchanged.trans hwhole.symm, hfront, hroot', hmisc, hnode'⟩
  refine ⟨root', _, haccepted', (List.mem_filter.mp hmember').1, ?_⟩
  have hstart := congrArg Node.start s.element
  have hname := congrArg Node.name? s.element
  have hattributes := congrArg Node.attributes s.element
  refine ⟨hstart.symm, hname.symm, hattributes.symm, ?_⟩
  rw [List.length_append, List.length_append]
  rfl

end DeadlockCapture.Report
