import DeadlockCapture.Proofs.Report.RedactedGrammar
import DeadlockCapture.Proofs.Report.RedactedGraph
import DeadlockCapture.Proofs.Xml.PlainTags

/-!
Redaction of a whole document: what comes out is well-formed, and its graph is the graph of the
document with the statements redacted.
-/

namespace DeadlockCapture.Report

open DeadlockCapture.Sql (RedactionOptions)
open DeadlockCapture.Xml

/-! ### The deadlock of a document -/

theorem deadlockIn_eq_ok_iff {root d : Node} :
    deadlockIn root = .ok d ↔ firstDeadlock? [root] = some d := by
  have hbelow : laidOut [root] = root.descendants := descendantsOf_singleton root
  rw [deadlockIn, firstDeadlock?, hbelow]
  cases root.descendants.find? (·.isNamed "deadlock") <;> simp

theorem deadlockOf_eq_ok_iff {document : String} {d : Node} :
    deadlockOf document = .ok d ↔
      ∃ root, parse document = .ok root ∧ firstDeadlock? [root] = some d := by
  rw [deadlockOf, rootOf]
  cases parse document with
  | error f => simp
  | ok root => simp [deadlockIn_eq_ok_iff]

theorem children_ne_nil_of_ofDeadlock {d : Node} {g : Graph} (h : Graph.ofDeadlock d = .ok g) :
    d.children ≠ [] := by
  intro hnone
  rw [Graph.ofDeadlock, Node.child?, hnone] at h
  cases h

/-! ### The edits of a deadlock -/

theorem plain_of_opensDeadlock {head : Head} (hopens : opensDeadlock head = true) :
    holdsByName [] head.name.base = false := by
  have hname : head.name.base = "deadlock".toList := eq_of_beq hopens
  rw [hname]
  rfl

theorem statementNodes_deadlock {head : Head} (hopens : opensDeadlock head = true)
    (start stop : Nat) (inner : Markup) (offset : Nat) :
    statementNodes [] (head.node start stop (inner.onto offset []).reverse) =
      nodesWithStatements head.name.base inner offset := by
  rw [statementNodes_node, plain_of_opensDeadlock hopens, statementNodesOf_onto]
  rfl

/-- The edits of a deadlock are those of its content. -/
theorem editsOf_deadlock (o : RedactionOptions) {head : Head} (hopens : opensDeadlock head = true)
    {inner : Markup} (hstands : inner.Stands .reader head.scope) (pre post : List Char)
    (start stop : Nat) :
    editsOf o (pre ++ (inner.source ++ post))
        (head.node start stop (inner.onto pre.length []).reverse) =
      editsIn o head.name.base inner pre.length := by
  have hsorted : (editsIn o head.name.base inner pre.length).Pairwise
      fun a b => decide (a.start ≤ b.start) = true :=
    (pairwise_editsIn o _ hstands _).imp fun hle => decide_eq_true hle
  rw [editsOf, statementNodes_deadlock hopens, filterMap_editOf? o hstands,
    List.mergeSort_of_pairwise hsorted]

/-- The edits of a deadlock redact its content and keep everything around it. -/
theorem applyEdits_editsOf (o : RedactionOptions) {head : Head} (hopens : opensDeadlock head = true)
    {inner : Markup} (hstands : inner.Stands .reader head.scope) (pre post : List Char)
    (start stop : Nat) :
    applyEdits 0 (pre ++ (inner.source ++ post))
        (editsOf o (pre ++ (inner.source ++ post))
          (head.node start stop (inner.onto pre.length []).reverse)) =
      pre ++ ((redactedIn o head.name.base inner).source ++ post) := by
  have hplaces : ∀ e ∈ editsIn o head.name.base inner pre.length,
      0 + pre.length ≤ e.start ∧ e.start ≤ e.stop := by
    intro e hmember
    have hplace := place_of_editsIn o _ hstands _ e hmember
    omega
  have hsplices := splices_of_stands o head.name.base hstands pre.length post []
    (by intro e hmember; cases hmember)
  rw [List.append_nil] at hsplices
  rw [editsOf_deadlock o hopens hstands, applyEdits_append hplaces, Nat.zero_add, hsplices]
  rfl

theorem statementNodes_of_childless {d : Node} (hnamed : d.isNamed "deadlock" = true)
    (hnone : d.children = []) : statementNodes [] d = [] := by
  cases d with
  | text content start => rfl
  | aside start => rfl
  | element tag children =>
      obtain rfl : children = [] := hnone
      have hbase : tag.base = "deadlock".toList := by
        simpa [Node.isNamed, Node.name?] using hnamed
      have hother : holdsStatement [] (.element tag []) = false := by
        simp [holdsStatement, Node.isNamed, Node.name?, hbase]
      rw [statementNodes, hother]
      rfl

theorem editsOf_of_no_statement (o : RedactionOptions) (document : List Char) {d : Node}
    (hnone : statementNodes [] d = []) : editsOf o document d = [] := by
  simp [editsOf, hnone]

theorem redactDeadlock_of_no_statement (o : RedactionOptions) (x : String) {d : Node}
    (hnone : statementNodes [] d = []) : redactDeadlock o x d = x := by
  rw [redactDeadlock, editsOf_of_no_statement o _ hnone, applyEdits, String.ofList_toList]

/-! ### The redacted document -/

/-- The content of the deadlock between the parts of the document around it. -/
theorem Focus.around {Whole : Markup → Prop} {offset : Nat} {c : Markup}
    (f : Focus Whole offset c) (front post : List Char) (i : Markup) :
    front ++ ((f.holding i).source ++ post) =
      front ++ f.before ++ f.tag ++ (i.source ++ (f.close ++ f.after ++ post)) := by
  rw [f.source]
  simp only [List.append_assoc]

/-- A deadlock that has content, in the markup of its document. -/
theorem focus_of_firstDeadlock? {x : String} {root d : Node} {front post : List Char} {c : Markup}
    (hparts : x.toList = front ++ (c.source ++ post)) (hroot : c.IsRoot .reader)
    (hnode : c.onto front.length [] = [root]) (hfirst : firstDeadlock? [root] = some d)
    (hsome : d.children ≠ []) :
    ∃ f : Focus (·.IsRoot .reader) front.length c,
      x.toList = front ++ f.before ++ f.tag ++ (f.inner.source ++ (f.close ++ f.after ++ post)) ∧
        d = f.head.node (front ++ f.before).length
          ((front ++ f.before ++ f.tag).length + f.inner.source.length + f.close.length)
          (f.inner.onto (front ++ f.before ++ f.tag).length []).reverse := by
  rw [← hnode, firstDeadlock?_onto] at hfirst
  obtain ⟨f⟩ := focus_of_isRoot hroot hfirst hsome
  have hsource := f.around front post f.inner
  have hown := f.found f.inner
  rw [f.holding_inner, ← hparts] at hsource
  rw [f.holding_inner, ← List.length_append, ← List.length_append] at hown
  exact ⟨f, hsource, Option.some.inj (hfirst.symm.trans hown)⟩

theorem focus_of_deadlockOf {x : String} {d : Node} (hfound : deadlockOf x = .ok d)
    (hsome : d.children ≠ []) :
    ∃ (front post : List Char) (c : Markup)
        (f : Focus (·.IsRoot .reader) front.length c),
      x.toList = front ++ f.before ++ f.tag ++ (f.inner.source ++ (f.close ++ f.after ++ post)) ∧
        Dialect.reader.IsFront front ∧ Dialect.reader.IsMisc post ∧
        d = f.head.node (front ++ f.before).length
          ((front ++ f.before ++ f.tag).length + f.inner.source.length + f.close.length)
          (f.inner.onto (front ++ f.before ++ f.tag).length []).reverse := by
  obtain ⟨root, haccepted, hfirst⟩ := deadlockOf_eq_ok_iff.mp hfound
  obtain ⟨front, post, c, hdocument, hfront, hroot, hmisc, hnode⟩ := parse_eq_ok_iff.mp haccepted
  obtain ⟨f, hsource, hd⟩ := focus_of_firstDeadlock? hdocument hroot hnode hfirst hsome
  exact ⟨front, post, c, f, hsource, hfront, hmisc, hd⟩

/-- Redaction of a document is redaction of the deadlock in its markup. -/
theorem toList_redactDeadlock (o : RedactionOptions) {x : String} {d : Node}
    {front post : List Char} {c : Markup} (f : Focus (·.IsRoot .reader) front.length c)
    (hsource : x.toList =
      front ++ f.before ++ f.tag ++ (f.inner.source ++ (f.close ++ f.after ++ post)))
    (hd : d = f.head.node (front ++ f.before).length
      ((front ++ f.before ++ f.tag).length + f.inner.source.length + f.close.length)
      (f.inner.onto (front ++ f.before ++ f.tag).length []).reverse) :
    (redactDeadlock o x d).toList = front ++ ((redactedDeadlock o c).source ++ post) := by
  rw [redactDeadlock, String.toList_ofList, hsource, hd, applyEdits_editsOf o f.opens f.stands,
    redactedDeadlock, f.edited, f.around]

/-- A document of any dialect is one again when its deadlock is redacted. -/
theorem isDocument_redactDeadlock (o : RedactionOptions) {x : String} {d : Node}
    (hfound : deadlockOf x = .ok d) (hsome : d.children ≠ []) {dialect : Dialect} {root : Node}
    (hdocument : dialect.IsDocument x.toList root) :
    ∃ root', dialect.IsDocument (redactDeadlock o x d).toList root' := by
  obtain ⟨read, haccepted, hfirst⟩ := deadlockOf_eq_ok_iff.mp hfound
  obtain ⟨front, post, c, c', hparts, ⟨-, hroot, -, hnode⟩, ⟨hfront', hroot', hpost'⟩, halike⟩ :=
    (parse_eq_ok_iff.mp haccepted).alike hdocument
  obtain ⟨f, hsource, hd⟩ := focus_of_firstDeadlock? hparts hroot hnode hfirst hsome
  obtain ⟨r, hroot'', hwritten⟩ := exists_isRoot_redactedDeadlock o halike hroot hroot'
  obtain ⟨root', hnode'⟩ := hroot''.onto_eq front.length
  refine ⟨root', front, post, r, ?_, hfront', hroot'', hpost', hnode'⟩
  rw [toList_redactDeadlock o f hsource hd, hwritten]

/-- The deadlock of a redacted document, read again, has the redacted markup of the deadlock. -/
theorem markup_redactDeadlock (o : RedactionOptions) {x : String} {d : Node}
    (hfound : deadlockOf x = .ok d) (hsome : d.children ≠ []) :
    ∃ (head : Head) (inner : Markup) (start stop stop' offset : Nat), opensDeadlock head = true ∧
      d = head.node start stop (inner.onto offset []).reverse ∧
      deadlockOf (redactDeadlock o x d) = .ok
        (head.node start stop' ((redactedIn o head.name.base inner).onto offset []).reverse) := by
  obtain ⟨front, post, c, f, hsource, hfront, hmisc, hd⟩ := focus_of_deadlockOf hfound hsome
  obtain ⟨inner', hinner'⟩ : ∃ i, i = redactedIn o f.head.name.base f.inner := ⟨_, rfl⟩
  have hstands' : inner'.Stands .reader f.head.scope := hinner' ▸ redactedIn_stands o _ f.stands
  have hedited : (redactDeadlock o x d).toList = front ++ ((f.holding inner').source ++ post) := by
    rw [toList_redactDeadlock o f hsource hd, redactedDeadlock, f.edited, hinner']
  -- The redacted document is read like the document, up to the deadlock's content.
  obtain ⟨root', hnode'⟩ := (f.whole inner' hstands').onto_eq front.length
  have haccepted := parse_eq_ok_iff.mpr
    ⟨front, post, _, hedited, hfront, f.whole inner' hstands', hmisc, hnode'⟩
  have hfirst' := firstDeadlock?_onto (f.holding inner') front.length []
  rw [hnode', f.found, ← List.length_append, ← List.length_append] at hfirst'
  have hagain := deadlockOf_eq_ok_iff.mpr ⟨root', haccepted, hfirst'⟩
  exact ⟨f.head, f.inner, _, _, _, _, f.opens, hd, hinner' ▸ hagain⟩

/-- The deadlock of a redacted document, read again, is a revision of the deadlock, if no statement
holds a carriage return. -/
theorem deadlockOf_redactDeadlock (o : RedactionOptions) {x : String} {d : Node}
    (hfound : deadlockOf x = .ok d) (hsome : d.children ≠ [])
    (hnoReturn : ∀ n ∈ statementNodes [] d, '\r' ∉ n.textContent.toList) :
    ∃ d', deadlockOf (redactDeadlock o x d) = .ok d' ∧ Revised o [] d d' := by
  obtain ⟨head, inner, start, stop, stop', offset, hopens, hd, hagain⟩ :=
    markup_redactDeadlock o hfound hsome
  refine ⟨_, hagain, ?_⟩
  rw [hd, statementNodes_deadlock hopens] at hnoReturn
  rw [hd]
  refine .element rfl rfl (plain_of_opensDeadlock hopens) (revisedAll_iff.mpr ?_)
  exact List.forall₂_reverse_iff.mpr (revised_onto o _ inner _ _ .nil hnoReturn)

theorem isNamed_of_deadlockOf {x : String} {d : Node} (hfound : deadlockOf x = .ok d) :
    d.isNamed "deadlock" = true := by
  obtain ⟨root, -, hfirst⟩ := deadlockOf_eq_ok_iff.mp hfound
  exact List.find?_some (p := fun n : Node => n.isNamed "deadlock") hfirst

/-- Redaction changes the statements of a document and nothing else: the redacted text is a document
again, and one of the standard if it was one, and its graph is the graph of the document with the
statements redacted. A carriage return in a statement would not survive reading, and a resource
named like a statement would be redacted with what it holds. -/
theorem redacted_document_describes_redacted_graph (o : RedactionOptions) {x y : String} {d : Node}
    {g : Graph} (hredacted : redactDocument o x = .ok y) (hread : Graph.ofDocument x = .ok g)
    (hfound : deadlockOf x = .ok d)
    (hnoReturn : ∀ n ∈ statementNodes [] d, '\r' ∉ n.textContent.toList)
    (hnoBuffer : ∀ list, d.child? "resource-list" = some list →
      ∀ n ∈ list.children, n.isNamed "inputbuf" = false) :
    (∃ root, Dialect.reader.IsDocument y.toList root) ∧
      ((∃ root, Dialect.standard.IsDocument x.toList root) →
        ∃ root, Dialect.standard.IsDocument y.toList root) ∧
      Graph.ofDocument y = .ok (g.redacted o) := by
  rw [redactDocument, hfound] at hredacted
  rw [Graph.ofDocument, hfound] at hread
  cases hredacted
  have hsome := children_ne_nil_of_ofDeadlock hread
  obtain ⟨root, haccepted, -⟩ := deadlockOf_eq_ok_iff.mp hfound
  refine ⟨isDocument_redactDeadlock o hfound hsome (parse_eq_ok_iff.mp haccepted), ?_, ?_⟩
  · rintro ⟨root, hdocument⟩
    exact isDocument_redactDeadlock o hfound hsome hdocument
  obtain ⟨d', hfound', hrevised⟩ := deadlockOf_redactDeadlock o hfound hsome hnoReturn
  rw [Graph.ofDocument, hfound']
  exact Graph.ofDeadlock_revised hrevised (isNamed_of_deadlockOf hfound) hnoBuffer hread

def sampleDocument : String :=
  "<deadlock victim='p'><process-list><process id='p' spid='52'>" ++
  "<inputbuf>a &lt; <![CDATA['x']]></inputbuf></process></process-list>" ++
  "<resource-list><keylock/></resource-list></deadlock>"

def redactedSample : String :=
  "<deadlock victim='p'><process-list><process id='p' spid='52'>" ++
  "<inputbuf>a &lt; ?</inputbuf></process></process-list>" ++
  "<resource-list><keylock/></resource-list></deadlock>"

def sampleGraph : Graph where
  processes :=
    [{ id := "p", session := 52, waitMillis := 0, lockMode := "", isolation := ""
       inputBuffer := "a < 'x'" }]
  resources := [{ kind := "keylock", object := "", owners := .empty, waiters := .empty }]
  victims := .ofList [52]

/-- The sample is a document of the standard, too. -/
theorem sampleDocument_isDocument :
    ∃ root, Dialect.standard.IsDocument sampleDocument.toList root := by
  have hdeadlock : IsLocalName "deadlock".toList := by decide +kernel
  have hprocesses : IsLocalName "process-list".toList := by decide +kernel
  have hprocess : IsLocalName "process".toList := by decide +kernel
  have hbuffer : IsLocalName "inputbuf".toList := by decide +kernel
  have hresources : IsLocalName "resource-list".toList := by decide +kernel
  have hlock : IsLocalName "keylock".toList := by decide +kernel
  have hvictim : ArePlain [("victim".toList, "p".toList)] := by decide +kernel
  have hparty : ArePlain [("id".toList, "p".toList), ("spid".toList, "52".toList)] := by
    decide +kernel
  have htext : IsText "a &lt; ".toList :=
    ⟨by decide +kernel, Text.forall_mem_of_all (by decide +kernel), by decide +kernel,
      by decide +kernel⟩
  have hspells : Dialect.standard.Spells "a &lt; ".toList
      [.written 'a', .written ' ', .referred '<', .written ' '] := by
    have hreference : Dialect.standard.Refers ['l', 't'] '<' := .named rfl
    exact .written (by decide) (.written (by decide)
      (.referred hreference (.written (by decide) .nil)))
  have hsection : IsSection "'x'".toList "<![CDATA['x']]>".toList :=
    .mk ⟨Text.forall_mem_of_all (by decide +kernel), by decide +kernel⟩
  have hbuffered : Markup.Stands .standard [] _ :=
    .element (isStartTag_of_base hbuffer false)
      (.text htext ⟨_, hspells, rfl⟩ rfl (.verbatim hsection .nil)) (isEndTag_of_base hbuffer) .nil
  have hprocessed : Markup.Stands .standard [] _ :=
    .element (hparty.isStartTag hprocess false) hbuffered (isEndTag_of_base hprocess) .nil
  have hlocked : Markup.Stands .standard [] _ :=
    .element (isStartTag_of_base hresources false) (.empty (isStartTag_of_base hlock true) .nil)
      (isEndTag_of_base hresources) .nil
  have hroot : Markup.IsRoot .standard _ :=
    .element (hvictim.isStartTag hdeadlock false)
      (.element (isStartTag_of_base hprocesses false) hprocessed (isEndTag_of_base hprocesses)
        hlocked)
      (isEndTag_of_base hdeadlock)
  have hfront : Dialect.standard.IsFront [] :=
    @Dialect.IsFront.mk .standard [] [] [] [] (.inl rfl) (.inl rfl) .nil (.inl rfl)
  obtain ⟨root, hnode⟩ := hroot.onto_eq 0
  exact ⟨root, [], [], _, by decide +kernel, hfront, hroot, .nil, hnode⟩

theorem sample_document_describes_redacted_graph :
    ∃ d, (redactDocument {} sampleDocument = .ok redactedSample ∧
      Graph.ofDocument sampleDocument = .ok sampleGraph ∧ deadlockOf sampleDocument = .ok d ∧
      (∀ n ∈ statementNodes [] d, '\r' ∉ n.textContent.toList) ∧
      (∀ list, d.child? "resource-list" = some list →
        ∀ n ∈ list.children, n.isNamed "inputbuf" = false)) ∧
      (∃ root, Dialect.reader.IsDocument redactedSample.toList root) ∧
      (∃ root, Dialect.standard.IsDocument redactedSample.toList root) ∧
      Graph.ofDocument redactedSample = .ok (sampleGraph.redacted {}) := by
  have hchecked : (deadlockOf sampleDocument).toOption.any (fun d =>
      (statementNodes [] d).all (fun n => !n.textContent.toList.contains '\r') &&
        (d.child? "resource-list").all (fun list =>
          list.children.all fun n => !n.isNamed "inputbuf") &&
        decide (Graph.ofDeadlock d = .ok sampleGraph) &&
        decide (redactDeadlock {} sampleDocument d = redactedSample)) = true := by decide +kernel
  cases hfound : deadlockOf sampleDocument with
  | error f =>
      rw [hfound] at hchecked
      cases hchecked
  | ok d =>
      rw [hfound] at hchecked
      simp only [Except.toOption, Option.any_some, Bool.and_eq_true, List.all_eq_true,
        decide_eq_true_eq] at hchecked
      obtain ⟨⟨⟨hfree, hplain⟩, hgraph⟩, hsame⟩ := hchecked
      have hredacted : redactDocument {} sampleDocument = .ok redactedSample := by
        rw [redactDocument, hfound, ← hsame]
      have hread : Graph.ofDocument sampleDocument = .ok sampleGraph := by
        rw [Graph.ofDocument, hfound]
        exact hgraph
      have hnoReturn : ∀ n ∈ statementNodes [] d, '\r' ∉ n.textContent.toList := by
        intro n hmember
        simpa using hfree n hmember
      have hnoBuffer : ∀ list, d.child? "resource-list" = some list →
          ∀ n ∈ list.children, n.isNamed "inputbuf" = false := by
        intro list hknown n hmember
        rw [hknown] at hplain
        simpa using List.all_eq_true.mp hplain n hmember
      obtain ⟨hreader, hstandard, hredactedGraph⟩ := redacted_document_describes_redacted_graph {}
        hredacted hread hfound hnoReturn hnoBuffer
      exact ⟨d, ⟨hredacted, hread, rfl, hnoReturn, hnoBuffer⟩, hreader,
        hstandard sampleDocument_isDocument, hredactedGraph⟩

end DeadlockCapture.Report
