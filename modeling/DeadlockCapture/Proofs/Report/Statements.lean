import DeadlockCapture.Proofs.Xml.Content
import DeadlockCapture.Report.DocumentRedaction

/-!
The statements in the markup of a document, and the edits that redact them: each replaces the
content of one element, and they come in the order of their places.
-/

namespace DeadlockCapture.Report

open DeadlockCapture.Sql (RedactionOptions)
open DeadlockCapture.Xml

/-! ### The elements that hold statements -/

/-- An element of this name holds a statement in an element named `outer`. -/
def holdsByName (outer base : List Char) : Bool :=
  base == "inputbuf".toList || (base == "frame".toList && outer == "executionStack".toList)

theorem holdsStatement_node (outer : List Char) (head : Head) (start stop : Nat)
    (children : List Node) :
    holdsStatement outer (head.node start stop children) = holdsByName outer head.name.base := by
  simp [holdsStatement, holdsByName, Node.isNamed, Node.name?, Head.node]

/-- The nodes of markup at an offset that hold statements, in document order. -/
def nodesWithStatements (outer : List Char) : Markup → Nat → List Node
  | .nil, _ => []
  | .text raw _ next, offset => nodesWithStatements outer next (offset + raw.length)
  | .verbatim _ written next, offset => nodesWithStatements outer next (offset + written.length)
  | .aside written next, offset => nodesWithStatements outer next (offset + written.length)
  | .empty tag head next, offset =>
    let own := head.node offset (offset + tag.length) []
    (if holdsByName outer head.name.base then [own] else []) ++
      nodesWithStatements outer next (offset + tag.length)
  | .element tag head inner close next, offset =>
    let stop := offset + tag.length + inner.source.length + close.length
    let own := head.node offset stop (inner.onto (offset + tag.length) []).reverse
    (if holdsByName outer head.name.base then [own] else []) ++
      (nodesWithStatements head.name.base inner (offset + tag.length) ++
        nodesWithStatements outer next stop)

theorem statementNodesOf_append (outer : List Char) (l l' : List Node) :
    statementNodesOf outer (l ++ l') = statementNodesOf outer l ++ statementNodesOf outer l' := by
  induction l with
  | nil => rfl
  | cons n l ih =>
      rw [List.cons_append, statementNodesOf, statementNodesOf, ih, List.append_assoc]

theorem statementNodesOf_cons_reverse (outer : List Char) (n : Node) (done : List Node) :
    statementNodesOf outer (n :: done).reverse =
      statementNodesOf outer done.reverse ++ statementNodes outer n := by
  rw [List.reverse_cons, statementNodesOf_append, statementNodesOf, statementNodesOf,
    List.append_nil]

theorem statementNodesOf_pushText (outer content : List Char) (start : Nat) (done : List Node) :
    statementNodesOf outer (pushText content start done).reverse =
      statementNodesOf outer done.reverse := by
  cases done with
  | nil => rfl
  | cons n done =>
      cases n with
      | element tag children =>
          rw [pushText, statementNodesOf_cons_reverse]
          · exact List.append_nil _
          · intro before start nodes hsame
            cases hsame
      | text before first =>
          rw [pushText, statementNodesOf_cons_reverse, statementNodesOf_cons_reverse]
          rfl
      | aside first =>
          rw [pushText, statementNodesOf_cons_reverse]
          · exact List.append_nil _
          · intro before start nodes hsame
            cases hsame

theorem statementNodes_node (outer : List Char) (head : Head) (start stop : Nat)
    (children : List Node) :
    statementNodes outer (head.node start stop children) =
      (if holdsByName outer head.name.base then [head.node start stop children] else []) ++
        statementNodesOf head.name.base children := by
  have hholds := holdsStatement_node outer head start stop children
  rw [Head.node] at hholds ⊢
  cases hknown : holdsByName outer head.name.base with
  | true => simp [statementNodes, hholds, hknown]
  | false => simp [statementNodes, hholds, hknown]

theorem statementNodesOf_onto (outer : List Char) (c : Markup) (offset : Nat) (done : List Node) :
    statementNodesOf outer (c.onto offset done).reverse =
      statementNodesOf outer done.reverse ++ nodesWithStatements outer c offset := by
  induction c generalizing outer offset done with
  | nil => exact (List.append_nil _).symm
  | text raw content next ih => rw [Markup.onto, ih, statementNodesOf_pushText]; rfl
  | verbatim raw written next ih => rw [Markup.onto, ih, statementNodesOf_pushText]; rfl
  | aside written next ih =>
      rw [Markup.onto, ih, statementNodesOf_cons_reverse, statementNodes, List.append_nil]
      rfl
  | empty tag head next ih =>
      rw [Markup.onto, ih, statementNodesOf_cons_reverse, statementNodes_node, statementNodesOf,
        List.append_nil, List.append_assoc]
      rfl
  | element tag head inner close next ih ihNext =>
      rw [Markup.onto, ihNext, statementNodesOf_cons_reverse, statementNodes_node, ih,
        List.append_assoc, List.append_assoc]
      rfl

/-! ### The stretch of an element's content -/

theorem lastEndTag?_go {u v : List Char} (hnoBracket : '<' ∉ v) (offset : Nat)
    (found : Option Nat) :
    lastEndTag?.go offset found (u ++ '<' :: '/' :: v) = some (offset + u.length) := by
  have hnone : ∀ (w : List Char) offset (found : Option Nat), '<' ∉ w →
      lastEndTag?.go offset found w = found := by
    intro w
    induction w with
    | nil => exact fun _ _ _ => rfl
    | cons c w ih =>
        intro offset found hfree
        rw [List.mem_cons, not_or] at hfree
        rw [lastEndTag?.go, if_neg (fun hmarks => hfree.1 hmarks.1.symm), ih _ _ hfree.2]
  induction u generalizing offset found with
  | nil =>
      rw [List.nil_append, lastEndTag?.go, if_pos ⟨rfl, rfl⟩, hnone]
      · rfl
      · simpa using hnoBracket
  | cons c u ih =>
      rw [List.cons_append, lastEndTag?.go, ih, List.length_cons, Nat.add_assoc, Nat.add_comm 1]

theorem lastEndTag?_append {name : Name} {u close : List Char}
    (hending : Dialect.reader.IsEndTag name close) : lastEndTag? (u ++ close) = some u.length := by
  obtain @⟨written, blanks, hnamed, hblank⟩ := hending
  have hnoBracket : '<' ∉ written ++ (blanks ++ ['>']) := by
    rw [List.mem_append, List.mem_append, not_or, not_or]
    refine ⟨fun hbracket => ?_, fun hbracket => ?_, by decide⟩
    · exact absurd (hnamed.inName _ hbracket) (by decide)
    · exact absurd (hblank _ hbracket) (by decide)
  rw [lastEndTag?, lastEndTag?_go hnoBracket, Nat.zero_add]

/-- The content of an element with markup inside lies between its tags. -/
theorem contentStretch?_node {pre tag close post : List Char} {head : Head} {inner : Markup}
    (hending : Dialect.reader.IsEndTag head.name close) (hsome : inner ≠ .nil) :
    contentStretch? (pre ++ (tag ++ (inner.source ++ (close ++ post))))
        (head.node pre.length (pre.length + tag.length + inner.source.length + close.length)
          (inner.onto (pre.length + tag.length) []).reverse) =
      Option.some (pre.length + tag.length, pre.length + tag.length + inner.source.length) := by
  obtain ⟨first, rest, hnodes, hstart⟩ := exists_first hsome (pre.length + tag.length)
  have hstretch : ((pre ++ (tag ++ (inner.source ++ (close ++ post)))).drop pre.length).take
      (pre.length + tag.length + inner.source.length + close.length - pre.length) =
        tag ++ inner.source ++ close := by
    have hwhole : tag ++ (inner.source ++ (close ++ post)) =
        tag ++ inner.source ++ close ++ post := by simp
    rw [List.drop_left, hwhole, List.take_left']
    simp only [List.length_append]
    omega
  rw [hnodes, Head.node, contentStretch?]
  simp only [hstretch, lastEndTag?_append hending, List.length_append, hstart]
  rw [if_pos (by omega), Nat.add_assoc]

/-! ### The edits -/

def statementIn (c : Markup) : String :=
  String.ofList (Text.trim c.characters)

theorem isEmpty_statementIn_nil : (statementIn .nil).isEmpty = true := rfl

theorem ne_nil_of_statementIn {c : Markup} (hsome : (statementIn c).isEmpty = false) :
    c ≠ .nil := by
  rintro rfl
  rw [isEmpty_statementIn_nil] at hsome
  cases hsome

/-- The edits that redact the statements of markup at an offset, in the order of their places. -/
def editsIn (o : RedactionOptions) (outer : List Char) : Markup → Nat → List Edit
  | .nil, _ => []
  | .text raw _ next, offset => editsIn o outer next (offset + raw.length)
  | .verbatim _ written next, offset => editsIn o outer next (offset + written.length)
  | .aside written next, offset => editsIn o outer next (offset + written.length)
  | .empty tag _ next, offset => editsIn o outer next (offset + tag.length)
  | .element tag head inner close next, offset =>
    let start := offset + tag.length
    let stop := start + inner.source.length
    (if holdsByName outer head.name.base && !(statementIn inner).isEmpty then
        [⟨start, stop, replacementFor o (statementIn inner)⟩]
      else []) ++
      (editsIn o head.name.base inner start ++ editsIn o outer next (stop + close.length))

theorem editOf?_empty (o : RedactionOptions) (document : List Char) (head : Head)
    (start stop : Nat) : editOf? o document (head.node start stop []) = none := by
  have htext : (head.node start stop []).textContent = "" := by
    have htext := textContent_node head start stop .nil 0
    simpa [Markup.onto, Markup.characters, Text.trim, Text.trimLeft, Text.trimRight] using htext
  rw [editOf?, htext]
  rfl

theorem editOf?_node (o : RedactionOptions) {head : Head} {close : List Char}
    (hending : Dialect.reader.IsEndTag head.name close) (pre tag : List Char) (inner : Markup)
    (post : List Char) :
    editOf? o (pre ++ (tag ++ (inner.source ++ (close ++ post))))
        (head.node pre.length (pre.length + tag.length + inner.source.length + close.length)
          (inner.onto (pre.length + tag.length) []).reverse) =
      if (statementIn inner).isEmpty then none
      else some ⟨pre.length + tag.length, pre.length + tag.length + inner.source.length,
        replacementFor o (statementIn inner)⟩ := by
  rw [editOf?, textContent_node, ← statementIn]
  cases hblank : (statementIn inner).isEmpty with
  | true => rfl
  | false =>
      rw [contentStretch?_node hending (ne_nil_of_statementIn hblank)]
      rfl

/-- The edits that redact the elements of markup are those of the markup. -/
theorem filterMap_editOf? (o : RedactionOptions) {c : Markup} {scope : Scope}
    (hstands : c.Stands .reader scope) (outer pre post : List Char) :
    (nodesWithStatements outer c pre.length).filterMap
        (editOf? o (pre ++ (c.source ++ post))) = editsIn o outer c pre.length := by
  induction hstands generalizing outer pre post with
  | nil => rfl
  | @text _ raw content next htext hread hnoText hstands ih =>
      have hafter := ih outer (pre ++ raw) post
      rw [List.length_append, List.append_assoc] at hafter
      rw [Markup.source, List.append_assoc]
      exact hafter
  | @verbatim _ raw written next hsection hstands ih =>
      have hafter := ih outer (pre ++ written) post
      rw [List.length_append, List.append_assoc] at hafter
      rw [Markup.source, List.append_assoc]
      exact hafter
  | @aside _ written next haside hstands ih =>
      have hafter := ih outer (pre ++ written) post
      rw [List.length_append, List.append_assoc] at hafter
      rw [Markup.source, List.append_assoc]
      exact hafter
  | @empty _ tag head next hstart hstands ih =>
      have hafter := ih outer (pre ++ tag) post
      rw [List.length_append, List.append_assoc] at hafter
      rw [Markup.source, List.append_assoc, nodesWithStatements, List.filterMap_append, hafter]
      split
      · simp [editOf?_empty, editsIn]
      · rfl
  | @element _ tag close head inner next hstart hstands hending hstandsNext ih ihNext =>
      have hbelow := ih head.name.base (pre ++ tag) (close ++ (next.source ++ post))
      have hafter := ihNext outer (pre ++ (tag ++ (inner.source ++ close))) post
      have hown := editOf?_node o hending pre tag inner (next.source ++ post)
      have hinside : pre ++ tag ++ (inner.source ++ (close ++ (next.source ++ post))) =
          pre ++ (tag ++ (inner.source ++ (close ++ (next.source ++ post)))) := by
        simp
      have hbehind : pre ++ (tag ++ (inner.source ++ close)) ++ (next.source ++ post) =
          pre ++ (tag ++ (inner.source ++ (close ++ (next.source ++ post)))) := by
        simp
      have hwhole : pre ++ ((Markup.element tag head inner close next).source ++ post) =
          pre ++ (tag ++ (inner.source ++ (close ++ (next.source ++ post)))) := by
        simp [Markup.source]
      have hlength : (pre ++ (tag ++ (inner.source ++ close))).length =
          pre.length + tag.length + inner.source.length + close.length := by
        simp only [List.length_append, Nat.add_assoc]
      rw [hinside, List.length_append] at hbelow
      rw [hbehind, hlength] at hafter
      rw [hwhole, nodesWithStatements, List.filterMap_append, List.filterMap_append, hbelow, hafter,
        editsIn]
      congr 1
      cases hholds : holdsByName outer head.name.base with
      | false => rfl
      | true =>
          simp only [if_true, List.filterMap_cons, List.filterMap_nil, hown, Bool.true_and]
          cases hblank : (statementIn inner).isEmpty <;> rfl

end DeadlockCapture.Report
