import DeadlockCapture.Proofs.Report.RedactedDocument

/-!
What redaction does to the characters of a document: the contents of the outermost elements with
statements give way to the redacted statements, and every other character is kept. Offsets count
characters, so no stretch starts or stops inside one.
-/

namespace DeadlockCapture.Report

open DeadlockCapture.Sql (RedactionOptions)
open DeadlockCapture.Xml

/-! ### The elements that are redacted -/

mutual

/-- The elements at and below a node that hold a statement that is not empty, less those that lie
inside another one. -/
def outermostStatements (outer : List Char) : Node → List Node
  | .element tag children =>
    if holdsStatement outer (.element tag children) &&
        !(Node.element tag children).textContent.isEmpty then
      [.element tag children]
    else outermostStatementsOf tag.base children
  | .text _ _ | .aside _ => []

/-- The outermost elements with statements among nodes and below them. -/
def outermostStatementsOf (outer : List Char) : List Node → List Node
  | [] => []
  | n :: r => outermostStatements outer n ++ outermostStatementsOf outer r

end

mutual

theorem outermostStatements_sublist (outer : List Char) (n : Node) :
    (outermostStatements outer n).Sublist (statementNodes outer n) := by
  cases n with
  | text content start => exact List.Sublist.refl _
  | aside start => exact List.Sublist.refl _
  | element tag children =>
      have hbelow := outermostStatementsOf_sublist tag.base children
      rw [outermostStatements, statementNodes]
      cases hholds : holdsStatement outer (.element tag children) with
      | false => exact hbelow
      | true =>
          rw [Bool.true_and, if_pos rfl]
          split
          · exact List.singleton_sublist.mpr List.mem_cons_self
          · exact hbelow.cons _

theorem outermostStatementsOf_sublist (outer : List Char) (l : List Node) :
    (outermostStatementsOf outer l).Sublist (statementNodesOf outer l) := by
  cases l with
  | nil => exact List.Sublist.refl _
  | cons n r =>
      have hfirst := outermostStatements_sublist outer n
      exact hfirst.append (outermostStatementsOf_sublist outer r)

end

/-! ### The contents that are replaced -/

/-- The end tag of an element: its name, with or without a prefix, and blanks. -/
def ClosesTag (tag : Tag) (w : List Char) : Prop :=
  ∃ name, Dialect.reader.IsEndTag name w ∧ name.base = tag.base

/-- The content of an element goes from the start of its first child to the end tag, with which the
element stops. -/
def HasContent (document : List Char) (n : Node) (start stop : Nat) : Prop :=
  match n with
  | .element tag children =>
    children.head?.map Node.start = some start ∧ tag.start ≤ start ∧ start ≤ stop ∧
      ∃ close, ClosesTag tag close ∧ document.extract stop tag.stop = close ∧
        stop + close.length = tag.stop
  | .text _ _ | .aside _ => False

/-- From an offset on, the document with the redacted statements of elements in place of their
contents. The contents stand in the document one after another. -/
inductive Replaces (o : RedactionOptions) (document : List Char) :
    Nat → List Node → List Char → Prop
  | rest {offset : Nat} : offset ≤ document.length →
      Replaces o document offset [] (document.extract offset document.length)
  | content {offset start stop : Nat} {n : Node} {ns : List Node} {out : List Char} :
      HasContent document n start stop → offset ≤ start → Replaces o document stop ns out →
      Replaces o document offset (n :: ns)
        (document.extract offset start ++ (replacementFor o n.textContent ++ out))

/-! ### Slices -/

/-- A slice of a text, if its bounds are in order and lie in the text. -/
def slice? (s : List Char) (start stop : Nat) : Option (List Char) :=
  if start ≤ stop ∧ stop ≤ s.length then some (s.extract start stop) else none

/-- Applies changes in order to a document from an offset on. There is an answer only if every slice
on the way exists. -/
def splice? (document : List Char) (offset : Nat) : List Edit → Option (List Char)
  | [] => slice? document offset document.length
  | e :: r =>
    if e.start < offset then splice? document offset r
    else do
      let kept ← slice? document offset e.start
      let rest ← splice? document e.stop r
      some (kept ++ (e.replacement ++ rest))

theorem slice?_of_le {s : List Char} {start stop : Nat} (horder : start ≤ stop)
    (hinRange : stop ≤ s.length) : slice? s start stop = some (s.extract start stop) :=
  if_pos ⟨horder, hinRange⟩

/-- Where the changes lie in the document, every slice exists, and they make up the document that
the changes are said to make. -/
theorem splice?_eq {document : List Char} {offset : Nat} (hinRange : offset ≤ document.length)
    {edits : List Edit}
    (hplaces : ∀ e ∈ edits, e.start ≤ e.stop ∧ e.stop ≤ document.length) :
    splice? document offset edits =
      some (applyEdits offset (document.drop offset) edits) := by
  induction edits generalizing offset with
  | nil =>
      rw [splice?, applyEdits, slice?_of_le hinRange (Nat.le_refl _), List.extract_eq_take_drop,
        List.take_of_length_le (by simp)]
  | cons e r ih =>
      obtain ⟨⟨horder, hshort⟩, hplaces⟩ := List.forall_mem_cons.mp hplaces
      rw [splice?, applyEdits]
      split
      · exact ih hinRange hplaces
      · rename_i hlater
        have hbehind : (document.drop offset).drop (e.stop - offset) = document.drop e.stop := by
          rw [List.drop_drop]
          congr 1
          omega
        rw [slice?_of_le (by omega) (by omega), ih hshort hplaces, hbehind]
        simp

/-! ### The redacted elements of markup -/

/-- The outermost elements with statements of markup at an offset. -/
def outermostIn (outer : List Char) : Markup → Nat → List Node
  | .nil, _ => []
  | .text raw _ next, offset => outermostIn outer next (offset + raw.length)
  | .verbatim _ written next, offset => outermostIn outer next (offset + written.length)
  | .aside written next, offset => outermostIn outer next (offset + written.length)
  | .empty tag _ next, offset => outermostIn outer next (offset + tag.length)
  | .element tag head inner close next, offset =>
    let stop := offset + tag.length + inner.source.length + close.length
    (if holdsByName outer head.name.base && !(statementIn inner).isEmpty then
        [head.node offset stop (inner.onto (offset + tag.length) []).reverse]
      else outermostIn head.name.base inner (offset + tag.length)) ++
      outermostIn outer next stop

theorem outermostStatementsOf_append (outer : List Char) (l l' : List Node) :
    outermostStatementsOf outer (l ++ l') =
      outermostStatementsOf outer l ++ outermostStatementsOf outer l' := by
  induction l with
  | nil => rfl
  | cons n l ih =>
      rw [List.cons_append, outermostStatementsOf, outermostStatementsOf, ih, List.append_assoc]

theorem outermostStatementsOf_cons_reverse (outer : List Char) (n : Node) (done : List Node) :
    outermostStatementsOf outer (n :: done).reverse =
      outermostStatementsOf outer done.reverse ++ outermostStatements outer n := by
  rw [List.reverse_cons, outermostStatementsOf_append, outermostStatementsOf,
    outermostStatementsOf, List.append_nil]

theorem outermostStatementsOf_pushText (outer content : List Char) (start : Nat)
    (done : List Node) :
    outermostStatementsOf outer (pushText content start done).reverse =
      outermostStatementsOf outer done.reverse := by
  unfold pushText
  split
  · rw [outermostStatementsOf_cons_reverse, outermostStatementsOf_cons_reverse]
    rfl
  · rw [outermostStatementsOf_cons_reverse]
    exact List.append_nil _

theorem outermostStatements_node (outer : List Char) (head : Head) (start stop : Nat)
    (inner : Markup) (offset : Nat) :
    outermostStatements outer (head.node start stop (inner.onto offset []).reverse) =
      if holdsByName outer head.name.base && !(statementIn inner).isEmpty then
        [head.node start stop (inner.onto offset []).reverse]
      else outermostStatementsOf head.name.base (inner.onto offset []).reverse := by
  have hholds := holdsStatement_node outer head start stop (inner.onto offset []).reverse
  have htext := textContent_node head start stop inner offset
  rw [Head.node] at hholds htext ⊢
  rw [outermostStatements, hholds, htext]
  rfl

theorem outermostStatementsOf_onto (outer : List Char) (c : Markup) (offset : Nat)
    (done : List Node) :
    outermostStatementsOf outer (c.onto offset done).reverse =
      outermostStatementsOf outer done.reverse ++ outermostIn outer c offset := by
  induction c generalizing outer offset done with
  | nil => exact (List.append_nil _).symm
  | text raw content next ih => rw [Markup.onto, ih, outermostStatementsOf_pushText]; rfl
  | verbatim raw written next ih => rw [Markup.onto, ih, outermostStatementsOf_pushText]; rfl
  | aside written next ih =>
      rw [Markup.onto, ih, outermostStatementsOf_cons_reverse, outermostStatements,
        List.append_nil]
      rfl
  | empty tag head next ih =>
      have hown := outermostStatements_node outer head offset (offset + tag.length) .nil 0
      rw [isEmpty_statementIn_nil, Bool.not_true, Bool.and_false, if_neg Bool.false_ne_true] at hown
      have hnone : outermostStatements outer (head.node offset (offset + tag.length) []) = [] :=
        hown
      rw [Markup.onto, ih, outermostStatementsOf_cons_reverse, hnone, List.append_nil]
      rfl
  | element tag head inner close next ih ihNext =>
      rw [Markup.onto, ihNext, outermostStatementsOf_cons_reverse, outermostStatements_node, ih,
        List.append_assoc]
      rfl

/-! ### The replacement -/

theorem extract_append_extract {document : List Char} {a b c : Nat} (h : a ≤ b) (h' : b ≤ c) :
    document.extract a b ++ document.extract b c = document.extract a c := by
  have hlength : c - a = (b - a) + (c - b) := by omega
  have hbehind : a + (b - a) = b := by omega
  simp only [List.extract_eq_take_drop]
  rw [hlength, List.take_add, List.drop_drop, hbehind]

/-- What is kept in front of the next content may be begun earlier. -/
theorem Replaces.keep {o : RedactionOptions} {document out : List Char} {offset next : Nat}
    {ns : List Node} (h : Replaces o document next ns out) (hearlier : offset ≤ next) :
    Replaces o document offset ns (document.extract offset next ++ out) := by
  cases h with
  | rest hinRange =>
      rw [extract_append_extract hearlier hinRange]
      exact .rest (Nat.le_trans hearlier hinRange)
  | content hhasContent hbehind h =>
      rw [← List.append_assoc, extract_append_extract hearlier hbehind]
      exact .content hhasContent (Nat.le_trans hearlier hbehind) h

theorem extract_of_eq {document pre w post : List Char} (h : document = pre ++ (w ++ post)) :
    document.extract pre.length (pre.length + w.length) = w := by
  rw [h, List.extract_eq_take_drop, List.drop_left, Nat.add_sub_cancel_left, List.take_left]

/-- In every document that holds the markup, its source is replaced by the redacted source. -/
def Rewrites (o : RedactionOptions) (outer : List Char) (c : Markup) : Prop :=
  ∀ (document pre post out : List Char) (ns : List Node), document = pre ++ (c.source ++ post) →
    Replaces o document (pre.length + c.source.length) ns out →
    Replaces o document pre.length (outermostIn outer c pre.length ++ ns)
      ((redactedIn o outer c).source ++ out)

/-- A part without statements in front of markup is kept. -/
theorem Rewrites.after {o : RedactionOptions} {outer : List Char} {next : Markup}
    (h : Rewrites o outer next) {document pre w post out : List Char} {ns : List Node}
    (hsplit : document = pre ++ (w ++ next.source ++ post))
    (hlater : Replaces o document (pre.length + (w ++ next.source).length) ns out) :
    Replaces o document pre.length (outermostIn outer next (pre.length + w.length) ++ ns)
      (w ++ (redactedIn o outer next).source ++ out) := by
  have hsplit' : document = pre ++ w ++ (next.source ++ post) := by
    rw [hsplit]
    simp only [List.append_assoc]
  rw [List.length_append, ← Nat.add_assoc, ← List.length_append] at hlater
  have hbehind := h _ _ _ _ _ hsplit' hlater
  rw [List.length_append] at hbehind
  have hkept := hbehind.keep (Nat.le_add_right pre.length w.length)
  rw [extract_of_eq (hsplit.trans (by rw [List.append_assoc])), ← List.append_assoc] at hkept
  exact hkept

theorem hasContent_node {head : Head} {inner : Markup} {document pre tag close post : List Char}
    (hsplit : document = pre ++ (tag ++ (inner.source ++ (close ++ post))))
    (hending : Dialect.reader.IsEndTag head.name close) (hsome : inner ≠ .nil) :
    HasContent document
      (head.node pre.length (pre.length + tag.length + inner.source.length + close.length)
        (inner.onto (pre.length + tag.length) []).reverse)
      (pre.length + tag.length) (pre.length + tag.length + inner.source.length) := by
  obtain ⟨first, rest, hnodes, hstart⟩ := exists_first hsome (pre.length + tag.length)
  have hlength : pre.length + tag.length + inner.source.length =
      (pre ++ (tag ++ inner.source)).length := by
    simp only [List.length_append, Nat.add_assoc]
  refine ⟨?_, Nat.le_add_right _ _, Nat.le_add_right _ _, close,
    ⟨head.name, hending, rfl⟩, ?_, rfl⟩
  · rw [hnodes, List.head?_cons, Option.map_some, hstart]
  · have hbehind : document = pre ++ (tag ++ inner.source) ++ (close ++ post) := by
      rw [hsplit]
      simp only [List.append_assoc]
    rw [hlength]
    exact extract_of_eq hbehind

/-- The redacted source replaces the source of markup wherever it stands. -/
theorem rewrites_of_stands (o : RedactionOptions) (outer : List Char) {c : Markup} {scope : Scope}
    (hstands : c.Stands .reader scope) : Rewrites o outer c := by
  induction hstands generalizing outer with
  | nil => exact fun document pre post out ns hsplit hlater => hlater
  | text htext hread hnoText hstands ih =>
      exact fun document pre post out ns hsplit hlater => (ih outer).after hsplit hlater
  | verbatim hsection hstands ih =>
      exact fun document pre post out ns hsplit hlater => (ih outer).after hsplit hlater
  | aside haside hstands ih =>
      exact fun document pre post out ns hsplit hlater => (ih outer).after hsplit hlater
  | empty hstart hstands ih =>
      exact fun document pre post out ns hsplit hlater => (ih outer).after hsplit hlater
  | @element _ tag close head inner next hstart hstands hending hstandsNext ih ihNext =>
      intro document pre post out ns hsplit hlater
      have hwhole : document =
          pre ++ (tag ++ (inner.source ++ (close ++ (next.source ++ post)))) := by
        rw [hsplit]
        simp [Markup.source]
      have houtside :
          document = pre ++ (tag ++ inner.source) ++ (close ++ next.source ++ post) := by
        rw [hwhole]
        simp only [List.append_assoc]
      have hlength : pre.length + (Markup.element tag head inner close next).source.length =
          (pre ++ (tag ++ inner.source)).length + (close ++ next.source).length := by
        simp only [Markup.source, List.length_append, Nat.add_assoc]
      rw [hlength] at hlater
      -- The content stops where the end tag starts; the tag is kept with what follows it.
      have hbehind := (ihNext outer).after houtside hlater
      have hstop : (pre ++ (tag ++ inner.source)).length =
          pre.length + tag.length + inner.source.length := by
        simp only [List.length_append, Nat.add_assoc]
      rw [hstop] at hbehind
      rw [outermostIn, redactedIn]
      cases hreplaced : holdsByName outer head.name.base && !(statementIn inner).isEmpty with
      | true =>
          obtain ⟨-, hfilled⟩ := (Bool.and_eq_true _ _).mp hreplaced
          have hsome := ne_nil_of_statementIn ((Bool.not_eq_true' _).mp hfilled)
          have hown := Replaces.content (hasContent_node hwhole hending hsome)
            (Nat.le_add_right _ _) hbehind
          rw [extract_of_eq hwhole, textContent_node, ← statementIn] at hown
          simp only [if_true, Markup.source, source_textMarkup, List.append_assoc,
            List.singleton_append] at hown ⊢
          exact hown
      | false =>
          have hinside := ih head.name.base document (pre ++ tag) (close ++ (next.source ++ post))
            _ _ (by rw [hwhole, List.append_assoc]) (by rw [List.length_append]; exact hbehind)
          rw [List.length_append] at hinside
          have hkept := hinside.keep (Nat.le_add_right pre.length tag.length)
          rw [extract_of_eq hwhole] at hkept
          simp only [Bool.false_eq_true, if_false, Markup.source, List.append_assoc] at hkept ⊢
          exact hkept

/-! ### The places of the elements -/

/-- An element with a statement lies in the markup that it is an element of. -/
theorem place_of_nodesWithStatements (outer : List Char) (c : Markup) (offset : Nat) {tag : Tag}
    {children : List Node} (hmember : .element tag children ∈ nodesWithStatements outer c offset) :
    offset ≤ tag.start ∧ tag.start ≤ tag.stop ∧ tag.stop ≤ offset + c.source.length := by
  induction c generalizing outer offset with
  | nil => cases hmember
  | text raw content next ih =>
      have hplace := ih outer _ hmember
      simp only [Markup.source, List.length_append]
      omega
  | verbatim raw written next ih =>
      have hplace := ih outer _ hmember
      simp only [Markup.source, List.length_append]
      omega
  | aside written next ih =>
      have hplace := ih outer _ hmember
      simp only [Markup.source, List.length_append]
      omega
  | empty name head next ih =>
      simp only [Markup.source, List.length_append]
      obtain hown | hbehind := List.mem_append.mp hmember
      · split at hown
        · obtain ⟨rfl, -⟩ := Node.element.inj (List.mem_singleton.mp hown)
          simp only
          omega
        · cases hown
      · have hplace := ih outer _ hbehind
        omega
  | element name head inner close next ih ihNext =>
      simp only [Markup.source, List.length_append]
      obtain hown | hmore := List.mem_append.mp hmember
      · split at hown
        · obtain ⟨rfl, -⟩ := Node.element.inj (List.mem_singleton.mp hown)
          simp only
          omega
        · cases hown
      · obtain hbelow | hbehind := List.mem_append.mp hmore
        · have hplace := ih _ _ hbelow
          omega
        · have hplace := ihNext outer _ hbehind
          omega

/-! ### The redacted document -/

/-- Without an element to redact, what is left of the document is kept. -/
theorem Replaces.nothing (o : RedactionOptions) (front post : List Char) :
    Replaces o (front ++ post) front.length [] post := by
  have hrest : Replaces o (front ++ post) front.length []
      ((front ++ post).extract front.length (front ++ post).length) :=
    .rest (by rw [List.length_append]; exact Nat.le_add_right _ _)
  rw [List.length_append,
    extract_of_eq (congrArg (front ++ ·) (List.append_nil post).symm)] at hrest
  exact hrest

theorem replaces_deadlock (o : RedactionOptions) {head : Head} (hopens : opensDeadlock head = true)
    {inner : Markup} (hstands : inner.Stands .reader head.scope) (pre post : List Char)
    (start stop : Nat) :
    Replaces o (pre ++ (inner.source ++ post)) 0
      (outermostStatements [] (head.node start stop (inner.onto pre.length []).reverse))
      (pre ++ ((redactedIn o head.name.base inner).source ++ post)) := by
  have hafter := Replaces.nothing o (pre ++ inner.source) post
  rw [List.length_append, List.append_assoc] at hafter
  have hwithin := rewrites_of_stands o head.name.base hstands _ pre post post [] rfl hafter
  have hkept := hwithin.keep (Nat.zero_le pre.length)
  have hfront : (pre ++ (inner.source ++ post)).extract 0 pre.length = pre := by simp
  rw [outermostStatements_node, plain_of_opensDeadlock hopens, outermostStatementsOf_onto]
  rw [hfront, List.append_nil] at hkept
  exact hkept

/-- The edits of a deadlock lie in its document. -/
theorem place_of_editsOf (o : RedactionOptions) {head : Head} (hopens : opensDeadlock head = true)
    {inner : Markup} (hstands : inner.Stands .reader head.scope) (pre post : List Char)
    (start stop : Nat) :
    ∀ e ∈ editsOf o (pre ++ (inner.source ++ post))
        (head.node start stop (inner.onto pre.length []).reverse),
      e.start ≤ e.stop ∧ e.stop ≤ (pre ++ (inner.source ++ post)).length := by
  rw [editsOf_deadlock o hopens hstands, List.length_append, List.length_append]
  intro e hmember
  have hplace := place_of_editsIn o _ hstands _ e hmember
  omega

/-- The elements of a deadlock that hold statements lie in its document. -/
theorem slice?_of_statementNodes {head : Head} (hopens : opensDeadlock head = true) (inner : Markup)
    (pre post : List Char) (start stop : Nat) :
    ∀ tag children, .element tag children ∈
        statementNodes [] (head.node start stop (inner.onto pre.length []).reverse) →
      (slice? (pre ++ (inner.source ++ post)) tag.start tag.stop).isSome = true := by
  rw [statementNodes_deadlock hopens]
  intro tag children hmember
  obtain ⟨-, horder, hinRange⟩ := place_of_nodesWithStatements _ _ _ hmember
  rw [slice?_of_le horder, Option.isSome_some]
  rw [List.length_append, List.length_append]
  omega

/-- The changes that redact a deadlock are in the order of their places before they are sorted. -/
theorem editsOf_of_deadlockOf (o : RedactionOptions) {x : String} {d : Node}
    (hfound : deadlockOf x = .ok d) :
    editsOf o x.toList d = (statementNodes [] d).filterMap (editOf? o x.toList) := by
  by_cases hnone : d.children = []
  · have hno := statementNodes_of_childless (isNamed_of_deadlockOf hfound) hnone
    rw [editsOf_of_no_statement o _ hno, hno]
    rfl
  · obtain ⟨front, post, c, f, hsource, -, -, rfl⟩ := focus_of_deadlockOf hfound hnone
    rw [hsource, editsOf_deadlock o f.opens f.stands, statementNodes_deadlock f.opens,
      filterMap_editOf? o f.stands]

theorem splice?_redactDeadlock (o : RedactionOptions) {x : String} {d : Node}
    (hplaces : ∀ e ∈ editsOf o x.toList d, e.start ≤ e.stop ∧ e.stop ≤ x.toList.length) :
    splice? x.toList 0 (editsOf o x.toList d) = some (redactDeadlock o x d).toList := by
  rw [splice?_eq (Nat.zero_le _) hplaces, redactDeadlock, String.toList_ofList, List.drop_zero]

/-- Redaction replaces the contents of the outermost elements with statements, from the start of
the first child to the end tag, and keeps everything else. The stretch of every element with a
statement lies in the document, and so does every slice on the way to the redacted document. -/
theorem redaction_replaces_contents_only (o : RedactionOptions) {x y : String}
    (hredacted : redactDocument o x = .ok y) :
    ∃ d, deadlockOf x = .ok d ∧
      Replaces o x.toList 0 (outermostStatements [] d) y.toList ∧
      splice? x.toList 0 (editsOf o x.toList d) = some y.toList ∧
      ∀ tag children, .element tag children ∈ statementNodes [] d →
        (slice? x.toList tag.start tag.stop).isSome = true := by
  unfold redactDocument at hredacted
  cases hfound : deadlockOf x with
  | error f =>
      rw [hfound] at hredacted
      cases hredacted
  | ok d =>
      rw [hfound] at hredacted
      cases hredacted
      refine ⟨d, rfl, ?_⟩
      by_cases hnone : d.children = []
      · have hno := statementNodes_of_childless (isNamed_of_deadlockOf hfound) hnone
        have houtermost : outermostStatements [] d = [] :=
          List.sublist_nil.mp (hno ▸ outermostStatements_sublist [] d)
        refine ⟨?_, splice?_redactDeadlock o ?_, ?_⟩
        · rw [houtermost, redactDeadlock_of_no_statement o x hno]
          exact Replaces.nothing o [] x.toList
        · rw [editsOf_of_no_statement o _ hno]
          intro e hmember
          cases hmember
        · rw [hno]
          intro tag children hmember
          cases hmember
      · obtain ⟨front, post, c, f, hsource, -, -, rfl⟩ := focus_of_deadlockOf hfound hnone
        refine ⟨?_, splice?_redactDeadlock o ?_, ?_⟩
        · rw [redactDeadlock, String.toList_ofList, hsource, applyEdits_editsOf o f.opens f.stands]
          exact replaces_deadlock o f.opens f.stands _ _ _ _
        · rw [hsource]
          exact place_of_editsOf o f.opens f.stands _ _ _ _
        · rw [hsource]
          exact slice?_of_statementNodes f.opens _ _ _ _ _

/-- A statement with a frame of its own and an end tag in a section, and a frame that is none. -/
def nestedStatement : String :=
  "<deadlock><inputbuf>a = <executionStack><frame>'b'</frame></executionStack>" ++
  "<![CDATA[ -- </frame>]]></inputbuf ><frame>'c'</frame></deadlock>"

def redactedNestedStatement : String :=
  "<deadlock><inputbuf>a = ?</inputbuf ><frame>'c'</frame></deadlock>"

theorem outer_statement_is_replaced :
    redactDocument {} nestedStatement = .ok redactedNestedStatement ∧
      ∃ d, deadlockOf nestedStatement = .ok d ∧
        Replaces {} nestedStatement.toList 0 (outermostStatements [] d)
          redactedNestedStatement.toList ∧
        splice? nestedStatement.toList 0 (editsOf {} nestedStatement.toList d) =
          some redactedNestedStatement.toList ∧
        ∀ tag children, .element tag children ∈ statementNodes [] d →
          (slice? nestedStatement.toList tag.start tag.stop).isSome = true := by
  have hchecked : (deadlockOf nestedStatement).toOption.any (fun d =>
      decide (applyEdits 0 nestedStatement.toList ((statementNodes [] d).filterMap
        (editOf? {} nestedStatement.toList)) = redactedNestedStatement.toList)) = true := by
    decide +kernel
  have hredacted : redactDocument {} nestedStatement = .ok redactedNestedStatement := by
    rw [redactDocument]
    cases hfound : deadlockOf nestedStatement with
    | error f =>
        rw [hfound] at hchecked
        cases hchecked
    | ok d =>
        rw [hfound] at hchecked
        have hsame := of_decide_eq_true hchecked
        simp only [redactDeadlock, editsOf_of_deadlockOf {} hfound, hsame, String.ofList_toList]
  exact ⟨hredacted, redaction_replaces_contents_only {} hredacted⟩

end DeadlockCapture.Report
