import DeadlockCapture.Proofs.Text.Blank
import DeadlockCapture.Proofs.Xml.Markup
import DeadlockCapture.Xml.Lookup

/-!
What the nodes of markup hold: their text, and where the first of them starts.
-/

namespace DeadlockCapture.Xml

open DeadlockCapture.Text

theorem descendantsOf_append (l l' : List Node) :
    Node.descendantsOf (l ++ l') = Node.descendantsOf l ++ Node.descendantsOf l' := by
  induction l with
  | nil => rfl
  | cons n l ih => rw [List.cons_append, Node.descendantsOf, Node.descendantsOf, ih,
      List.append_assoc]

theorem descendantsOf_singleton (n : Node) : Node.descendantsOf [n] = n.descendants := by
  rw [Node.descendantsOf, Node.descendantsOf, List.append_nil]

/-- The nodes in and below nodes in reverse order, in document order. -/
def laidOut (done : List Node) : List Node :=
  Node.descendantsOf done.reverse

theorem laidOut_cons (n : Node) (done : List Node) :
    laidOut (n :: done) = laidOut done ++ n.descendants := by
  rw [laidOut, List.reverse_cons, descendantsOf_append, descendantsOf_singleton]
  rfl

/-! ### Text -/

def Markup.characters : Markup → List Char
  | .nil => []
  | .text _ content next => content ++ next.characters
  | .verbatim raw _ next => sectionText raw ++ next.characters
  | .aside _ next => next.characters
  | .empty _ _ next => next.characters
  | .element _ _ inner _ next => inner.characters ++ next.characters

theorem text_laidOut_pushText (content : List Char) (start : Nat) (done : List Node) :
    (laidOut (pushText content start done)).flatMap Node.ownText =
      (laidOut done).flatMap Node.ownText ++ content := by
  cases done with
  | nil => simp [pushText, laidOut, Node.descendantsOf, Node.descendants, Node.ownText]
  | cons n done =>
      cases n with
      | element tag children =>
          simp [pushText, laidOut_cons, Node.descendants, Node.ownText]
      | text before first => simp [pushText, laidOut_cons, Node.descendants, Node.ownText]
      | aside first => simp [pushText, laidOut_cons, Node.descendants, Node.ownText]

theorem text_laidOut_onto (c : Markup) (offset : Nat) (done : List Node) :
    (laidOut (c.onto offset done)).flatMap Node.ownText =
      (laidOut done).flatMap Node.ownText ++ c.characters := by
  induction c generalizing offset done with
  | nil => simp [Markup.onto, Markup.characters]
  | text raw content next ih =>
      rw [Markup.onto, ih, text_laidOut_pushText, Markup.characters, List.append_assoc]
  | verbatim raw written next ih =>
      rw [Markup.onto, ih, text_laidOut_pushText, Markup.characters, List.append_assoc]
  | aside written next ih =>
      rw [Markup.onto, ih, laidOut_cons]
      simp [Node.descendants, Node.ownText, Markup.characters]
  | empty tag head next ih =>
      rw [Markup.onto, ih, laidOut_cons]
      simp [Head.node, Node.descendants, Node.descendantsOf, Node.ownText, Markup.characters]
  | element tag head inner close next ih ihNext =>
      rw [Markup.onto, ihNext, laidOut_cons, Head.node, Node.descendants, List.flatMap_append,
        List.flatMap_cons, ← laidOut, ih]
      simp [laidOut, Node.descendantsOf, Node.ownText, Markup.characters]

/-- The text of an element is the text in its markup, without blanks at its ends. -/
theorem textContent_node (head : Head) (start stop : Nat) (c : Markup) (offset : Nat) :
    (head.node start stop (c.onto offset []).reverse).textContent =
      String.ofList (trim c.characters) := by
  have htext := text_laidOut_onto c offset []
  rw [laidOut] at htext
  simp only [Head.node, Node.textContent, Node.descendants, List.flatMap_cons, Node.ownText,
    List.nil_append, htext]
  rfl

/-! ### The first node -/

theorem getLast?_pushText (content : List Char) (start : Nat) {done : List Node}
    (hsome : done ≠ []) :
    (pushText content start done).getLast?.map Node.start = done.getLast?.map Node.start := by
  cases done with
  | nil => exact absurd rfl hsome
  | cons n done =>
      cases n with
      | element tag children => rfl
      | aside first => rfl
      | text before first =>
          cases done with
          | nil => rfl
          | cons m done => rfl

theorem pushText_ne_nil (content : List Char) (start : Nat) (done : List Node) :
    pushText content start done ≠ [] := by
  unfold pushText
  split <;> simp

theorem getLast?_onto (c : Markup) (offset : Nat) {done : List Node} (hsome : done ≠ []) :
    (c.onto offset done).getLast?.map Node.start = done.getLast?.map Node.start := by
  induction c generalizing offset done with
  | nil => rfl
  | text raw content next ih =>
      rw [Markup.onto, ih _ (pushText_ne_nil _ _ _), getLast?_pushText _ _ hsome]
  | verbatim raw written next ih =>
      rw [Markup.onto, ih _ (pushText_ne_nil _ _ _), getLast?_pushText _ _ hsome]
  | aside written next ih =>
      rw [Markup.onto, ih _ (List.cons_ne_nil _ _), List.getLast?_cons_of_ne_nil hsome]
  | empty tag head next ih =>
      rw [Markup.onto, ih _ (List.cons_ne_nil _ _), List.getLast?_cons_of_ne_nil hsome]
  | element tag head inner close next ih ihNext =>
      rw [Markup.onto, ihNext _ (List.cons_ne_nil _ _), List.getLast?_cons_of_ne_nil hsome]

theorem getLast?_onto_nil {c : Markup} (hsome : c ≠ .nil) (offset : Nat) :
    (c.onto offset []).getLast?.map Node.start = Option.some offset := by
  cases c with
  | nil => exact absurd rfl hsome
  | text raw content next => exact getLast?_onto next _ (pushText_ne_nil content offset [])
  | verbatim raw written next =>
      exact getLast?_onto next _ (pushText_ne_nil (sectionText raw) offset [])
  | aside written next => exact getLast?_onto next _ (List.cons_ne_nil _ _)
  | empty tag head next => exact getLast?_onto next _ (List.cons_ne_nil _ _)
  | element tag head inner close next => exact getLast?_onto next _ (List.cons_ne_nil _ _)

/-- The first node of markup starts where the markup starts. -/
theorem exists_first {c : Markup} (hsome : c ≠ .nil) (offset : Nat) :
    ∃ first rest, (c.onto offset []).reverse = first :: rest ∧ first.start = offset := by
  have hfound := getLast?_onto_nil hsome offset
  rw [← List.head?_reverse] at hfound
  cases hnodes : (c.onto offset []).reverse with
  | nil =>
      rw [hnodes] at hfound
      cases hfound
  | cons first rest =>
      rw [hnodes] at hfound
      exact ⟨first, rest, rfl, Option.some.inj hfound⟩

end DeadlockCapture.Xml
