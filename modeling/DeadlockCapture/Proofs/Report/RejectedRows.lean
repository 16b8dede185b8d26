import DeadlockCapture.Proofs.Report.Acceptance
import DeadlockCapture.Proofs.Xml.OtherText
import DeadlockCapture.Report.Assembly
import Mathlib.Control.Monad.Basic

/-!
Rows of documents that are rejected. A row says what is wrong with a document and where, and as long
as the text of a statement is ordinary text, it says nothing of the text. An unknown reference in a
statement is quoted, though, with its name.
-/

namespace DeadlockCapture.Report

open DeadlockCapture.Text
open DeadlockCapture.Xml

/-! ### Graphs of bare trees -/

mutual

theorem descendants_bare : ∀ n : Node, n.bare.descendants = n.descendants.map Node.bare
  | .element tag children => by
      rw [Node.bare, Node.descendants, Node.descendants, List.map_cons, Node.bare,
        descendantsOf_bare children]
  | .text _ _ => rfl
  | .aside _ => rfl

theorem descendantsOf_bare :
    ∀ l : List Node, Node.descendantsOf (bareAll l) = (Node.descendantsOf l).map Node.bare
  | [] => rfl
  | n :: r => by
      rw [bareAll, Node.descendantsOf, Node.descendantsOf, List.map_append, descendants_bare n,
        descendantsOf_bare r]

end

theorem isNamed_bare (n : Node) (name : String) : n.bare.isNamed name = n.isNamed name := by
  cases n <;> rfl

theorem isNamed_comp_bare (name : String) :
    (fun n : Node => n.isNamed name) ∘ Node.bare = (·.isNamed name) :=
  funext fun n => isNamed_bare n name

theorem attributeText_bare (n : Node) (name : String) :
    n.bare.attributeText name = n.attributeText name := by
  cases n <;> rfl

theorem children_bare (n : Node) : n.bare.children = n.children.map Node.bare := by
  cases n with
  | element tag children => exact bareAll_eq_map children
  | text content start => rfl
  | aside start => rfl

theorem deadlockIn_bare (n : Node) : deadlockIn n.bare = (deadlockIn n).map Node.bare := by
  rw [deadlockIn, descendants_bare, List.find?_map, isNamed_comp_bare, deadlockIn]
  cases n.descendants.find? (·.isNamed "deadlock") <;> rfl

theorem child?_bare (n : Node) (name : String) :
    n.bare.child? name = (n.child? name).map Node.bare := by
  rw [Node.child?, children_bare, List.find?_map, isNamed_comp_bare, Node.child?]

theorem childrenNamed_bare (n : Node) (name : String) :
    n.bare.childrenNamed name = (n.childrenNamed name).map Node.bare := by
  rw [Node.childrenNamed, children_bare, List.filter_map, isNamed_comp_bare, Node.childrenNamed]

/-- What is wrong with the processes of a list does not depend on texts. -/
theorem processesOf_bare (l : List Node) :
    (processesOf (l.map Node.bare)).map (fun _ => ()) = (processesOf l).map fun _ => () := by
  induction l with
  | nil => rfl
  | cons n l ih =>
      rw [List.map_cons, processesOf, processesOf, Participant.ofNode, Participant.ofNode,
        attributeText_bare]
      cases sessionId? (n.attributeText "spid") with
      | none => rfl
      | some session =>
          obtain ⟨f, hfound, hfound'⟩ | ⟨ps, ps', hfound, hfound', -⟩ := cases_of_map_eq ih
          · simp [hfound, hfound', Except.map]
          · simp [hfound, hfound', Except.map]

/-- What is wrong with a deadlock does not depend on texts. -/
theorem ofDeadlock_bare (n : Node) :
    (Graph.ofDeadlock n.bare).map (fun _ => ()) = (Graph.ofDeadlock n).map fun _ => () := by
  rw [Graph.ofDeadlock, Graph.ofDeadlock, child?_bare, child?_bare]
  cases n.child? "process-list" with
  | none => rfl
  | some processList =>
      cases n.child? "resource-list" with
      | none => rfl
      | some resourceList =>
          simp only [Option.map_some, childrenNamed_bare]
          have hsame := processesOf_bare (processList.childrenNamed "process")
          obtain ⟨f, hfound, hfound'⟩ | ⟨ps, ps', hfound, hfound', -⟩ := cases_of_map_eq hsame
          · simp [hfound, hfound', Except.map]
          · simp [hfound, hfound', Except.map]

/-- What is wrong with a document does not depend on texts. -/
theorem ofDocument_of_bare {document document' : String}
    (halike : (parse document).map Node.bare = (parse document').map Node.bare) :
    (Graph.ofDocument document).map (fun _ => ()) =
      (Graph.ofDocument document').map fun _ => () := by
  unfold Graph.ofDocument deadlockOf rootOf
  obtain ⟨f, hread, hread'⟩ | ⟨root, root', hread, hread', hsame⟩ := cases_of_map_eq halike
  · rw [hread, hread']
  · rw [hread, hread']
    have hfound : (deadlockIn root).map Node.bare = (deadlockIn root').map Node.bare := by
      rw [← deadlockIn_bare, hsame, deadlockIn_bare]
    obtain ⟨f, hnone, hnone'⟩ | ⟨n, n', hfound, hfound', hsame⟩ := cases_of_map_eq hfound
    · simp only [hnone, hnone']
    · simp only [hfound, hfound']
      rw [← ofDeadlock_bare, hsame, ofDeadlock_bare]

/-! ### What a row says of a fault -/

/-- A place is said by the ends of lines in front of it. -/
theorem place_congr {s s' : List Char} (hlines : s.map (· == '\n') = s'.map (· == '\n'))
    (offset : Nat) : Xml.place s offset = Xml.place s' offset := by
  have hfront : (s.take offset).map (· == '\n') = (s'.take offset).map (· == '\n') := by
    rw [List.map_take, hlines, ← List.map_take]
  have hrows (l : List Char) : l.count '\n' = (l.map (· == '\n')).count true := by
    rw [List.count, List.count, List.countP_map]
    refine List.countP_congr fun c _ => ?_
    simp
  have hcolumns (l : List Char) : (l.reverse.takeWhile (· ≠ '\n')).length =
      ((l.map (· == '\n')).reverse.takeWhile (!·)).length := by
    have hsame : (fun c : Char => decide (c ≠ '\n')) = (!·) ∘ (· == '\n') := by
      funext c
      exact decide_not
    rw [← List.map_reverse, List.takeWhile_map, List.length_map, hsame]
  simp only [Xml.place, hrows, hcolumns, hfront]

theorem message_congr {document document' : String}
    (hlines : document.toList.map (· == '\n') = document'.toList.map (· == '\n'))
    (f : DocumentFault) : f.message document = f.message document' := by
  cases f with
  | malformed fault =>
      have hsame : fault.message document = fault.message document' := by
        unfold Fault.message
        rw [place_congr hlines]
      exact congrArg ("malformed XML: " ++ ·) hsame
  | missing element => rfl
  | invalidSession value => rfl

theorem buildRow_of_rejected (a : Assembler) {document : String} {f : DocumentFault}
    (hrejected : Graph.ofDocument document = .error f) (time : Time.Instant) :
    a.buildRow ⟨time, document⟩ = .failed time (f.message document) := by
  have hread : a.readDocument document = .error ⟨document, f⟩ := by
    rw [Assembler.readDocument, readGraph, hrejected]
    split
    · exact orRejected_eq_error_iff.mpr ⟨rfl, readRedacted_eq_error_iff.mpr hrejected⟩
    · rfl
  rw [Assembler.buildRow, hread]
  rfl

/-! ### Rejected documents -/

/-- A document with a text between two quotes. -/
def documentAround (pre body post : List Char) : String :=
  String.ofList (pre ++ '\x27' :: (body ++ '\x27' :: post))

/-- The row of a rejected document says nothing of what stands between two quotes in the text of an
element, as long as that is ordinary text and its lines end in the same places. -/
theorem rejected_row_hides_literal (a : Assembler) (time : Time.Instant) {place : Place}
    {pre body body' post : List Char} {f : DocumentFault}
    (hleads : LeadsTo pre ('\x27' :: (body ++ '\x27' :: post)) place) (hholds : place.Holds body)
    (hholds' : place.Holds body') (hlines : body.map (· == '\n') = body'.map (· == '\n'))
    (hrejected : Graph.ofDocument (documentAround pre body post) = .error f) :
    a.buildRow ⟨time, documentAround pre body' post⟩ =
      a.buildRow ⟨time, documentAround pre body post⟩ := by
  have hlength : body.length = body'.length := by
    simpa using congrArg List.length hlines
  have halike : (parse (documentAround pre body post)).map Node.bare =
      (parse (documentAround pre body' post)).map Node.bare := by
    refine parse_of_takenAlike ?_ (by simp [documentAround, hlength])
    simpa only [documentAround, String.toList_ofList] using
      takenAlike_other hleads hholds hholds' hlength
  have hrejected' : Graph.ofDocument (documentAround pre body' post) = .error f := by
    obtain ⟨f', hfound, hfound'⟩ | ⟨g, g', hfound, -⟩ := cases_of_map_eq (ofDocument_of_bare halike)
    · rw [hfound']
      rw [hfound] at hrejected
      exact congrArg Except.error (Except.error.inj hrejected)
    · rw [hfound] at hrejected
      cases hrejected
  have hmessage : f.message (documentAround pre body post) =
      f.message (documentAround pre body' post) :=
    message_congr (by simp [documentAround, hlines]) f
  rw [buildRow_of_rejected a hrejected, buildRow_of_rejected a hrejected', hmessage]

theorem rejected_row_hides_literal_sample :
    (LeadsTo "<inputbuf>".toList ('\x27' :: (['a'] ++ '\x27' :: "&x;".toList)) .text ∧
      Place.text.Holds ['a'] ∧ Place.text.Holds ['b'] ∧
      ['a'].map (· == '\n') = ['b'].map (· == '\n') ∧
      Graph.ofDocument (documentAround "<inputbuf>".toList ['a'] "&x;".toList) =
        .error (.malformed ⟨.unknownReference "x", 13⟩)) ∧
    Assembler.buildRow {} ⟨.epoch, documentAround "<inputbuf>".toList ['b'] "&x;".toList⟩ =
      Assembler.buildRow {} ⟨.epoch, documentAround "<inputbuf>".toList ['a'] "&x;".toList⟩ := by
  have hholds (c : Char) (hplain : isAllowed c = true ∧ c ≠ '<' ∧ holdsRun sectionEnd [c] = false ∧
      c ≠ '&') : Place.text.Holds [c] := by
    obtain ⟨hallowed, hbracket, hnone, hreference⟩ := hplain
    refine ⟨by simpa using hallowed, by simpa using Ne.symm hbracket, hnone, [.written c], ?_⟩
    rw [glyphsFrom, if_neg hreference, glyphsFrom]
    rfl
  have hleads :
      LeadsTo "<inputbuf>".toList ('\x27' :: (['a'] ++ '\x27' :: "&x;".toList)) .text := by
    have hstarted : Reached "<inputbuf>'a'&x;".toList .before 0 := @Reached.start _ 0 rfl
    have hnamed : Reached "<inputbuf>'a'&x;".toList (.tag 0) 9 :=
      @Reached.step _ _ _ _ _ ⟨[.opening ⟨[], "inputbuf".toList⟩ 0], 8, .tag 0⟩ hstarted rfl rfl
    have hopened : Reached "<inputbuf>'a'&x;".toList (.content 0) 10 :=
      @Reached.step _ _ _ _ _ ⟨[.opened false 10], 0, .content 0⟩ hnamed rfl rfl
    exact @LeadsTo.text _ _ "<inputbuf>".toList [] 0 rfl hopened (by simp)
  have hrejected : Graph.ofDocument (documentAround "<inputbuf>".toList ['a'] "&x;".toList) =
      .error (.malformed ⟨.unknownReference "x", 13⟩) := by decide +kernel
  have hhidden := rejected_row_hides_literal {} .epoch hleads (hholds 'a' (by decide))
    (hholds 'b' (by decide)) (by decide) hrejected
  exact ⟨⟨hleads, hholds 'a' (by decide), hholds 'b' (by decide), by decide, hrejected⟩, hhidden⟩

/-- A report with a literal in the statement of its process. -/
def reportWith (literal : String) : String :=
  documentAround "<deadlock><process spid='1'><inputbuf>SELECT ".toList literal.toList
    "</inputbuf></process></deadlock>".toList

theorem length_reportWith {literal literal' : String} (h : literal.length = literal'.length) :
    (reportWith literal).length = (reportWith literal').length := by
  simp [reportWith, documentAround, h]

/-- An unknown reference in a literal is quoted in the row. -/
theorem unknown_reference_shows_in_row :
    (reportWith "&alpha;").length = (reportWith "&gamma;").length ∧
      (Assembler.buildRow {} ⟨.epoch, reportWith "&alpha;"⟩).error =
        some "malformed XML: unknown entity reference 'alpha' at 1:47" ∧
      (Assembler.buildRow {} ⟨.epoch, reportWith "&gamma;"⟩).error =
        some "malformed XML: unknown entity reference 'gamma' at 1:47" ∧
      Assembler.buildRow {} ⟨.epoch, reportWith "&alpha;"⟩ ≠
        Assembler.buildRow {} ⟨.epoch, reportWith "&gamma;"⟩ := by
  have halpha : (Assembler.buildRow {} ⟨.epoch, reportWith "&alpha;"⟩).error =
      some "malformed XML: unknown entity reference 'alpha' at 1:47" := by decide +kernel
  have hgamma : (Assembler.buildRow {} ⟨.epoch, reportWith "&gamma;"⟩).error =
      some "malformed XML: unknown entity reference 'gamma' at 1:47" := by decide +kernel
  refine ⟨length_reportWith (by decide), halpha, hgamma, fun hsame => ?_⟩
  have herrors := congrArg Row.error hsame
  rw [halpha, hgamma] at herrors
  exact absurd herrors (by decide)

end DeadlockCapture.Report
