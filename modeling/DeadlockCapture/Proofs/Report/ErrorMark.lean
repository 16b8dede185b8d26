import DeadlockCapture.Proofs.Report.Acceptance
import DeadlockCapture.Proofs.Report.RedactedDocument
import DeadlockCapture.Report.Assembly

/-!
Rows with and without redaction. A failed row says so twice, in its error and at the start of its
document, and the two agree: no document that is accepted starts like the mark, and a redacted one
is accepted again. Whether a document is redacted shows in the row's document only.
-/

namespace DeadlockCapture.Report

open DeadlockCapture.Sql (RedactionOptions)
open Xml (Dialect StartsDocument)

/-! ### Documents that start like the mark -/

theorem toList_errorMark : Row.errorMark.toList = '\x7b' :: "ERROR: ".toList := by
  decide

theorem not_startsDocument_brace : ¬ StartsDocument '\x7b' := by
  rintro (hmark | hblank | htag)
  · exact absurd hmark (by decide)
  · exact absurd hblank (by decide)
  · exact absurd htag (by decide)

/-- A document cannot be taken for that of a failed row. -/
theorem not_startsWith_errorMark {s : List Char} {root : Xml.Node}
    (h : Dialect.reader.IsDocument s root) : ¬ Row.errorMark.toList <+: s := by
  rintro ⟨rest, rfl⟩
  rw [toList_errorMark] at h
  exact not_startsDocument_brace (h.starts _ rfl)

/-! ### What is handed out -/

theorem isDocument_of_ofDocument {x : String} {g : Graph} (hread : Graph.ofDocument x = .ok g) :
    ∃ root, Dialect.reader.IsDocument x.toList root := by
  obtain ⟨d, ⟨root, haccepted, -⟩, -⟩ := Graph.ofDocument_eq_ok_iff.mp hread
  exact ⟨root, haccepted⟩

/-- The redaction of a document with a graph is a document, whatever the statements hold. -/
theorem isDocument_of_redactDocument {o : RedactionOptions} {x y : String} {g : Graph}
    (hread : Graph.ofDocument x = .ok g) (hredacted : redactDocument o x = .ok y) :
    ∃ root, Dialect.reader.IsDocument y.toList root := by
  rw [redactDocument] at hredacted
  rw [Graph.ofDocument] at hread
  cases hfound : deadlockOf x with
  | error f =>
      rw [hfound] at hredacted
      cases hredacted
  | ok d =>
      rw [hfound] at hread hredacted
      cases hredacted
      obtain ⟨_, _, _, _, _, _, -, -, hagain⟩ :=
        markup_redactDeadlock o hfound (children_ne_nil_of_ofDeadlock hread)
      obtain ⟨root, haccepted, -⟩ := deadlockOf_eq_ok_iff.mp hagain
      exact ⟨root, Xml.parse_eq_ok_iff.mp haccepted⟩

/-- With and without redaction a document is rejected for the same reason, or has the same graph;
then what is handed out is a document, and without redaction it is the same one. -/
theorem readDocument_cases (a : Assembler) (x : String) :
    (∃ f, Graph.ofDocument x = .error f ∧ a.readDocument x = .error ⟨x, f⟩) ∨
      ∃ g y, Graph.ofDocument x = .ok g ∧ a.readDocument x = .ok (g, y) ∧
        (∃ root, Dialect.reader.IsDocument y.toList root) ∧
        (a.redactsDocuments = false → y = x) := by
  rw [Assembler.readDocument, readGraphAndRedaction, readGraph, readRedacted_eq]
  cases hread : Graph.ofDocument x with
  | error f =>
      left
      refine ⟨f, rfl, ?_⟩
      cases a.redactsDocuments <;> rfl
  | ok g =>
      right
      cases hredacts : a.redactsDocuments with
      | false => exact ⟨g, x, rfl, rfl, isDocument_of_ofDocument hread, fun _ => rfl⟩
      | true =>
          obtain ⟨y, hredacted⟩ := redactDocument_of_ofDocument a.options hread
          refine ⟨g, y, rfl, ?_, isDocument_of_redactDocument hread hredacted,
            fun hplain => absurd hplain.symm Bool.false_ne_true⟩
          rw [hredacted]
          rfl

/-! ### Rows -/

theorem isError_iff_errorMark (a : Assembler) (e : Event) :
    (a.buildRow e).isError = true ↔ Row.errorMark.toList <+: (a.buildRow e).document.toList := by
  rw [Assembler.buildRow]
  obtain ⟨f, -, hrejected⟩ | ⟨g, y, -, haccepted, ⟨root, hparsed⟩, -⟩ :=
    readDocument_cases a e.document
  · rw [hrejected]
    refine iff_of_true rfl ?_
    change Row.errorMark.toList <+: (Row.errorMark ++ _ ++ "\x7d").toList
    rw [String.toList_append, String.toList_append, List.append_assoc]
    exact List.prefix_append _ _
  · rw [haccepted]
    exact iff_of_false Bool.false_ne_true (not_startsWith_errorMark hparsed)

/-- A row has an error exactly if its document starts with the mark of one, be the document redacted
or not. The two rows of an event differ in their documents only, and the document that is not
redacted is that of the event, unless the rows have an error. -/
theorem redaction_shows_in_document_only (o : RedactionOptions) (e : Event) :
    let redacted := Assembler.buildRow { options := o, redactsDocuments := true } e
    let plain := Assembler.buildRow { options := o, redactsDocuments := false } e
    (redacted.isError = true ↔ Row.errorMark.toList <+: redacted.document.toList) ∧
      (plain.isError = true ↔ Row.errorMark.toList <+: plain.document.toList) ∧
      redacted.time = plain.time ∧ redacted.signatures = plain.signatures ∧
      redacted.error = plain.error ∧
      (redacted.error = none → plain.error = none → plain.document = e.document) := by
  refine ⟨isError_iff_errorMark _ e, isError_iff_errorMark _ e, ?_⟩
  rw [Assembler.buildRow, Assembler.buildRow]
  obtain ⟨f, hread, hrejected⟩ | ⟨g, y, hread, haccepted, -⟩ :=
    readDocument_cases { options := o, redactsDocuments := true } e.document
  · obtain ⟨f', hread', hrejected'⟩ | ⟨g', y', hread', -⟩ :=
      readDocument_cases { options := o, redactsDocuments := false } e.document
    · obtain rfl : f = f' := Except.error.inj (hread.symm.trans hread')
      rw [hrejected, hrejected']
      exact ⟨rfl, rfl, rfl, fun hfailed => absurd hfailed (Option.some_ne_none _)⟩
    · cases hread.symm.trans hread'
  · obtain ⟨f', hread', -⟩ | ⟨g', y', hread', haccepted', -, hsame⟩ :=
      readDocument_cases { options := o, redactsDocuments := false } e.document
    · cases hread.symm.trans hread'
    · obtain rfl : g = g' := Except.ok.inj (hread.symm.trans hread')
      rw [haccepted, haccepted']
      exact ⟨rfl, rfl, rfl, fun _ _ => hsame rfl⟩

end DeadlockCapture.Report
