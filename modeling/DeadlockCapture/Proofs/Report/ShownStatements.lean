import DeadlockCapture.Proofs.Report.RedactedDocument
import DeadlockCapture.Proofs.Sql.LineEnds

/-!
What a redacted document still shows. Every statement in its first deadlock is its own redaction, as
it is read from the document. Statements anywhere else in the document are left as they were.
-/

namespace DeadlockCapture.Report

open DeadlockCapture.Sql (RedactionOptions)
open DeadlockCapture.Xml

variable {o : RedactionOptions}

/-- The text of the node shows nothing that redaction hides. -/
def ShowsRedacted (o : RedactionOptions) (n : Node) : Prop :=
  (o.normalize n.textContent).redacted = n.textContent

/-- A redacted statement is its own redaction as it is read again. -/
theorem showsRedacted_of_reread (hplain : o.replaceDigits = false) {n : Node} {statement : String}
    (htext : n.textContent = rereadText o statement) : ShowsRedacted o n := by
  rw [ShowsRedacted, htext, rereadText]
  split
  · rename_i hblank
    rw [String.isEmpty_iff.mp hblank, Sql.normalize_nothing]
    rfl
  · obtain ⟨htrimmed, hagain⟩ := Sql.redacted_of_reended hplain statement (reended_readBack _)
    rw [redactedStatement, htrimmed, hagain]

/-- Nothing in the text of a redacted statement is taken for an element. -/
theorem nodesWithStatements_textMarkup (outer content : List Char) (offset : Nat) :
    nodesWithStatements outer (textMarkup content) offset = [] := by
  unfold textMarkup
  split <;> rfl

/-- Redacted markup shows redacted statements only. -/
theorem showsRedacted_redactedIn (hplain : o.replaceDigits = false) (outer : List Char) (c : Markup)
    (offset : Nat) :
    ∀ n ∈ nodesWithStatements outer (redactedIn o outer c) offset, ShowsRedacted o n := by
  induction c generalizing outer offset with
  | nil => simp [redactedIn, nodesWithStatements]
  | text raw content next ih => exact ih outer _
  | verbatim raw written next ih => exact ih outer _
  | aside written next ih => exact ih outer _
  | empty tag head next ih =>
      rw [redactedIn, nodesWithStatements, List.forall_mem_append]
      refine ⟨fun n hown => ?_, ih outer _⟩
      split at hown
      · obtain rfl := List.mem_singleton.mp hown
        exact showsRedacted_of_reread hplain (textContent_redacted o head .nil 0 0 0 _ _ 0)
      · cases hown
  | element tag head inner close next ih ihNext =>
      rw [redactedIn, nodesWithStatements, List.forall_mem_append, List.forall_mem_append]
      refine ⟨fun n hown => ?_, ?_, ihNext outer _⟩
      · split at hown
        · rename_i hholds
          obtain rfl := List.mem_singleton.mp hown
          rw [hholds, Bool.true_and]
          exact showsRedacted_of_reread hplain (textContent_redacted o head inner 0 0 0 _ _ _)
        · cases hown
      · split
        · rw [nodesWithStatements_textMarkup]
          simp
        · exact ih head.name.base _

/-! ### The redacted document -/

/-- A redacted document has a deadlock, and every statement in it is its own redaction. -/
theorem redacted_deadlock_shows_redacted_statements (hplain : o.replaceDigits = false)
    {x y : String} (hredacted : redactDocument o x = .ok y) :
    ∃ d, deadlockOf y = .ok d ∧
      ∀ n ∈ statementNodes [] d, (o.normalize n.textContent).redacted = n.textContent := by
  unfold redactDocument at hredacted
  cases hfound : deadlockOf x with
  | error f =>
      rw [hfound] at hredacted
      cases hredacted
  | ok d =>
      rw [hfound] at hredacted
      cases hredacted
      by_cases hnone : d.children = []
      · have hno := statementNodes_of_childless (isNamed_of_deadlockOf hfound) hnone
        rw [redactDeadlock_of_no_statement o x hno]
        refine ⟨d, hfound, ?_⟩
        rw [hno]
        simp
      · obtain ⟨head, inner, start, stop, stop', offset, hopens, -, hagain⟩ :=
          markup_redactDeadlock o hfound hnone
        refine ⟨_, hagain, ?_⟩
        rw [statementNodes_deadlock hopens]
        exact showsRedacted_redactedIn hplain _ inner offset

def statementWithReturn : String :=
  "<deadlock><inputbuf>SELECT [a&#13;b] = 'c'</inputbuf></deadlock>"

def redactedWithReturn : String :=
  "<deadlock><inputbuf>SELECT [a\rb] = ?</inputbuf></deadlock>"

theorem deadlock_with_return_shows_redacted_statements :
    (({} : RedactionOptions).replaceDigits = false ∧
      redactDocument {} statementWithReturn = .ok redactedWithReturn) ∧
      ∃ d, deadlockOf redactedWithReturn = .ok d ∧
        ∀ n ∈ statementNodes [] d,
          (RedactionOptions.normalize {} n.textContent).redacted = n.textContent := by
  have hredacted : redactDocument {} statementWithReturn = .ok redactedWithReturn := by
    decide +kernel
  exact ⟨⟨rfl, hredacted⟩, redacted_deadlock_shows_redacted_statements rfl hredacted⟩

/-! ### Statements elsewhere -/

/-- Only the first of these deadlocks is redacted. -/
def twoDeadlocks : String :=
  "<report><deadlock><process-list/><resource-list/></deadlock>" ++
  "<deadlock><process-list><process spid='52'><inputbuf>SELECT 1</inputbuf></process>" ++
  "</process-list><resource-list/></deadlock></report>"

theorem second_deadlock_shows_its_statements :
    ∃ y root, redactDocument {} twoDeadlocks = .ok y ∧ parse y = .ok root ∧
      ∃ n ∈ statementNodes [] root,
        (RedactionOptions.normalize {} n.textContent).redacted ≠ n.textContent := by
  have hchecked : (parse twoDeadlocks).toOption.any (fun root =>
      (firstDeadlock? [root]).any (fun d => (statementNodes [] d).isEmpty) &&
        (statementNodes [] root).any fun n =>
          (RedactionOptions.normalize {} n.textContent).redacted != n.textContent) = true := by
    decide +kernel
  cases haccepted : parse twoDeadlocks with
  | error f =>
      rw [haccepted] at hchecked
      cases hchecked
  | ok root =>
      rw [haccepted] at hchecked
      obtain ⟨hfirst, hshows⟩ := (Bool.and_eq_true _ _).mp hchecked
      obtain ⟨d, hknown, hnone⟩ := (Option.any_eq_true _ _).mp hfirst
      obtain ⟨n, hmember, hdiffers⟩ := List.any_eq_true.mp hshows
      have hfound : deadlockOf twoDeadlocks = .ok d :=
        deadlockOf_eq_ok_iff.mpr ⟨root, haccepted, hknown⟩
      have hredacted : redactDocument {} twoDeadlocks = .ok twoDeadlocks := by
        rw [redactDocument, hfound]
        exact congrArg _ (redactDeadlock_of_no_statement {} _ (List.isEmpty_iff.mp hnone))
      exact ⟨_, root, hredacted, haccepted, n, hmember, bne_iff_ne.mp hdiffers⟩

end DeadlockCapture.Report
