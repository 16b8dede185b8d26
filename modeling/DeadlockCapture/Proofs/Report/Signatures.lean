import DeadlockCapture.Proofs.Sql.Legibility
import DeadlockCapture.Report.Assembly
import Mathlib.Data.List.Nodup

/-!
The signatures of a graph. They stand in the order of its sessions, one for each, and show the
statement of the session's first process.
-/

namespace DeadlockCapture.Report

open DeadlockCapture.Sql (RedactionOptions)

namespace Graph

theorem mem_distinctAfter {seen ids : List SessionId} {id : SessionId} :
    id ∈ distinctAfter seen ids ↔ id ∉ seen ∧ id ∈ ids := by
  induction ids generalizing seen with
  | nil => simp [distinctAfter]
  | cons x r ih =>
      rw [distinctAfter]
      split
      · grind
      · grind

theorem nodup_distinctAfter (seen ids : List SessionId) : (distinctAfter seen ids).Nodup := by
  induction ids generalizing seen with
  | nil => exact .nil
  | cons x r ih =>
      rw [distinctAfter]
      split
      · exact ih seen
      · refine List.nodup_cons.mpr ⟨?_, ih _⟩
        rw [mem_distinctAfter]
        simp

end Graph

namespace Assembler

theorem sessions_firstProcesses (seen : List SessionId) (processes : List Participant) :
    (firstProcesses seen processes).map (·.session) =
      Graph.distinctAfter seen (processes.map (·.session)) := by
  induction processes generalizing seen with
  | nil => rfl
  | cons p r ih =>
      rw [firstProcesses, List.map_cons, Graph.distinctAfter]
      split
      · exact ih seen
      · rw [List.map_cons, ih]

/-- The process that is kept for a session is the one that is found for it. -/
theorem find?_of_mem_firstProcesses {seen : List SessionId} {processes : List Participant}
    {p : Participant} (h : p ∈ firstProcesses seen processes) :
    p.session ∉ seen ∧ processes.find? (·.session == p.session) = some p := by
  induction processes generalizing seen with
  | nil => cases h
  | cons q r ih =>
      rw [firstProcesses] at h
      split at h
      · rename_i hknown
        obtain ⟨hunseen, hfound⟩ := ih h
        have hother : q.session ≠ p.session := by
          intro hsame
          rw [hsame, List.contains_iff_mem] at hknown
          exact hunseen hknown
        refine ⟨hunseen, ?_⟩
        rwa [List.find?_cons_of_neg (by simpa using hother)]
      · rename_i hunknown
        obtain rfl | hlater := List.mem_cons.mp h
        · exact ⟨by simpa using hunknown, List.find?_cons_of_pos (by simp)⟩
        · obtain ⟨hunseen, hfound⟩ := ih hlater
          rw [List.mem_cons, not_or] at hunseen
          refine ⟨hunseen.2, ?_⟩
          rwa [List.find?_cons_of_neg (by simpa using Ne.symm hunseen.1)]

/-- An empty statement has the signature that is given to a process without one. -/
theorem signatureOf_eq (a : Assembler) (p : Participant) :
    a.signatureOf p = a.options.signature p.session p.inputBuffer := by
  rw [signatureOf, Participant.hasInputBuffer]
  cases hblank : p.inputBuffer.isEmpty with
  | false => rfl
  | true =>
      rw [String.isEmpty_iff.mp hblank, RedactionOptions.signature, Sql.normalize_nothing]
      rfl

theorem sessions_signatures (a : Assembler) (g : Graph) :
    (a.signatures g).map (·.session) = g.sessions := by
  have hsame : (fun s : Signature => s.session) ∘ a.signatureOf = fun p => p.session := by
    funext p
    exact congrArg Signature.session (a.signatureOf_eq p)
  rw [signatures, List.map_map, hsame, sessions_firstProcesses, Graph.sessions]

/-- Each signature, in order, is that of the statement of the session's process. -/
theorem signatures_eq (a : Assembler) (g : Graph) :
    (a.signatures g).map some = g.sessions.map fun session =>
      (g.process? session).map fun p => a.options.signature session p.inputBuffer := by
  rw [Graph.sessions, ← sessions_firstProcesses, signatures, List.map_map, List.map_map]
  apply List.map_congr_left
  intro p hmember
  have hfound : g.process? p.session = some p := (find?_of_mem_firstProcesses hmember).2
  simp only [Function.comp_apply, hfound, Option.map_some, signatureOf_eq]

theorem count_signatures (a : Assembler) {g : Graph} {p : Participant} (hmember : p ∈ g.processes) :
    (a.signatures g).countP (·.session == p.session) = 1 := by
  have hlisted : p.session ∈ g.sessions := by
    rw [Graph.sessions, Graph.mem_distinctAfter]
    exact ⟨by simp, List.mem_map_of_mem hmember⟩
  have honce := List.count_eq_one_of_mem (Graph.nodup_distinctAfter [] _) hlisted
  rw [← Graph.sessions, ← sessions_signatures a, List.count, List.countP_map] at honce
  exact honce

end Assembler

/-- The signatures of a graph are those of its sessions in their order, each from the statement of
the process that the graph gives for the session. A session without a statement is no exception,
and no session has two signatures. -/
theorem signatures_agree_with_graph (a : Assembler) (g : Graph) :
    (a.signatures g).map (·.session) = g.sessions ∧ g.sessions.Nodup ∧
      ((a.signatures g).map some = g.sessions.map fun session =>
        (g.process? session).map fun p => a.options.signature session p.inputBuffer) ∧
      (∀ p ∈ g.processes, (a.signatures g).countP (·.session == p.session) = 1) ∧
      a.options.normalize "" = .empty := by
  refine ⟨a.sessions_signatures g, Graph.nodup_distinctAfter [] _, a.signatures_eq g, ?_,
    Sql.normalize_nothing a.options⟩
  intro p hmember
  exact a.count_signatures hmember

def laterProcess : Participant where
  id := "r"
  session := 52
  waitMillis := 0
  lockMode := ""
  isolation := ""
  inputBuffer := "SELECT 2"

/-- The first process of a session has no statement, a later one has. -/
def sharedSession : Graph where
  processes :=
    [{ laterProcess with id := "p", inputBuffer := "" },
     { laterProcess with id := "q", session := 53 }, laterProcess]
  resources := []

theorem shared_session_has_one_signature :
    laterProcess ∈ sharedSession.processes ∧
      (Assembler.signatures {} sharedSession).countP (·.session == 52) = 1 ∧
      (Assembler.signatures {} sharedSession).map some =
        [some (RedactionOptions.signature {} 52 ""),
          some (RedactionOptions.signature {} 53 "SELECT 2")] := by
  have hmember : laterProcess ∈ sharedSession.processes := by simp [sharedSession]
  have hlisted : sharedSession.sessions = [52, 53] := by decide
  obtain ⟨-, -, heach, honce, -⟩ := signatures_agree_with_graph {} sharedSession
  rw [hlisted] at heach
  exact ⟨hmember, honce laterProcess hmember, heach⟩

end DeadlockCapture.Report
