import DeadlockCapture.Proofs.Report.Acceptance
import Mathlib.Data.List.Forall2
import Mathlib.Data.List.Nodup

/-!
The sessions that a graph names as owners, waiters and victims. A document names them by the ids of
their processes; every session that a graph names is that of one of its processes, and if no two
processes share an id, none that the document names is left out.
-/

namespace DeadlockCapture.Report

open DeadlockCapture.Xml (Node)

namespace SessionSet

theorem mem_foldl_insert {ids : List SessionId} {s : SessionSet} {x : SessionId} :
    x ∈ ids.foldl insert s ↔ x ∈ s ∨ x ∈ ids := by
  induction ids generalizing s with
  | nil => simp
  | cons y r ih => rw [List.foldl_cons, ih, mem_insert, List.mem_cons, or_assoc, or_left_comm]

theorem mem_ofList {ids : List SessionId} {x : SessionId} : x ∈ ofList ids ↔ x ∈ ids := by
  have hnone : x ∉ empty := List.not_mem_nil
  rw [ofList, mem_foldl_insert, or_iff_right hnone]

end SessionSet

section References

variable {processes : List Participant} {id : String} {s : SessionId}

theorem exists_of_sessionOf? (h : sessionOf? processes id = some s) :
    ∃ p ∈ processes, p.id = id ∧ p.session = s := by
  obtain ⟨p, hfound, rfl⟩ := Option.map_eq_some_iff.mp h
  have hmember := List.mem_of_find?_eq_some hfound
  have hsame := List.find?_some hfound
  exact ⟨p, List.mem_reverse.mp hmember, by simpa using hsame, rfl⟩

/-- If no two processes share an id, the id of a process stands for its session. -/
theorem sessionOf?_of_mem (hdistinct : (processes.map (·.id)).Nodup) {p : Participant}
    (hmember : p ∈ processes) : sessionOf? processes p.id = some p.session := by
  have hsome : (processes.reverse.find? (·.id == p.id)).isSome = true :=
    List.find?_isSome.mpr ⟨p, List.mem_reverse.mpr hmember, beq_self_eq_true p.id⟩
  obtain ⟨q, hfound⟩ := Option.isSome_iff_exists.mp hsome
  have hmember' := List.mem_reverse.mp (List.mem_of_find?_eq_some hfound)
  have hsame : q.id = p.id := by simpa using List.find?_some hfound
  rw [sessionOf?, hfound, List.inj_on_of_nodup_map hdistinct hmember' hmember hsame,
    Option.map_some]

theorem sessionOf?_eq_some_iff (hdistinct : (processes.map (·.id)).Nodup) :
    sessionOf? processes id = some s ↔ ∃ p ∈ processes, p.id = id ∧ p.session = s := by
  refine ⟨exists_of_sessionOf?, ?_⟩
  rintro ⟨p, hmember, rfl, rfl⟩
  exact sessionOf?_of_mem hdistinct hmember

/-- The value of an attribute is the id of a process with the session. -/
def RefersTo (processes : List Participant) (n : Node) (key : String) (s : SessionId) : Prop :=
  ∃ id, n.attribute? key = some id ∧ ∃ p ∈ processes, p.id = id ∧ p.session = s

/-- An item in the first list of a name refers to a process with the session. -/
def Lists (processes : List Participant) (n : Node) (list item : String) (s : SessionId) : Prop :=
  ∃ l, IsFirstChild n list l ∧
    ∃ i ∈ l.children, i.isNamed item = true ∧ RefersTo processes i "id" s

/-- What an attribute resolves to. -/
def Resolves (processes : List Participant) (n : Node) (key : String) (s : SessionId) : Prop :=
  (n.attribute? key).bind (sessionOf? processes) = some s

theorem Resolves.refersTo {n : Node} {key : String} (h : Resolves processes n key s) :
    RefersTo processes n key s := by
  obtain ⟨id, hwritten, hfound⟩ := Option.bind_eq_some_iff.mp h
  exact ⟨id, hwritten, exists_of_sessionOf? hfound⟩

theorem resolves_iff_refersTo (hdistinct : (processes.map (·.id)).Nodup) {n : Node} {key : String} :
    Resolves processes n key s ↔ RefersTo processes n key s := by
  simp only [Resolves, Option.bind_eq_some_iff, sessionOf?_eq_some_iff hdistinct, RefersTo]

theorem mem_namedSessions {n : Node} {list item : String} :
    s ∈ namedSessions processes (n.child? list) item ↔
      ∃ l, IsFirstChild n list l ∧
        ∃ i ∈ l.children, i.isNamed item = true ∧ Resolves processes i "id" s := by
  simp only [← child?_eq_some_iff]
  cases n.child? list with
  | none =>
      have hnothing : s ∉ namedSessions processes none item := List.not_mem_nil
      simp [hnothing]
  | some l => simp [namedSessions, SessionSet.mem_ofList, Node.childrenNamed, Resolves, and_assoc]

theorem mem_victimsOf {d : Node} :
    s ∈ victimsOf processes d ↔
      s ∈ namedSessions processes (d.child? "victim-list") "victimProcess" ∨
        Resolves processes d "victim" s := by
  rw [victimsOf, Resolves]
  cases (d.attribute? "victim").bind (sessionOf? processes) with
  | none => simp
  | some v => rw [SessionSet.mem_insert, or_comm, Option.some.injEq, eq_comm]

theorem RefersTo.exists {n : Node} {key : String} (h : RefersTo processes n key s) :
    ∃ p ∈ processes, p.session = s := by
  obtain ⟨id, -, p, hmember, -, hsame⟩ := h
  exact ⟨p, hmember, hsame⟩

/-- A session that is named is that of a process. -/
theorem exists_of_mem_namedSessions {n : Node} {list item : String}
    (h : s ∈ namedSessions processes (n.child? list) item) : ∃ p ∈ processes, p.session = s := by
  obtain ⟨l, -, i, -, -, hresolves⟩ := mem_namedSessions.mp h
  exact hresolves.refersTo.exists

theorem exists_of_mem_victimsOf {d : Node} (h : s ∈ victimsOf processes d) :
    ∃ p ∈ processes, p.session = s := by
  obtain hlisted | hresolves := mem_victimsOf.mp h
  · exact exists_of_mem_namedSessions hlisted
  · exact hresolves.refersTo.exists

theorem mem_namedSessions_iff_lists (hdistinct : (processes.map (·.id)).Nodup) {n : Node}
    {list item : String} :
    s ∈ namedSessions processes (n.child? list) item ↔ Lists processes n list item s := by
  simp only [mem_namedSessions, resolves_iff_refersTo hdistinct, Lists]

end References

/-- Every owner, waiter and victim in a graph is the session of one of its processes. If no two
processes share an id, the owners and waiters of each resource are the sessions that the lists of
its element refer to, and the victims those that the list of victims or the attribute of the
deadlock refers to. -/
theorem graph_names_sessions_of_its_processes {x : String} {g : Graph}
    (hread : readGraph x = .ok g) :
    (∀ r ∈ g.resources, ∀ s, s ∈ r.owners ∨ s ∈ r.waiters → ∃ p ∈ g.processes, p.session = s) ∧
      (∀ s ∈ g.victims, ∃ p ∈ g.processes, p.session = s) ∧
      ((g.processes.map (·.id)).Nodup →
        ∃ d list, IsDeadlockOf .reader x d ∧ IsFirstChild d "resource-list" list ∧
          List.Forall₂ (fun n r =>
            (∀ s, s ∈ r.owners ↔ Lists g.processes n "owner-list" "owner" s) ∧
              ∀ s, s ∈ r.waiters ↔ Lists g.processes n "waiter-list" "waiter" s)
            list.elements g.resources ∧
          ∀ s, s ∈ g.victims ↔
            Lists g.processes d "victim-list" "victimProcess" s ∨
              RefersTo g.processes d "victim" s) := by
  obtain ⟨d, hdeadlock, hofDeadlock⟩ :=
    Graph.ofDocument_eq_ok_iff.mp (orRejected_eq_ok_iff.mp hread)
  obtain ⟨-, list, processes, -, hfirst, -, rfl⟩ := Graph.ofDeadlock_eq_ok_iff.mp hofDeadlock
  refine ⟨?_, fun s => exists_of_mem_victimsOf, fun hdistinct =>
    ⟨d, list, hdeadlock, hfirst, ?_, ?_⟩⟩
  · intro r hmember s hnamed
    obtain ⟨n, -, rfl⟩ := List.mem_map.mp hmember
    exact hnamed.elim exists_of_mem_namedSessions exists_of_mem_namedSessions
  · rw [List.forall₂_map_right_iff, List.forall₂_same]
    exact fun n _ => ⟨fun s => mem_namedSessions_iff_lists hdistinct,
      fun s => mem_namedSessions_iff_lists hdistinct⟩
  · intro s
    rw [mem_victimsOf, mem_namedSessions_iff_lists hdistinct, resolves_iff_refersTo hdistinct]

/-- One owner is no process, and the victim is named in the older notation. -/
def referencingDocument : String :=
  "<deadlock victim='a'><process-list><process id='a' spid=' -1 '/></process-list>" ++
  "<resource-list><lock><owner-list><owner id='b'/><owner id='a'/></owner-list></lock>" ++
  "</resource-list></deadlock>"

def referencedGraph : Graph where
  processes :=
    [{ id := "a", session := -1, waitMillis := 0, lockMode := "", isolation := ""
       inputBuffer := "" }]
  resources := [{ kind := "lock", object := "", owners := .ofList [-1], waiters := .empty }]
  victims := .ofList [-1]

theorem referenced_graph_names_sessions_of_its_processes :
    (readGraph referencingDocument = .ok referencedGraph ∧
      (referencedGraph.processes.map (·.id)).Nodup) ∧
    (∀ s ∈ referencedGraph.victims, ∃ p ∈ referencedGraph.processes, p.session = s) ∧
      ∃ d list, IsDeadlockOf .reader referencingDocument d ∧ IsFirstChild d "resource-list" list ∧
        List.Forall₂ (fun n r =>
          (∀ s, s ∈ r.owners ↔ Lists referencedGraph.processes n "owner-list" "owner" s) ∧
            ∀ s, s ∈ r.waiters ↔ Lists referencedGraph.processes n "waiter-list" "waiter" s)
          list.elements referencedGraph.resources ∧
        ∀ s, s ∈ referencedGraph.victims ↔
          Lists referencedGraph.processes d "victim-list" "victimProcess" s ∨
            RefersTo referencedGraph.processes d "victim" s := by
  have hread : readGraph referencingDocument = .ok referencedGraph := by decide +kernel
  have hdistinct : (referencedGraph.processes.map (·.id)).Nodup := by decide
  obtain ⟨-, hvictims, hcomplete⟩ := graph_names_sessions_of_its_processes hread
  exact ⟨⟨hread, hdistinct⟩, hvictims, hcomplete hdistinct⟩

end DeadlockCapture.Report
