import DeadlockCapture.Mark
import DeadlockCapture.Proofs.Json.Decoding
import DeadlockCapture.Proofs.Time.InstantText
import DeadlockCapture.Report.GraphWire
import DeadlockCapture.Report.Payload

/-!
Events, graphs, signatures, rows and marks are recovered from their JSON texts. A field that a text
leaves out has exactly the value with which a draft of the record is finished without it. A payload
is recovered as far as the text of its interval is.
-/

namespace DeadlockCapture

open Json Json.Decoder

theorem Time.Instant.recovers : Instant.decoder.Recovers Instant.toJson := by
  intro t
  simp only [Instant.decoder, Instant.toJson, recovers_text t.text, Instant.ofText?_text]

theorem Mark.recovers : Mark.decoder.Recovers Mark.toJson := by
  intro m
  have hmembers : Fills Mark.fields {}
      [("instance", .text m.instanceName), ("value", m.value.toJson)]
      { instanceName := m.instanceName, value := m.value } :=
    .cons rfl rfl (fill_slot (recovers_text _)) <|
    .cons rfl rfl (fill_slot (Time.Instant.recovers _)) .nil
  exact hmembers.record_eq rfl

namespace Report

theorem Event.recovers : Event.decoder.Recovers Event.toJson := by
  intro e
  have hmembers : Fills Event.fields {} [("timestamp", e.time.toJson), ("xml", .text e.document)]
      { time := e.time, document := e.document } :=
    .cons rfl rfl (fill_slot (Time.Instant.recovers _)) <|
    .cons rfl rfl (fill_slot (recovers_text _)) .nil
  exact hmembers.record_eq rfl

namespace SessionSet

theorem place_last {x : SessionId} {ids : List SessionId} (h : ∀ y ∈ ids, y < x) :
    place x ids = ids ++ [x] := by
  induction ids with
  | nil => rfl
  | cons y r ih =>
      have hyx : y < x := h y List.mem_cons_self
      rw [place, if_neg (Int32.lt_asymm hyx), if_pos hyx,
        ih fun z hz => h z (List.mem_cons_of_mem y hz), List.cons_append]

theorem ids_foldl_insert {s : SessionSet} {rest : List SessionId}
    (h : (s.ids ++ rest).Pairwise (· < ·)) : (rest.foldl insert s).ids = s.ids ++ rest := by
  induction rest generalizing s with
  | nil => rw [List.foldl_nil, List.append_nil]
  | cons x rest ih =>
      have hlast : (s.insert x).ids = s.ids ++ [x] :=
        place_last fun y hy => (List.pairwise_append.1 h).2.2 y hy x List.mem_cons_self
      have hordered : ((s.insert x).ids ++ rest).Pairwise (· < ·) := by
        rwa [hlast, List.append_assoc, List.singleton_append]
      rw [List.foldl_cons, ih hordered, hlast, List.append_assoc, List.singleton_append]

/-- A set is the set of its members. -/
theorem ofList_ids (s : SessionSet) : ofList s.ids = s := by
  have hids : (ofList s.ids).ids = s.ids := ids_foldl_insert (s := empty) s.ascending
  obtain ⟨ids, hascending⟩ := s
  rw [mk.injEq, hids]

theorem recovers : SessionSet.decoder.Recovers SessionSet.toJson := by
  intro s
  rw [decoder, toJson, recovers_int32.list s.ids, Except.map, ofList_ids]

end SessionSet

/-- The draft of a frame with all but what may be left out. -/
def Frame.draftWith (f : Frame) (handle text : Option String) : Frame.Draft :=
  { procedure := f.procedure, line := f.line, handle, text }

theorem Frame.recovers : Frame.decoder.Recovers Frame.toJson := by
  intro f
  have hfirst : Fills Frame.fields {}
      [("procname", .text f.procedure), ("line", .whole f.line.toNat)] (f.draftWith none none) :=
    .cons rfl rfl (fill_slot (recovers_text _)) <|
    .cons rfl rfl (fill_slot (recovers_uint32 _)) .nil
  have hhandle : Fills Frame.fields (f.draftWith none none) (unlessEmpty "sql_handle" f.handle)
      (f.draftWith (unlessBlank String.isEmpty f.handle) none) :=
    .text (f.draftWith · none) rfl rfl fun _ => rfl
  have htext (handle : Option String) : Fills Frame.fields (f.draftWith handle none)
      (unlessEmpty "text" f.text) (f.draftWith handle (unlessBlank String.isEmpty f.text)) :=
    .text (f.draftWith handle) rfl rfl fun _ => rfl
  refine ((hfirst.append hhandle).append (htext _)).record_eq ?_
  simp [Frame.Draft.finish, Frame.draftWith]

/-- The draft of a process with all but what may be left out. -/
def Participant.draftWith (p : Participant) (waitResource : Option String)
    (database : Option UInt32) (transaction : Option String) (frames : Option (List Frame)) :
    Participant.Draft :=
  { id := p.id, session := p.session, waitMillis := p.waitMillis, lockMode := p.lockMode,
    isolation := p.isolation, inputBuffer := p.inputBuffer, waitResource, database, transaction,
    frames }

theorem Participant.recovers : Participant.decoder.Recovers Participant.toJson := by
  intro p
  have hfirst : Fills Participant.fields {}
      [("process_id", .text p.id), ("session_id", .whole p.session.toInt),
        ("wait_time_ms", .whole p.waitMillis.toNat), ("lock_mode", .text p.lockMode),
        ("isolation_level", .text p.isolation), ("input_buffer_text", .text p.inputBuffer)]
      (p.draftWith none none none none) :=
    .cons rfl rfl (fill_slot (recovers_text _)) <|
    .cons rfl rfl (fill_slot (recovers_int32 _)) <|
    .cons rfl rfl (fill_slot (recovers_uint64 _)) <|
    .cons rfl rfl (fill_slot (recovers_text _)) <|
    .cons rfl rfl (fill_slot (recovers_text _)) <|
    .cons rfl rfl (fill_slot (recovers_text _)) .nil
  have hresource : Fills Participant.fields (p.draftWith none none none none)
      (unlessEmpty "wait_resource" p.waitResource)
      (p.draftWith (unlessBlank String.isEmpty p.waitResource) none none none) :=
    .text (p.draftWith · none none none) rfl rfl fun _ => rfl
  have hdatabase (r : Option String) : Fills Participant.fields (p.draftWith r none none none)
      [("database_id", .whole p.database.toNat)] (p.draftWith r p.database none none) :=
    .cons rfl rfl (fill_slot (recovers_uint32 _)) .nil
  have htransaction (r : Option String) (d : Option UInt32) :
      Fills Participant.fields (p.draftWith r d none none)
        (unlessEmpty "transaction_name" p.transaction)
        (p.draftWith r d (unlessBlank String.isEmpty p.transaction) none) :=
    .text (p.draftWith r d · none) rfl rfl fun _ => rfl
  have hframes (r : Option String) (d : Option UInt32) (t : Option String) :
      Fills Participant.fields (p.draftWith r d t none)
        (unlessNil "execution_frames" (p.frames.map Frame.toJson))
        (p.draftWith r d t (unlessBlank List.isEmpty p.frames)) :=
    .list (p.draftWith r d t) Frame.recovers rfl rfl fun _ => rfl
  have hmembers := (((hfirst.append hresource).append (hdatabase _)).append
    (htransaction _ _)).append (hframes _ _ _)
  refine hmembers.record_eq ?_
  simp [Participant.Draft.finish, Participant.draftWith]

/-- The draft of a resource after its first fields, with all but what may be left out. -/
def Resource.draftWith (r : Resource) (index : Option String) (database : Option UInt32)
    (mode : Option String) (sets : Option (SessionSet × SessionSet)) : Resource.Draft :=
  { kind := r.kind, object := r.object, index, database, mode, owners := sets.map (·.1),
    waiters := sets.map (·.2) }

theorem Resource.recovers : Resource.decoder.Recovers Resource.toJson := by
  intro r
  have hfirst : Fills Resource.fields {}
      [("resource_type", .text r.kind), ("object_name", .text r.object)]
      (r.draftWith none none none none) :=
    .cons rfl rfl (fill_slot (recovers_text _)) <|
    .cons rfl rfl (fill_slot (recovers_text _)) .nil
  have hindex : Fills Resource.fields (r.draftWith none none none none)
      (unlessEmpty "index_name" r.index)
      (r.draftWith (unlessBlank String.isEmpty r.index) none none none) :=
    .text (r.draftWith · none none none) rfl rfl fun _ => rfl
  have hdatabase (i : Option String) : Fills Resource.fields (r.draftWith i none none none)
      [("database_id", .whole r.database.toNat)] (r.draftWith i r.database none none) :=
    .cons rfl rfl (fill_slot (recovers_uint32 _)) .nil
  have hmode (i : Option String) (d : Option UInt32) :
      Fills Resource.fields (r.draftWith i d none none) (unlessEmpty "mode" r.mode)
        (r.draftWith i d (unlessBlank String.isEmpty r.mode) none) :=
    .text (r.draftWith i d · none) rfl rfl fun _ => rfl
  have hsets (i : Option String) (d : Option UInt32) (m : Option String) :
      Fills Resource.fields (r.draftWith i d m none)
        [("owner_session_ids", r.owners.toJson), ("waiter_session_ids", r.waiters.toJson)]
        (r.draftWith i d m (some (r.owners, r.waiters))) :=
    .cons rfl rfl (fill_slot (SessionSet.recovers _)) <|
    .cons rfl rfl (fill_slot (SessionSet.recovers _)) .nil
  have hmembers := (((hfirst.append hindex).append (hdatabase _)).append
    (hmode _ _)).append (hsets _ _ _)
  refine hmembers.record_eq ?_
  simp [Resource.Draft.finish, Resource.draftWith]

theorem SessionSet.eq_empty_of_isEmpty {s : SessionSet} (h : s.isEmpty = true) : s = .empty := by
  obtain ⟨ids, hids⟩ := s
  obtain rfl : ids = [] := List.isEmpty_iff.1 h
  rfl

/-- Sessions that are left out of a graph are written as a member that may be missing. -/
theorem Graph.victims_eq (g : Graph) :
    (if g.victims.isEmpty then [] else [("victim_session_ids", g.victims.toJson)]) =
      Json.optional "victim_session_ids"
        ((unlessBlank SessionSet.isEmpty g.victims).map SessionSet.toJson) := by
  cases h : g.victims.isEmpty <;> simp [unlessBlank, Json.optional, h]

/-- The draft of a graph with all but what may be left out. -/
def Graph.draftWith (g : Graph) (victims : Option SessionSet) : Graph.Draft :=
  { processes := g.processes, resources := g.resources, victims }

theorem Graph.recovers : Graph.decoder.Recovers Graph.toJson := by
  intro g
  have hfirst : Fills Graph.fields {}
      [("processes", .list (g.processes.map Participant.toJson)),
        ("resources", .list (g.resources.map Resource.toJson))] (g.draftWith none) :=
    .cons rfl rfl (fill_slot (Participant.recovers.list _)) <|
    .cons rfl rfl (fill_slot (Resource.recovers.list _)) .nil
  have hvictims : Fills Graph.fields (g.draftWith none)
      (Json.optional "victim_session_ids"
        ((unlessBlank SessionSet.isEmpty g.victims).map SessionSet.toJson))
      (g.draftWith (unlessBlank SessionSet.isEmpty g.victims)) :=
    .optional g.draftWith rfl rfl fun _ _ => fill_slot (SessionSet.recovers _)
  have hmembers := hfirst.append hvictims
  rw [← Graph.victims_eq] at hmembers
  refine hmembers.record_eq ?_
  simp [Graph.Draft.finish, Graph.draftWith, getD_unlessBlank SessionSet.eq_empty_of_isEmpty]

/-- The draft of a signature with all but what may be left out. -/
def Signature.draftWith (s : Signature) (commands tables : Option (List String))
    (unreadable : Option Bool) : Signature.Draft :=
  { session := s.session, fingerprint := s.fingerprint, redacted := s.redacted, commands, tables,
    unreadable }

theorem Signature.recovers : Signature.decoder.Recovers Signature.toJson := by
  intro s
  have hfirst : Fills Signature.fields {}
      [("session_id", .whole s.session.toInt), ("normalized_hash", .text s.fingerprint),
        ("redacted_text", .text s.redacted)] (s.draftWith none none none) :=
    .cons rfl rfl (fill_slot (recovers_int32 _)) <|
    .cons rfl rfl (fill_slot (recovers_text _)) <|
    .cons rfl rfl (fill_slot (recovers_text _)) .nil
  have hcommands : Fills Signature.fields (s.draftWith none none none)
      (unlessNil "commands" (s.commands.map .text))
      (s.draftWith (unlessBlank List.isEmpty s.commands) none none) :=
    .list (s.draftWith · none none) recovers_text rfl rfl fun _ => rfl
  have htables (c : Option (List String)) : Fills Signature.fields (s.draftWith c none none)
      (unlessNil "tables" (s.tables.map .text))
      (s.draftWith c (unlessBlank List.isEmpty s.tables) none) :=
    .list (s.draftWith c · none) recovers_text rfl rfl fun _ => rfl
  have hunreadable (c t : Option (List String)) : Fills Signature.fields (s.draftWith c t none)
      (whenSet "opaque" s.unreadable) (s.draftWith c t (unlessBlank Bool.not s.unreadable)) := by
    rw [whenSet_eq]
    exact .optional (s.draftWith c t) rfl rfl fun _ _ => fill_slot (recovers_bool _)
  have hmembers := ((hfirst.append hcommands).append (htables _)).append (hunreadable _ _)
  refine hmembers.record_eq ?_
  simp [Signature.Draft.finish, Signature.draftWith]

/-- The draft of a row with all but what may be left out. -/
def Row.draftWith (r : Row) (error : Option String) : Row.Draft :=
  { time := r.time, document := r.document, signatures := r.signatures, error := error.map some }

theorem Row.recovers : Row.decoder.Recovers Row.toJson := by
  intro r
  have hfirst : Fills Row.fields {}
      [("timestamp", r.time.toJson), ("xml", .text r.document),
        ("query_signatures", .list (r.signatures.map Signature.toJson))] (r.draftWith none) :=
    .cons rfl rfl (fill_slot (Time.Instant.recovers _)) <|
    .cons rfl rfl (fill_slot (recovers_text _)) <|
    .cons rfl rfl (fill_slot (Signature.recovers.list _)) .nil
  have herror : Fills Row.fields (r.draftWith none) (Json.optional "error" (r.error.map .text))
      (r.draftWith r.error) :=
    .optional r.draftWith rfl rfl fun reason _ => fill_slot (nullable_text reason)
  refine (hfirst.append herror).record_eq ?_
  obtain ⟨time, document, signatures, error⟩ := r
  cases error <;> rfl

end Report

end DeadlockCapture
