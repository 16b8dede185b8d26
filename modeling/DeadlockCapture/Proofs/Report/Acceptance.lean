import DeadlockCapture.Proofs.Text.Digits
import DeadlockCapture.Proofs.Xml.Dialects
import DeadlockCapture.Proofs.Xml.PlainTags
import DeadlockCapture.Report.DocumentRedaction

/-!
Which documents describe a deadlock, and what is wrong with the others. A document has one fault at
most: the first in the order in which its parts are needed. Reading, redacting and doing both agree
on it.
-/

namespace DeadlockCapture.Report

open DeadlockCapture.Sql (RedactionOptions)
open DeadlockCapture.Xml (Dialect Head Markup Name Node)

/-! ### The first of some values -/

section First

variable {α : Type} {p : α → Prop} {a b : α} {l : List α}

/-- The first of some values that has a property. -/
def IsFirst (p : α → Prop) (l : List α) (a : α) : Prop :=
  ∃ before after, l = before ++ a :: after ∧ p a ∧ ∀ b ∈ before, ¬ p b

theorem isFirst_iff_find? {p : α → Bool} :
    IsFirst (fun a => p a = true) l a ↔ l.find? p = some a := by
  rw [List.find?_eq_some_iff_append]
  constructor
  · rintro ⟨before, after, hsplit, hholds, hothers⟩
    exact ⟨hholds, before, after, hsplit, by simpa using hothers⟩
  · rintro ⟨hholds, before, after, hsplit, hothers⟩
    exact ⟨before, after, hsplit, hholds, by simpa using hothers⟩

theorem exists_isFirst_iff {p : α → Bool} :
    (∃ a, IsFirst (fun a => p a = true) l a) ↔ ∃ a ∈ l, p a = true := by
  simp only [isFirst_iff_find?, ← Option.isSome_iff_exists, List.find?_isSome]

theorem isFirst_cons : IsFirst p (a :: l) b ↔ p a ∧ a = b ∨ ¬ p a ∧ IsFirst p l b := by
  constructor
  · rintro ⟨before, after, hsplit, hholds, hothers⟩
    obtain _ | ⟨c, before⟩ := before
    · obtain ⟨rfl, -⟩ := List.cons.inj hsplit
      exact .inl ⟨hholds, rfl⟩
    · obtain ⟨rfl, hrest⟩ := List.cons.inj hsplit
      obtain ⟨hother, hothers⟩ := List.forall_mem_cons.mp hothers
      exact .inr ⟨hother, before, after, hrest, hholds, hothers⟩
  · rintro (⟨hholds, rfl⟩ | ⟨hother, before, after, rfl, hholds, hothers⟩)
    · exact ⟨[], l, rfl, hholds, by simp⟩
    · exact ⟨a :: before, after, rfl, hholds, List.forall_mem_cons.mpr ⟨hother, hothers⟩⟩

theorem not_isFirst_nil : ¬ IsFirst p [] a := by
  rintro ⟨before, after, hsplit, -⟩
  exact List.append_ne_nil_of_right_ne_nil before (List.cons_ne_nil a after) hsplit.symm

theorem isFirst_filter {q : α → Bool} :
    IsFirst p (l.filter q) a ↔ IsFirst (fun a => q a = true ∧ p a) l a := by
  induction l with
  | nil => exact iff_of_false not_isFirst_nil not_isFirst_nil
  | cons c l ih =>
      cases hfound : q c with
      | true => simp only [List.filter_cons_of_pos hfound, isFirst_cons, ih, hfound, true_and]
      | false => simp [isFirst_cons, ih, hfound]

end First

/-! ### What a document must have -/

/-- The element of a document that describes the deadlock: the first of that name in document
order. -/
def IsDeadlockOf (dialect : Dialect) (x : String) (d : Node) : Prop :=
  ∃ root, dialect.IsDocument x.toList root ∧
    IsFirst (fun n => n.isNamed "deadlock" = true) root.descendants d

/-- An element says its session in an attribute: a whole number of 32 bits, blanks around it
aside. -/
def SaysSession (n : Node) : Prop :=
  ∃ value z, n.attribute? "spid" = some value ∧ Text.WritesWhole (Text.trim value.toList) z ∧
    int32Min ≤ z ∧ z ≤ int32Max

def HasChild (n : Node) (name : String) : Prop :=
  ∃ c ∈ n.children, c.isNamed name = true

def IsFirstChild (n : Node) (name : String) (c : Node) : Prop :=
  IsFirst (fun c => c.isNamed name = true) n.children c

/-- A document of the dialect that describes a deadlock: it has all that a graph needs. -/
def DescribesDeadlock (dialect : Dialect) (x : String) : Prop :=
  ∃ d list, IsDeadlockOf dialect x d ∧ IsFirstChild d "process-list" list ∧
    HasChild d "resource-list" ∧ ∀ n ∈ list.children, n.isNamed "process" = true → SaysSession n

/-- What is wrong with a text that does not describe a deadlock. A fault is one only if there is
none of those before it. That a text is no document is told with the reason of the reader. -/
inductive HasFault (x : String) : DocumentFault → Prop
  | malformed {f : Xml.Fault} : (∀ root, ¬ Dialect.reader.IsDocument x.toList root) →
      Xml.parse x = .error f → HasFault x (.malformed f)
  | noDeadlock {root : Node} : Dialect.reader.IsDocument x.toList root →
      (∀ n ∈ root.descendants, ¬ n.isNamed "deadlock" = true) → HasFault x (.missing "deadlock")
  | noProcessList {d : Node} : IsDeadlockOf .reader x d → ¬ HasChild d "process-list" →
      HasFault x (.missing "process-list")
  | noResourceList {d : Node} : IsDeadlockOf .reader x d → HasChild d "process-list" →
      ¬ HasChild d "resource-list" → HasFault x (.missing "resource-list")
  | invalidSession {d list n : Node} : IsDeadlockOf .reader x d →
      IsFirstChild d "process-list" list → HasChild d "resource-list" →
      IsFirst (fun n => n.isNamed "process" = true ∧ ¬ SaysSession n) list.children n →
      HasFault x (.invalidSession (n.attributeText "spid"))

/-! ### Elements of a document -/

theorem child?_eq_some_iff {n c : Node} {name : String} :
    n.child? name = some c ↔ IsFirstChild n name c :=
  isFirst_iff_find?.symm

theorem hasChild_iff {n : Node} {name : String} :
    HasChild n name ↔ ∃ c, n.child? name = some c := by
  simp only [child?_eq_some_iff]
  exact exists_isFirst_iff.symm

theorem deadlockIn_eq_ok_iff_isFirst {root d : Node} :
    deadlockIn root = .ok d ↔
      IsFirst (fun n => n.isNamed "deadlock" = true) root.descendants d := by
  rw [isFirst_iff_find?, deadlockIn]
  cases root.descendants.find? (·.isNamed "deadlock") <;> simp

theorem deadlockIn_eq_error_iff {root : Node} {f : DocumentFault} :
    deadlockIn root = .error f ↔
      (∀ n ∈ root.descendants, ¬ n.isNamed "deadlock" = true) ∧ f = .missing "deadlock" := by
  have hnone : (∀ n ∈ root.descendants, ¬ n.isNamed "deadlock" = true) ↔
      root.descendants.find? (·.isNamed "deadlock") = none := List.find?_eq_none.symm
  rw [hnone, deadlockIn]
  cases root.descendants.find? (·.isNamed "deadlock") <;> simp [eq_comm]

theorem deadlockOf_eq_ok_iff_isDeadlockOf {x : String} {d : Node} :
    deadlockOf x = .ok d ↔ IsDeadlockOf .reader x d := by
  unfold deadlockOf rootOf IsDeadlockOf
  simp only [← Xml.parse_eq_ok_iff]
  cases Xml.parse x with
  | error f => simp
  | ok root => simp [deadlockIn_eq_ok_iff_isFirst]

theorem not_isDocument_of_parse {x : String} {f : Xml.Fault} (h : Xml.parse x = .error f)
    (root : Node) : ¬ Dialect.reader.IsDocument x.toList root := by
  rw [← Xml.parse_eq_ok_iff, h]
  intro h
  cases h

theorem deadlockOf_eq_error_iff {x : String} {f : DocumentFault} :
    deadlockOf x = .error f ↔
      (∃ e, Xml.parse x = .error e ∧ f = .malformed e) ∨
        ∃ root, Xml.parse x = .ok root ∧ deadlockIn root = .error f := by
  unfold deadlockOf rootOf
  cases Xml.parse x <;> simp [eq_comm]

/-! ### Processes -/

theorem sessionId?_eq_none_iff {n : Node} :
    sessionId? (n.attributeText "spid") = none ↔ ¬ SaysSession n := by
  rw [SaysSession, Node.attributeText]
  cases n.attribute? "spid" with
  | none =>
      have hnothing : sessionId? "" = none := rfl
      simp [hnothing]
  | some value =>
      rw [sessionId?, Option.map_eq_none_iff, Option.eq_none_iff_forall_ne_some]
      simp [Text.signed?_eq_some_iff]

theorem Participant.ofNode_isOk_iff {n : Node} :
    (∃ p, Participant.ofNode n = .ok p) ↔ SaysSession n := by
  rw [← not_iff_not, ← sessionId?_eq_none_iff, Participant.ofNode]
  cases sessionId? (n.attributeText "spid") <;> simp

theorem Participant.ofNode_eq_error_iff {n : Node} {f : DocumentFault} :
    Participant.ofNode n = .error f ↔
      ¬ SaysSession n ∧ f = .invalidSession (n.attributeText "spid") := by
  rw [← sessionId?_eq_none_iff, Participant.ofNode]
  cases sessionId? (n.attributeText "spid") <;> simp [eq_comm]

theorem processesOf_isOk_iff {l : List Node} :
    (∃ ps, processesOf l = .ok ps) ↔ ∀ n ∈ l, SaysSession n := by
  induction l with
  | nil => simp [processesOf]
  | cons n l ih =>
      rw [List.forall_mem_cons, ← ih, ← Participant.ofNode_isOk_iff, processesOf]
      cases Participant.ofNode n with
      | error f => simp
      | ok p => cases processesOf l <;> simp [Except.map]

/-- The fault of a list of processes is that of the first that does not say its session. -/
theorem processesOf_eq_error_iff {l : List Node} {f : DocumentFault} :
    processesOf l = .error f ↔
      ∃ n, IsFirst (fun n => ¬ SaysSession n) l n ∧
        f = .invalidSession (n.attributeText "spid") := by
  induction l with
  | nil => simp [processesOf, not_isFirst_nil]
  | cons n l ih =>
      rw [processesOf]
      cases hread : Participant.ofNode n with
      | error f' =>
          obtain ⟨hsilent, rfl⟩ := Participant.ofNode_eq_error_iff.mp hread
          simp [isFirst_cons, hsilent, eq_comm]
      | ok p =>
          have hsaid : SaysSession n := Participant.ofNode_isOk_iff.mp ⟨p, hread⟩
          simp only [isFirst_cons, hsaid, not_true_eq_false, false_and, not_false_eq_true,
            true_and, false_or, ← ih]
          cases processesOf l <;> simp [Except.map]

/-! ### Graphs -/

/-- The graph of a deadlock, from the lists that it is read from. -/
theorem Graph.ofDeadlock_eq_ok_iff {d : Node} {g : Graph} :
    Graph.ofDeadlock d = .ok g ↔
      ∃ list resources ps, IsFirstChild d "process-list" list ∧
        IsFirstChild d "resource-list" resources ∧
        processesOf (list.childrenNamed "process") = .ok ps ∧
        g = ⟨ps, resources.elements.map (Resource.ofNode ps), victimsOf ps d⟩ := by
  simp only [← child?_eq_some_iff, Graph.ofDeadlock]
  cases d.child? "process-list" with
  | none => simp
  | some list =>
      cases d.child? "resource-list" with
      | none => simp
      | some resources =>
          cases hread : processesOf (list.childrenNamed "process") <;> simp [hread, eq_comm]

theorem Graph.ofDeadlock_eq_error_iff {d : Node} {f : DocumentFault} :
    Graph.ofDeadlock d = .error f ↔
      ¬ HasChild d "process-list" ∧ f = .missing "process-list" ∨
      HasChild d "process-list" ∧ ¬ HasChild d "resource-list" ∧ f = .missing "resource-list" ∨
      ∃ list, IsFirstChild d "process-list" list ∧ HasChild d "resource-list" ∧
        processesOf (list.childrenNamed "process") = .error f := by
  simp only [← child?_eq_some_iff, hasChild_iff, Graph.ofDeadlock]
  cases d.child? "process-list" with
  | none => simp [eq_comm]
  | some list =>
      cases d.child? "resource-list" with
      | none => simp [eq_comm]
      | some resources =>
          cases hread : processesOf (list.childrenNamed "process") <;> simp [hread]

/-! ### Documents -/

theorem Graph.ofDocument_eq_ok_iff {x : String} {g : Graph} :
    Graph.ofDocument x = .ok g ↔ ∃ d, IsDeadlockOf .reader x d ∧ Graph.ofDeadlock d = .ok g := by
  simp only [← deadlockOf_eq_ok_iff_isDeadlockOf]
  unfold Graph.ofDocument
  cases deadlockOf x <;> simp

theorem Graph.ofDocument_eq_error_iff {x : String} {f : DocumentFault} :
    Graph.ofDocument x = .error f ↔
      deadlockOf x = .error f ∨
        ∃ d, IsDeadlockOf .reader x d ∧ Graph.ofDeadlock d = .error f := by
  simp only [← deadlockOf_eq_ok_iff_isDeadlockOf]
  unfold Graph.ofDocument
  cases deadlockOf x <;> simp

theorem Graph.ofDocument_isOk_iff {x : String} :
    (∃ g, Graph.ofDocument x = .ok g) ↔ DescribesDeadlock .reader x := by
  constructor
  · rintro ⟨g, hread⟩
    obtain ⟨d, hdeadlock, hofDeadlock⟩ := Graph.ofDocument_eq_ok_iff.mp hread
    obtain ⟨list, resources, ps, hfirst, hsecond, hprocesses, -⟩ :=
      Graph.ofDeadlock_eq_ok_iff.mp hofDeadlock
    have hsaid := processesOf_isOk_iff.mp ⟨ps, hprocesses⟩
    have hpresent := hasChild_iff.mpr ⟨resources, child?_eq_some_iff.mpr hsecond⟩
    refine ⟨d, list, hdeadlock, hfirst, hpresent, fun n hmember hnamed => ?_⟩
    exact hsaid n (List.mem_filter.mpr ⟨hmember, hnamed⟩)
  · rintro ⟨d, list, hdeadlock, hfirst, hpresent, hsaid⟩
    obtain ⟨resources, hsecond⟩ := hasChild_iff.mp hpresent
    obtain ⟨ps, hprocesses⟩ := processesOf_isOk_iff.mpr fun n hmember =>
      hsaid n (List.mem_filter.mp hmember).1 (List.mem_filter.mp hmember).2
    have hread := Graph.ofDeadlock_eq_ok_iff.mpr
      ⟨list, resources, ps, hfirst, child?_eq_some_iff.mp hsecond, hprocesses, rfl⟩
    exact ⟨_, Graph.ofDocument_eq_ok_iff.mpr ⟨d, hdeadlock, hread⟩⟩

/-- The fault that is found is the one that the document has. -/
theorem Graph.ofDocument_eq_error_iff_hasFault {x : String} {f : DocumentFault} :
    Graph.ofDocument x = .error f ↔ HasFault x f := by
  rw [Graph.ofDocument_eq_error_iff, deadlockOf_eq_error_iff]
  simp only [deadlockIn_eq_error_iff, Graph.ofDeadlock_eq_error_iff, processesOf_eq_error_iff,
    Node.childrenNamed, isFirst_filter]
  -- The alternatives stand in the order in which the parts are read, one for each fault.
  constructor
  · rintro ((⟨e, hmalformed, rfl⟩ | ⟨root, hread, hnone, rfl⟩) |
      ⟨d, hdeadlock, ⟨hno, rfl⟩ | ⟨hsome, hno, rfl⟩ | ⟨list, hfirst, hsome, n, hsilent, rfl⟩⟩)
    · exact .malformed (not_isDocument_of_parse hmalformed) hmalformed
    · exact .noDeadlock (Xml.parse_eq_ok_iff.mp hread) hnone
    · exact .noProcessList hdeadlock hno
    · exact .noResourceList hdeadlock hsome hno
    · exact .invalidSession hdeadlock hfirst hsome hsilent
  · intro hfault
    cases hfault with
    | malformed _ hmalformed => exact .inl (.inl ⟨_, hmalformed, rfl⟩)
    | noDeadlock hread hnone => exact .inl (.inr ⟨_, Xml.parse_eq_ok_iff.mpr hread, hnone, rfl⟩)
    | noProcessList hdeadlock hno => exact .inr ⟨_, hdeadlock, .inl ⟨hno, rfl⟩⟩
    | noResourceList hdeadlock hsome hno => exact .inr ⟨_, hdeadlock, .inr (.inl ⟨hsome, hno, rfl⟩)⟩
    | invalidSession hdeadlock hfirst hsome hsilent =>
        exact .inr ⟨_, hdeadlock, .inr (.inr ⟨_, hfirst, hsome, _, hsilent, rfl⟩)⟩

theorem redactDocument_isOk_iff {o : RedactionOptions} {x : String} :
    (∃ y, redactDocument o x = .ok y) ↔ ∃ d, IsDeadlockOf .reader x d := by
  simp only [← deadlockOf_eq_ok_iff_isDeadlockOf]
  unfold redactDocument
  cases deadlockOf x <;> simp

theorem exists_isDeadlockOf_iff {x : String} :
    (∃ d, IsDeadlockOf .reader x d) ↔ ∃ root, Dialect.reader.IsDocument x.toList root ∧
      ∃ n ∈ root.descendants, n.isNamed "deadlock" = true := by
  simp only [← exists_isFirst_iff, IsDeadlockOf]
  exact ⟨fun ⟨d, root, hread, hfirst⟩ => ⟨root, hread, d, hfirst⟩,
    fun ⟨root, hread, d, hfirst⟩ => ⟨d, root, hread, hfirst⟩⟩

theorem readRedacted_eq (o : RedactionOptions) (x : String) :
    readRedacted o x =
      match Graph.ofDocument x with
      | .error f => .error f
      | .ok g => (redactDocument o x).map fun y => (g, y) := by
  unfold readRedacted Graph.ofDocument redactDocument
  cases deadlockOf x with
  | error f => rfl
  | ok d => cases Graph.ofDeadlock d <;> rfl

theorem readRedacted_eq_ok_iff {o : RedactionOptions} {x y : String} {g : Graph} :
    readRedacted o x = .ok (g, y) ↔ Graph.ofDocument x = .ok g ∧ redactDocument o x = .ok y := by
  rw [readRedacted_eq]
  cases Graph.ofDocument x with
  | error f => simp
  | ok g' => cases redactDocument o x <;> simp [Except.map]

/-- A document with a graph has a deadlock, so it can be redacted. -/
theorem redactDocument_of_ofDocument (o : RedactionOptions) {x : String} {g : Graph}
    (hread : Graph.ofDocument x = .ok g) : ∃ y, redactDocument o x = .ok y := by
  obtain ⟨d, hdeadlock, -⟩ := Graph.ofDocument_eq_ok_iff.mp hread
  exact redactDocument_isOk_iff.mpr ⟨d, hdeadlock⟩

theorem readRedacted_eq_error_iff {o : RedactionOptions} {x : String} {f : DocumentFault} :
    readRedacted o x = .error f ↔ Graph.ofDocument x = .error f := by
  rw [readRedacted_eq]
  cases hread : Graph.ofDocument x with
  | error f' => simp
  | ok g =>
      obtain ⟨y, hredacted⟩ := redactDocument_of_ofDocument o hread
      simp [hredacted, Except.map]

/-! ### Rejections -/

theorem orRejected_eq_ok_iff {α : Type} {x : String} {found : Except DocumentFault α} {a : α} :
    orRejected x found = .ok a ↔ found = .ok a := by
  cases found <;> simp [orRejected]

theorem orRejected_eq_error_iff {α : Type} {x : String} {found : Except DocumentFault α}
    {r : Rejection} :
    orRejected x found = .error r ↔ r.document = x ∧ found = .error r.fault := by
  obtain ⟨document, fault⟩ := r
  cases found <;> simp [orRejected, eq_comm]

/-- A text is read if it is a document, as the reader's grammar has it, that describes a deadlock,
and otherwise rejected for its fault; the rejection carries the text. It is redacted if it is a
document with a deadlock at all. Both together give what each gives for itself, and reject what
reading rejects. -/
theorem document_is_accepted_or_rejected (o : RedactionOptions) (x : String) :
    ((∃ g, readGraph x = .ok g) ↔ DescribesDeadlock .reader x) ∧
      (∀ r, readGraph x = .error r ↔ r.document = x ∧ HasFault x r.fault) ∧
      ((∃ y, readRedaction o x = .ok y) ↔
        ∃ root, Dialect.reader.IsDocument x.toList root ∧
          ∃ n ∈ root.descendants, n.isNamed "deadlock" = true) ∧
      (∀ g, readGraph x = .ok g ↔ ∃ y, readGraphAndRedaction o x = .ok (g, y)) ∧
      (∀ g y, readGraphAndRedaction o x = .ok (g, y) ↔
        readGraph x = .ok g ∧ readRedaction o x = .ok y) ∧
      ∀ r, readGraph x = .error r ↔ readGraphAndRedaction o x = .error r := by
  simp only [readGraph, readRedaction, readGraphAndRedaction, orRejected_eq_ok_iff,
    orRejected_eq_error_iff, readRedacted_eq_ok_iff, readRedacted_eq_error_iff]
  refine ⟨Graph.ofDocument_isOk_iff, fun r => ?_, ?_, fun g => ?_, fun _ _ => trivial,
    fun _ => trivial⟩
  · rw [Graph.ofDocument_eq_error_iff_hasFault]
  · rw [redactDocument_isOk_iff, exists_isDeadlockOf_iff]
  · constructor
    · intro hread
      obtain ⟨y, hredacted⟩ := redactDocument_of_ofDocument o hread
      exact ⟨y, hread, hredacted⟩
    · rintro ⟨y, hread, -⟩
      exact hread

/-- Of two faults the document is rejected for the one that comes first in order. -/
example :
    let x := "<deadlock><process-list><process spid='a'/></process-list></deadlock>"
    readGraph x = .error ⟨x, .missing "resource-list"⟩ := by
  decide +kernel

/-! ### Where the dialects part -/

/-- An element with all that a graph needs. -/
def bareDeadlock : String :=
  "<deadlock><process-list/><resource-list/></deadlock>"

def typedDeadlock : String :=
  "<!DOCTYPE deadlock>" ++ bareDeadlock

/-- The name of the instruction in front is that of a declaration. -/
def instructedDeadlock : String :=
  "<?XML x?>" ++ bareDeadlock

def bareMarkup : Markup :=
  let head (name : String) : Head := ⟨⟨[], name.toList⟩, [], []⟩
  .element "<deadlock>".toList (head "deadlock")
    (.empty "<process-list/>".toList (head "process-list")
      (.empty "<resource-list/>".toList (head "resource-list") .nil))
    "</deadlock>".toList .nil

theorem bareMarkup_isRoot (dialect : Dialect) : bareMarkup.IsRoot dialect := by
  have hdeadlock : Xml.IsLocalName "deadlock".toList := by decide +kernel
  have hprocesses : Xml.IsLocalName "process-list".toList := by decide +kernel
  have hresources : Xml.IsLocalName "resource-list".toList := by decide +kernel
  exact .element (Xml.isStartTag_of_base hdeadlock false)
    (.empty (Xml.isStartTag_of_base hprocesses true)
      (.empty (Xml.isStartTag_of_base hresources true) .nil))
    (Xml.isEndTag_of_base hdeadlock)

/-- A document type declaration may stand in front of a document. -/
theorem typedDeadlock_describesDeadlock : DescribesDeadlock .standard typedDeadlock := by
  have hblank : Xml.Blanks [' '] := by simp [Xml.Blanks, Xml.isSpace]
  have hname : Xml.IsLocalName "deadlock".toList := by decide +kernel
  have htype : Dialect.standard.IsDocumentType "<!DOCTYPE deadlock>".toList :=
    ⟨[' '], ⟨[], "deadlock".toList⟩, "deadlock".toList, [], rfl, List.cons_ne_nil _ _, hblank,
      .plain hname, Xml.Blanks.nil⟩
  have hfront : Dialect.standard.IsFront "<!DOCTYPE deadlock>".toList :=
    @Dialect.IsFront.mk .standard [] [] [] _ (.inl rfl) (.inl rfl) .nil
      (.inr ⟨_, [], (List.append_nil _).symm, htype, .nil⟩)
  obtain ⟨root, hnode⟩ := (bareMarkup_isRoot .standard).onto_eq "<!DOCTYPE deadlock>".length
  have hdocument : Dialect.standard.IsDocument typedDeadlock.toList root :=
    ⟨_, [], bareMarkup, by decide +kernel, hfront, bareMarkup_isRoot _, .nil, hnode⟩
  cases hnode
  have hnone {p : Node → Prop} : ∀ n ∈ [], p n := by simp
  exact ⟨_, _, ⟨_, hdocument, [], _, rfl, by decide, hnone⟩, ⟨[], _, rfl, by decide, hnone⟩,
    ⟨_, List.mem_cons_of_mem _ List.mem_cons_self, by decide⟩, hnone⟩

/-- What a document has after `<?` is its declaration, or an instruction with another name. -/
theorem target_of_isDocument {t : List Char} {root : Node}
    (h : Dialect.standard.IsDocument ('<' :: '?' :: t) root) :
    "xml".toList <+: t ∨ (t.takeWhile Xml.inLocalName).map Char.toLower ≠ Xml.xml := by
  obtain ⟨front, post, c, hsplit, hfront, hroot, -⟩ := h
  obtain @⟨mark, declaration, misc, more, hmark, hdeclaration, hmisc, hmore⟩ := hfront
  obtain rfl | rfl := hmark
  · obtain rfl | ⟨version, encoding, standalone, b, rfl, -⟩ := hdeclaration
    · cases hmisc with
      | nil =>
          obtain rfl | ⟨type, r, rfl, ⟨b, name, written, b', rfl, -⟩, -⟩ := hmore
          · have hsource : '<' :: '?' :: t = c.source ++ post := hsplit
            obtain ⟨u, name, n, hopens, hfound⟩ := hroot.found post
            obtain ⟨d, v, htag, hother⟩ := Xml.startsTag_of_name hfound
            rw [hopens, htag] at hsource
            obtain ⟨rfl, -⟩ := List.cons.inj (List.cons.inj hsource).2
            exact absurd rfl hother
          · cases (List.cons.inj (List.cons.inj hsplit).2).1
      | blank hspace =>
          obtain ⟨rfl, -⟩ := List.cons.inj hsplit
          cases hspace
      | @aside w r haside =>
          obtain ⟨hbody, hlast⟩ | ⟨hbody, target, data, rfl, htarget, hother, hdata⟩ := haside
          · cases (List.cons.inj (List.cons.inj hsplit).2).1
          · have hparts : '<' :: '?' :: t = '<' :: '?' ::
                (target ++ (data ++ ("?>".toList ++ (r ++ (more ++ (c.source ++ post)))))) := by
              rw [hsplit]
              simp
            obtain ⟨-, rfl⟩ := List.cons.inj (List.cons.inj hparts).2
            have hrun := htarget.takeWhile_append hdata
              (r := "?>".toList ++ (r ++ (more ++ (c.source ++ post)))) (by rintro e ⟨⟩; decide)
            rw [hrun]
            exact .inr hother
    · exact .inl ⟨_, (List.cons.inj (List.cons.inj hsplit).2).2.symm⟩
  · cases (List.cons.inj hsplit).1

theorem instructedDeadlock_is_no_document (root : Node) :
    ¬ Dialect.standard.IsDocument instructedDeadlock.toList root := by
  have hchars : instructedDeadlock.toList =
      '<' :: '?' :: ("XML x?>".toList ++ bareDeadlock.toList) := by decide +kernel
  rw [hchars]
  intro h
  obtain ⟨u, hu⟩ | hother := target_of_isDocument h
  · cases (List.cons.inj hu).1
  · exact hother (by decide +kernel)

/-- The reader refuses a document type declaration, and it takes an instruction that must not be
there. -/
theorem reader_is_not_the_standard :
    DescribesDeadlock .standard typedDeadlock ∧
      readGraph typedDeadlock = .error ⟨typedDeadlock, .malformed ⟨.documentType, 0⟩⟩ ∧
      (∀ root, ¬ Dialect.standard.IsDocument instructedDeadlock.toList root) ∧
      ∃ g, readGraph instructedDeadlock = .ok g := by
  have haccepted : (readGraph instructedDeadlock).toOption.any (fun _ => true) = true := by
    decide +kernel
  obtain ⟨g, hread, -⟩ := Text.exists_ok_of_any haccepted
  exact ⟨typedDeadlock_describesDeadlock, by decide +kernel, instructedDeadlock_is_no_document,
    g, hread⟩

end DeadlockCapture.Report
