import DeadlockCapture.Proofs.Report.Revision

/-!
The graph of a revised deadlock: redaction replaces the texts of statements and nothing else.
-/

namespace DeadlockCapture.Report

open DeadlockCapture.Sql (RedactionOptions)
open DeadlockCapture.Xml (Node)

/-! ### Redacted graphs -/

def Frame.redacted (o : RedactionOptions) (f : Frame) : Frame :=
  { f with text := redactedText o f.text }

def Participant.redacted (o : RedactionOptions) (p : Participant) : Participant :=
  { p with inputBuffer := redactedText o p.inputBuffer, frames := p.frames.map (Frame.redacted o) }

def Graph.redacted (o : RedactionOptions) (g : Graph) : Graph :=
  { g with processes := g.processes.map (Participant.redacted o) }

/-! ### Revised nodes -/

theorem Revised.name? {o : RedactionOptions} {outer : List Char} {n n' : Node}
    (h : Revised o outer n n') : n'.name? = n.name? := by
  cases h with
  | text => rfl
  | aside => rfl
  | statement hbase => exact congrArg some hbase
  | element hbase => exact congrArg some hbase

theorem Revised.isNamed {o : RedactionOptions} {outer : List Char} {n n' : Node}
    (h : Revised o outer n n') (name : String) : n'.isNamed name = n.isNamed name := by
  rw [Node.isNamed, h.name?, Node.isNamed]

theorem Revised.attribute? {o : RedactionOptions} {outer : List Char} {n n' : Node}
    (h : Revised o outer n n') (name : String) : n'.attribute? name = n.attribute? name := by
  have hsame : n'.attributes = n.attributes := by
    cases h with
    | text => rfl
    | aside => rfl
    | statement hbase hattributes => exact hattributes
    | element hbase hattributes => exact hattributes
  rw [Node.attribute?, hsame, Node.attribute?]

theorem Revised.attributeText {o : RedactionOptions} {outer : List Char} {n n' : Node}
    (h : Revised o outer n n') (name : String) :
    n'.attributeText name = n.attributeText name := by
  rw [Node.attributeText, h.attribute?, Node.attributeText]

theorem Revised.numericAttribute {o : RedactionOptions} {outer : List Char} {n n' : Node}
    (h : Revised o outer n n') (bound : Nat) (name : String) :
    numericAttribute bound n' name = numericAttribute bound n name := by
  rw [Report.numericAttribute, h.attribute?, Report.numericAttribute]

/-- The children of an element that holds no statement are revised one by one. -/
theorem Revised.children {o : RedactionOptions} {outer base : List Char} {n n' : Node}
    (h : Revised o outer n n') (hname : n.name? = some base)
    (hplain : holdsByName outer base = false) :
    List.Forall₂ (Revised o base) n.children n'.children := by
  cases h with
  | text => cases hname
  | aside => cases hname
  | statement hsame hattributes hholds =>
      cases hname
      rw [hplain] at hholds
      cases hholds
  | element hsame hattributes hholds hchildren =>
      cases hname
      exact revisedAll_iff.mp hchildren

theorem Revised.textContent {o : RedactionOptions} {outer base : List Char} {n n' : Node}
    (h : Revised o outer n n') (hname : n.name? = some base)
    (hholds : holdsByName outer base = true) :
    n'.textContent = redactedText o n.textContent := by
  cases h with
  | text => cases hname
  | aside => cases hname
  | statement hsame hattributes hholds htext => exact htext
  | element hsame hattributes hplain hchildren =>
      cases hname
      rw [hplain] at hholds
      cases hholds

theorem name?_of_isNamed {n : Node} {name : String} (h : n.isNamed name = true) :
    n.name? = some name.toList := by
  simpa [Node.isNamed] using h

/-! ### Lists of nodes -/

section Lists

variable {α β : Type} {R : α → α → Prop} {l l' : List α}

theorem find?_related (h : List.Forall₂ R l l') {p : α → Bool} (hsame : ∀ a b, R a b → p b = p a) :
    l.find? p = none ∧ l'.find? p = none ∨
      ∃ a b, l.find? p = some a ∧ l'.find? p = some b ∧ R a b ∧ p a = true := by
  induction h with
  | nil => exact .inl ⟨rfl, rfl⟩
  | @cons a b l l' hfirst hrest ih =>
      have hholds := hsame a b hfirst
      cases hfound : p a with
      | true =>
          rw [hfound] at hholds
          exact .inr ⟨a, b, by simp [hfound], by simp [hholds], hfirst, hfound⟩
      | false =>
          rw [hfound] at hholds
          simpa [hfound, hholds] using ih

theorem filter_related (h : List.Forall₂ R l l') {p : α → Bool} (hsame : ∀ a b, R a b → p b = p a) :
    List.Forall₂ (fun a b => R a b ∧ p a = true) (l.filter p) (l'.filter p) := by
  induction h with
  | nil => exact .nil
  | @cons a b l l' hfirst hrest ih =>
      have hholds := hsame a b hfirst
      cases hfound : p a with
      | true =>
          rw [hfound] at hholds
          rw [List.filter_cons_of_pos hfound, List.filter_cons_of_pos hholds]
          exact .cons ⟨hfirst, hfound⟩ ih
      | false =>
          rw [hfound] at hholds
          simpa [hfound, hholds] using ih

theorem map_related (h : List.Forall₂ R l l') {f g : α → β} (hsame : ∀ a b, R a b → g b = f a) :
    l'.map g = l.map f := by
  induction h with
  | nil => rfl
  | cons hfirst hrest ih => rw [List.map_cons, List.map_cons, hsame _ _ hfirst, ih]

theorem filterMap_related (h : List.Forall₂ R l l') {f g : α → Option β}
    (hsame : ∀ a b, R a b → g b = f a) : l'.filterMap g = l.filterMap f := by
  induction h with
  | nil => rfl
  | cons hfirst hrest ih => rw [List.filterMap_cons, List.filterMap_cons, hsame _ _ hfirst, ih]

end Lists

/-! ### Children -/

theorem Revised.child? {o : RedactionOptions} {outer base : List Char} {n n' : Node}
    (h : Revised o outer n n') (hname : n.name? = some base)
    (hplain : holdsByName outer base = false) (child : String) :
    n.child? child = none ∧ n'.child? child = none ∨
      ∃ a b, n.child? child = some a ∧ n'.child? child = some b ∧ Revised o base a b ∧
        a.isNamed child = true :=
  find?_related (h.children hname hplain) fun _ _ hsame => hsame.isNamed child

theorem Revised.childrenNamed {o : RedactionOptions} {outer base : List Char} {n n' : Node}
    (h : Revised o outer n n') (hname : n.name? = some base)
    (hplain : holdsByName outer base = false) (child : String) :
    List.Forall₂ (fun a b => Revised o base a b ∧ a.isNamed child = true)
      (n.childrenNamed child) (n'.childrenNamed child) :=
  filter_related (h.children hname hplain) fun _ _ hsame => hsame.isNamed child

/-! ### Processes -/

theorem Frame.ofNode_revised {o : RedactionOptions} {n n' : Node}
    (h : Revised o "executionStack".toList n n') (hnamed : n.isNamed "frame" = true) :
    Frame.ofNode n' = (Frame.ofNode n).redacted o := by
  have htext := h.textContent (name?_of_isNamed hnamed) rfl
  simp only [Frame.ofNode, Frame.redacted, h.attributeText, h.numericAttribute, htext]

theorem inputBufferOf_revised {o : RedactionOptions} {n n' : Node}
    (h : Revised o "process-list".toList n n') (hnamed : n.isNamed "process" = true) :
    inputBufferOf n' = redactedText o (inputBufferOf n) := by
  rw [inputBufferOf, inputBufferOf]
  obtain ⟨hnone, hnone'⟩ | ⟨a, b, hfound, hfound', hsame, hbuffer⟩ :=
    h.child? (name?_of_isNamed hnamed) rfl "inputbuf"
  · rw [hnone, hnone']
    rfl
  · rw [hfound, hfound']
    exact hsame.textContent (name?_of_isNamed hbuffer) rfl

theorem framesOf_revised {o : RedactionOptions} {n n' : Node}
    (h : Revised o "process-list".toList n n') (hnamed : n.isNamed "process" = true) :
    framesOf n' = (framesOf n).map (Frame.redacted o) := by
  rw [framesOf, framesOf]
  obtain ⟨hnone, hnone'⟩ | ⟨a, b, hfound, hfound', hsame, hstack⟩ :=
    h.child? (name?_of_isNamed hnamed) rfl "executionStack"
  · rw [hnone, hnone']
    rfl
  · have hframes := hsame.childrenNamed (name?_of_isNamed hstack) rfl "frame"
    simp only [hfound, hfound', List.map_map]
    exact map_related hframes fun _ _ hboth => Frame.ofNode_revised hboth.1 hboth.2

theorem Participant.ofNode_revised {o : RedactionOptions} {n n' : Node}
    (h : Revised o "process-list".toList n n') (hnamed : n.isNamed "process" = true) :
    Participant.ofNode n' = (Participant.ofNode n).map (Participant.redacted o) := by
  rw [Participant.ofNode, Participant.ofNode, h.attributeText]
  cases sessionId? (n.attributeText "spid") with
  | none => rfl
  | some session =>
      simp only [Except.map, Participant.redacted, h.attributeText, h.numericAttribute,
        inputBufferOf_revised h hnamed, framesOf_revised h hnamed]

theorem processesOf_revised {o : RedactionOptions} {l l' : List Node}
    (h : List.Forall₂
      (fun a b => Revised o "process-list".toList a b ∧ a.isNamed "process" = true) l l') :
    processesOf l' = (processesOf l).map (List.map (Participant.redacted o)) := by
  induction h with
  | nil => rfl
  | @cons n n' l l' hfirst hrest ih =>
      rw [processesOf, processesOf, Participant.ofNode_revised hfirst.1 hfirst.2, ih]
      cases Participant.ofNode n with
      | error f => rfl
      | ok p => cases processesOf l <;> rfl

/-! ### Sessions, resources and victims -/

theorem sessionOf?_redacted (o : RedactionOptions) (processes : List Participant) :
    sessionOf? (processes.map (Participant.redacted o)) = sessionOf? processes := by
  funext id
  rw [sessionOf?, sessionOf?, ← List.map_reverse, List.find?_map, Option.map_map]
  rfl

theorem namedSessions_revised {o : RedactionOptions} {outer base : List Char} {n n' : Node}
    (h : Revised o outer n n') (hname : n.name? = some base)
    (hplain : holdsByName outer base = false) (processes : List Participant) (list : String)
    (hitems : holdsByName base list.toList = false) (item : String) :
    namedSessions (processes.map (Participant.redacted o)) (n'.child? list) item =
      namedSessions processes (n.child? list) item := by
  obtain ⟨hnone, hnone'⟩ | ⟨a, b, hfound, hfound', hsame, hnamed⟩ := h.child? hname hplain list
  · rw [hnone, hnone']
    rfl
  · have hrelated := hsame.childrenNamed (name?_of_isNamed hnamed) hitems item
    rw [hfound, hfound', namedSessions, namedSessions, sessionOf?_redacted]
    refine congrArg SessionSet.ofList (filterMap_related hrelated fun a b hboth => ?_)
    rw [hboth.1.attribute?]

theorem Resource.ofNode_revised {o : RedactionOptions} {base : List Char} {n n' : Node}
    (h : Revised o "resource-list".toList n n') (hname : n.name? = some base)
    (hplain : holdsByName "resource-list".toList base = false) (processes : List Participant) :
    Resource.ofNode (processes.map (Participant.redacted o)) n' = Resource.ofNode processes n := by
  have howners := namedSessions_revised h hname hplain processes "owner-list" rfl "owner"
  have hwaiters := namedSessions_revised h hname hplain processes "waiter-list" rfl "waiter"
  rw [Resource.ofNode, Resource.ofNode, howners, hwaiters]
  simp only [h.name?, h.attributeText, h.numericAttribute]

/-- The resources stay the same, if no resource is itself a statement. -/
theorem resources_revised {o : RedactionOptions} {l l' : List Node}
    (h : List.Forall₂ (Revised o "resource-list".toList) l l')
    (hplain : ∀ n ∈ l, n.isNamed "inputbuf" = false) (processes : List Participant) :
    (l'.filter (·.name?.isSome)).map (Resource.ofNode (processes.map (Participant.redacted o))) =
      (l.filter (·.name?.isSome)).map (Resource.ofNode processes) := by
  have hboth := (List.forall₂_and_left l l').mpr ⟨hplain, h⟩
  have helements := filter_related hboth (p := (·.name?.isSome)) fun a b hsame => by
    rw [hsame.2.name?]
  apply map_related helements
  intro a b hrelated
  obtain ⟨⟨hnoBuffer, hsame⟩, helement⟩ := hrelated
  obtain ⟨base, hname⟩ := Option.isSome_iff_exists.mp helement
  refine Resource.ofNode_revised hsame hname ?_ processes
  rw [Node.isNamed, hname] at hnoBuffer
  simpa [holdsByName] using hnoBuffer

theorem victimsOf_revised {o : RedactionOptions} {n n' : Node} (h : Revised o [] n n')
    (hnamed : n.isNamed "deadlock" = true) (processes : List Participant) :
    victimsOf (processes.map (Participant.redacted o)) n' = victimsOf processes n := by
  have hlisted := namedSessions_revised h (name?_of_isNamed hnamed) rfl processes "victim-list" rfl
    "victimProcess"
  rw [victimsOf, victimsOf, hlisted, h.attribute?, sessionOf?_redacted]

theorem Graph.ofDeadlock_revised {o : RedactionOptions} {d d' : Node} {g : Graph}
    (h : Revised o [] d d') (hnamed : d.isNamed "deadlock" = true)
    (hplain : ∀ list, d.child? "resource-list" = some list →
      ∀ n ∈ list.children, n.isNamed "inputbuf" = false)
    (hread : Graph.ofDeadlock d = .ok g) : Graph.ofDeadlock d' = .ok (g.redacted o) := by
  have hname := name?_of_isNamed hnamed
  obtain ⟨hnone, hnone'⟩ | ⟨a, a', hfound, hfound', hsame, hlist⟩ :=
    h.child? hname rfl "process-list"
  · rw [Graph.ofDeadlock, hnone] at hread
    cases hread
  obtain ⟨hnone, hnone'⟩ | ⟨b, b', hresources, hresources', hsame', hlist'⟩ :=
    h.child? hname rfl "resource-list"
  · rw [Graph.ofDeadlock, hfound, hnone] at hread
    cases hread
  have hprocesses := processesOf_revised
    (hsame.childrenNamed (name?_of_isNamed hlist) rfl "process")
  simp only [Graph.ofDeadlock, hfound, hresources] at hread
  simp only [Graph.ofDeadlock, hfound', hresources', hprocesses]
  cases haccepted : processesOf (a.childrenNamed "process") with
  | error f =>
      rw [haccepted] at hread
      cases hread
  | ok l =>
      rw [haccepted] at hread
      cases hread
      simp only [Except.map, victimsOf_revised h hnamed]
      have hkept := resources_revised (hsame'.children (name?_of_isNamed hlist') rfl)
        (hplain b hresources) l
      rw [← Node.elements, ← Node.elements] at hkept
      rw [hkept]
      rfl

end DeadlockCapture.Report
