import DeadlockCapture.Proofs.Report.Statements
import DeadlockCapture.Proofs.Xml.Documents

/-!
The first deadlock of a document in its markup. Other content may be put in its place; the rest of
the document stays as it is, and the deadlock stays the first.
-/

namespace DeadlockCapture.Report

open DeadlockCapture.Xml

/-! ### The first deadlock -/

/-- The first deadlock in and below nodes in reverse order. -/
def firstDeadlock? (done : List Node) : Option Node :=
  (laidOut done).find? (·.isNamed "deadlock")

def opensDeadlock (h : Head) : Bool :=
  h.name.base == "deadlock".toList

/-- The first deadlock in markup at an offset. -/
def deadlockAt? : Markup → Nat → Option Node
  | .nil, _ => none
  | .text raw _ next, offset => deadlockAt? next (offset + raw.length)
  | .verbatim _ written next, offset => deadlockAt? next (offset + written.length)
  | .aside written next, offset => deadlockAt? next (offset + written.length)
  | .empty tag head next, offset =>
    if opensDeadlock head then some (head.node offset (offset + tag.length) [])
    else deadlockAt? next (offset + tag.length)
  | .element tag head inner close next, offset =>
    let stop := offset + tag.length + inner.source.length + close.length
    if opensDeadlock head then
      some (head.node offset stop (inner.onto (offset + tag.length) []).reverse)
    else (deadlockAt? inner (offset + tag.length)).or (deadlockAt? next stop)

theorem firstDeadlock?_cons (n : Node) (done : List Node) :
    firstDeadlock? (n :: done) =
      (firstDeadlock? done).or (n.descendants.find? (·.isNamed "deadlock")) := by
  rw [firstDeadlock?, laidOut_cons, List.find?_append]
  rfl

theorem firstDeadlock?_pushText (content : List Char) (start : Nat) (done : List Node) :
    firstDeadlock? (pushText content start done) = firstDeadlock? done := by
  cases done with
  | nil => rfl
  | cons n done =>
      cases n with
      | text before first =>
          rw [pushText, firstDeadlock?_cons, firstDeadlock?_cons]
          rfl
      | aside first => exact (firstDeadlock?_cons _ _).trans (Option.or_none)
      | element tag children => exact (firstDeadlock?_cons _ _).trans (Option.or_none)

theorem isNamed_node (head : Head) (start stop : Nat) (children : List Node) :
    (head.node start stop children).isNamed "deadlock" = opensDeadlock head := by
  simp [Node.isNamed, Node.name?, Head.node, opensDeadlock]

theorem find?_node (head : Head) (start stop : Nat) (done : List Node) :
    (head.node start stop done.reverse).descendants.find? (·.isNamed "deadlock") =
      if opensDeadlock head then some (head.node start stop done.reverse)
      else firstDeadlock? done := by
  have hnamed := isNamed_node head start stop done.reverse
  rw [Head.node] at hnamed ⊢
  rw [Node.descendants, List.find?_cons, hnamed]
  cases opensDeadlock head <;> rfl

/-- The first deadlock among the nodes of markup is that of the markup. -/
theorem firstDeadlock?_onto (c : Markup) (offset : Nat) (done : List Node) :
    firstDeadlock? (c.onto offset done) = (firstDeadlock? done).or (deadlockAt? c offset) := by
  induction c generalizing offset done with
  | nil => exact Option.or_none.symm
  | text raw content next ih =>
      rw [Markup.onto, ih, firstDeadlock?_pushText]
      rfl
  | verbatim raw written next ih =>
      rw [Markup.onto, ih, firstDeadlock?_pushText]
      rfl
  | aside written next ih =>
      rw [Markup.onto, ih, firstDeadlock?_cons, Option.or_assoc]
      rfl
  | empty tag head next ih =>
      rw [Markup.onto, ih, firstDeadlock?_cons, Option.or_assoc, deadlockAt?]
      have hown := find?_node head offset (offset + tag.length) []
      rw [List.reverse_nil] at hown
      rw [hown]
      cases opensDeadlock head <;> rfl
  | element tag head inner close next ih ihNext =>
      rw [Markup.onto, ihNext, firstDeadlock?_cons, Option.or_assoc, find?_node, ih, deadlockAt?]
      cases opensDeadlock head <;> rfl

theorem isSome_deadlockAt? (c : Markup) (offset offset' : Nat) :
    (deadlockAt? c offset).isSome = (deadlockAt? c offset').isSome := by
  induction c generalizing offset offset' with
  | nil => rfl
  | text raw content next ih => exact ih _ _
  | verbatim raw written next ih => exact ih _ _
  | aside written next ih => exact ih _ _
  | empty tag head next ih =>
      rw [deadlockAt?, deadlockAt?]
      cases opensDeadlock head with
      | true => rfl
      | false => exact ih _ _
  | element tag head inner close next ih ihNext =>
      simp only [deadlockAt?]
      cases opensDeadlock head with
      | true => rfl
      | false =>
          simp only [Bool.false_eq_true, if_false, Option.isSome_or]
          exact congrArg₂ _ (ih _ _) (ihNext _ _)

/-! ### Other content in its place -/

/-- The markup with the content of its first deadlock edited. -/
def withDeadlock (edit : Head → Markup → Markup) : Markup → Markup
  | .nil => .nil
  | .text raw content next => .text raw content (withDeadlock edit next)
  | .verbatim raw written next => .verbatim raw written (withDeadlock edit next)
  | .aside written next => .aside written (withDeadlock edit next)
  | .empty tag head next =>
    if opensDeadlock head then .empty tag head next
    else .empty tag head (withDeadlock edit next)
  | .element tag head inner close next =>
    if opensDeadlock head then .element tag head (edit head inner) close next
    else if (deadlockAt? inner 0).isSome then
      .element tag head (withDeadlock edit inner) close next
    else .element tag head inner close (withDeadlock edit next)

/-- The first deadlock of markup at an offset, if it has content. The markup holds that content
between `before` and `after`; with any other content in its place the markup is a `Whole` again. -/
structure Focus (Whole : Markup → Prop) (offset : Nat) (c : Markup) where
  before : List Char
  tag : List Char
  head : Head
  inner : Markup
  close : List Char
  after : List Char
  /-- The markup with other content in the deadlock. -/
  holding : Markup → Markup
  holding_inner : holding inner = c
  opens : opensDeadlock head = true
  stands : inner.Stands .reader head.scope
  ending : Dialect.reader.IsEndTag head.name close
  whole : ∀ i : Markup, i.Stands .reader head.scope → Whole (holding i)
  source : ∀ i, (holding i).source = before ++ (tag ++ (i.source ++ (close ++ after)))
  found : ∀ i, deadlockAt? (holding i) offset =
    some (head.node (offset + before.length)
      (offset + before.length + tag.length + i.source.length + close.length)
      (i.onto (offset + before.length + tag.length) []).reverse)
  edited : ∀ edit, withDeadlock edit c = holding (edit head inner)

def Focus.here {Whole : Markup → Prop} {offset : Nat} {head : Head} {inner : Markup}
    {close : List Char} (tag : List Char) (next : Markup) (hopens : opensDeadlock head = true)
    (hstands : inner.Stands .reader head.scope) (hending : Dialect.reader.IsEndTag head.name close)
    (hwhole : ∀ i : Markup, i.Stands .reader head.scope → Whole (.element tag head i close next)) :
    Focus Whole offset (.element tag head inner close next) where
  before := []
  tag
  head
  inner
  close
  after := next.source
  holding i := .element tag head i close next
  holding_inner := rfl
  opens := hopens
  stands := hstands
  ending := hending
  whole := hwhole
  source _ := rfl
  found i := by
    rw [deadlockAt?, hopens]
    rfl
  edited edit := by
    rw [withDeadlock, hopens]
    rfl

def Focus.inside {Whole Inner : Markup → Prop} {offset : Nat} {tag : List Char} {inner : Markup}
    (f : Focus Inner (offset + tag.length) inner) {head : Head} (close : List Char) (next : Markup)
    (hother : opensDeadlock head = false)
    (hwhole : ∀ i, Inner i → Whole (.element tag head i close next)) :
    Focus Whole offset (.element tag head inner close next) where
  before := tag ++ f.before
  tag := f.tag
  head := f.head
  inner := f.inner
  close := f.close
  after := f.after ++ (close ++ next.source)
  holding i := .element tag head (f.holding i) close next
  holding_inner := by rw [f.holding_inner]
  opens := f.opens
  stands := f.stands
  ending := f.ending
  whole i hstands := hwhole _ (f.whole i hstands)
  source i := by
    rw [Markup.source, f.source]
    simp only [List.append_assoc]
  found i := by
    rw [deadlockAt?, hother, f.found, List.length_append, ← Nat.add_assoc]
    rfl
  edited edit := by
    have hfound := congrArg Option.isSome (f.found f.inner)
    rw [f.holding_inner, isSome_deadlockAt? inner _ 0] at hfound
    rw [withDeadlock, hother, hfound, f.edited]
    rfl

/-- The deadlock lies behind a first part `w` of the markup. -/
def Focus.behind {Whole Next : Markup → Prop} {offset : Nat} {next : Markup} {w : List Char}
    (f : Focus Next (offset + w.length) next) (first : Markup → Markup)
    (hsource : ∀ c, (first c).source = w ++ c.source)
    (hfound : ∀ c, deadlockAt? (first c) offset = deadlockAt? c (offset + w.length))
    (hedited : ∀ edit, withDeadlock edit (first next) = first (withDeadlock edit next))
    (hwhole : ∀ c, Next c → Whole (first c)) : Focus Whole offset (first next) where
  before := w ++ f.before
  tag := f.tag
  head := f.head
  inner := f.inner
  close := f.close
  after := f.after
  holding i := first (f.holding i)
  holding_inner := by rw [f.holding_inner]
  opens := f.opens
  stands := f.stands
  ending := f.ending
  whole i hstands := hwhole _ (f.whole i hstands)
  source i := by rw [hsource, f.source, List.append_assoc]
  found i := by rw [hfound, f.found, List.length_append, ← Nat.add_assoc]
  edited edit := by rw [hedited, f.edited]

/-- Markup that may stand where `c` stands. -/
def InPlaceOf (scope : Scope) (c c' : Markup) : Prop :=
  c'.startsText = c.startsText ∧ c'.Stands .reader scope

/-- The first deadlock of markup can be given other content, if it has content. -/
theorem focus_of_stands {c : Markup} {scope : Scope} (hstands : c.Stands .reader scope)
    {offset : Nat} {d : Node} (hfound : deadlockAt? c offset = some d) (hsome : d.children ≠ []) :
    Nonempty (Focus (InPlaceOf scope c) offset c) := by
  induction hstands generalizing offset with
  | nil => cases hfound
  | @text _ raw content next htext hread hnoText hstands ih =>
      obtain ⟨f⟩ := ih hfound
      refine ⟨f.behind (.text raw content) (fun _ => rfl) (fun _ => rfl) (fun _ => rfl) ?_⟩
      rintro c ⟨hsame, hstands⟩
      exact ⟨rfl, .text htext hread (hsame.trans hnoText) hstands⟩
  | @verbatim _ raw written next hsection hstands ih =>
      obtain ⟨f⟩ := ih hfound
      exact ⟨f.behind (.verbatim raw written) (fun _ => rfl) (fun _ => rfl) (fun _ => rfl)
        fun c hfits => ⟨rfl, .verbatim hsection hfits.2⟩⟩
  | @aside _ written next haside hstands ih =>
      obtain ⟨f⟩ := ih hfound
      exact ⟨f.behind (.aside written) (fun _ => rfl) (fun _ => rfl) (fun _ => rfl)
        fun c hfits => ⟨rfl, .aside haside hfits.2⟩⟩
  | @empty _ tag head next hstart hstands ih =>
      rw [deadlockAt?] at hfound
      cases hopens : opensDeadlock head with
      | true =>
          rw [hopens] at hfound
          cases hfound
          exact absurd rfl hsome
      | false =>
          rw [hopens] at hfound
          obtain ⟨f⟩ := ih hfound
          refine ⟨f.behind (.empty tag head) (fun _ => rfl) ?_ ?_ ?_⟩
          · intro c
            rw [deadlockAt?, hopens]
            rfl
          · intro edit
            rw [withDeadlock, hopens]
            rfl
          · exact fun c hfits => ⟨rfl, .empty hstart hfits.2⟩
  | @element _ tag close head inner next hstart hstands hending hstandsNext ih ihNext =>
      rw [deadlockAt?] at hfound
      cases hopens : opensDeadlock head with
      | true =>
          exact ⟨.here tag next hopens hstands hending
            fun i hfits => ⟨rfl, .element hstart hfits hending hstandsNext⟩⟩
      | false =>
          simp only [hopens, Bool.false_eq_true, if_false] at hfound
          cases hinside : deadlockAt? inner (offset + tag.length) with
          | some n =>
              rw [hinside] at hfound
              cases hfound
              obtain ⟨f⟩ := ih hinside
              exact ⟨f.inside close next hopens
                fun i hfits => ⟨rfl, .element hstart hfits.2 hending hstandsNext⟩⟩
          | none =>
              rw [hinside, Option.none_or] at hfound
              have hlength : offset + tag.length + inner.source.length + close.length =
                  offset + (tag ++ (inner.source ++ close)).length := by
                simp only [List.length_append, Nat.add_assoc]
              rw [hlength] at hfound
              obtain ⟨f⟩ := ihNext hfound
              refine ⟨f.behind (.element tag head inner close) ?_ ?_ ?_ ?_⟩
              · intro c
                simp [Markup.source]
              · intro c
                simp only [deadlockAt?, hopens, hinside, hlength]
                rfl
              · intro edit
                rw [withDeadlock, hopens, isSome_deadlockAt? inner 0 (offset + tag.length), hinside]
                rfl
              · exact fun c hfits => ⟨rfl, .element hstart hstands hending hfits.2⟩

theorem focus_of_isRoot {c : Markup} (hroot : c.IsRoot .reader) {offset : Nat}
    {d : Node} (hfound : deadlockAt? c offset = some d) (hsome : d.children ≠ []) :
    Nonempty (Focus (·.IsRoot .reader) offset c) := by
  cases hroot with
  | @empty tag head hstart =>
      rw [deadlockAt?] at hfound
      split at hfound
      · cases hfound
        exact absurd rfl hsome
      · cases hfound
  | @element tag close head inner hstart hstands hending =>
      rw [deadlockAt?] at hfound
      cases hopens : opensDeadlock head with
      | true =>
          exact ⟨.here tag .nil hopens hstands hending fun i hfits => .element hstart hfits hending⟩
      | false =>
          simp only [hopens, Bool.false_eq_true, if_false] at hfound
          obtain ⟨f⟩ := focus_of_stands hstands (hfound.symm.trans Option.or_none).symm hsome
          exact ⟨f.inside close .nil hopens fun i hfits => .element hstart hfits.2 hending⟩

end DeadlockCapture.Report
