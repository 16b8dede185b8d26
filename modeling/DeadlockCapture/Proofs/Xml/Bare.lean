import DeadlockCapture.Proofs.Xml.Documents

/-!
Trees without the characters of their texts. Which elements there are, with which attributes, and
what is wrong with a document is seen without them.
-/

namespace DeadlockCapture.Xml

open DeadlockCapture.Text

mutual

/-- A node in which every text is empty. -/
def Node.bare : Node → Node
  | .element tag children => .element tag (bareAll children)
  | .text _ start => .text [] start
  | .aside start => .aside start

def bareAll : List Node → List Node
  | [] => []
  | n :: r => n.bare :: bareAll r

end

theorem bareAll_eq_map (l : List Node) : bareAll l = l.map Node.bare := by
  induction l with
  | nil => rfl
  | cons n l ih => rw [bareAll, ih, List.map_cons]

theorem bare_element (tag : Tag) (children : List Node) :
    (Node.element tag children).bare = .element tag (children.map Node.bare) := by
  rw [Node.bare, bareAll_eq_map]

def Open.bare (o : Open) : Open :=
  { o with children := o.children.map Node.bare }

def Builder.bare (b : Builder) : Builder :=
  { b with stack := b.stack.map Open.bare, root := b.root.map Node.bare }

/-! ### Bare trees are built alike -/

theorem bare_close (o : Open) (stop : Nat) : (o.close stop).bare = o.bare.close stop := by
  simp only [Open.close, Open.bare, bare_element, List.map_reverse]

theorem bare_add (b : Builder) (n : Node) : (b.add n).bare = b.bare.add n.bare := by
  obtain ⟨stack, pending, root, inText⟩ := b
  cases stack with
  | nil => cases n <;> rfl
  | cons o rest => rfl

theorem bare_addText (b : Builder) (content : List Char) (start : Nat) :
    (b.addText content start).bare = b.bare.addText [] start := by
  obtain ⟨stack, pending, root, inText⟩ := b
  cases inText with
  | false => cases stack <;> rfl
  | true =>
      cases stack with
      | nil => rfl
      | cons o rest =>
          obtain ⟨name, attributes, first, scope, children⟩ := o
          cases children with
          | nil => rfl
          | cons n children => cases n <;> rfl

section Alike

variable {b b' : Builder} (halike : b.bare = b'.bare)

include halike

theorem pending_of_bare : b.pending = b'.pending := by
  have hsame := congrArg Builder.pending halike
  exact hsame

theorem scope_of_bare : b.scope = b'.scope := by
  have hscope : ∀ b : Builder, b.bare.scope = b.scope := by
    rintro ⟨_ | _, pending, root, inText⟩ <;> rfl
  rw [← hscope b, halike, hscope b']

/-- Either no element is open, or the innermost ones are alike and so is what is around them. -/
theorem stack_of_bare :
    b.stack = [] ∧ b'.stack = [] ∨ ∃ o rest o' rest', b.stack = o :: rest ∧ b'.stack = o' :: rest' ∧
      o.bare = o'.bare ∧ rest.map Open.bare = rest'.map Open.bare := by
  have hsame : b.stack.map Open.bare = b'.stack.map Open.bare := congrArg Builder.stack halike
  cases hstack : b.stack with
  | nil =>
      rw [hstack, List.map_nil, eq_comm, List.map_eq_nil_iff] at hsame
      exact .inl ⟨rfl, hsame⟩
  | cons o rest =>
      rw [hstack, List.map_cons, eq_comm, List.map_eq_cons_iff] at hsame
      obtain ⟨o', rest', hstack', hfirst, hothers⟩ := hsame
      exact .inr ⟨o, rest, o', rest', rfl, hstack', hfirst.symm, hothers.symm⟩

theorem take_opened_of_bare (isEmpty : Bool) (stop : Nat) :
    (b.take (.opened isEmpty stop)).map Builder.bare =
      (b'.take (.opened isEmpty stop)).map Builder.bare := by
  rw [Builder.take, Builder.take, pending_of_bare halike, scope_of_bare halike]
  cases b'.pending with
  | none => exact congrArg Except.ok halike
  | some p =>
      simp only
      cases p.open b'.scope with
      | error f => rfl
      | ok o =>
          have hprepared : Builder.bare { b with pending := none, inText := false } =
              Builder.bare { b' with pending := none, inText := false } := by
            change { b.bare with pending := none, inText := false } = _
            rw [halike]
            rfl
          cases isEmpty with
          | true =>
              refine congrArg Except.ok ?_
              rw [bare_add, bare_add, hprepared]
          | false =>
              refine congrArg Except.ok ?_
              change { b.bare with
                stack := o.bare :: b.bare.stack, pending := none, inText := false } = _
              rw [halike]
              rfl

theorem take_closing_of_bare (name : Name) (start stop : Nat) :
    (b.take (.closing name start stop)).map Builder.bare =
      (b'.take (.closing name start stop)).map Builder.bare := by
  rw [Builder.take, Builder.take]
  obtain ⟨hnone, hnone'⟩ | ⟨o, rest, o', rest', hstack, hstack', hfirst, hothers⟩ :=
    stack_of_bare halike
  · rw [hnone, hnone']
    exact congrArg Except.ok halike
  · have hnamed : o.bare.name = o'.bare.name := congrArg Open.name hfirst
    have hnamed : o.name = o'.name := hnamed
    rw [hstack, hstack']
    simp only [hnamed]
    split
    · have hclosed : Builder.bare { b with stack := rest, inText := false } =
          Builder.bare { b' with stack := rest', inText := false } := by
        change { b.bare with stack := rest.map Open.bare, inText := false } = _
        rw [halike, hothers]
        rfl
      refine congrArg Except.ok ?_
      rw [bare_add, bare_add, hclosed, bare_close, bare_close, hfirst]
    · rfl

/-- Builders of one bare tree take a token alike. -/
theorem take_of_bare (t : Token) :
    (b.take t).map Builder.bare = (b'.take t).map Builder.bare := by
  cases t with
  | opening name start =>
      rw [Builder.take, Builder.take]
      split
      · rfl
      · refine congrArg Except.ok ?_
        change { b.bare with pending := some ⟨name, start, [], []⟩, inText := false } = _
        rw [halike]
        rfl
  | assignment name start raw rawStart =>
      rw [Builder.take, Builder.take, pending_of_bare halike]
      cases b'.pending with
      | none => exact congrArg Except.ok halike
      | some p =>
          simp only
          cases attributeText rawStart raw with
          | error f => rfl
          | ok value =>
              simp only
              cases p.assign name start value with
              | error f => rfl
              | ok q =>
                  refine congrArg Except.ok ?_
                  change { b.bare with pending := some q } = _
                  rw [halike]
                  rfl
  | opened isEmpty stop => exact take_opened_of_bare halike isEmpty stop
  | closing name start stop => exact take_closing_of_bare halike name start stop
  | text raw start =>
      rw [Builder.take, Builder.take]
      cases contentText start raw with
      | error f => rfl
      | ok content =>
          simp only
          split
          · exact congrArg Except.ok halike
          · simp only [Except.map, bare_addText, halike]
  | verbatim raw start =>
      simp only [Builder.take, Except.map, bare_addText, halike]
  | aside start =>
      have hadded : (b.add (.aside start)).bare = (b'.add (.aside start)).bare := by
        rw [bare_add, bare_add, halike]
      refine congrArg Except.ok ?_
      change { (b.add (.aside start)).bare with inText := false } = _
      rw [hadded]
      rfl
  | fault f => rfl

end Alike

/-! ### Tokens that are taken alike -/

/-- Whoever takes in the tokens comes to the same bare tree, or to the same fault. -/
def TakenAlike (l l' : List Token) : Prop :=
  ∀ b b' : Builder, b.bare = b'.bare →
    (b.takeAll l).map Builder.bare = (b'.takeAll l').map Builder.bare

theorem TakenAlike.cons {t t' : Token} {l l' : List Token} (hrest : TakenAlike l l')
    (hfirst : ∀ b b' : Builder, b.bare = b'.bare →
      (b.take t).map Builder.bare = (b'.take t').map Builder.bare) :
    TakenAlike (t :: l) (t' :: l') := by
  intro b b' halike
  rw [Builder.takeAll, Builder.takeAll]
  obtain ⟨f, hfound, hfound'⟩ | ⟨c, c', hfound, hfound', halike'⟩ :=
    cases_of_map_eq (hfirst b b' halike)
  · rw [hfound, hfound']
  · rw [hfound, hfound']
    exact hrest c c' halike'

theorem takenAlike_refl (l : List Token) : TakenAlike l l := by
  induction l with
  | nil => exact fun b b' halike => congrArg Except.ok halike
  | cons t l ih => exact ih.cons fun b b' halike => take_of_bare halike t

theorem TakenAlike.append {l l' : List Token} (h : TakenAlike l l') (front : List Token) :
    TakenAlike (front ++ l) (front ++ l') := by
  induction front with
  | nil => exact h
  | cons t front ih => exact ih.cons fun b b' halike => take_of_bare halike t

/-- A text may give way to another one that is as faulty. -/
theorem TakenAlike.text {raw raw' : List Char} {start : Nat} {l l' : List Token}
    (h : TakenAlike l l') (hsome : raw ≠ []) (hsome' : raw' ≠ [])
    (hsame : (contentText start raw).map (fun _ => ()) =
      (contentText start raw').map fun _ => ()) :
    TakenAlike (.text raw start :: l) (.text raw' start :: l') := by
  refine h.cons fun b b' halike => ?_
  rw [Builder.take, Builder.take]
  obtain ⟨f, hread, hread'⟩ | ⟨content, content', hread, hread', -⟩ := cases_of_map_eq hsame
  · rw [hread, hread']
  · have hfilled := (contentText_eq_ok_iff.mp hread).ne_nil hsome
    have hfilled' := (contentText_eq_ok_iff.mp hread').ne_nil hsome'
    simp [hread, hread', hfilled, hfilled', Except.map, bare_addText, halike]

theorem TakenAlike.verbatim {l l' : List Token} (h : TakenAlike l l') (raw raw' : List Char)
    (start : Nat) : TakenAlike (.verbatim raw start :: l) (.verbatim raw' start :: l') := by
  refine h.cons fun b b' halike => ?_
  simp only [Builder.take, Except.map, bare_addText, halike]

theorem finish_of_bare {b b' : Builder} (halike : b.bare = b'.bare) (length : Nat) :
    (b.finish length).map Node.bare = (b'.finish length).map Node.bare := by
  have hbare : ∀ b : Builder, (b.finish length).map Node.bare = b.bare.finish length := by
    rintro ⟨_ | _, pending, _ | _, inText⟩ <;> rfl
  rw [hbare, hbare, halike]

/-- Documents of one length whose tokens are taken alike have one bare tree, or one fault. -/
theorem parse_of_takenAlike {document document' : String}
    (h : TakenAlike (tokens document.toList) (tokens document'.toList))
    (hlength : document.length = document'.length) :
    (parse document).map Node.bare = (parse document').map Node.bare := by
  rw [parse, parse]
  obtain ⟨f, htaken, htaken'⟩ | ⟨b, b', htaken, htaken', halike⟩ :=
    cases_of_map_eq (h .empty .empty rfl)
  · rw [htaken, htaken']
  · rw [htaken, htaken']
    simp only [hlength]
    exact finish_of_bare halike document'.length

end DeadlockCapture.Xml
