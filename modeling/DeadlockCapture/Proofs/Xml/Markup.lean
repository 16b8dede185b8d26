import DeadlockCapture.Proofs.Xml.Tags

/-!
Markup is read as its nodes, and whatever the reader takes in as the content of an element is
markup.
-/

namespace DeadlockCapture.Xml

/-! ### Markup is read as its nodes -/

def endsInText : List Node → Bool
  | .text _ _ :: _ => true
  | _ => false

/-- Reading stands in the content of `o`, around which the elements `out` are open. -/
def Builder.inside (o : Open) (out : List Open) (root : Option Node) : Builder :=
  ⟨o :: out, none, root, endsInText o.children⟩

/-- An open element with other children, in reverse order. -/
def Open.holding (o : Open) (children : List Node) : Open :=
  { o with children }

theorem inside_addText (o : Open) (out : List Open) (root : Option Node) (content : List Char)
    (start : Nat) :
    (Builder.inside o out root).addText content start =
      .inside (o.holding (pushText content start o.children)) out root := by
  obtain ⟨name, attributes, first, scope, children⟩ := o
  cases children with
  | nil => rfl
  | cons n children => cases n <;> rfl

/-- In the content of any element with the scope, the markup is read as its nodes. -/
def Markup.Reads (scope : Scope) (c : Markup) : Prop :=
  ∀ (o : Open) out root depth offset r, o.scope = scope → r.head? = some '<' →
    (Builder.inside o out root).takeAll (tokensFrom (.content depth) offset (c.source ++ r)) =
      (Builder.inside (o.holding (c.onto offset o.children)) out root).takeAll
        (tokensFrom (.content depth) (offset + c.source.length) r)

theorem head?_of_head? {w : List Char} {c : Char} (h : w.head? = some c) (r : List Char) :
    (w ++ r).head? = some c := by
  rw [List.head?_append, h]
  rfl

/-- Markup that does not start with text starts with a bracket, if a bracket follows it. -/
theorem Markup.Stands.head? {d : Dialect} {scope : Scope} {c : Markup} (h : c.Stands d scope)
    (hnoText : c.startsText = false) {r : List Char} (hbracket : r.head? = some '<') :
    (c.source ++ r).head? = some '<' := by
  cases h with
  | nil => exact hbracket
  | text => cases hnoText
  | verbatim hsection => exact head?_of_head? (head?_of_head? hsection.head? _) _
  | aside haside => exact head?_of_head? (head?_of_head? haside.head? _) _
  | empty hstart => exact head?_of_head? (hstart.head? _) _
  | element hstart => exact head?_of_head? (hstart.head? _) _

/-- An element is read as its node, wherever it stands. -/
theorem takeAll_element {b : Builder} {tag close : List Char} {head : Head} {inner : Markup}
    (hstart : Dialect.reader.IsStartTag b.scope tag false head) (hreads : inner.Reads head.scope)
    (hend : Dialect.reader.IsEndTag head.name close) (depth offset : Nat) (r : List Char) :
    b.takeAll (tokensFrom (beforeElement depth) offset (tag ++ (inner.source ++ (close ++ r)))) =
      (Builder.add { b with pending := none, inText := false }
        (head.node offset (offset + tag.length + inner.source.length + close.length)
          (inner.onto (offset + tag.length) []).reverse)).takeAll
        (tokensFrom (afterElement depth)
          (offset + tag.length + inner.source.length + close.length) r) := by
  have hopened : b.started head false offset (offset + tag.length) =
      .inside (head.opened offset) b.stack b.root := rfl
  rw [hstart.reads rfl, hopened, afterTag]
  simp only [Bool.false_eq_true, if_false]
  rw [hreads (head.opened offset) b.stack b.root _ _ _ rfl (hend.head? r), hend.piece depth]
  refine Builder.takeAll_cons ?_ _
  simp only [Builder.take, Builder.inside, Open.holding, Head.opened, if_true]
  rfl

theorem takeAll_text {o : Open} {out : List Open} {root : Option Node} {raw content : List Char}
    {offset : Nat} (hfilled : raw ≠ []) (hread : Dialect.reader.ReadsText raw content)
    (l : List Token) :
    (Builder.inside o out root).takeAll (.text raw offset :: l) =
      (Builder.inside (o.holding (pushText content offset o.children)) out root).takeAll l := by
  refine Builder.takeAll_cons ?_ l
  have hcontent : content.isEmpty = false := List.isEmpty_eq_false_iff.mpr (hread.ne_nil hfilled)
  have htext : contentText offset raw = .ok content := contentText_eq_ok_iff.mpr hread
  simp only [Builder.take, htext, hcontent, Bool.false_eq_true, if_false, inside_addText]

theorem takeAll_verbatim {o : Open} {out : List Open} {root : Option Node} {raw : List Char}
    {offset : Nat} (l : List Token) :
    (Builder.inside o out root).takeAll (.verbatim raw offset :: l) =
      (Builder.inside (o.holding (pushText (sectionText raw) offset o.children)) out root).takeAll
        l := by
  refine Builder.takeAll_cons ?_ l
  simp only [Builder.take, inside_addText]

theorem takeAll_aside {o : Open} {out : List Open} {root : Option Node} {offset : Nat}
    (l : List Token) :
    (Builder.inside o out root).takeAll (.aside offset :: l) =
      (Builder.inside (o.holding (.aside offset :: o.children)) out root).takeAll l :=
  Builder.takeAll_cons rfl l

/-- A complete element joins the content of the element around it. -/
theorem inside_add {o : Open} {out : List Open} {root : Option Node} (h : Head)
    (start stop : Nat) (children : List Node) :
    Builder.add { Builder.inside o out root with pending := none, inText := false }
        (h.node start stop children) =
      .inside (o.holding (h.node start stop children :: o.children)) out root := rfl

/-- Once a first part `w` of the content has been read, the markup after it is read on. -/
theorem Markup.Reads.after {o : Open} {next : Markup} (h : next.Reads o.scope) {out : List Open}
    {root : Option Node} {depth offset : Nat} {w r : List Char} {nodes : List Node}
    (hfirst : (Builder.inside o out root).takeAll
        (tokensFrom (.content depth) offset (w ++ (next.source ++ r))) =
      (Builder.inside (o.holding nodes) out root).takeAll
        (tokensFrom (.content depth) (offset + w.length) (next.source ++ r)))
    (hbracket : r.head? = some '<') :
    (Builder.inside o out root).takeAll
        (tokensFrom (.content depth) offset (w ++ next.source ++ r)) =
      (Builder.inside (o.holding (next.onto (offset + w.length) nodes)) out root).takeAll
        (tokensFrom (.content depth) (offset + (w ++ next.source).length) r) := by
  rw [List.append_assoc, hfirst, h (o.holding nodes) out root _ _ r rfl hbracket,
    List.length_append, Nat.add_assoc]
  rfl

/-- Markup is read as its nodes wherever it may stand. -/
theorem Markup.Stands.reads {scope : Scope} {c : Markup} (h : c.Stands .reader scope) :
    c.Reads scope := by
  induction h with
  | nil =>
      intro o out root depth offset r hscope hbracket
      rfl
  | @text _ raw content next htext hread hnoText hnext ih =>
      rintro o out root depth offset r rfl hbracket
      have hhead := hnext.head? hnoText hbracket
      refine ih.after ?_ hbracket
      rw [htext.piece depth offset (by rw [hhead]; rintro d ⟨⟩; rfl),
        takeAll_text htext.filled hread]
  | @verbatim _ raw written next hsection hnext ih =>
      rintro o out root depth offset r rfl hbracket
      refine ih.after ?_ hbracket
      rw [hsection.piece depth, List.singleton_append, takeAll_verbatim]
  | @aside _ written next haside hnext ih =>
      rintro o out root depth offset r rfl hbracket
      refine ih.after ?_ hbracket
      rw [haside.piece rfl, List.singleton_append, takeAll_aside]
  | @empty _ tag head next hstart hnext ih =>
      rintro o out root depth offset r rfl hbracket
      refine ih.after ?_ hbracket
      exact hstart.reads (b := .inside o out root) rfl (depth + 1) offset (next.source ++ r)
  | @element _ tag close head inner next hstart hinner hend hnext ih ihNext =>
      rintro o out root depth offset r rfl hbracket
      have hwhole : (Markup.element tag head inner close next).source =
          tag ++ (inner.source ++ close) ++ next.source := by
        simp [source]
      have hstop : offset + (tag ++ (inner.source ++ close)).length =
          offset + tag.length + inner.source.length + close.length := by
        simp only [List.length_append, Nat.add_assoc]
      have hread := takeAll_element (b := .inside o out root) hstart ih hend (depth + 1) offset
        (next.source ++ r)
      have hparts : tag ++ (inner.source ++ (close ++ (next.source ++ r))) =
          tag ++ (inner.source ++ close) ++ (next.source ++ r) := by
        simp
      rw [inside_add, ← hstop, hparts] at hread
      have hafter := ihNext.after hread hbracket
      rw [hwhole]
      simpa only [onto, ← hstop] using hafter

/-! ### Whatever completes a document is markup -/

theorem Builder.Completes.congr {b b' : Builder} {l l' : List Token} {root : Node}
    (h : b.Completes l root) (hsame : b.takeAll l = b'.takeAll l') : b'.Completes l' root := by
  obtain ⟨last, htaken, hdone⟩ := h
  exact ⟨last, hsame ▸ htaken, hdone⟩

theorem not_completes_nil {o : Open} {out : List Open} {top : Option Node} {depth offset : Nat}
    {root : Node} : ¬ (Builder.inside o out top).Completes
      (tokensFrom (.content depth) offset []) root := by
  rintro ⟨last, htaken, hstack, -⟩
  rw [tokensFrom] at htaken
  cases htaken
  cases hstack

theorem Markup.Stands.startsText {d : Dialect} {scope : Scope} {c : Markup}
    (h : c.Stands d scope) {r : List Char} (hbracket : ∀ e ∈ (c.source ++ r).head?, e = '<') :
    c.startsText = false := by
  cases h with
  | @text _ raw content next htext =>
      cases raw with
      | nil => exact absurd rfl htext.filled
      | cons e raw =>
          have hsame : e = '<' := hbracket e rfl
          exact absurd List.mem_cons_self (hsame ▸ htext.noBracket)
  | _ => rfl

/-- A text starts with the content of an element and the element's end tag. -/
def Encloses (name : Name) (scope : Scope) (s : List Char) : Prop :=
  ∃ (c : Markup) (close r : List Char), s = c.source ++ (close ++ r) ∧ c.Stands .reader scope ∧
    Dialect.reader.IsEndTag name close

section Encloses

variable {name : Name} {scope : Scope} {w r : List Char}

theorem Encloses.text {content : List Char} (h : Encloses name scope r) (htext : IsText w)
    (hread : Dialect.reader.ReadsText w content) (hbracket : ∀ d ∈ r.head?, d = '<') :
    Encloses name scope (w ++ r) := by
  obtain ⟨next, close, r, rfl, hnext, hend⟩ := h
  exact ⟨.text w content next, close, r, by simp [Markup.source],
    .text htext hread (hnext.startsText hbracket) hnext, hend⟩

theorem Encloses.verbatim {raw : List Char} (h : Encloses name scope r)
    (hsection : IsSection raw w) : Encloses name scope (w ++ r) := by
  obtain ⟨next, close, r, rfl, hnext, hend⟩ := h
  exact ⟨.verbatim raw w next, close, r, by simp [Markup.source], .verbatim hsection hnext, hend⟩

theorem Encloses.aside (h : Encloses name scope r) (haside : Dialect.reader.IsAside w) :
    Encloses name scope (w ++ r) := by
  obtain ⟨next, close, r, rfl, hnext, hend⟩ := h
  exact ⟨.aside w next, close, r, by simp [Markup.source], .aside haside hnext, hend⟩

theorem Encloses.empty {head : Head} (h : Encloses name scope r)
    (hstart : Dialect.reader.IsStartTag scope w true head) : Encloses name scope (w ++ r) := by
  obtain ⟨next, close, r, rfl, hnext, hend⟩ := h
  exact ⟨.empty w head next, close, r, by simp [Markup.source], .empty hstart hnext, hend⟩

theorem Encloses.element {head : Head} {inner : Markup} {close : List Char}
    (h : Encloses name scope r) (hstart : Dialect.reader.IsStartTag scope w false head)
    (hinner : inner.Stands .reader head.scope) (hend : Dialect.reader.IsEndTag head.name close) :
    Encloses name scope (w ++ (inner.source ++ (close ++ r))) := by
  obtain ⟨next, close', r, rfl, hnext, hend'⟩ := h
  exact ⟨.element w head inner close next, close', r, by simp [Markup.source],
    .element hstart hinner hend hnext, hend'⟩

end Encloses

/-- An end tag in the content of an open element is the element's own. -/
theorem name_of_completes {o : Open} {out : List Open} {top : Option Node} {name : Name}
    {start stop : Nat} {l : List Token} {root : Node}
    (h : (Builder.inside o out top).Completes (.closing name start stop :: l) root) :
    name = o.name := by
  obtain ⟨b, htake, -⟩ := h.take
  simp only [Builder.take, Builder.inside] at htake
  split at htake
  · rename_i hsame
    exact hsame.symm
  · cases htake

theorem readsText_of_completes {b : Builder} {raw : List Char} {offset : Nat} {l : List Token}
    {root : Node} (h : b.Completes (.text raw offset :: l) root) :
    ∃ content, Dialect.reader.ReadsText raw content := by
  obtain ⟨b', htake, -⟩ := h.take
  cases hread : contentText offset raw with
  | error f => simp [Builder.take, hread] at htake
  | ok content => exact ⟨content, contentText_eq_ok_iff.mp hread⟩

/-- The content of an open element is markup up to the element's end tag. -/
theorem stands_of_completes {o : Open} {out : List Open} {top : Option Node} {depth offset : Nat}
    {s : List Char} {root : Node}
    (h : (Builder.inside o out top).Completes (tokensFrom (.content depth) offset s) root) :
    Encloses o.name o.scope s := by
  induction hlength : s.length using Nat.strongRecOn generalizing s o out depth offset with
  | ind n ih =>
  subst hlength
  cases s with
  | nil => exact absurd h not_completes_nil
  | cons c t =>
      obtain ⟨last, htaken, hdone⟩ := id h
      obtain ⟨step, hstep, -⟩ := step_of_takeAll htaken
      cases contentStep_part hstep with
      | @aside w r hsplit haside =>
          rw [hsplit] at h ih ⊢
          rw [haside.piece rfl, List.singleton_append] at h
          have hrest := ih _ (length_lt_append (ne_nil_of_head? haside.head?) r)
            (h.congr (takeAll_aside _)) rfl
          exact hrest.aside haside
      | @verbatim raw w r hsplit hsection =>
          rw [hsplit] at h ih ⊢
          rw [hsection.piece depth, List.singleton_append] at h
          have hrest := ih _ (length_lt_append (ne_nil_of_head? hsection.head?) r)
            (h.congr (takeAll_verbatim _)) rfl
          exact hrest.verbatim hsection
      | @closing name w r hsplit hend =>
          rw [hsplit] at h ⊢
          rw [hend.piece depth, List.singleton_append] at h
          obtain rfl := name_of_completes h
          exact ⟨.nil, w, r, rfl, .nil, hend⟩
      | @text raw r hsplit htext hbracket =>
          rw [hsplit] at h ih ⊢
          rw [htext.piece depth offset hbracket] at h
          obtain ⟨content, hread⟩ := readsText_of_completes h
          have hrest := ih _ (length_lt_append htext.filled r)
            (h.congr (takeAll_text htext.filled hread _)) rfl
          exact hrest.text htext hread hbracket
      | @opening t name n hsplit hfound =>
          rw [hsplit] at h ih ⊢
          obtain ⟨w, r, isEmpty, head, hwhole, hstart⟩ :=
            isStartTag_of_completes (depth + 1) hfound
              (fun hnone => absurd hnone (List.cons_ne_nil o out)) h
          rw [hwhole] at h ih ⊢
          have hstarted :=
            h.congr (hstart.reads (b := .inside o out top) rfl (depth + 1) offset r)
          have hshorter := length_lt_append hstart.ne_nil r
          cases isEmpty with
          | true =>
              have hnext : (Builder.inside (o.holding
                  (head.node offset (offset + w.length) [] :: o.children)) out top).Completes
                    (tokensFrom (.content depth) (offset + w.length) r) root := hstarted
              exact (ih _ hshorter hnext rfl).empty hstart
          | false =>
              -- The element's content is markup, and so is what comes after its end tag.
              have hopened : (Builder.inside (head.opened offset) (o :: out) top).Completes
                  (tokensFrom (.content (depth + 1)) (offset + w.length) r) root := hstarted
              obtain ⟨inner, close, r, rfl, hinner, hend⟩ := ih _ hshorter hopened rfl
              have hclosed := h.congr
                (takeAll_element (b := .inside o out top) hstart hinner.reads hend (depth + 1)
                  offset r)
              have hshorter' : r.length < (w ++ (inner.source ++ (close ++ r))).length := by
                simp only [List.length_append] at hshorter ⊢
                omega
              exact (ih _ hshorter' hclosed rfl).element hstart hinner hend

end DeadlockCapture.Xml
