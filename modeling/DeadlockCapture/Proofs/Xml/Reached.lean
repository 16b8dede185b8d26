import DeadlockCapture.Proofs.Xml.Documents

/-!
How far a document has been read. A step is decided by the characters that it takes and the one
after them, so documents that begin alike are read alike up to the place where they part.
-/

namespace DeadlockCapture.Xml

open DeadlockCapture.Text

/-- The reader comes to a place in a document, in a mode. -/
inductive Reached (document : List Char) : Mode → Nat → Prop
  | start {n : Nat} :
      declarationLength (markLength document) (document.drop (markLength document)) = .ok n →
      Reached document .before (markLength document + n)
  | step {mode : Mode} {offset : Nat} {c : Char} {r : List Char} {s : Step} :
      Reached document mode offset → document.drop offset = c :: r →
      step mode offset c r = .ok s → Reached document s.next (offset + (s.used + 1))

/-! ### What a step takes -/

/-- The step takes `w` in front of `r`, and in front of whatever begins as `r` does. -/
def Step.Takes (s : Step) (mode : Mode) (offset : Nat) (w r : List Char) : Prop :=
  w.length = s.used + 1 ∧ ∀ r', r'.head? = r.head? →
    tokensFrom mode offset (w ++ r') = s.tokens ++ tokensFrom s.next (offset + w.length) r'

theorem Piece.takes {mode next : Mode} {w : List Char} {found : Nat → List Token}
    (h : Piece mode w found next) (hfilled : w ≠ []) (offset : Nat) (r : List Char) :
    Step.Takes ⟨found offset, w.length - 1, next⟩ mode offset w r :=
  ⟨(Nat.sub_add_cancel (List.length_pos_iff.mpr hfilled)).symm, fun r' _ => h offset r'⟩

theorem takes_opening {name : Name} {n : Nat} {t : List Char} (hfound : name? t = some (name, n))
    (depth offset : Nat) :
    ∃ w r, '<' :: t = w ++ r ∧ Step.Takes ⟨[.opening name offset], n, .tag depth⟩
      (beforeElement depth) offset w r := by
  obtain ⟨w, r, rfl, rfl, hnamed, hstop⟩ := name?_eq_some_iff.mp hfound
  refine ⟨'<' :: w, r, rfl, rfl, fun r' hsame => tokensFrom_step (step_opening ?_ depth offset)⟩
  exact name?_eq_some_iff.mpr ⟨w, r', rfl, rfl, hnamed, by rwa [hsame]⟩

theorem takes_outside {mode : Mode} (houtside : mode.IsOutside) {offset : Nat} {c : Char}
    {t : List Char} {s : Step} (h : outsideStep mode offset c t = .ok s) :
    ∃ w r, c :: t = w ++ r ∧ s.Takes mode offset w r := by
  cases outsideStep_part h with
  | @blanks b r hsplit hsome hblank hstop htaken =>
      subst htaken
      refine ⟨b, r, hsplit, (Nat.sub_add_cancel (List.length_pos_iff.mpr hsome)).symm, ?_⟩
      intro r' hsame
      exact tokensFrom_blanks houtside hblank (by rwa [hsame]) offset
  | @aside w r hsplit haside htaken =>
      subst htaken
      have hpiece := haside.piece houtside.isOutsideTags
      exact ⟨w, r, hsplit, hpiece.takes (ne_nil_of_head? haside.head?) offset r⟩
  | opening hbefore hsplit hfound htaken =>
      subst htaken hbefore
      rw [hsplit]
      exact takes_opening hfound 0 offset

theorem takes_tag {depth offset : Nat} {c : Char} {t : List Char} {s : Step}
    (h : tagStep depth offset c t = .ok s) :
    ∃ w r, c :: t = w ++ r ∧ s.Takes (.tag depth) offset w r := by
  obtain ⟨w, r, found, next, hsplit, hpart, rfl⟩ := tagStep_part h
  have hfilled : w ≠ [] := by
    cases hpart with
    | opened => simp [tagEnd_ne_nil]
    | assigned hsome => simp [hsome]
  exact ⟨w, r, hsplit, hpart.piece.takes hfilled offset r⟩

theorem takes_content {depth offset : Nat} {c : Char} {t : List Char} {s : Step}
    (h : step (.content depth) offset c t = .ok s) :
    ∃ w r, c :: t = w ++ r ∧ s.Takes (.content depth) offset w r := by
  cases contentStep_part h with
  | @aside w r hsplit haside htaken =>
      subst htaken
      have houtsideTags : (Mode.content depth).isOutsideTags = true := rfl
      have hpiece := haside.piece houtsideTags
      exact ⟨w, r, hsplit, hpiece.takes (ne_nil_of_head? haside.head?) offset r⟩
  | @verbatim raw w r hsplit hsection htaken =>
      subst htaken
      have hpiece := hsection.piece depth
      exact ⟨w, r, hsplit, hpiece.takes (ne_nil_of_head? hsection.head?) offset r⟩
  | @closing name w r hsplit hendTag htaken =>
      subst htaken
      have hfilled : w ≠ [] := by
        obtain ⟨-⟩ := hendTag
        exact List.cons_ne_nil _ _
      exact ⟨w, r, hsplit, (hendTag.piece depth).takes hfilled offset r⟩
  | @text raw r hsplit htext hnext htaken =>
      subst htaken
      refine ⟨raw, r, hsplit, (Nat.sub_add_cancel (List.length_pos_iff.mpr htext.filled)).symm, ?_⟩
      intro r' hsame
      exact htext.piece depth offset (by rwa [hsame])
  | opening hsplit hfound htaken =>
      subst htaken
      rw [hsplit]
      exact takes_opening hfound (depth + 1) offset

theorem takes_of_step {mode : Mode} {offset : Nat} {c : Char} {t : List Char} {s : Step}
    (h : step mode offset c t = .ok s) :
    ∃ w r, c :: t = w ++ r ∧ s.Takes mode offset w r := by
  cases mode with
  | before => exact takes_outside (.inl rfl) h
  | tag depth => exact takes_tag h
  | content depth => exact takes_content h
  | after => exact takes_outside (.inr rfl) h

/-! ### Documents that begin alike -/

theorem markLength_append {u : List Char} (hsome : u ≠ []) (r : List Char) :
    markLength (u ++ r) = markLength u := by
  rw [markLength, head?_append_of_some hsome, markLength]

/-- What has been read of a document whose known part is `u` is read whatever follows that part. -/
theorem Reached.tokens {u r : List Char} {mode : Mode} {offset : Nat}
    (h : Reached (u ++ r) mode offset) (hwithin : offset < u.length) (hmark : '>' ∈ u) :
    ∃ found, ∀ r', tokens (u ++ r') = found ++ tokensFrom mode offset (u.drop offset ++ r') := by
  have hsome : u ≠ [] := List.ne_nil_of_mem hmark
  induction h with
  | @start n hdeclared =>
      rw [markLength_append hsome] at hdeclared hwithin ⊢
      have hshort : markLength u ≤ u.length := by omega
      rw [List.drop_append_of_le_length hshort] at hdeclared
      have hmark' : '>' ∈ u.drop (markLength u) := by
        unfold markLength
        split
        · rename_i hbom
          cases u with
          | nil => cases hmark
          | cons c u =>
              obtain rfl : c = '\uFEFF' := by simpa using hbom
              exact (List.mem_cons.mp hmark).resolve_left (by decide)
        · exact hmark
      have hlength : n ≤ (u.drop (markLength u)).length := by
        rw [List.length_drop]
        omega
      refine ⟨[], fun r' => ?_⟩
      have hdeclared' := declarationLength_append hmark' hdeclared hlength r'
      rw [← List.drop_append_of_le_length hshort, ← markLength_append hsome r'] at hdeclared'
      rw [tokens_of_declarationLength hdeclared', markLength_append hsome,
        List.drop_append_of_le_length (by omega)]
      rfl
  | @step mode offset c t s hbefore hrest hstepped ih =>
      obtain ⟨found, hsame⟩ := ih (by omega)
      obtain ⟨w, r', hsplit, hlength, htakes⟩ := takes_of_step hstepped
      rw [List.drop_append_of_le_length (by omega), hsplit] at hrest
      obtain ⟨v, hwhole⟩ : w <+: u.drop offset := by
        refine List.prefix_of_prefix_length_le ⟨r', hrest.symm⟩ (List.prefix_append _ r) ?_
        rw [hlength, List.length_drop]
        omega
      have hnext : v = u.drop (offset + (s.used + 1)) := by
        rw [← List.drop_drop, ← hwhole, ← hlength, List.drop_left]
      have hgoesOn : v ≠ [] := by
        rw [hnext, ne_eq, List.drop_eq_nil_iff]
        omega
      rw [← hwhole, List.append_assoc, List.append_cancel_left_eq] at hrest
      refine ⟨found ++ s.tokens, fun r'' => ?_⟩
      rw [hsame, ← hwhole, List.append_assoc w v, htakes (v ++ r'') ?_, ← hnext, hlength,
        List.append_assoc]
      rw [← hrest, head?_append_of_some hgoesOn, head?_append_of_some hgoesOn]

/-! ### The start tag -/

/-- Reading stands in an element or after the root. -/
def Mode.isInside : Mode → Bool
  | .before | .tag _ => false
  | .content _ | .after => true

theorem mark_of_tagPart {depth : Nat} {w : List Char} {found : Nat → List Token} {next : Mode}
    (h : TagPart depth w found next) (hinside : next.isInside = true) : '>' ∈ w := by
  cases h with
  | @opened _ isEmpty => cases isEmpty <;> simp [tagEnd]
  | assigned => cases hinside

/-- The step into the root element ends its start tag. -/
theorem mark_of_step {mode : Mode} {offset : Nat} {c : Char} {t : List Char} {s : Step}
    (h : step mode offset c t = .ok s) (hinside : s.next.isInside = true) :
    mode.isInside = true ∨ '>' ∈ (c :: t).take (s.used + 1) := by
  cases mode with
  | before =>
      cases outsideStep_part h with
      | blanks _ _ _ _ htaken => simp [htaken, Mode.isInside] at hinside
      | aside _ _ htaken => simp [htaken, Mode.isInside] at hinside
      | opening _ _ _ htaken => simp [htaken, Mode.isInside] at hinside
  | tag depth =>
      obtain ⟨w, r, found, next, hsplit, hpart, rfl⟩ := tagStep_part h
      have hmark := mark_of_tagPart hpart hinside
      have hlength : w.length - 1 + 1 = w.length :=
        Nat.sub_add_cancel (List.length_pos_of_mem hmark)
      refine .inr ?_
      rw [hsplit, hlength, List.take_left]
      exact hmark
  | content depth => exact .inl rfl
  | after => exact .inl rfl

/-- The root's start tag has been read before anything in the element is. -/
theorem Reached.mark {document : List Char} {mode : Mode} {offset : Nat}
    (h : Reached document mode offset) (hinside : mode.isInside = true) :
    '>' ∈ document.take offset := by
  induction h with
  | start => cases hinside
  | step hbefore hrest hstepped ih =>
      rw [List.take_add, List.mem_append, hrest]
      exact (mark_of_step hstepped hinside).imp_left ih

/-- If reading goes on after `front` in the content of an element, it does so whatever comes after
the next known characters. -/
theorem Reached.tokens_of_content {front u r : List Char} {c : Char} {depth : Nat}
    (h : Reached (front ++ u ++ c :: r) (.content depth) front.length) :
    ∃ found, ∀ r', Xml.tokens (front ++ u ++ c :: r') =
      found ++ tokensFrom (.content depth) front.length (u ++ c :: r') := by
  have hsplit (r : List Char) : front ++ u ++ c :: r = front ++ (u ++ [c]) ++ r := by simp
  have hmark : '>' ∈ front := by
    have hmark := h.mark rfl
    rwa [List.append_assoc, List.take_left] at hmark
  rw [hsplit] at h
  have hwithin : front.length < (front ++ (u ++ [c])).length := by simp
  obtain ⟨found, hsame⟩ := h.tokens hwithin (List.mem_append_left _ hmark)
  refine ⟨found, fun r' => ?_⟩
  rw [hsplit, hsame, List.drop_left, List.append_assoc, List.singleton_append]

end DeadlockCapture.Xml
