import DeadlockCapture.Proofs.Report.Statements
import DeadlockCapture.Proofs.Sql.Shape

/-!
Markup with its statements redacted. The edits of a document turn the source of its markup into the
source of the redacted markup, and the redacted markup may stand wherever the other stood.
-/

namespace DeadlockCapture.Report

open DeadlockCapture.Sql (RedactionOptions)
open DeadlockCapture.Xml

/-! ### Redacted markup -/

/-- Markup that is written for a text and holds nothing else. -/
def textMarkup (content : List Char) : Markup :=
  if content = [] then .nil else .text (escapeText content) (readBack content) .nil

def redactedStatement (o : RedactionOptions) (statement : String) : List Char :=
  (o.normalize statement).redacted.toList

/-- Markup with its statements redacted. What lies inside a redacted element is gone. -/
def redactedIn (o : RedactionOptions) (outer : List Char) : Markup → Markup
  | .nil => .nil
  | .text raw content next => .text raw content (redactedIn o outer next)
  | .verbatim raw written next => .verbatim raw written (redactedIn o outer next)
  | .aside written next => .aside written (redactedIn o outer next)
  | .empty tag head next => .empty tag head (redactedIn o outer next)
  | .element tag head inner close next =>
    let inner' :=
      if holdsByName outer head.name.base && !(statementIn inner).isEmpty then
        textMarkup (redactedStatement o (statementIn inner))
      else redactedIn o head.name.base inner
    .element tag head inner' close (redactedIn o outer next)

theorem source_textMarkup (content : List Char) :
    (textMarkup content).source = escapeText content := by
  unfold textMarkup
  split
  · rename_i hnone
    rw [hnone]
    rfl
  · exact List.append_nil _

/-! ### Applying edits -/

/-- Edits of a part that has been read already are passed over. -/
theorem applyEdits_passed {offset : Nat} {rest : List Char} {l : List Edit}
    (hpassed : ∀ e ∈ l, e.start < offset) (more : List Edit) :
    applyEdits offset rest (l ++ more) = applyEdits offset rest more := by
  induction l with
  | nil => rfl
  | cons e l ih =>
      obtain ⟨hfirst, hothers⟩ := List.forall_mem_cons.mp hpassed
      rw [List.cons_append, applyEdits, if_pos hfirst, ih hothers]

theorem applyEdits_append {offset : Nat} {w rest : List Char} {l : List Edit}
    (hlater : ∀ e ∈ l, offset + w.length ≤ e.start ∧ e.start ≤ e.stop) :
    applyEdits offset (w ++ rest) l = w ++ applyEdits (offset + w.length) rest l := by
  cases l with
  | nil => rfl
  | cons e l =>
      obtain ⟨hbehind, hproper⟩ := hlater e List.mem_cons_self
      have hfront : e.start - offset = w.length + (e.start - (offset + w.length)) := by omega
      have hback : e.stop - offset = w.length + (e.stop - (offset + w.length)) := by omega
      rw [applyEdits, applyEdits, if_neg (by omega), if_neg (by omega), hfront, hback,
        List.take_length_add_append, List.drop_length_add_append]
      simp only [List.append_assoc]

/-- An edit at the start of the rest puts its replacement in place of its stretch. -/
theorem applyEdits_here {offset : Nat} {w rest replacement : List Char} (l : List Edit) :
    applyEdits offset (w ++ rest) (⟨offset, offset + w.length, replacement⟩ :: l) =
      replacement ++ applyEdits (offset + w.length) rest l := by
  rw [applyEdits, if_neg (Nat.lt_irrefl offset)]
  simp

/-! ### The places of edits -/

theorem place_of_editsIn (o : RedactionOptions) (outer : List Char) {c : Markup} {scope : Scope}
    (hstands : c.Stands .reader scope) (offset : Nat) :
    ∀ e ∈ editsIn o outer c offset,
      offset ≤ e.start ∧ e.start ≤ e.stop ∧ e.stop < offset + c.source.length := by
  induction hstands generalizing outer offset with
  | nil =>
      intro e hmember
      cases hmember
  | @text _ raw content next htext hread hnoText hstands ih =>
      intro e hmember
      have hplace := ih outer _ e hmember
      rw [Markup.source, List.length_append]
      omega
  | @verbatim _ raw written next hsection hstands ih =>
      intro e hmember
      have hplace := ih outer _ e hmember
      rw [Markup.source, List.length_append]
      omega
  | @aside _ written next haside hstands ih =>
      intro e hmember
      have hplace := ih outer _ e hmember
      rw [Markup.source, List.length_append]
      omega
  | @empty _ tag head next hstart hstands ih =>
      intro e hmember
      have hplace := ih outer _ e hmember
      rw [Markup.source, List.length_append]
      omega
  | @element _ tag close head inner next hstart hstands hending hstandsNext ih ihNext =>
      intro e hmember
      have hfilled : 0 < close.length := by
        obtain ⟨-⟩ := hending
        exact Nat.zero_lt_succ _
      simp only [Markup.source, List.length_append]
      rw [editsIn, List.mem_append, List.mem_append] at hmember
      obtain hown | hbelow | hafter := hmember
      · split at hown
        · obtain rfl := List.mem_singleton.mp hown
          simp only
          omega
        · cases hown
      · have hplace := ih head.name.base _ e hbelow
        omega
      · have hplace := ihNext outer _ e hafter
        omega

theorem pairwise_editsIn (o : RedactionOptions) (outer : List Char) {c : Markup} {scope : Scope}
    (hstands : c.Stands .reader scope) (offset : Nat) :
    (editsIn o outer c offset).Pairwise fun a b => a.start ≤ b.start := by
  induction hstands generalizing outer offset with
  | nil => exact .nil
  | text _ _ _ _ ih => exact ih outer _
  | verbatim _ _ ih => exact ih outer _
  | aside _ _ ih => exact ih outer _
  | empty _ _ ih => exact ih outer _
  | @element _ tag close head inner next hstart hstands hending hstandsNext ih ihNext =>
      rw [editsIn, List.pairwise_append, List.pairwise_append]
      refine ⟨?_, ⟨ih _ _, ihNext _ _, ?_⟩, ?_⟩
      · split
        · exact List.pairwise_singleton _ _
        · exact .nil
      · intro a hbelow b hafter
        have hfirst := place_of_editsIn o _ hstands _ a hbelow
        have hsecond := place_of_editsIn o _ hstandsNext _ b hafter
        omega
      · intro a hown b hlater
        split at hown
        · obtain rfl := List.mem_singleton.mp hown
          obtain hbelow | hafter := List.mem_append.mp hlater
          · exact (place_of_editsIn o _ hstands _ b hbelow).1
          · have hplace := place_of_editsIn o _ hstandsNext _ b hafter
            simp only
            omega
        · cases hown

/-! ### The edits make the redacted source -/

/-- What the edits of markup do to its source, at every place and before every text. -/
def Splices (o : RedactionOptions) (outer : List Char) (c : Markup) : Prop :=
  ∀ offset rest more,
    (∀ e ∈ more, offset + c.source.length ≤ e.start ∧ e.start ≤ e.stop) →
    applyEdits offset (c.source ++ rest) (editsIn o outer c offset ++ more) =
      (redactedIn o outer c).source ++ applyEdits (offset + c.source.length) rest more

/-- A part without edits in front of markup is kept. -/
theorem Splices.after {o : RedactionOptions} {outer : List Char} {next : Markup} {scope : Scope}
    (h : Splices o outer next) (hstands : next.Stands .reader scope) {offset : Nat} {w : List Char}
    (rest : List Char) {more : List Edit}
    (hlater : ∀ e ∈ more, offset + (w ++ next.source).length ≤ e.start ∧ e.start ≤ e.stop) :
    applyEdits offset (w ++ next.source ++ rest)
        (editsIn o outer next (offset + w.length) ++ more) =
      w ++ (redactedIn o outer next).source ++
        applyEdits (offset + (w ++ next.source).length) rest more := by
  rw [List.length_append, ← Nat.add_assoc] at hlater ⊢
  have hplaces : ∀ e ∈ editsIn o outer next (offset + w.length) ++ more,
      offset + w.length ≤ e.start ∧ e.start ≤ e.stop := by
    refine List.forall_mem_append.mpr ⟨?_, ?_⟩
    · intro e hmember
      have hplace := place_of_editsIn o _ hstands _ e hmember
      exact ⟨hplace.1, hplace.2.1⟩
    · intro e hmember
      have hplace := hlater e hmember
      omega
  rw [List.append_assoc, applyEdits_append hplaces, h _ rest more hlater, List.append_assoc]

/-- An edit replaces a stretch behind a tag, and the edits inside the stretch are passed over. -/
theorem applyEdits_replaced {offset : Nat} {tag content : List Char} (rest replacement : List Char)
    {below behind : List Edit}
    (hinside : ∀ e ∈ below, offset + tag.length ≤ e.start ∧ e.start ≤ e.stop ∧
      e.stop < offset + tag.length + content.length)
    (hplaces : ∀ e ∈ behind, offset + tag.length + content.length ≤ e.start ∧ e.start ≤ e.stop) :
    applyEdits offset (tag ++ (content ++ rest))
        (⟨offset + tag.length, offset + tag.length + content.length, replacement⟩ ::
          (below ++ behind)) =
      tag ++ (replacement ++ applyEdits (offset + tag.length + content.length) rest behind) := by
  have hpassed : ∀ e ∈ below, e.start < offset + tag.length + content.length := by
    intro e hmember
    have hplace := hinside e hmember
    omega
  rw [applyEdits_append, applyEdits_here, applyEdits_passed hpassed]
  refine List.forall_mem_cons.mpr ⟨⟨Nat.le_refl _, Nat.le_add_right _ _⟩, ?_⟩
  refine List.forall_mem_append.mpr ⟨?_, ?_⟩
  · exact fun e hmember => ⟨(hinside e hmember).1, (hinside e hmember).2.1⟩
  · intro e hmember
    have hplace := hplaces e hmember
    omega

/-- The edits of markup turn its source into that of the redacted markup. -/
theorem splices_of_stands (o : RedactionOptions) (outer : List Char) {c : Markup} {scope : Scope}
    (hstands : c.Stands .reader scope) : Splices o outer c := by
  induction hstands generalizing outer with
  | nil => exact fun offset rest more hlater => rfl
  | @text _ raw content next htext hread hnoText hstands ih =>
      exact fun offset rest more hlater => (ih outer).after hstands rest hlater
  | @verbatim _ raw written next hsection hstands ih =>
      exact fun offset rest more hlater => (ih outer).after hstands rest hlater
  | @aside _ written next haside hstands ih =>
      exact fun offset rest more hlater => (ih outer).after hstands rest hlater
  | @empty _ tag head next hstart hstands ih =>
      exact fun offset rest more hlater => (ih outer).after hstands rest hlater
  | @element _ tag close head inner next hstart hstands hending hstandsNext ih ihNext =>
      intro offset rest more hlater
      have hlength : offset + (Markup.element tag head inner close next).source.length =
          offset + tag.length + inner.source.length + (close ++ next.source).length := by
        simp only [Markup.source, List.length_append, Nat.add_assoc]
      have hwhole : (Markup.element tag head inner close next).source ++ rest =
          tag ++ (inner.source ++ (close ++ next.source ++ rest)) := by
        simp [Markup.source]
      rw [hlength] at hlater ⊢
      have hplaces : ∀ e ∈ editsIn o outer next
            (offset + tag.length + inner.source.length + close.length) ++ more,
          offset + tag.length + inner.source.length ≤ e.start ∧ e.start ≤ e.stop := by
        refine List.forall_mem_append.mpr ⟨?_, ?_⟩
        · intro e hmember
          have hplace := place_of_editsIn o _ hstandsNext _ e hmember
          omega
        · intro e hmember
          have hplace := hlater e hmember
          omega
      have hafter := (ihNext outer).after hstandsNext rest hlater
      rw [hwhole, editsIn, redactedIn]
      cases holdsByName outer head.name.base && !(statementIn inner).isEmpty with
      | true =>
          have hreplaced := applyEdits_replaced (close ++ next.source ++ rest)
            (replacementFor o (statementIn inner))
            (place_of_editsIn o head.name.base hstands (offset + tag.length)) hplaces
          rw [hafter] at hreplaced
          simp only [if_true, List.append_assoc, List.cons_append, List.nil_append, Markup.source,
            source_textMarkup] at hreplaced ⊢
          exact hreplaced
      | false =>
          have hinside := (ih head.name.base).after (w := tag) hstands
            (close ++ next.source ++ rest)
            (by rw [List.length_append, ← Nat.add_assoc]; exact hplaces)
          rw [List.length_append, ← Nat.add_assoc, hafter] at hinside
          simp only [Bool.false_eq_true, if_false, List.nil_append, List.append_assoc,
            Markup.source] at hinside ⊢
          exact hinside

/-! ### Redacted markup stands -/

theorem allowed_of_stands {c : Markup} {scope : Scope} (h : c.Stands .reader scope) :
    ∀ d ∈ c.characters, isAllowed d = true := by
  induction h with
  | nil =>
      intro e hmember
      cases hmember
  | text htext hread hnoText hstands ih =>
      exact List.forall_mem_append.mpr ⟨hread.allowed htext.allowed, ih⟩
  | verbatim hsection hstands ih =>
      exact List.forall_mem_append.mpr ⟨allowed_of_sectionText hsection.allowed, ih⟩
  | aside haside hstands ih => exact ih
  | empty hstart hstands ih => exact ih
  | element hstart hstands hending hstandsNext ih ihNext =>
      exact List.forall_mem_append.mpr ⟨ih, ihNext⟩

theorem isText_escapeText {u : List Char} (hsome : u ≠ [])
    (hallowed : ∀ c ∈ u, isAllowed c = true) : IsText (escapeText u) := by
  have hplain := escapeText_plain hallowed
  refine ⟨?_, fun c hmember => (hplain c hmember).1, fun hbracket => (hplain _ hbracket).2.1 rfl,
    ?_⟩
  · cases u with
    | nil => exact absurd rfl hsome
    | cons c u =>
        rw [escapeText_cons, escapeChar]
        split
        · simp
        · split
          · simp
          · split <;> simp
  · exact holdsRun_of_not_mem (c := '>') (by decide) fun hbracket => (hplain _ hbracket).2.2 rfl

/-- Any text of allowed characters may stand in any element. -/
theorem textMarkup_stands {u : List Char} (hallowed : ∀ c ∈ u, isAllowed c = true)
    (scope : Scope) : (textMarkup u).Stands .reader scope := by
  unfold textMarkup
  split
  · exact .nil
  · rename_i hsome
    exact .text (isText_escapeText hsome hallowed) (readsText_escapeText u) rfl .nil

theorem startsText_redactedIn (o : RedactionOptions) (outer : List Char) (c : Markup) :
    (redactedIn o outer c).startsText = c.startsText := by
  cases c <;> rfl

/-- The redacted form of a text of allowed characters holds allowed characters only. -/
theorem allowed_of_redacted (o : RedactionOptions) {x : String}
    (hallowed : ∀ d ∈ x.toList, isAllowed d = true) :
    ∀ d ∈ redactedStatement o x, isAllowed d = true := by
  intro d hmember
  obtain rfl | rfl | hinside := Sql.mem_redacted hmember
  · decide
  · decide
  · exact hallowed d hinside

/-- The redacted form of a statement holds allowed characters only. -/
theorem allowed_of_redactedStatement (o : RedactionOptions) {c : Markup} {scope : Scope}
    (hstands : c.Stands .reader scope) :
    ∀ d ∈ redactedStatement o (statementIn c), isAllowed d = true := by
  refine allowed_of_redacted o fun d hinside => ?_
  rw [statementIn, String.toList_ofList] at hinside
  exact allowed_of_stands hstands d (Text.mem_of_mem_trim hinside)

/-- Redacted markup stands where the markup stood. -/
theorem redactedIn_stands (o : RedactionOptions) (outer : List Char) {c : Markup} {scope : Scope}
    (hstands : c.Stands .reader scope) : (redactedIn o outer c).Stands .reader scope := by
  induction hstands generalizing outer with
  | nil => exact .nil
  | text htext hread hnoText hstands ih =>
      exact .text htext hread ((startsText_redactedIn o outer _).trans hnoText) (ih outer)
  | verbatim hsection hstands ih => exact .verbatim hsection (ih outer)
  | aside haside hstands ih => exact .aside haside (ih outer)
  | empty hstart hstands ih => exact .empty hstart (ih outer)
  | @element _ tag close head inner next hstart hstands hending hstandsNext ih ihNext =>
      refine .element hstart ?_ hending (ihNext outer)
      split
      · exact textMarkup_stands (allowed_of_redactedStatement o hstands) _
      · exact ih head.name.base

end DeadlockCapture.Report
