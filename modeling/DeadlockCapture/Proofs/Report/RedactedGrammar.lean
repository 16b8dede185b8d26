import DeadlockCapture.Proofs.Report.Focus
import DeadlockCapture.Proofs.Report.Splicing
import DeadlockCapture.Proofs.Xml.Dialects

/-!
The grammar of redacted markup. What is put in is found by the reader, but it may stand there in
any dialect: where markup stands in one, its redacted form stands in it too.
-/

namespace DeadlockCapture.Report

open DeadlockCapture.Sql (RedactionOptions)
open DeadlockCapture.Xml

/-- Markup with the source `w` may stand in place of `c`. -/
def Admits (d : Dialect) (scope : Scope) (c : Markup) (w : List Char) : Prop :=
  ∃ c' : Markup, c'.startsText = c.startsText ∧ c'.Stands d scope ∧ c'.source = w

section Admits

variable {d : Dialect} {scope : Scope} {next : Markup} {w : List Char}

theorem Admits.text {raw content : List Char} (h : Admits d scope next w) (htext : IsText raw)
    (hread : d.ReadsText raw content) (hnoText : next.startsText = false) :
    Admits d scope (.text raw content next) (raw ++ w) := by
  obtain ⟨c, hsame, hstands, rfl⟩ := h
  exact ⟨.text raw content c, rfl, .text htext hread (hsame.trans hnoText) hstands, rfl⟩

theorem Admits.verbatim {raw written : List Char} (h : Admits d scope next w)
    (hsection : IsSection raw written) :
    Admits d scope (.verbatim raw written next) (written ++ w) := by
  obtain ⟨c, -, hstands, rfl⟩ := h
  exact ⟨.verbatim raw written c, rfl, .verbatim hsection hstands, rfl⟩

theorem Admits.aside {written : List Char} (h : Admits d scope next w)
    (haside : d.IsAside written) : Admits d scope (.aside written next) (written ++ w) := by
  obtain ⟨c, -, hstands, rfl⟩ := h
  exact ⟨.aside written c, rfl, .aside haside hstands, rfl⟩

theorem Admits.empty {tag : List Char} {head : Head} (h : Admits d scope next w)
    (hstart : d.IsStartTag scope tag true head) :
    Admits d scope (.empty tag head next) (tag ++ w) := by
  obtain ⟨c, -, hstands, rfl⟩ := h
  exact ⟨.empty tag head c, rfl, .empty hstart hstands, rfl⟩

theorem Admits.element {tag close v : List Char} {head : Head} {inner : Markup}
    (h : Admits d scope next w) (hinner : ∃ i : Markup, i.Stands d head.scope ∧ i.source = v)
    (hstart : d.IsStartTag scope tag false head) (hend : d.IsEndTag head.name close) :
    Admits d scope (.element tag head inner close next) (tag ++ (v ++ (close ++ w))) := by
  obtain ⟨c, -, hstands, rfl⟩ := h
  obtain ⟨i, hfits, rfl⟩ := hinner
  exact ⟨.element tag head i close c, rfl, .element hstart hfits hend hstands, rfl⟩

theorem Admits.exists {c : Markup} (h : Admits d scope c w) :
    ∃ c' : Markup, c'.Stands d scope ∧ c'.source = w := by
  obtain ⟨c', -, hstands, hsource⟩ := h
  exact ⟨c', hstands, hsource⟩

theorem admits_source {c c' : Markup} (halike : c.Alike c') (h : c'.Stands d scope) :
    Admits d scope c' c.source :=
  ⟨c', rfl, h, halike.source_eq.symm⟩

theorem exists_isRoot {tag close v : List Char} {head : Head}
    (hinner : ∃ i : Markup, i.Stands d head.scope ∧ i.source = v)
    (hstart : d.IsStartTag [] tag false head) (hend : d.IsEndTag head.name close) :
    ∃ c : Markup, c.IsRoot d ∧ c.source = tag ++ (v ++ (close ++ [])) := by
  obtain ⟨i, hfits, rfl⟩ := hinner
  exact ⟨.element tag head i close .nil, .element hstart hfits hend, rfl⟩

end Admits

/-- Any text of allowed characters may be written in any element. -/
theorem exists_textMarkup (d : Dialect) (scope : Scope) {u : List Char}
    (hallowed : ∀ c ∈ u, isAllowed c = true) :
    ∃ c : Markup, c.Stands d scope ∧ c.source = escapeText u := by
  by_cases hnone : u = []
  · subst hnone
    exact ⟨.nil, .nil, rfl⟩
  · exact ⟨.text (escapeText u) _ .nil,
      .text (isText_escapeText hnone hallowed) ⟨_, spells_escapeText d u, rfl⟩ rfl .nil,
      List.append_nil _⟩

/-- The redacted form of markup may stand wherever the markup stands in any dialect. -/
theorem admits_redactedIn (o : RedactionOptions) {c c' : Markup} (halike : c.Alike c')
    {d : Dialect} {scope scope' : Scope} (h : c.Stands .reader scope) (h' : c'.Stands d scope')
    (outer : List Char) : Admits d scope' c' (redactedIn o outer c).source := by
  induction halike generalizing scope scope' outer with
  | nil => exact ⟨.nil, rfl, h', rfl⟩
  | text _ ih =>
      cases h with
      | text _ _ _ hnext =>
        cases h' with
        | text htext hread hnoText hnext' =>
          exact (ih hnext hnext' outer).text htext hread hnoText
  | verbatim _ ih =>
      cases h with
      | verbatim _ hnext =>
        cases h' with
        | verbatim hsection hnext' => exact (ih hnext hnext' outer).verbatim hsection
  | aside _ ih =>
      cases h with
      | aside _ hnext =>
        cases h' with
        | aside haside hnext' => exact (ih hnext hnext' outer).aside haside
  | empty _ ih =>
      cases h with
      | empty _ hnext =>
        cases h' with
        | empty hstart hnext' => exact (ih hnext hnext' outer).empty hstart
  | element _ _ ih ihNext =>
      cases h with
      | element _ hinner _ hnext =>
        cases h' with
        | element hstart hinner' hend hnext' =>
          refine (ihNext hnext hnext' outer).element ?_ hstart hend
          split
          · rw [source_textMarkup]
            exact exists_textMarkup d _ (allowed_of_redactedStatement o hinner)
          · exact (ih hinner hinner' _).exists

/-- The markup with its first deadlock redacted. -/
def redactedDeadlock (o : RedactionOptions) (c : Markup) : Markup :=
  withDeadlock (fun head => redactedIn o head.name.base) c

theorem admits_redactedDeadlock (o : RedactionOptions) {c c' : Markup} (halike : c.Alike c')
    {d : Dialect} {scope scope' : Scope} (h : c.Stands .reader scope) (h' : c'.Stands d scope') :
    Admits d scope' c' (redactedDeadlock o c).source := by
  induction halike generalizing scope scope' with
  | nil => exact ⟨.nil, rfl, h', rfl⟩
  | text _ ih =>
      cases h with
      | text _ _ _ hnext =>
        cases h' with
        | text htext hread hnoText hnext' => exact (ih hnext hnext').text htext hread hnoText
  | verbatim _ ih =>
      cases h with
      | verbatim _ hnext =>
        cases h' with
        | verbatim hsection hnext' => exact (ih hnext hnext').verbatim hsection
  | aside _ ih =>
      cases h with
      | aside _ hnext =>
        cases h' with
        | aside haside hnext' => exact (ih hnext hnext').aside haside
  | empty hnexts ih =>
      cases h with
      | empty _ hnext =>
        cases h' with
        | empty hstart hnext' =>
          rw [redactedDeadlock, withDeadlock]
          split
          · exact (admits_source hnexts hnext').empty hstart
          · exact (ih hnext hnext').empty hstart
  | element hinners hnexts ih ihNext =>
      cases h with
      | element _ hinner _ hnext =>
        cases h' with
        | element hstart hinner' hend hnext' =>
          rw [redactedDeadlock, withDeadlock]
          split
          · exact (admits_source hnexts hnext').element
              (admits_redactedIn o hinners hinner hinner' _).exists hstart hend
          · split
            · exact (admits_source hnexts hnext').element (ih hinner hinner').exists hstart hend
            · exact (ihNext hnext hnext').element (admits_source hinners hinner').exists hstart hend

/-- A root element with its deadlock redacted may be a root element in any dialect in which it was
one. -/
theorem exists_isRoot_redactedDeadlock (o : RedactionOptions) {c c' : Markup}
    (halike : c.Alike c') {d : Dialect} (h : c.IsRoot .reader) (h' : c'.IsRoot d) :
    ∃ r : Markup, r.IsRoot d ∧ r.source = (redactedDeadlock o c).source := by
  cases h with
  | empty _ =>
      cases halike with
      | empty _ =>
        cases h' with
        | empty hstart =>
          refine ⟨_, .empty hstart, ?_⟩
          rw [redactedDeadlock, withDeadlock]
          split <;> rfl
  | element _ hinner _ =>
      cases halike with
      | element hinners _ =>
        cases h' with
        | element hstart hinner' hend =>
          rw [redactedDeadlock, withDeadlock]
          split
          · exact exists_isRoot (admits_redactedIn o hinners hinner hinner' _).exists hstart hend
          · split
            · exact exists_isRoot (admits_redactedDeadlock o hinners hinner hinner').exists hstart
                hend
            · exact exists_isRoot (admits_source hinners hinner').exists hstart hend

end DeadlockCapture.Report
