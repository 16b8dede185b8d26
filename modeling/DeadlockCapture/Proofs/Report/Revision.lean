import DeadlockCapture.Proofs.Report.Splicing
import Mathlib.Data.List.Forall2

/-!
The tree of redacted markup beside the tree of the markup: the same elements with the same
attributes, and in the elements that hold statements the redacted text.
-/

namespace DeadlockCapture.Report

open DeadlockCapture.Sql (RedactionOptions)
open DeadlockCapture.Xml

/-- What redaction makes of the text of a statement; an empty text stays empty. -/
def redactedText (o : RedactionOptions) (statement : String) : String :=
  if statement.isEmpty then statement else (o.normalize statement).redacted

mutual

/-- A node and what redaction makes of it. Offsets do not count. -/
inductive Revised (o : RedactionOptions) : List Char → Node → Node → Prop
  | text {outer content : List Char} {start start' : Nat} :
      Revised o outer (.text content start) (.text content start')
  | aside {outer : List Char} {start start' : Nat} : Revised o outer (.aside start) (.aside start')
  | statement {outer : List Char} {tag tag' : Tag} {children children' : List Node} :
      tag'.base = tag.base → tag'.attributes = tag.attributes →
      holdsByName outer tag.base = true →
      (Node.element tag' children').textContent =
        redactedText o (Node.element tag children).textContent →
      Revised o outer (.element tag children) (.element tag' children')
  | element {outer : List Char} {tag tag' : Tag} {children children' : List Node} :
      tag'.base = tag.base → tag'.attributes = tag.attributes →
      holdsByName outer tag.base = false → RevisedAll o tag.base children children' →
      Revised o outer (.element tag children) (.element tag' children')

inductive RevisedAll (o : RedactionOptions) : List Char → List Node → List Node → Prop
  | nil {outer : List Char} : RevisedAll o outer [] []
  | cons {outer : List Char} {n n' : Node} {l l' : List Node} : Revised o outer n n' →
      RevisedAll o outer l l' → RevisedAll o outer (n :: l) (n' :: l')

end

theorem revisedAll_iff {o : RedactionOptions} {outer : List Char} {l l' : List Node} :
    RevisedAll o outer l l' ↔ List.Forall₂ (Revised o outer) l l' := by
  constructor
  · intro h
    induction l generalizing l' with
    | nil =>
        cases h
        exact .nil
    | cons n l ih =>
        cases h with
        | cons hfirst hrest => exact .cons hfirst (ih hrest)
  · intro h
    induction h with
    | nil => exact .nil
    | cons hfirst hrest ih => exact .cons hfirst ih

/-! ### Redacted markup is a revision -/

theorem statementIn_eq_empty_iff {c : Markup} :
    (statementIn c).isEmpty = true ↔ ∀ d ∈ c.characters, Text.isBlank d = true := by
  rw [String.isEmpty_iff, statementIn, String.ofList_eq_empty_iff]
  exact ⟨Text.blank_of_trim, Text.trim_of_blank⟩

/-- Markup without statements stays as it is. -/
theorem redactedIn_of_blank (o : RedactionOptions) (outer : List Char) {c : Markup}
    (hblank : ∀ d ∈ c.characters, Text.isBlank d = true) : redactedIn o outer c = c := by
  induction c generalizing outer with
  | nil => rfl
  | text raw content next ih =>
      rw [Markup.characters, List.forall_mem_append] at hblank
      rw [redactedIn, ih outer hblank.2]
  | verbatim raw written next ih =>
      rw [Markup.characters, List.forall_mem_append] at hblank
      rw [redactedIn, ih outer hblank.2]
  | aside written next ih => rw [redactedIn, ih outer hblank]
  | empty tag head next ih => rw [redactedIn, ih outer hblank]
  | element tag head inner close next ih ihNext =>
      rw [Markup.characters, List.forall_mem_append] at hblank
      rw [redactedIn, statementIn_eq_empty_iff.mpr hblank.1, ih _ hblank.1, ihNext outer hblank.2]
      simp

theorem characters_textMarkup (content : List Char) :
    (textMarkup content).characters = readBack content := by
  unfold textMarkup
  split
  · rename_i hnone
    rw [hnone]
    rfl
  · exact List.append_nil _

theorem revised_pushText {o : RedactionOptions} {outer content : List Char} {start start' : Nat}
    {done done' : List Node} (h : List.Forall₂ (Revised o outer) done done') :
    List.Forall₂ (Revised o outer) (pushText content start done)
      (pushText content start' done') := by
  cases h with
  | nil => exact .cons .text .nil
  | cons hfirst hrest =>
      cases hfirst with
      | text => exact .cons .text hrest
      | aside => exact .cons .text (.cons .aside hrest)
      | statement hbase hattributes hholds htext =>
          exact .cons .text (.cons (.statement hbase hattributes hholds htext) hrest)
      | element hbase hattributes hholds hchildren =>
          exact .cons .text (.cons (.element hbase hattributes hholds hchildren) hrest)

/-- The text that an element which holds a statement is found to have once it is redacted. -/
def rereadText (o : RedactionOptions) (statement : String) : String :=
  if statement.isEmpty then statement
  else String.ofList (Text.trim (readBack (redactedStatement o statement)))

/-- A redacted statement is read again as it is, if the statement holds no carriage return. -/
theorem rereadText_of_free (o : RedactionOptions) {statement : String}
    (hnone : '\r' ∉ statement.toList) : rereadText o statement = redactedText o statement := by
  have hfree : '\r' ∉ redactedStatement o statement := by
    intro hmember
    obtain hmark | hspace | hinside := Sql.mem_redacted hmember
    · cases hmark
    · cases hspace
    · exact hnone hinside
  rw [rereadText, redactedText, readBack_of_not_mem hfree, redactedStatement, Sql.trim_redacted,
    String.ofList_toList]

theorem textContent_redacted (o : RedactionOptions) (head : Head) (inner : Markup)
    (start stop offset start' stop' offset' : Nat) :
    (head.node start' stop'
      ((if !(statementIn inner).isEmpty then
          textMarkup (redactedStatement o (statementIn inner))
        else redactedIn o head.name.base inner).onto offset' []).reverse).textContent =
      rereadText o (head.node start stop (inner.onto offset []).reverse).textContent := by
  rw [textContent_node, textContent_node, ← statementIn, ← statementIn, rereadText]
  cases hblank : (statementIn inner).isEmpty with
  | true =>
      have hsame := redactedIn_of_blank o head.name.base (statementIn_eq_empty_iff.mp hblank)
      simp only [Bool.not_true, Bool.false_eq_true, if_false, if_true, hsame]
  | false =>
      simp only [Bool.not_false, if_true, statementIn, characters_textMarkup, Bool.false_eq_true,
        if_false]

/-- The nodes of redacted markup are a revision of the nodes of the markup, if no statement holds a
carriage return. -/
theorem revised_onto (o : RedactionOptions) (outer : List Char) (c : Markup) (offset offset' : Nat)
    {done done' : List Node} (h : List.Forall₂ (Revised o outer) done done')
    (hnone : ∀ n ∈ nodesWithStatements outer c offset, '\r' ∉ n.textContent.toList) :
    List.Forall₂ (Revised o outer) (c.onto offset done)
      ((redactedIn o outer c).onto offset' done') := by
  induction c generalizing outer offset offset' done done' with
  | nil => exact h
  | text raw content next ih => exact ih outer _ _ (revised_pushText h) hnone
  | verbatim raw written next ih => exact ih outer _ _ (revised_pushText h) hnone
  | aside written next ih => exact ih outer _ _ (.cons .aside h) hnone
  | empty tag head next ih =>
      rw [nodesWithStatements, List.forall_mem_append] at hnone
      obtain ⟨hown, hafter⟩ := hnone
      refine ih outer _ _ (.cons ?_ h) hafter
      cases hholds : holdsByName outer head.name.base with
      | true =>
          rw [hholds] at hown
          refine .statement rfl rfl hholds ?_
          have hfree := rereadText_of_free o (hown _ List.mem_cons_self)
          exact (textContent_redacted o head .nil _ _ 0 _ _ 0).trans hfree
      | false => exact .element rfl rfl hholds (revisedAll_iff.mpr .nil)
  | element tag head inner close next ih ihNext =>
      rw [nodesWithStatements, List.forall_mem_append, List.forall_mem_append] at hnone
      obtain ⟨hown, hbelow, hafter⟩ := hnone
      refine ihNext outer _ _ (.cons ?_ h) hafter
      cases hholds : holdsByName outer head.name.base with
      | true =>
          rw [hholds] at hown
          refine .statement rfl rfl hholds ?_
          have hfree := rereadText_of_free o (hown _ List.mem_cons_self)
          rw [Bool.true_and]
          exact (textContent_redacted o head inner _ _ _ _ _ _).trans hfree
      | false =>
          refine .element rfl rfl hholds (revisedAll_iff.mpr ?_)
          rw [Bool.false_and]
          exact List.forall₂_reverse_iff.mpr (ih head.name.base _ _ .nil hbelow)

end DeadlockCapture.Report
