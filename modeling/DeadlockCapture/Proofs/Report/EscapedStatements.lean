import DeadlockCapture.Proofs.Report.Slots
import DeadlockCapture.Proofs.Report.Splicing
import DeadlockCapture.Proofs.Xml.ReadBack

/-!
How a redacted statement is read from a document in which it stands as the content of an element.
It is read with all its characters, but for carriage returns that no escaped character follows.
-/

namespace DeadlockCapture.Report

open DeadlockCapture.Sql (RedactionOptions)
open DeadlockCapture.Text (Reended)
open DeadlockCapture.Xml

/-! ### The characters of a document's statements -/

mutual

/-- What lies below an element with a statement lies below every node around it. -/
theorem descendants_of_statementNodes {outer : List Char} {n m : Node}
    (hmember : n ∈ statementNodes outer m) : n.descendants ⊆ m.descendants := by
  cases m with
  | text content start => cases hmember
  | aside start => cases hmember
  | element tag children =>
      have hbelow : n ∈ statementNodesOf tag.base children → n.descendants ⊆
          (Node.element tag children).descendants := by
        intro hinside d hfound
        exact List.mem_cons_of_mem _ (descendants_of_statementNodesOf hinside hfound)
      rw [statementNodes] at hmember
      split at hmember
      · obtain rfl | hinside := List.mem_cons.mp hmember
        · exact List.Subset.refl _
        · exact hbelow hinside
      · exact hbelow hmember

theorem descendants_of_statementNodesOf {outer : List Char} {n : Node} {l : List Node}
    (hmember : n ∈ statementNodesOf outer l) : n.descendants ⊆ Node.descendantsOf l := by
  cases l with
  | nil => cases hmember
  | cons m r =>
      intro d hfound
      obtain hfirst | hlater := List.mem_append.mp hmember
      · exact List.mem_append_left _ (descendants_of_statementNodes hfirst hfound)
      · exact List.mem_append_right _ (descendants_of_statementNodesOf hlater hfound)

end

theorem allowed_of_isRoot {c : Markup} (hroot : c.IsRoot .reader) :
    ∀ d ∈ c.characters, isAllowed d = true := by
  cases hroot with
  | empty hstart =>
      intro d hmember
      cases hmember
  | element hstart hstands hending =>
      exact List.forall_mem_append.mpr ⟨allowed_of_stands hstands, by simp [Markup.characters]⟩

/-- The texts of a document that is accepted hold allowed characters only. -/
theorem allowed_of_parse {x : String} {root : Node} (haccepted : parse x = .ok root) :
    ∀ d ∈ root.descendants.flatMap Node.ownText, isAllowed d = true := by
  obtain ⟨front, post, c, -, -, hroot, -, hnode⟩ := parse_eq_ok_iff.mp haccepted
  have htext := text_laidOut_onto c front.length []
  rw [hnode, laidOut, List.reverse_singleton, descendantsOf_singleton] at htext
  rw [htext]
  exact allowed_of_isRoot hroot

/-- The statements of a document hold allowed characters only. -/
theorem allowed_of_statementNodes {x : String} {root n : Node} (haccepted : parse x = .ok root)
    (hstatement : n ∈ statementNodes [] root) : ∀ d ∈ n.textContent.toList, isAllowed d = true := by
  intro d hmember
  rw [Node.textContent, String.toList_ofList] at hmember
  obtain ⟨m, hinside, hown⟩ := List.mem_flatMap.mp (Text.mem_of_mem_trim hmember)
  have hfound := descendants_of_statementNodes hstatement hinside
  exact allowed_of_parse haccepted d (List.mem_flatMap.mpr ⟨m, hfound, hown⟩)

/-! ### Redacted statements as they are read -/

/-- The nodes of a text: one, or none if the text is empty. -/
def textNodes (text : List Char) (start : Nat) : List Node :=
  if text = [] then [] else [.text text start]

theorem onto_textMarkup (content : List Char) (start : Nat) :
    ((textMarkup content).onto start []).reverse = textNodes (readBack content) start := by
  unfold textMarkup textNodes
  by_cases hnone : content = []
  · rw [if_pos hnone, if_pos (readBack_eq_nil_iff.mpr hnone)]
    rfl
  · rw [if_neg hnone, if_neg (mt readBack_eq_nil_iff.mp hnone)]
    rfl

theorem getLast?_redacted (o : RedactionOptions) (x : String) :
    (o.normalize x).redacted.toList.getLast? ≠ some '\r' := by
  intro hlast
  rw [← Sql.trim_redacted o x] at hlast
  exact absurd (Text.isBlank_of_getLast?_trim hlast) (by decide)

/-- The redacted form of any statement of a document may stand, escaped, as the content of any
element of a document. It is then read with no more than the ends of its lines changed, and as it is
just when each of its carriage returns stands in front of an escaped character. -/
theorem escaped_statement_reads_back_iff (o : RedactionOptions) {x y : String}
    {root top n e : Node} {start stop : Nat} (haccepted : parse x = .ok root)
    (hstatement : n ∈ statementNodes [] root) (hholds : parse y = .ok top)
    (hinside : e ∈ top.descendants) (hcontent : contentStretch? y.toList e = some (start, stop)) :
    ∃ text, ReadsWith (withContent y start stop (replacementFor o n.textContent)) e
        (textNodes text start) ∧
      Reended (o.normalize n.textContent).redacted.toList text ∧
      (text = (o.normalize n.textContent).redacted.toList ↔
        ReturnsBeforeMarks (o.normalize n.textContent).redacted.toList) := by
  have hallowed := allowed_of_redacted o (allowed_of_statementNodes haccepted hstatement)
  obtain ⟨scope, hreads⟩ := exists_readsWith hholds hinside hcontent
  have hread := hreads _ (textMarkup_stands hallowed scope)
  rw [source_textMarkup, onto_textMarkup] at hread
  exact ⟨_, hread, reended_readBack _, readBack_eq_self_iff (getLast?_redacted o _)⟩

/-- A carriage return in front of a bracket, and one between tokens, which redaction leaves out. -/
def statementWithReturns : String :=
  "<inputbuf>[a&#13;&lt;b] = &#13; 'c'</inputbuf>"

def otherHolder : String :=
  "<a b='c'>d<!-- e --></a>"

theorem return_before_bracket_reads_back :
    ∃ root n top e, (parse statementWithReturns = .ok root ∧ n ∈ statementNodes [] root ∧
        parse otherHolder = .ok top ∧ e ∈ top.descendants ∧
        contentStretch? otherHolder.toList e = some (9, 20)) ∧
      ∃ text, ReadsWith (withContent otherHolder 9 20 (replacementFor {} n.textContent)) e
          (textNodes text 9) ∧
        Reended (RedactionOptions.normalize {} n.textContent).redacted.toList text ∧
        (text = (RedactionOptions.normalize {} n.textContent).redacted.toList ↔
          ReturnsBeforeMarks (RedactionOptions.normalize {} n.textContent).redacted.toList) := by
  have hstatement : (parse statementWithReturns).toOption.any (fun root =>
      !(statementNodes [] root).isEmpty) = true := by decide +kernel
  have hholder : (parse otherHolder).toOption.any (fun top => top.descendants.any fun e =>
      decide (contentStretch? otherHolder.toList e = some (9, 20))) = true := by decide +kernel
  obtain ⟨root, haccepted, hsome⟩ := Text.exists_ok_of_any hstatement
  obtain ⟨n, hmember⟩ := List.exists_mem_of_ne_nil (statementNodes [] root) (by simpa using hsome)
  obtain ⟨top, hholds, hsome⟩ := Text.exists_ok_of_any hholder
  obtain ⟨e, hinside, hplace⟩ := List.any_eq_true.mp hsome
  have hcontent := of_decide_eq_true hplace
  exact ⟨root, n, top, e, ⟨haccepted, hmember, hholds, hinside, hcontent⟩,
    escaped_statement_reads_back_iff {} haccepted hmember hholds hinside hcontent⟩

def nameWithReturn : String :=
  "<deadlock><inputbuf>SELECT [a&#13;b]</inputbuf></deadlock>"

def redactedNameWithReturn : String :=
  "<deadlock><inputbuf>SELECT [a\rb]</inputbuf></deadlock>"

/-- A carriage return in a quoted name is kept by redaction and read as a line feed. -/
theorem return_in_name_is_not_read_back :
    redactDocument {} nameWithReturn = .ok redactedNameWithReturn ∧
      ∃ root n root' e, parse nameWithReturn = .ok root ∧ n ∈ statementNodes [] root ∧
        parse redactedNameWithReturn = .ok root' ∧ e ∈ root'.descendants ∧
        contentStretch? redactedNameWithReturn.toList e = some (20, 32) ∧
        redactedNameWithReturn.toList.extract 20 32 = replacementFor {} n.textContent ∧
        e.descendants.flatMap Node.ownText ≠
          (RedactionOptions.normalize {} n.textContent).redacted.toList := by
  have hchecked : (parse nameWithReturn).toOption.any (fun root =>
      (statementNodes [] root).any fun n =>
        (parse redactedNameWithReturn).toOption.any fun root' => root'.descendants.any fun e =>
          decide (contentStretch? redactedNameWithReturn.toList e = some (20, 32) ∧
            redactedNameWithReturn.toList.extract 20 32 = replacementFor {} n.textContent ∧
            e.descendants.flatMap Node.ownText ≠
              (RedactionOptions.normalize {} n.textContent).redacted.toList)) = true := by
    decide +kernel
  obtain ⟨root, haccepted, hstatement⟩ := Text.exists_ok_of_any hchecked
  obtain ⟨n, hmember, hagain⟩ := List.any_eq_true.mp hstatement
  obtain ⟨root', haccepted', hsome⟩ := Text.exists_ok_of_any hagain
  obtain ⟨e, hinside, hdiffers⟩ := List.any_eq_true.mp hsome
  exact ⟨by decide +kernel, root, n, root', e, haccepted, hmember, haccepted', hinside,
    of_decide_eq_true hdiffers⟩

end DeadlockCapture.Report
