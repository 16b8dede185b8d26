import DeadlockCapture.Proofs.Sql.Composition
import Mathlib.Control.Monad.Basic

/-!
Separators between statements. A line break, blanks and complete comments end whatever stands in
front of them, and the lexer goes on behind them as at the start of a text.
-/

namespace DeadlockCapture.Sql

open DeadlockCapture.Text

/-! ### Complete comments -/

/-- What stands behind the opening of a comment, up to its end. A comment inside is complete; any
other character neither opens a comment nor closes one. -/
inductive CommentBody : List Char → Prop
  | close : CommentBody ['*', '/']
  | nested {inner rest : List Char} : CommentBody inner → CommentBody rest →
      CommentBody ('/' :: '*' :: (inner ++ rest))
  | other {c : Char} {rest : List Char} : ¬ ['/', '*'] <+: c :: rest → ¬ ['*', '/'] <+: c :: rest →
      CommentBody rest → CommentBody (c :: rest)

theorem CommentBody.ne_nil {body : List Char} (h : CommentBody body) : body ≠ [] := by
  cases h <;> exact List.cons_ne_nil _ _

/-- A character that neither opens nor closes a comment is passed over. -/
theorem commentLength_other {depth : Nat} {c : Char} {s : List Char}
    (hopens : ¬ ['/', '*'] <+: c :: s) (hcloses : ¬ ['*', '/'] <+: c :: s) :
    commentLength depth (c :: s) = (commentLength depth s).map (· + 1) := by
  apply commentLength.eq_5
  · rintro t rfl rfl
    exact hopens ⟨t, rfl⟩
  · rintro t - rfl rfl
    exact hcloses ⟨t, rfl⟩
  · rintro n t - rfl rfl
    exact hcloses ⟨t, rfl⟩

/-- Which two characters a text starts with is known from two characters. -/
theorem pair_prefix_append_iff {a b c : Char} {s : List Char} (hsome : s ≠ []) (r : List Char) :
    [a, b] <+: c :: (s ++ r) ↔ [a, b] <+: c :: s := by
  obtain ⟨d, t, rfl⟩ := List.exists_cons_of_ne_nil hsome
  simp [List.cons_prefix_cons]

/-- The end of a comment's body closes one comment, whatever follows. -/
theorem CommentBody.length_append {body : List Char} (h : CommentBody body) (r : List Char) :
    commentLength 0 (body ++ r) = some body.length ∧
      ∀ depth, commentLength (depth + 1) (body ++ r) =
        (commentLength depth r).map (· + body.length) := by
  induction h generalizing r with
  | close => exact ⟨rfl, fun depth => rfl⟩
  | @nested inner rest _ _ ih ihRest =>
      have hfirst := (ih (rest ++ r)).2
      have hlast := ihRest r
      refine ⟨?_, fun depth => ?_⟩
      · rw [List.cons_append, List.cons_append, List.append_assoc, commentLength, hfirst, hlast.1]
        simp
        omega
      · rw [List.cons_append, List.cons_append, List.append_assoc, commentLength, hfirst, hlast.2]
        cases commentLength depth r with
        | none => rfl
        | some n => simp; omega
  | @other c rest hopens hcloses h ih =>
      have hopens' := mt (pair_prefix_append_iff h.ne_nil r).mp hopens
      have hcloses' := mt (pair_prefix_append_iff h.ne_nil r).mp hcloses
      refine ⟨?_, fun depth => ?_⟩
      · rw [List.cons_append, commentLength_other hopens' hcloses', (ih r).1]
        rfl
      · rw [List.cons_append, commentLength_other hopens' hcloses', (ih r).2]
        cases commentLength depth r with
        | none => rfl
        | some n => simp; omega

/-- Up to the ends of a comment and of the comments around it, a text consists of as many bodies. -/
theorem exists_bodies {depth n : Nat} {s : List Char} (h : commentLength depth s = some n) :
    ∃ (bodies : List (List Char)) (r : List Char), s = bodies.flatten ++ r ∧
      n = bodies.flatten.length ∧ bodies.length = depth + 1 ∧ ∀ b ∈ bodies, CommentBody b := by
  fun_induction commentLength depth s generalizing n with
  | case1 => cases h
  | case2 depth t ih =>
      obtain ⟨m, hfound, rfl⟩ := Option.map_eq_some_iff.mp h
      obtain ⟨bodies, r, rfl, rfl, hcount, hall⟩ := ih hfound
      obtain ⟨inner, bodies, rfl⟩ := List.exists_cons_of_length_eq_add_one hcount
      obtain ⟨rest, bodies, rfl⟩ := List.exists_cons_of_length_eq_add_one (Nat.succ.inj hcount)
      simp only [List.forall_mem_cons] at hall
      refine ⟨('/' :: '*' :: (inner ++ rest)) :: bodies, r, by simp, by simp, ?_, ?_⟩
      · simpa using hcount
      · exact List.forall_mem_cons.mpr ⟨.nested hall.1 hall.2.1, hall.2.2⟩
  | case3 t =>
      cases h
      exact ⟨[['*', '/']], t, rfl, rfl, rfl, List.forall_mem_singleton.mpr .close⟩
  | case4 depth t ih =>
      obtain ⟨m, hfound, rfl⟩ := Option.map_eq_some_iff.mp h
      obtain ⟨bodies, r, rfl, rfl, hcount, hall⟩ := ih hfound
      exact ⟨['*', '/'] :: bodies, r, rfl, rfl, congrArg (· + 1) hcount,
        List.forall_mem_cons.mpr ⟨.close, hall⟩⟩
  | case5 depth c t hopens hcloses hclosesOuter ih =>
      obtain ⟨m, hfound, rfl⟩ := Option.map_eq_some_iff.mp h
      obtain ⟨bodies, r, rfl, rfl, hcount, hall⟩ := ih hfound
      obtain ⟨body, bodies, rfl⟩ := List.exists_cons_of_length_eq_add_one hcount
      obtain ⟨hfirst, hrest⟩ := List.forall_mem_cons.mp hall
      refine ⟨(c :: body) :: bodies, r, rfl, rfl, hcount, List.forall_mem_cons.mpr ⟨?_, hrest⟩⟩
      refine .other ?_ ?_ hfirst
      · rintro ⟨u, hsame⟩
        obtain ⟨rfl, rfl⟩ := List.cons.inj hsame
        exact hopens _ rfl rfl
      · rintro ⟨u, hsame⟩
        obtain ⟨rfl, rfl⟩ := List.cons.inj hsame
        cases depth with
        | zero => exact hcloses _ rfl rfl rfl
        | succ depth => exact hclosesOuter depth _ rfl rfl rfl

/-- The comment that is opened in front of a text ends behind the body that the text starts with. -/
theorem commentLength_eq_iff {body r : List Char} :
    commentLength 0 (body ++ r) = some body.length ↔ CommentBody body := by
  constructor
  · intro h
    obtain ⟨bodies, r', hsplit, hlength, hcount, hall⟩ := exists_bodies h
    obtain ⟨b, rfl⟩ := List.length_eq_one_iff.mp hcount
    rw [List.flatten_singleton] at hsplit hlength
    rw [(List.append_inj hsplit hlength).1]
    exact hall b List.mem_cons_self
  · exact fun h => (h.length_append r).1

/-! ### Gaps -/

/-- Blanks and complete comments. A comment that goes on to the end of its line comes with the line
break. -/
inductive IsGap : List Char → Prop
  | nil : IsGap []
  | blank {c : Char} {r : List Char} : isBlank c = true → IsGap r → IsGap (c :: r)
  | block {body r : List Char} : CommentBody body → IsGap r → IsGap ('/' :: '*' :: (body ++ r))
  | line {body r : List Char} : '\n' ∉ body → IsGap r → IsGap ('-' :: '-' :: (body ++ '\n' :: r))

def Lexeme.Separates (l : Lexeme) : Prop :=
  l.kind = .blank ∨ l.kind = .comment

theorem stands_block {body : List Char} (h : CommentBody body) (r : List Char) :
    Lexeme.Stands ⟨.comment, '/' :: '*' :: body⟩ r := by
  refine stands_cons_iff.mpr (leading_comment_iff.mpr (.inr ⟨rfl, rfl, ?_⟩))
  rw [List.cons_append, List.tail_cons, commentLength_eq_iff.mpr h]
  rfl

theorem stands_line {body r : List Char} (h : '\n' ∉ body) (hline : ∀ c ∈ r.head?, c = '\n') :
    Lexeme.Stands ⟨.comment, '-' :: '-' :: body⟩ r := by
  refine stands_cons_iff.mpr (leading_comment_iff.mpr (.inl ⟨rfl, rfl, ?_⟩))
  refine run_eq_length_iff.mpr ⟨List.forall_mem_cons.mpr ⟨by decide, ?_⟩, by simpa using hline⟩
  intro c hc
  have hother : c ≠ '\n' := ne_of_mem_of_not_mem hc h
  simpa using hother

/-- The lexer finds nothing but blanks and comments in a gap, whatever follows. -/
theorem IsGap.lexemes {gap : List Char} (h : IsGap gap) (r : List Char) :
    ∃ ls, textOf ls = gap ∧ ReadableBefore r ls ∧ ∀ l ∈ ls, l.Separates := by
  induction h with
  | nil => exact ⟨[], rfl, trivial, by simp⟩
  | @blank c gap hblank h ih =>
      obtain ⟨ls, rfl, hreadable, hall⟩ := ih
      exact ⟨⟨.blank, [c]⟩ :: ls, rfl, ⟨stands_blank hblank _, hreadable⟩,
        List.forall_mem_cons.mpr ⟨.inl rfl, hall⟩⟩
  | @block body gap hclosed h ih =>
      obtain ⟨ls, rfl, hreadable, hall⟩ := ih
      exact ⟨⟨.comment, '/' :: '*' :: body⟩ :: ls, rfl, ⟨stands_block hclosed _, hreadable⟩,
        List.forall_mem_cons.mpr ⟨.inr rfl, hall⟩⟩
  | @line body gap hinside h ih =>
      obtain ⟨ls, rfl, hreadable, hall⟩ := ih
      refine ⟨⟨.comment, '-' :: '-' :: body⟩ :: ⟨.blank, ['\n']⟩ :: ls, rfl, ⟨?_, ?_, hreadable⟩,
        ?_⟩
      · exact stands_line hinside fun c hc => (Option.some.inj hc).symm
      · exact stands_blank (by decide) _
      · exact List.forall_mem_cons.mpr ⟨.inr rfl, List.forall_mem_cons.mpr ⟨.inl rfl, hall⟩⟩

/-- Blanks and comments in front of a text only set the first of its tokens apart. -/
theorem tokensAfter_separated {ls : List Lexeme} (hall : ∀ l ∈ ls, l.Separates) (ms : List Lexeme) :
    tokensAfter true (ls ++ ms) = tokensAfter true ms := by
  induction ls with
  | nil => rfl
  | cons l ls ih =>
      obtain ⟨hfirst, hrest⟩ := List.forall_mem_cons.mp hall
      rw [List.cons_append, tokensAfter_gap hfirst, ih hrest]

/-- A gap stands before the first token. -/
def spacedFirst : List Token → List Token
  | [] => []
  | t :: r => { t with spaced := true } :: r

theorem tokensAfter_true (gap : Bool) (ls : List Lexeme) :
    tokensAfter true ls = spacedFirst (tokensAfter gap ls) := by
  induction ls generalizing gap with
  | nil => rfl
  | cons l ls ih =>
      obtain ⟨kind, text⟩ := l
      cases kind with
      | blank => exact ih true
      | comment => exact ih true
      | token kind => rfl

/-! ### Statements on both sides of a gap -/

/-- Every lexeme of a statement ends before a line break, also a comment to the end of its line. -/
theorem Readable.before_line {ls : List Lexeme} (hreadable : Readable ls) (s : List Char) :
    ReadableBefore ('\n' :: s) ls := by
  have hcalm : Calmer [] ('\n' :: s) := Calmer.of_inert fun d hd => by
    cases hd
    exact .inl (by decide)
  refine (readableBefore_nil_iff.mpr hreadable).calmer hcalm fun _ c hc => ?_
  cases hc
  rfl

/-- The same fault in a text that stands behind `n` more bytes. -/
def Unclosed.behind (n : Nat) (e : Unclosed) : Unclosed :=
  { e with offset := n + e.offset }

/-- The lexer does the same at every offset. -/
theorem lexemesFrom_add (n offset : Nat) (s : List Char) :
    lexemesFrom (n + offset) s = (lexemesFrom offset s).mapError (Unclosed.behind n) := by
  fun_induction lexemesFrom offset s with
  | case1 => simp [lexemesFrom.eq_def, Except.mapError]
  | case2 offset c r construct hfound =>
      rw [lexemesFrom_cons, hfound]
      rfl
  | case3 offset c r kind m hfound e hlater ih =>
      rw [lexemesFrom_cons, hfound]
      simp only
      rw [Nat.add_assoc, ih, hlater]
      rfl
  | case4 offset c r kind m hfound rest hlater ih =>
      rw [lexemesFrom_cons, hfound]
      simp only
      rw [Nat.add_assoc, ih, hlater]
      rfl

theorem utf8Length_eq (s : List Char) : utf8Length s = (String.ofList s).utf8ByteSize := by
  induction s with
  | nil => rfl
  | cons c s ih =>
      rw [String.ofList_cons, String.utf8ByteSize_append, ← ih, String.utf8ByteSize_singleton]
      rfl

/-- The lexemes in front of a separator and in it, and where the lexer goes on behind it. -/
theorem lexemes_around_gap {ls : List Lexeme} (hreadable : Readable ls) {gap : List Char}
    (hgap : IsGap gap) (b : List Char) :
    ∃ gs, (∀ l ∈ gs, l.Separates) ∧ lexemes (textOf ls ++ '\n' :: gap ++ b) =
      ((lexemes b).mapError
          (Unclosed.behind (String.ofList (textOf ls ++ '\n' :: gap)).utf8ByteSize)).map
        (ls ++ ⟨.blank, ['\n']⟩ :: gs ++ ·) := by
  obtain ⟨gs, rfl, hinGap, hseparates⟩ := hgap.lexemes b
  refine ⟨gs, hseparates, ?_⟩
  have hfront : ReadableBefore b (ls ++ ⟨.blank, ['\n']⟩ :: gs) :=
    readableBefore_append.mpr ⟨hreadable.before_line _, stands_blank (by decide) _, hinGap⟩
  have htext : textOf (ls ++ ⟨.blank, ['\n']⟩ :: gs) = textOf ls ++ '\n' :: textOf gs :=
    textOf_append _ _
  rw [← htext, ← utf8Length_eq, lexemes, lexemesFrom_append hfront, Nat.add_comm, lexemesFrom_add]
  rfl

/-- A text behind another text and a separator has the tokens it has alone, or the same fault
further on. The separator starts with a line break, and its first line ends whatever the text in
front of it leaves open. -/
theorem tokens_around_gap {a gap : List Char} {ts : List Token} (hdivided : tokens a = .ok ts)
    (hgap : IsGap gap) (b : List Char) :
    (∀ us, tokens b = .ok us → tokens (a ++ '\n' :: gap ++ b) = .ok (ts ++ spacedFirst us)) ∧
      ∀ e, tokens b = .error e → tokens (a ++ '\n' :: gap ++ b) =
        .error ⟨e.construct, (String.ofList (a ++ '\n' :: gap)).utf8ByteSize + e.offset⟩ := by
  obtain ⟨ls, rfl, hreadable, rfl⟩ := tokens_eq_ok_iff.mp hdivided
  obtain ⟨gs, hseparates, hwhole⟩ := lexemes_around_gap hreadable hgap b
  rw [tokens, tokens, hwhole]
  cases lexemes b with
  | error e =>
      refine ⟨fun us hfound => (by cases hfound), fun e' hfailed => ?_⟩
      cases hfailed
      rfl
  | ok ms =>
      refine ⟨fun us hfound => ?_, fun e hfailed => (by cases hfailed)⟩
      cases hfound
      have hafter : tokensAfter false (ls ++ ⟨.blank, ['\n']⟩ :: gs ++ ms) =
          tokensAfter false ls ++ spacedFirst (tokensAfter false ms) := by
        rw [List.append_assoc, List.cons_append, tokensAfter_append_blank,
          tokensAfter_separated hseparates, tokensAfter_true false]
      exact congrArg Except.ok hafter

def sampleGap : List Char :=
  "\t--c'\n/* /* é */ [ */".toList

/-- The first text ends in a comment, and so does the gap after the line break. -/
theorem texts_around_comments :
    (tokens "a -- 'b".toList = .ok [⟨.word, ['a'], false⟩] ∧ IsGap sampleGap ∧
      tokens ".5".toList = .ok [⟨.number, ['.', '5'], false⟩] ∧
      tokens "x 'y".toList = .error ⟨.text, 2⟩) ∧
    tokens ("a -- 'b".toList ++ '\n' :: sampleGap ++ ".5".toList) =
        .ok [⟨.word, ['a'], false⟩, ⟨.number, ['.', '5'], true⟩] ∧
      tokens ("a -- 'b".toList ++ '\n' :: sampleGap ++ "x 'y".toList) = .error ⟨.text, 32⟩ := by
  have hdivided : tokens "a -- 'b".toList = .ok [⟨.word, ['a'], false⟩] := by decide +kernel
  have hinner : CommentBody " é */".toList :=
    .other (by decide) (by decide)
      (.other (by decide) (by decide) (.other (by decide) (by decide) .close))
  have hrest : CommentBody " [ */".toList :=
    .other (by decide) (by decide)
      (.other (by decide) (by decide) (.other (by decide) (by decide) .close))
  have hbody : CommentBody " /* é */ [ */".toList :=
    .other (by decide) (by decide) (.nested hinner hrest)
  have hgap : IsGap sampleGap :=
    .blank (by decide) (@IsGap.line "c'".toList _ (by decide) (.block hbody .nil))
  have hnumber : tokens ".5".toList = .ok [⟨.number, ['.', '5'], false⟩] := by decide +kernel
  have hfault : tokens "x 'y".toList = .error ⟨.text, 2⟩ := by decide +kernel
  have hbytes : (String.ofList ("a -- 'b".toList ++ '\n' :: sampleGap)).utf8ByteSize = 30 := by
    decide +kernel
  have hlater := (tokens_around_gap hdivided hgap _).2 _ hfault
  rw [hbytes] at hlater
  exact ⟨⟨hdivided, hgap, hnumber, hfault⟩, (tokens_around_gap hdivided hgap _).1 _ hnumber, hlater⟩

end DeadlockCapture.Sql
