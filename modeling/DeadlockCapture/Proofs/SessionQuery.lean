import DeadlockCapture.Proofs.Sql.Composition
import DeadlockCapture.Proofs.Sql.Literals
import DeadlockCapture.Source.RingBuffer

/-!
The query for a session, as the lexer divides it. The name of the session is the body of one text
literal, and a name that is accepted has no quote to end the literal with. So the tokens around the
literal are the same for all sessions.
-/

namespace DeadlockCapture.Source.RingBuffer

open Sql

/-- The name of a session, as it stands in the query. -/
def nameLiteral (name : String) : List Char :=
  ['N', '\x27'] ++ name.toList ++ ['\x27']

/-! ### Accepted names -/

theorem sessionQuery_eq_ok_iff {name query : String} :
    sessionQuery name = .ok query ↔
      isSessionName name = true ∧ query = queryHead ++ name ++ queryTail := by
  rw [sessionQuery]
  cases hplain : isSessionName name with
  | false => simp only [Bool.false_eq_true, if_false, reduceCtorEq, false_and]
  | true => rw [if_pos rfl, Except.ok.injEq, eq_comm, eq_self, true_and]

theorem ne_quote_of_isPlain {c : Char} (h : isPlain c = true) : c ≠ '\x27' := by
  rintro rfl
  exact absurd h (by decide)

theorem quotesDoubled_of_forall_ne {body : List Char} (h : ∀ c ∈ body, c ≠ '\x27') :
    QuotesDoubled body := by
  induction body with
  | nil => exact .nil
  | cons c body ih =>
      obtain ⟨hplain, hrest⟩ := List.forall_mem_cons.mp h
      exact .other hplain (ih hrest)

theorem quotesDoubled_of_isSessionName {name : String} (h : isSessionName name = true) :
    QuotesDoubled name.toList := by
  obtain ⟨-, hplain⟩ := (Bool.and_eq_true _ _).mp h
  exact quotesDoubled_of_forall_ne fun c hmember =>
    ne_quote_of_isPlain (List.all_eq_true.mp hplain c hmember)

/-! ### The lexemes of a query -/

/-- The query without a name is divided into an empty literal and lexemes around it. -/
theorem exists_surroundings :
    ∃ before after, textOf before ++ ['N', '\x27'] = queryHead.toList ∧
      '\x27' :: textOf after = queryTail.toList ∧
      Readable (before ++ ⟨.token .text, ['N', '\x27'] ++ [] ++ ['\x27']⟩ :: after) := by
  obtain ⟨empty, hempty⟩ : ∃ l : Lexeme, l = ⟨.token .text, ['N', '\x27'] ++ [] ++ ['\x27']⟩ :=
    ⟨_, rfl⟩
  have hchecked : (lexemes (queryHead.toList ++ queryTail.toList)).toOption.any (fun ls =>
      decide (empty ∈ ls ∧
        textOf (ls.takeWhile (· ≠ empty)) ++ ['N', '\x27'] = queryHead.toList)) = true := by
    rw [hempty]
    -- The kernel is quick with a text once it is a list of characters.
    delta queryHead queryTail
    repeat rewrite [String.toList_append]
    repeat rewrite [String.toList_ofList]
    decide +kernel
  cases hfound : lexemes (queryHead.toList ++ queryTail.toList) with
  | error e =>
      rw [hfound] at hchecked
      cases hchecked
  | ok ls =>
      rw [hfound] at hchecked
      obtain ⟨hmember, hhead⟩ := of_decide_eq_true hchecked
      obtain ⟨hwhole, hreadable⟩ := lexemes_eq_ok_iff.mp hfound
      obtain ⟨before, after, rfl, hothers⟩ := List.eq_append_cons_of_mem hmember
      have hfront : (before ++ empty :: after).takeWhile (· ≠ empty) = before := by
        rw [List.takeWhile_append_of_pos
          (by simpa using fun l hinside => ne_of_mem_of_not_mem hinside hothers)]
        simp
      rw [hfront] at hhead
      rw [textOf_append, textOf_cons, ← hhead, hempty] at hwhole
      refine ⟨before, after, hhead, ?_, hempty ▸ hreadable⟩
      simpa using hwhole

/-- For every session the query has the same lexemes around the name. -/
theorem lexemes_sessionQuery :
    ∃ before after, ∀ name query, sessionQuery name = .ok query →
      query.toList = textOf before ++ nameLiteral name ++ textOf after ∧
        Readable (before ++ ⟨.token .text, nameLiteral name⟩ :: after) := by
  obtain ⟨before, after, hhead, htail, hreadable⟩ := exists_surroundings
  refine ⟨before, after, fun name query haccepted => ⟨?_, hreadable.replace ?_ ?_⟩⟩
  · obtain ⟨-, rfl⟩ := sessionQuery_eq_ok_iff.mp haccepted
    rw [String.toList_append, String.toList_append, ← hhead, ← htail, nameLiteral]
    simp
  · obtain ⟨hplain, -⟩ := sessionQuery_eq_ok_iff.mp haccepted
    have hdoubled := quotesDoubled_of_isSessionName hplain
    have hamong : ['N', '\x27'] ∈ openings := by simp [openings]
    have hends := ((text_stands_iff hamong).mp hreadable.of_append.1).2
    exact (text_stands_iff hamong).mpr ⟨quotedLength_of_doubled hdoubled, hends⟩
  · exact alike_of_quiet (by decide) _ _

/-- A name that is accepted stays in its literal: the queries for two sessions have the same tokens
but for the one literal that is the name, and so one normal form. -/
theorem session_name_is_one_literal {a b queryA queryB : String}
    (hacceptedA : sessionQuery a = .ok queryA) (hacceptedB : sessionQuery b = .ok queryB) :
    (∃ before spaced after,
      tokens queryA.toList = .ok (before ++ ⟨.text, nameLiteral a, spaced⟩ :: after) ∧
        tokens queryB.toList = .ok (before ++ ⟨.text, nameLiteral b, spaced⟩ :: after)) ∧
      ∀ o : RedactionOptions, o.normalize queryA = o.normalize queryB := by
  obtain ⟨before, after, hfound⟩ := lexemes_sessionQuery
  obtain ⟨spaced, hsplit⟩ := tokensAfter_append_token false before .text after
  have hdivided {name query : String} (haccepted : sessionQuery name = .ok query) :
      lexemes query.toList = .ok (before ++ ⟨.token .text, nameLiteral name⟩ :: after) := by
    obtain ⟨hwhole, hreadable⟩ := hfound name query haccepted
    refine lexemes_eq_ok_iff.mpr ⟨?_, hreadable⟩
    rw [hwhole, textOf_append, textOf_cons, List.append_assoc]
  have htokensOf {name query : String} (haccepted : sessionQuery name = .ok query) :
      tokens query.toList = .ok
        (tokensAfter false before ++ ⟨.text, nameLiteral name, spaced⟩ ::
          tokensAfter false after) := by
    rw [tokens, hdivided haccepted, ← hsplit]
    rfl
  refine ⟨⟨_, spaced, _, htokensOf hacceptedA, htokensOf hacceptedB⟩, fun o => ?_⟩
  obtain ⟨hwhole, hreadable⟩ := hfound b queryB hacceptedB
  have hreplaced := normalize_replace (o := o) (hdivided hacceptedA) hreadable.of_append.1
    (alike_of_quiet (by decide) _ _) fun gap => rfl
  rw [← hreplaced, ← hwhole, String.ofList_toList]

/-- A name with what would start a comment and a number if it stood outside the literal. -/
theorem dashed_session_name_is_one_literal :
    (sessionQuery "datadog" = .ok (queryHead ++ "datadog" ++ queryTail) ∧
      sessionQuery "--0x_N" = .ok (queryHead ++ "--0x_N" ++ queryTail)) ∧
    (∃ before spaced after,
      tokens (queryHead ++ "datadog" ++ queryTail).toList =
          .ok (before ++ ⟨.text, nameLiteral "datadog", spaced⟩ :: after) ∧
        tokens (queryHead ++ "--0x_N" ++ queryTail).toList =
          .ok (before ++ ⟨.text, nameLiteral "--0x_N", spaced⟩ :: after)) ∧
      ∀ o : RedactionOptions, o.normalize (queryHead ++ "datadog" ++ queryTail) =
        o.normalize (queryHead ++ "--0x_N" ++ queryTail) := by
  have hfirst : sessionQuery "datadog" = .ok (queryHead ++ "datadog" ++ queryTail) :=
    sessionQuery_eq_ok_iff.mpr ⟨by decide, rfl⟩
  have hsecond : sessionQuery "--0x_N" = .ok (queryHead ++ "--0x_N" ++ queryTail) :=
    sessionQuery_eq_ok_iff.mpr ⟨by decide, rfl⟩
  exact ⟨⟨hfirst, hsecond⟩, session_name_is_one_literal hfirst hsecond⟩

end DeadlockCapture.Source.RingBuffer
