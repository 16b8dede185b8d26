import DeadlockCapture.Proofs.Json.Reading

/-!
A reader finds what was written, whatever blanks are laid between the parts. The compact text and
the text with one member a line are two layouts of one value, so both are read as the same reading.
-/

namespace DeadlockCapture.Json

open DeadlockCapture.Text

/-- The blanks in front of what stands at a depth, and those after a colon. -/
structure Layout where
  line : Nat → List Char
  space : List Char
  blank_line : ∀ depth, ∀ c ∈ line depth, isSeparator c = true
  blank_space : ∀ c ∈ space, isSeparator c = true

namespace Layout

def compact : Layout where
  line _ := []
  space := []
  blank_line _ _ h := by cases h
  blank_space _ h := by cases h

def pretty : Layout where
  line := newLine
  space := [' ']
  blank_line depth c h := by
    rcases List.mem_cons.1 h with rfl | h
    · rfl
    · rw [List.eq_of_mem_replicate h]
      rfl
  blank_space c h := by
    rw [List.mem_singleton.1 h]
    rfl

@[simp] theorem line_compact (depth : Nat) : compact.line depth = [] := rfl
@[simp] theorem space_compact : compact.space = [] := rfl
@[simp] theorem line_pretty (depth : Nat) : pretty.line depth = newLine depth := rfl
@[simp] theorem space_pretty : pretty.space = [' '] := rfl

end Layout

mutual

/-- The text of a value that stands at a depth. -/
def laidOut (l : Layout) (depth : Nat) : Json → List Char
  | .null => ['n', 'u', 'l', 'l']
  | .bool true => ['t', 'r', 'u', 'e']
  | .bool false => ['f', 'a', 'l', 's', 'e']
  | .whole n => wholeText n
  | .real x => Decimal.scientificText x
  | .text s => quote s
  | .list [] => ['[', ']']
  | .list (item :: rest) =>
    '[' :: (l.line (depth + 1) ++ (laidOut l (depth + 1) item ++ laidOutItems l depth rest))
  | .record [] => ['\x7b', '\x7d']
  | .record ((name, value) :: rest) =>
    '\x7b' :: (l.line (depth + 1) ++ (quote name ++
      ':' :: (l.space ++ (laidOut l (depth + 1) value ++ laidOutMembers l depth rest))))

def laidOutItems (l : Layout) (depth : Nat) : List Json → List Char
  | [] => l.line depth ++ [']']
  | item :: rest =>
    ',' :: (l.line (depth + 1) ++ (laidOut l (depth + 1) item ++ laidOutItems l depth rest))

def laidOutMembers (l : Layout) (depth : Nat) : List (String × Json) → List Char
  | [] => l.line depth ++ ['\x7d']
  | (name, value) :: rest =>
    ',' :: (l.line (depth + 1) ++ (quote name ++
      ':' :: (l.space ++ (laidOut l (depth + 1) value ++ laidOutMembers l depth rest))))

end

mutual

theorem laidOut_compact (depth : Nat) :
    ∀ j : Json, laidOut .compact depth j = compactChars j
  | .null | .bool true | .bool false | .whole _ | .real _ | .text _ | .list [] | .record [] => rfl
  | .list (item :: rest) => by
    simp only [laidOut, compactChars, laidOut_compact (depth + 1) item,
      laidOutItems_compact depth rest, Layout.line_compact, List.nil_append, List.cons_append]
  | .record ((name, value) :: rest) => by
    simp only [laidOut, compactChars, laidOut_compact (depth + 1) value,
      laidOutMembers_compact depth rest, Layout.line_compact, Layout.space_compact, List.nil_append,
      List.cons_append, List.append_assoc]

theorem laidOutItems_compact (depth : Nat) :
    ∀ items : List Json, laidOutItems .compact depth items = compactItems items
  | [] => rfl
  | item :: rest => by
    simp only [laidOutItems, compactItems, laidOut_compact (depth + 1) item,
      laidOutItems_compact depth rest, Layout.line_compact, List.nil_append, List.cons_append]

theorem laidOutMembers_compact (depth : Nat) :
    ∀ members : List (String × Json), laidOutMembers .compact depth members = compactMembers members
  | [] => rfl
  | (name, value) :: rest => by
    simp only [laidOutMembers, compactMembers, laidOut_compact (depth + 1) value,
      laidOutMembers_compact depth rest, Layout.line_compact, Layout.space_compact, List.nil_append,
      List.cons_append, List.append_assoc]

end

mutual

theorem laidOut_pretty (depth : Nat) : ∀ j : Json, laidOut .pretty depth j = prettyChars depth j
  | .null | .bool true | .bool false | .whole _ | .real _ | .text _ | .list [] | .record [] => rfl
  | .list (item :: rest) => by
    simp only [laidOut, prettyChars, laidOut_pretty (depth + 1) item,
      laidOutItems_pretty depth rest, Layout.line_pretty, List.cons_append, List.append_assoc]
  | .record ((name, value) :: rest) => by
    simp only [laidOut, prettyChars, laidOut_pretty (depth + 1) value,
      laidOutMembers_pretty depth rest, Layout.line_pretty, Layout.space_pretty, List.nil_append,
      List.cons_append, List.append_assoc]

theorem laidOutItems_pretty (depth : Nat) :
    ∀ items : List Json, laidOutItems .pretty depth items = prettyItems depth items
  | [] => rfl
  | item :: rest => by
    simp only [laidOutItems, prettyItems, laidOut_pretty (depth + 1) item,
      laidOutItems_pretty depth rest, Layout.line_pretty, List.cons_append, List.append_assoc]

theorem laidOutMembers_pretty (depth : Nat) :
    ∀ members : List (String × Json),
      laidOutMembers .pretty depth members = prettyMembers depth members
  | [] => rfl
  | (name, value) :: rest => by
    simp only [laidOutMembers, prettyMembers, laidOut_pretty (depth + 1) value,
      laidOutMembers_pretty depth rest, Layout.line_pretty, Layout.space_pretty, List.nil_append,
      List.cons_append, List.append_assoc]

end

mutual

/-- What a reader finds where a value is written. -/
def reading : Json → Reading
  | .null => .null
  | .bool b => .bool b
  | .whole n => .number (numeralOf n)
  | .real x => (readValue 1 (Decimal.scientificText x)).1
  | .text s => .text (unitsOf s)
  | .list items => .list (itemReadings items) none
  | .record members => .record (memberReadings members) none

def itemReadings : List Json → List Reading
  | [] => []
  | item :: rest => reading item :: itemReadings rest

def memberReadings : List (String × Json) → List (List TextUnit × Reading)
  | [] => []
  | (name, value) :: rest => (unitsOf name, reading value) :: memberReadings rest

end

theorem itemReadings_eq_map (items : List Json) : itemReadings items = items.map reading := by
  induction items with
  | nil => rfl
  | cons item rest ih => rw [itemReadings, ih, List.map_cons]

theorem memberReadings_eq_map (members : List (String × Json)) :
    memberReadings members = members.map fun m => (unitsOf m.1, reading m.2) := by
  induction members with
  | nil => rfl
  | cons member rest ih => rw [memberReadings, ih, List.map_cons]

section Steps

variable {blanks s rest : List Char} {fuel : Nat}

theorem skipBlank_append (h : ∀ c ∈ blanks, isSeparator c = true) (s : List Char) :
    skipBlank (blanks ++ s) = skipBlank s :=
  List.dropWhile_append_of_pos h

theorem no_blank : ∀ c ∈ ([] : List Char), isSeparator c = true :=
  nofun

theorem skipBlank_cons {c : Char} (h : isSeparator c = false) (s : List Char) :
    skipBlank (c :: s) = c :: s :=
  List.dropWhile_cons_of_neg (by simp [h])

theorem endsNumber_cons {c : Char} (h : c.isDigit = false ∧ c ≠ '.' ∧ c ≠ 'e' ∧ c ≠ 'E')
    (s : List Char) : EndsNumber (c :: s) := by
  intro d hd
  obtain rfl : c = d := by simpa using hd
  exact h

theorem endsNumber_append (h : ∀ c ∈ blanks, isSeparator c = true) (hs : EndsNumber s) :
    EndsNumber (blanks ++ s) := by
  cases blanks with
  | nil => exact hs
  | cons c r =>
      have hblank := h c List.mem_cons_self
      have hdigit : c.isDigit = false := by
        rw [Bool.eq_false_iff]
        intro hdigit
        rw [isSeparator_of_isDigit hdigit] at hblank
        cases hblank
      refine endsNumber_cons ⟨hdigit, ?_, ?_, ?_⟩ _ <;> rintro rfl <;> cases hblank

/-- A text starts with neither a blank nor the end of a list. -/
def Opens (s : List Char) : Prop :=
  ∃ c r, s = c :: r ∧ isSeparator c = false ∧ c ≠ ']'

theorem readValue_append (h : ∀ c ∈ blanks, isSeparator c = true) :
    readValue fuel (blanks ++ s) = readValue fuel s := by
  cases fuel with
  | zero => rw [readValue, readValue]
  | succ fuel => rw [readValue, readValue, skipBlank_append h]

theorem readWord_append (word : List Char) (value : Reading) (rest : List Char) :
    readWord word value (word ++ rest) = (value, some rest) := by
  induction word with
  | nil => rw [List.nil_append, readWord]
  | cons c word ih => rw [List.cons_append, readWord, if_pos rfl, ih]

theorem quote_append (s : String) (rest : List Char) :
    quote s ++ rest = '"' :: (s.toList.flatMap escape ++ '"' :: rest) := by
  simp only [quote, List.cons_append, List.append_assoc, List.nil_append]

theorem readValue_quote (s : String) (rest : List Char) :
    readValue (fuel + 1) (quote s ++ rest) = (.text (unitsOf s), some rest) := by
  rw [quote_append, readValue, skipBlank_cons rfl]
  simp only [Char.reduceEq, if_false, if_true, readText_escapes]
  rfl

theorem readValue_list {items : List Reading} {stop : Option Break} {more : Option (List Char)}
    (h : readItems fuel true s = (items, stop, more)) :
    readValue (fuel + 1) ('[' :: s) = (.list items stop, more) := by
  rw [readValue, skipBlank_cons rfl]
  simp only [Char.reduceEq, if_false, if_true, h]

theorem readValue_record {members : List (List TextUnit × Reading)} {stop : Option Break}
    {more : Option (List Char)} (h : readMembers fuel true s = (members, stop, more)) :
    readValue (fuel + 1) ('\x7b' :: s) = (.record members stop, more) := by
  rw [readValue, skipBlank_cons rfl]
  simp only [if_true, h]

theorem readItems_close (first : Bool) (h : ∀ c ∈ blanks, isSeparator c = true) :
    readItems (fuel + 1) first (blanks ++ ']' :: rest) = ([], none, some rest) := by
  rw [readItems, skipBlank_append h, skipBlank_cons rfl]
  simp only [if_true]

theorem readItem_append (h : ∀ c ∈ blanks, isSeparator c = true) :
    readItem fuel (blanks ++ s) = readItem fuel s := by
  cases fuel with
  | zero => rw [readItem, readItem]
  | succ fuel => rw [readItem, readItem, readValue_append h]

theorem readItem_of_item {item : Reading} {items : List Reading} {stop : Option Break}
    {more : Option (List Char)} (hitem : readValue fuel s = (item, some rest))
    (hitems : readItems fuel false rest = (items, stop, more)) :
    readItem (fuel + 1) s = (item :: items, stop, more) := by
  rw [readItem, hitem]
  simp only [hitems]

theorem readItems_first (h : ∀ c ∈ blanks, isSeparator c = true) (hs : Opens s) :
    readItems (fuel + 1) true (blanks ++ s) = readItem fuel s := by
  obtain ⟨c, r, rfl, hseparator, hclose⟩ := hs
  rw [readItems, skipBlank_append h, skipBlank_cons hseparator]
  simp only [hclose, if_false, if_true]

theorem readItems_comma (h : ∀ c ∈ blanks, isSeparator c = true) :
    readItems (fuel + 1) false (',' :: (blanks ++ s)) = readItem fuel s := by
  rw [readItems, skipBlank_cons rfl]
  simp only [Char.reduceEq, Bool.false_eq_true, if_false, if_true, readItem_append h]

theorem readMembers_close (first : Bool) (h : ∀ c ∈ blanks, isSeparator c = true) :
    readMembers (fuel + 1) first (blanks ++ '\x7d' :: rest) = ([], none, some rest) := by
  rw [readMembers, skipBlank_append h, skipBlank_cons rfl]
  simp only [if_true]

theorem readMember_of_value {name : String} {value : Reading}
    {members : List (List TextUnit × Reading)} {stop : Option Break} {more : Option (List Char)}
    (h : ∀ c ∈ blanks, isSeparator c = true) (hvalue : readValue fuel s = (value, some rest))
    (hmembers : readMembers fuel false rest = (members, stop, more)) :
    readMember (fuel + 1) (name.toList.flatMap escape ++ '"' :: ':' :: (blanks ++ s)) =
      ((unitsOf name, value) :: members, stop, more) := by
  rw [readMember, readText_escapes]
  simp only [skipBlank_cons (c := ':') rfl, if_true, readValue_append h, hvalue, hmembers]
  rfl

theorem readMembers_first (h : ∀ c ∈ blanks, isSeparator c = true) :
    readMembers (fuel + 1) true (blanks ++ '"' :: s) = readMember fuel s := by
  rw [readMembers, skipBlank_append h, skipBlank_cons rfl]
  simp only [Char.reduceEq, if_false, if_true]

theorem readMembers_comma (h : ∀ c ∈ blanks, isSeparator c = true) :
    readMembers (fuel + 1) false (',' :: (blanks ++ '"' :: s)) = readMember fuel s := by
  rw [readMembers, skipBlank_cons rfl]
  simp only [Char.reduceEq, Bool.false_eq_true, if_false, if_true, skipBlank_append h,
    skipBlank_cons (c := '"') rfl]

end Steps

variable {l : Layout}

theorem opens_append {s : List Char} (h : Opens s) (rest : List Char) : Opens (s ++ rest) := by
  obtain ⟨c, r, rfl, hc⟩ := h
  exact ⟨c, r ++ rest, rfl, hc⟩

theorem opens_numeral {n : Numeral} (hn : n.Proper) : Opens n.chars := by
  rw [← List.append_nil n.chars, chars_append]
  cases n.negative with
  | true => exact ⟨'-', _, rfl, rfl, by decide⟩
  | false =>
      obtain ⟨c, r, hcons⟩ := List.exists_cons_of_ne_nil hn.whole_ne_nil
      have hdigit : c.isDigit = true := hn.whole c (hcons ▸ List.mem_cons_self)
      refine ⟨c, r ++ afterWhole n [], by simp [hcons], isSeparator_of_isDigit hdigit, ?_⟩
      rintro rfl
      cases hdigit

theorem opens_laidOut (l : Layout) (depth : Nat) : ∀ j : Json, Opens (laidOut l depth j)
  | .null => ⟨'n', _, rfl, rfl, by decide⟩
  | .bool true => ⟨'t', _, rfl, rfl, by decide⟩
  | .bool false => ⟨'f', _, rfl, rfl, by decide⟩
  | .whole k => by
    rw [laidOut, wholeText_eq]
    exact opens_numeral (proper_numeralOf k)
  | .real x => by
    rw [laidOut]
    rcases scientificText_cases x with hnull | ⟨n, hn, hchars⟩
    · rw [hnull]
      exact ⟨'n', _, rfl, rfl, by decide⟩
    · rw [hchars]
      exact opens_numeral hn
  | .text _ => ⟨'"', _, rfl, rfl, by decide⟩
  | .list [] | .list (_ :: _) => ⟨'[', _, rfl, rfl, by decide⟩
  | .record [] | .record (_ :: _) => ⟨'\x7b', _, rfl, rfl, by decide⟩

theorem endsNumber_items (depth : Nat) (items : List Json) (rest : List Char) :
    EndsNumber (laidOutItems l depth items ++ rest) := by
  cases items with
  | nil =>
      rw [laidOutItems, List.append_assoc]
      exact endsNumber_append (l.blank_line depth) (endsNumber_cons (by decide) _)
  | cons item items =>
      rw [laidOutItems]
      exact endsNumber_cons (by decide) _

theorem endsNumber_members (depth : Nat) (members : List (String × Json)) (rest : List Char) :
    EndsNumber (laidOutMembers l depth members ++ rest) := by
  cases members with
  | nil =>
      rw [laidOutMembers, List.append_assoc]
      exact endsNumber_append (l.blank_line depth) (endsNumber_cons (by decide) _)
  | cons member members =>
      rw [laidOutMembers]
      exact endsNumber_cons (by decide) _

theorem readValue_real (x : Float) {fuel : Nat} {rest : List Char} (hrest : EndsNumber rest) :
    readValue (fuel + 1) (Decimal.scientificText x ++ rest) = (reading (.real x), some rest) := by
  rcases scientificText_cases x with hnull | ⟨n, hn, hchars⟩
  · simp only [reading, hnull]
    rfl
  · have hend : EndsNumber [] := nofun
    have halone := readValue_numeral hn hend 0
    rw [List.append_nil] at halone
    rw [reading, hchars, readValue_numeral hn hrest, halone]

theorem exists_steps {s : List Char} {fuel : Nat} (hs : s ≠ []) (h : 3 * s.length ≤ fuel) :
    ∃ f, fuel = f + 3 := by
  have hpos := List.length_pos_iff.2 hs
  exact ⟨fuel - 3, by omega⟩

theorem Opens.ne_nil {s : List Char} (h : Opens s) : s ≠ [] := by
  obtain ⟨c, r, rfl, -⟩ := h
  exact List.cons_ne_nil c r

theorem laidOutItems_ne_nil (depth : Nat) (items : List Json) :
    laidOutItems l depth items ≠ [] := by
  cases items <;> simp [laidOutItems]

theorem laidOutMembers_ne_nil (depth : Nat) (members : List (String × Json)) :
    laidOutMembers l depth members ≠ [] := by
  cases members <;> simp [laidOutMembers]

-- Three steps of the reader lead into a part of a value, and a character that is not the part's
-- stands in front of each part: this is what the bound on the steps lives on.
mutual

/-- A value is read up to where it ends, in whatever layout. -/
theorem readValue_laidOut (depth : Nat) : ∀ (j : Json) (fuel : Nat) (rest : List Char),
    3 * (laidOut l depth j).length ≤ fuel → EndsNumber rest →
      readValue fuel (laidOut l depth j ++ rest) = (reading j, some rest)
  | .null, fuel, rest, hfuel, _ => by
    obtain ⟨f, rfl⟩ := exists_steps (opens_laidOut l depth _).ne_nil hfuel
    exact readWord_append ['u', 'l', 'l'] .null rest
  | .bool true, fuel, rest, hfuel, _ => by
    obtain ⟨f, rfl⟩ := exists_steps (opens_laidOut l depth _).ne_nil hfuel
    exact readWord_append ['r', 'u', 'e'] (.bool true) rest
  | .bool false, fuel, rest, hfuel, _ => by
    obtain ⟨f, rfl⟩ := exists_steps (opens_laidOut l depth _).ne_nil hfuel
    exact readWord_append ['a', 'l', 's', 'e'] (.bool false) rest
  | .whole k, fuel, rest, hfuel, hrest => by
    obtain ⟨f, rfl⟩ := exists_steps (opens_laidOut l depth _).ne_nil hfuel
    rw [laidOut, wholeText_eq]
    exact readValue_numeral (proper_numeralOf k) hrest _
  | .real x, fuel, rest, hfuel, hrest => by
    obtain ⟨f, rfl⟩ := exists_steps (opens_laidOut l depth _).ne_nil hfuel
    exact readValue_real x hrest
  | .text s, fuel, rest, hfuel, _ => by
    obtain ⟨f, rfl⟩ := exists_steps (opens_laidOut l depth _).ne_nil hfuel
    exact readValue_quote s rest
  | .list [], fuel, rest, hfuel, _ => by
    obtain ⟨f, rfl⟩ := exists_steps (opens_laidOut l depth _).ne_nil hfuel
    exact readValue_list (readItems_close true no_blank)
  | .list (item :: items), fuel, rest, hfuel, _ => by
    obtain ⟨f, rfl⟩ := exists_steps (opens_laidOut l depth _).ne_nil hfuel
    simp only [laidOut, List.length_cons, List.length_append] at hfuel
    have hitem := readValue_laidOut (depth + 1) item f (laidOutItems l depth items ++ rest)
      (by omega) (endsNumber_items depth items rest)
    have hitems := readItems_laidOut depth items f rest (by omega)
    simp only [laidOut, List.cons_append, List.append_assoc]
    refine readValue_list ?_
    rw [readItems_first (l.blank_line _) (opens_append (opens_laidOut l _ item) _)]
    exact readItem_of_item hitem hitems
  | .record [], fuel, rest, hfuel, _ => by
    obtain ⟨f, rfl⟩ := exists_steps (opens_laidOut l depth _).ne_nil hfuel
    exact readValue_record (readMembers_close true no_blank)
  | .record ((name, value) :: members), fuel, rest, hfuel, _ => by
    obtain ⟨f, rfl⟩ := exists_steps (opens_laidOut l depth _).ne_nil hfuel
    simp only [laidOut, List.length_cons, List.length_append] at hfuel
    have hvalue := readValue_laidOut (depth + 1) value f (laidOutMembers l depth members ++ rest)
      (by omega) (endsNumber_members depth members rest)
    have hmembers := readMembers_laidOut depth members f rest (by omega)
    simp only [laidOut, List.cons_append, List.append_assoc, quote_append]
    refine readValue_record ?_
    rw [readMembers_first (l.blank_line _)]
    exact readMember_of_value l.blank_space hvalue hmembers

theorem readItems_laidOut (depth : Nat) : ∀ (items : List Json) (fuel : Nat) (rest : List Char),
    3 * (laidOutItems l depth items).length ≤ fuel →
      readItems fuel false (laidOutItems l depth items ++ rest) =
        (itemReadings items, none, some rest)
  | [], fuel, rest, hfuel => by
    obtain ⟨f, rfl⟩ := exists_steps (laidOutItems_ne_nil depth _) hfuel
    rw [laidOutItems, List.append_assoc]
    exact readItems_close false (l.blank_line depth)
  | item :: items, fuel, rest, hfuel => by
    obtain ⟨f, rfl⟩ := exists_steps (laidOutItems_ne_nil depth _) hfuel
    simp only [laidOutItems, List.length_cons, List.length_append] at hfuel
    have hitem := readValue_laidOut (depth + 1) item (f + 1) (laidOutItems l depth items ++ rest)
      (by omega) (endsNumber_items depth items rest)
    have hitems := readItems_laidOut depth items (f + 1) rest (by omega)
    simp only [laidOutItems, List.cons_append, List.append_assoc]
    rw [readItems_comma (l.blank_line _)]
    exact readItem_of_item hitem hitems

theorem readMembers_laidOut (depth : Nat) :
    ∀ (members : List (String × Json)) (fuel : Nat) (rest : List Char),
      3 * (laidOutMembers l depth members).length ≤ fuel →
        readMembers fuel false (laidOutMembers l depth members ++ rest) =
          (memberReadings members, none, some rest)
  | [], fuel, rest, hfuel => by
    obtain ⟨f, rfl⟩ := exists_steps (laidOutMembers_ne_nil depth _) hfuel
    rw [laidOutMembers, List.append_assoc]
    exact readMembers_close false (l.blank_line depth)
  | (name, value) :: members, fuel, rest, hfuel => by
    obtain ⟨f, rfl⟩ := exists_steps (laidOutMembers_ne_nil depth _) hfuel
    simp only [laidOutMembers, List.length_cons, List.length_append] at hfuel
    have hvalue := readValue_laidOut (depth + 1) value (f + 1)
      (laidOutMembers l depth members ++ rest) (by omega) (endsNumber_members depth members rest)
    have hmembers := readMembers_laidOut depth members (f + 1) rest (by omega)
    simp only [laidOutMembers, List.cons_append, List.append_assoc, quote_append]
    rw [readMembers_comma (l.blank_line _)]
    exact readMember_of_value l.blank_space hvalue hmembers

end

/-- A text in any layout is read as a whole. -/
theorem read_laidOut (l : Layout) (depth : Nat) (j : Json) :
    read (laidOut l depth j) = (reading j, some []) := by
  have hread := readValue_laidOut (l := l) depth j (3 * (laidOut l depth j).length + 3) []
    (by omega) nofun
  rwa [List.append_nil] at hread

theorem decode_laidOut {α : Type} (d : Decoder α) (l : Layout) (depth : Nat) (j : Json) :
    decode d (String.ofList (laidOut l depth j)) = d (reading j) := by
  simp only [decode, String.toList_ofList, read_laidOut]
  cases d (reading j) with
  | error f => rfl
  | ok a => rfl

theorem decode_compact {α : Type} (d : Decoder α) (j : Json) :
    decode d j.compact = d (reading j) := by
  rw [compact, ← laidOut_compact 0, decode_laidOut]

theorem decode_pretty {α : Type} (d : Decoder α) (j : Json) :
    decode d j.pretty = d (reading j) := by
  rw [pretty, ← laidOut_pretty, decode_laidOut]

end DeadlockCapture.Json
