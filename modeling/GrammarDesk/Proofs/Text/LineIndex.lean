import GrammarDesk.Proofs.Text.Lines

/-!
Contract: conversion between the byte offsets of a text and its lines and columns.

Owns: the position of every offset, the offset of every position, and the order of positions.

Does not own: the lines that the index holds (`Lines`), or what is asked about a position
(`Query`).

Columns are computed from byte columns by taking away, or adding, the surplus bytes of
multi-byte characters. Taking away counts a character as soon as its first byte is before the
offset, so an offset inside a character of three or four bytes has a column before that of the
character, or none.

Main statements: `position_of_cut`, `position_inside`, `position_keeps_order`, `offset_eq`,
`boundary_round_trip`.
-/

namespace GrammarDesk.Text.LineIndex

open String (utf8Len utf8Len_nil utf8Len_cons utf8Len_append utf8Len_toList)

/-! ## From byte columns to columns -/

theorem characterColumn_of_le {byteColumn start : Nat} (beyond : byteColumn ≤ start) (column : Nat)
    (rest : List Char) : characterColumn byteColumn column (wideFrom start rest) = .ok column := by
  induction rest generalizing start with
  | nil => rfl
  | cons character rest inductionHypothesis =>
      rw [wideFrom]
      split
      · rw [characterColumn, if_pos beyond]
      · exact inductionHypothesis (Nat.le_add_right_of_le beyond)

/-- Characters before the byte column count one each. -/
theorem characterColumn_append {byteColumn start : Nat} {before : List Char}
    (inside : start + utf8Len before ≤ byteColumn) (column : Nat) (after : List Char) :
    characterColumn byteColumn (column + utf8Len before) (wideFrom start (before ++ after)) =
      characterColumn byteColumn (column + before.length)
        (wideFrom (start + utf8Len before) after) := by
  induction before generalizing start column with
  | nil => rfl
  | cons character before inductionHypothesis =>
      have positive := character.utf8Size_pos
      rw [utf8Len_cons] at inside
      have later := @inductionHypothesis (start + character.utf8Size) (by omega) (column + 1)
      have size : start + character.utf8Size + utf8Len before =
          start + utf8Len (character :: before) := by
        rw [utf8Len_cons]
        omega
      rw [size, Nat.add_right_comm, Nat.add_assoc, Nat.add_assoc, Nat.add_comm 1] at later
      rw [List.length_cons, ← later, List.cons_append, wideFrom]
      split
      · have taken : Counter.sub (column + utf8Len (character :: before))
            (character.utf8Size - 1) = .ok (column + (utf8Len before + 1)) := by
          rw [Counter.sub_eq_ok_iff, utf8Len_cons]
          omega
        rw [characterColumn, if_neg (show ¬ byteColumn ≤ start by omega), taken]
        rfl
      · rw [utf8Len_cons]
        congr 1
        omega

variable {text : String}

/-- The position of an offset in a line. -/
theorem position_eq {number byteColumn : Nat} {own : List Char}
    (found : (linesOf text.toList)[number]? = some own) (inside : byteColumn ≤ utf8Len own) :
    (ofText text).position (linesSize ((linesOf text.toList).take number) + byteColumn) =
      (characterColumn byteColumn byteColumn (wideFrom 0 own)).map fun column =>
        ⟨number, column⟩ := by
  have ends := lineEnd_le found
  rw [utf8Len_toList] at ends
  have size : (ofText text).length = text.utf8ByteSize := rfl
  dsimp only [position]
  rw [size, Nat.min_eq_left (by omega), lineOf_eq found (Nat.le_add_right _ _) (by omega),
    getElem?_lines_ofText, found, Option.map_some]
  dsimp only
  rw [Nat.add_sub_cancel_left]
  cases characterColumn byteColumn byteColumn (wideFrom 0 own) <;> rfl

/-- An offset past the end has the position of the end. -/
theorem position_of_end_le {offset : Nat} (past : text.utf8ByteSize ≤ offset) :
    (ofText text).position offset = (ofText text).position text.utf8ByteSize := by
  have size : (ofText text).length = text.utf8ByteSize := rfl
  unfold position
  rw [size, Nat.min_eq_right past, Nat.min_self]

/-- The position of an offset between two characters is the one that is reached after the
characters before it. -/
theorem position_of_cut {before after : List Char} (split : text.toList = before ++ after) :
    (ofText text).position (utf8Len before) = .ok (.after before) := by
  obtain ⟨cut⟩ := exists_cut before after
  have found := cut.getElem?_linesOf
  have inside : utf8Len cut.left ≤ utf8Len (cut.left ++ cut.right) := by simp
  have start : 0 + utf8Len cut.left ≤ utf8Len cut.left := by rw [Nat.zero_add]
  rw [← split] at found
  have placed := position_eq found inside
  have narrowed := characterColumn_append start 0 cut.right
  rw [Nat.zero_add, Nat.zero_add, characterColumn_of_le (Nat.le_refl _)] at narrowed
  rw [narrowed, split, cut.take_linesOf, ← cut.size_eq] at placed
  rw [placed, cut.after_eq]
  rfl

/-- A byte column inside a character gives a column that went back by the surplus bytes of the
whole character. -/
theorem characterColumn_inside {character : Char} {start inner : Nat} (begun : 0 < inner)
    (inside : inner < character.utf8Size) (column : Nat) (rest : List Char) :
    characterColumn (start + inner) column (wideFrom start (character :: rest)) =
      Counter.sub column (character.utf8Size - 1) := by
  have wide : 1 < character.utf8Size := by omega
  have begins : ¬ start + inner ≤ start := by omega
  rw [wideFrom, if_pos wide, characterColumn, if_neg begins]
  cases Counter.sub column (character.utf8Size - 1) with
  | error => rfl
  | ok narrowed => exact characterColumn_of_le (by omega) narrowed rest

/-- The position of an offset inside a character: the column is the one of its first byte, and
as many more as the bytes before the offset, less the surplus bytes of the whole character. -/
theorem position_inside {before after : List Char} {character : Char}
    (split : text.toList = before ++ character :: after) {inner : Nat} (begun : 0 < inner)
    (inside : inner < character.utf8Size) :
    (ofText text).position (utf8Len before + inner) =
      (Counter.sub ((Position.after before).column + inner) (character.utf8Size - 1)).map
        fun column => ⟨(Position.after before).line, column⟩ := by
  have noBreak : character ≠ '\n' := by
    rintro rfl
    have narrow : Char.utf8Size '\n' = 1 := rfl
    omega
  obtain ⟨cut, own, isRight⟩ := exists_cut_cons noBreak before after
  have found := cut.getElem?_linesOf
  rw [← split, isRight] at found
  have column : utf8Len cut.left + inner ≤ utf8Len (cut.left ++ character :: own) := by
    rw [utf8Len_append, utf8Len_cons]
    omega
  have start : 0 + utf8Len cut.left ≤ utf8Len cut.left + inner := by omega
  have placed := position_eq found column
  have narrowed := characterColumn_append start inner (character :: own)
  rw [Nat.zero_add, characterColumn_inside begun inside, Nat.add_comm inner,
    Nat.add_comm inner] at narrowed
  rw [narrowed, split, cut.take_linesOf, ← Nat.add_assoc, ← cut.size_eq] at placed
  rw [placed, cut.after_eq]

/-! ## The order of positions -/

/-- The offset is not inside a character before its last byte: it is between two characters, at
the last byte of one, or past the end. -/
def Settled (text : String) (offset : Nat) : Prop :=
  ∀ before character after, text.toList = before ++ character :: after →
    utf8Len before < offset → utf8Len before + character.utf8Size ≤ offset + 1

/-- An offset inside some characters lies at or inside one of them. -/
theorem exists_character {characters : List Char} {offset : Nat}
    (inside : offset < utf8Len characters) :
    ∃ before character after inner, characters = before ++ character :: after ∧
      inner < character.utf8Size ∧ offset = utf8Len before + inner := by
  induction characters generalizing offset with
  | nil => cases inside
  | cons first rest inductionHypothesis =>
      by_cases here : offset < first.utf8Size
      · exact ⟨[], first, rest, offset, rfl, here, (Nat.zero_add _).symm⟩
      · rw [utf8Len_cons] at inside
        obtain ⟨before, character, after, inner, rfl, small, place⟩ :=
          @inductionHypothesis (offset - first.utf8Size) (by omega)
        refine ⟨first :: before, character, after, inner, rfl, small, ?_⟩
        rw [utf8Len_cons]
        omega

theorem position_end (text : String) {offset : Nat} (past : text.utf8ByteSize ≤ offset) :
    (ofText text).position offset = .ok (.after text.toList) := by
  have whole : text.toList = text.toList ++ [] := (List.append_nil _).symm
  rw [position_of_end_le past, ← utf8Len_toList]
  exact position_of_cut whole

/-- A position is at or before the one that is reached after characters that end at or before
its offset, on the same line. -/
theorem exists_reached {offset : Nat} {place : Position}
    (found : (ofText text).position offset = .ok place) :
    ∃ before after, text.toList = before ++ after ∧ utf8Len before ≤ offset ∧
      place.line = (Position.after before).line ∧
      place.column ≤ (Position.after before).column := by
  by_cases past : text.utf8ByteSize ≤ offset
  · rw [position_end text past] at found
    obtain rfl := Except.ok.inj found
    refine ⟨text.toList, [], (List.append_nil _).symm, ?_, rfl, Nat.le_refl _⟩
    rwa [utf8Len_toList]
  · rw [Nat.not_le, ← utf8Len_toList] at past
    obtain ⟨before, character, after, inner, split, inside, rfl⟩ := exists_character past
    refine ⟨before, character :: after, split, Nat.le_add_right _ _, ?_⟩
    rcases Nat.eq_zero_or_pos inner with rfl | begun
    · rw [Nat.add_zero, position_of_cut split] at found
      obtain rfl := Except.ok.inj found
      exact ⟨rfl, Nat.le_refl _⟩
    · rw [position_inside split begun inside] at found
      cases narrowed : Counter.sub ((Position.after before).column + inner)
          (character.utf8Size - 1) with
      | error =>
          rw [narrowed] at found
          cases found
      | ok column =>
          rw [narrowed] at found
          obtain rfl := Except.ok.inj found
          obtain ⟨_, isColumn⟩ := Counter.sub_eq_ok_iff.mp narrowed
          exact ⟨rfl, by dsimp only; omega⟩

/-- A settled offset has the position after the characters that end at or before it. -/
theorem exists_settled {offset : Nat} (settled : Settled text offset) :
    ∃ before, (ofText text).position offset = .ok (.after before) ∧
      ∀ earlier others, text.toList = earlier ++ others → utf8Len earlier ≤ offset →
        earlier <+: before := by
  by_cases past : text.utf8ByteSize ≤ offset
  · refine ⟨text.toList, position_end text past, fun earlier others split _ => ?_⟩
    exact ⟨others, split.symm⟩
  · rw [Nat.not_le, ← utf8Len_toList] at past
    obtain ⟨before, character, after, inner, split, inside, rfl⟩ := exists_character past
    refine ⟨before, ?_, fun earlier others splitEarlier size => ?_⟩
    · rcases Nat.eq_zero_or_pos inner with rfl | begun
      · exact position_of_cut split
      · have last := settled before character after split (Nat.lt_add_of_pos_right begun)
        have column : (Position.after before).column + inner - (character.utf8Size - 1) =
            (Position.after before).column := by
          omega
        rw [position_inside split begun inside, Counter.sub_eq_ok_iff.mpr ⟨by omega, column⟩]
        rfl
    · rcases List.append_eq_append_iff.mp (splitEarlier.symm.trans split) with
        ⟨more, isBefore, _⟩ | ⟨more, isEarlier, isRest⟩
      · exact ⟨more, isBefore.symm⟩
      · cases more with
        | nil => exact ⟨[], by simp [isEarlier]⟩
        | cons first more =>
            obtain ⟨rfl, _⟩ := List.cons.inj isRest
            rw [isEarlier, utf8Len_append, utf8Len_cons] at size
            omega

/-- The column arithmetic leaves its range exactly inside a character so near the start of its
line that the columns before it cannot make up for its surplus bytes. -/
theorem position_eq_error_iff {offset : Nat} :
    (ofText text).position offset = .error ⟨⟩ ↔
      ∃ before character after, text.toList = before ++ character :: after ∧
        utf8Len before < offset ∧ offset < utf8Len before + character.utf8Size ∧
        (Position.after before).column + (offset - utf8Len before) + 1 < character.utf8Size := by
  constructor
  · intro failed
    by_cases past : text.utf8ByteSize ≤ offset
    · rw [position_end text past] at failed
      cases failed
    · rw [Nat.not_le, ← utf8Len_toList] at past
      obtain ⟨before, character, after, inner, split, inside, rfl⟩ := exists_character past
      rcases Nat.eq_zero_or_pos inner with rfl | begun
      · rw [Nat.add_zero, position_of_cut split] at failed
        cases failed
      · refine ⟨before, character, after, split, by omega, by omega, ?_⟩
        rw [position_inside split begun inside, Counter.sub] at failed
        split at failed
        · cases failed
        · omega
  · rintro ⟨before, character, after, split, begun, inside, short⟩
    obtain ⟨inner, rfl⟩ := Nat.exists_eq_add_of_lt begun
    have place := position_inside split (Nat.succ_pos inner) (by omega)
    rw [Nat.add_assoc, place, Counter.sub, if_neg (by omega)]
    rfl

/-- Positions keep the order of their offsets wherever the later offset is settled; there the
arithmetic stays in range. Whatever the offset, a position that comes out is one that the text
has, and none comes out exactly inside characters too near the start of their line. -/
theorem position_keeps_order (text : String) :
    (∀ offset, Settled text offset → ∃ place, (ofText text).position offset = .ok place ∧
      ∀ earlier before, earlier ≤ offset → (ofText text).position earlier = .ok before →
        before ≤ place) ∧
    (∀ offset place, (ofText text).position offset = .ok place → place.IsIn text) ∧
    ∀ offset, (ofText text).position offset = .error ⟨⟩ ↔
      ∃ before character after, text.toList = before ++ character :: after ∧
        utf8Len before < offset ∧ offset < utf8Len before + character.utf8Size ∧
        (Position.after before).column + (offset - utf8Len before) + 1 <
          character.utf8Size := by
  refine ⟨fun offset settled => ?_, fun offset place found => ?_, fun _ => position_eq_error_iff⟩
  · obtain ⟨reached, isPlace, furthest⟩ := exists_settled settled
    refine ⟨_, isPlace, fun earlier place before found => ?_⟩
    obtain ⟨own, others, split, size, line, column⟩ := exists_reached found
    obtain ⟨more, rfl⟩ := furthest own others split (Nat.le_trans size before)
    have moves := Position.after_le_append own more
    rw [Position.le_iff] at moves ⊢
    omega
  · obtain ⟨own, others, split, _, line, column⟩ := exists_reached found
    obtain ⟨cut⟩ := exists_cut own others
    rw [cut.after_eq] at line column
    refine ⟨cut.left ++ cut.right, ?_, ?_⟩
    · rw [split, line]
      exact cut.getElem?_linesOf
    · rw [List.length_append]
      exact Nat.le_add_right_of_le column

/-- Inside a character of three bytes the position goes back behind that of its first byte, and
at the start of a line there is none. -/
theorem position_steps_back :
    (ofText "abcdef漢 x").position 6 = .ok ⟨0, 6⟩ ∧
      (ofText "abcdef漢 x").position 7 = .ok ⟨0, 5⟩ ∧ ¬(⟨0, 6⟩ : Position) ≤ ⟨0, 5⟩ ∧
      (ofText "漢").position 1 = .error ⟨⟩ := by
  decide +kernel

/-! ## From columns to byte columns -/

/-- The offset of a column of a line that starts at an offset: the column is widened to bytes,
and then the start is added. -/
def reach (start column : Nat) (wide : List WideChar) : Checked Nat := do
  let column ← byteColumn column wide
  Counter.add start column

variable {start column place : Nat}

theorem reach_of_le (beyond : column ≤ place) (rest : List Char) :
    reach start column (wideFrom place rest) = Counter.add start column := by
  have same : byteColumn column (wideFrom place rest) = .ok column := by
    induction rest generalizing place with
    | nil => rfl
    | cons character rest inductionHypothesis =>
        rw [wideFrom]
        split
        · rw [byteColumn, if_pos beyond]
        · exact inductionHypothesis (Nat.le_add_right_of_le beyond)
  rw [reach, same]
  rfl

theorem add_of_limit_le {left right : Nat} (exceeds : Counter.limit ≤ left + right) :
    Counter.add left right = .error ⟨⟩ := by
  rw [Counter.add, if_neg (by omega)]

theorem reach_of_limit_le (exceeds : Counter.limit ≤ column) (wide : List WideChar) :
    reach start column wide = .error ⟨⟩ := by
  have sum : Counter.add start column = .error ⟨⟩ := add_of_limit_le (by omega)
  cases wide with
  | nil => exact sum
  | cons first rest =>
      rw [reach, byteColumn]
      split
      · exact sum
      · rw [add_of_limit_le (by omega)]
        rfl

/-- Characters before a column count with all their bytes. Where a sum on the way is beyond the
counters, so is the offset. -/
theorem reach_append (start place extra : Nat) (before after : List Char) :
    reach start (place + before.length + extra) (wideFrom place (before ++ after)) =
      reach start (place + utf8Len before + extra) (wideFrom (place + utf8Len before) after) := by
  induction before generalizing place with
  | nil => rfl
  | cons character before inductionHypothesis =>
      have positive := character.utf8Size_pos
      have longer := length_le_utf8Len before
      have size : place + character.utf8Size + utf8Len before =
          place + utf8Len (character :: before) := by
        rw [utf8Len_cons]
        omega
      have later := inductionHypothesis (place + character.utf8Size)
      rw [size] at later
      rw [← later, List.cons_append, wideFrom, List.length_cons]
      split
      · rename_i wide
        have begun : ¬ place + (before.length + 1) + extra ≤ place := by omega
        have widened : place + (before.length + 1) + extra + (character.utf8Size - 1) =
            place + character.utf8Size + before.length + extra := by
          omega
        rw [reach, byteColumn, if_neg begun]
        by_cases fits : place + (before.length + 1) + extra + (character.utf8Size - 1) <
            Counter.limit
        · rw [Counter.add_eq_ok_iff.mpr ⟨fits, widened⟩]
          rfl
        · have exceeds := Nat.le_of_not_lt fits
          have exceedsAll : Counter.limit ≤ place + character.utf8Size + before.length + extra :=
            widened ▸ exceeds
          rw [add_of_limit_le exceeds, reach_of_limit_le exceedsAll]
          rfl
      · have narrow : character.utf8Size = 1 := by omega
        rw [narrow, Nat.add_right_comm place 1]
        rfl

/-- The offset of a column of a line of the text. -/
theorem offset_eq {number : Nat} {own : List Char}
    (found : (linesOf text.toList)[number]? = some own) (column : Nat) :
    (ofText text).offset ⟨number, column⟩ =
      (reach (linesSize ((linesOf text.toList).take number)) column (wideFrom 0 own)).map
        fun offset =>
          if offset ≤ linesSize ((linesOf text.toList).take number) + utf8Len own then
            some offset
          else
            none := by
  dsimp only [offset]
  rw [getElem?_lines_ofText, found, Option.map_some]
  dsimp only
  rw [lineEnd_ofText found, reach]
  cases byteColumn column (wideFrom 0 own) with
  | error => rfl
  | ok column =>
      cases Counter.add (linesSize ((linesOf text.toList).take number)) column <;> rfl

/-- A column through the end of its line has the offset of its character, if that is a 32-bit
number. -/
theorem offset_of_fits {number column : Nat} {own : List Char}
    (found : (linesOf text.toList)[number]? = some own) (inside : column ≤ own.length)
    (fits : linesSize ((linesOf text.toList).take number) + utf8Len (own.take column) <
      Counter.limit) :
    (ofText text).offset ⟨number, column⟩ =
      .ok (some (linesSize ((linesOf text.toList).take number) + utf8Len (own.take column))) := by
  have reached := reach_append (linesSize ((linesOf text.toList).take number)) 0 0
    (own.take column) (own.drop column)
  have whole := congrArg utf8Len (List.take_append_drop column own)
  rw [utf8Len_append] at whole
  rw [List.take_append_drop, List.length_take, Nat.min_eq_left inside, Nat.zero_add, Nat.add_zero,
    Nat.zero_add, Nat.add_zero, reach_of_le (Nat.le_refl _)] at reached
  rw [offset_eq found, reached, Counter.add_eq_ok_iff.mpr ⟨fits, rfl⟩]
  simp only [Except.map]
  rw [if_pos (by omega)]

theorem offset_of_le (small : text.utf8ByteSize < Counter.limit) {number column : Nat}
    {own : List Char} (found : (linesOf text.toList)[number]? = some own)
    (inside : column ≤ own.length) :
    (ofText text).offset ⟨number, column⟩ =
      .ok (some (linesSize ((linesOf text.toList).take number) + utf8Len (own.take column))) := by
  have ends := lineEnd_le found
  rw [utf8Len_toList] at ends
  have whole := congrArg utf8Len (List.take_append_drop column own)
  rw [utf8Len_append] at whole
  exact offset_of_fits found inside (by omega)

/-- A column past the end of its line has no offset; the counters hold this as long as they can
hold an offset so far past the end. -/
theorem offset_of_lt {number column : Nat} {own : List Char}
    (found : (linesOf text.toList)[number]? = some own) (past : own.length < column) :
    (ofText text).offset ⟨number, column⟩ =
      if linesSize ((linesOf text.toList).take number) + utf8Len own + (column - own.length) <
          Counter.limit then
        .ok none
      else
        .error ⟨⟩ := by
  have reached := reach_append (linesSize ((linesOf text.toList).take number)) 0
    (column - own.length) own []
  rw [List.append_nil, Nat.zero_add, Nat.add_sub_cancel' (Nat.le_of_lt past),
    Nat.zero_add] at reached
  have added : reach (linesSize ((linesOf text.toList).take number))
      (utf8Len own + (column - own.length)) (wideFrom (utf8Len own) []) =
        Counter.add (linesSize ((linesOf text.toList).take number))
          (utf8Len own + (column - own.length)) := rfl
  rw [offset_eq found, reached, added, Counter.add, ← Nat.add_assoc]
  split
  · simp only [Except.map]
    rw [if_neg (by omega)]
  · rfl

/-- A line that the text does not have has no offsets. -/
theorem offset_of_none {position : Position}
    (missing : (linesOf text.toList)[position.line]? = none) :
    (ofText text).offset position = .ok none := by
  dsimp only [offset]
  rw [getElem?_lines_ofText, missing]
  rfl

/-! ## Offsets between characters -/

/-- An offset between two characters goes to its line and its column, so many line breaks and
so many characters after the last of them, and comes back from there. -/
theorem boundary_round_trip (before after : String)
    (small : (before ++ after).utf8ByteSize < Counter.limit) :
    let index := ofText (before ++ after)
    let place := Position.after before.toList
    index.position before.utf8ByteSize = .ok place ∧
      index.offset place = .ok (some before.utf8ByteSize) := by
  intro index place
  have split : (before ++ after).toList = before.toList ++ after.toList := String.toList_append
  obtain ⟨cut⟩ := exists_cut before.toList after.toList
  have found := cut.getElem?_linesOf
  rw [← split] at found
  refine ⟨?_, ?_⟩
  · rw [← utf8Len_toList]
    exact position_of_cut split
  · have inside : cut.left.length ≤ (cut.left ++ cut.right).length := by simp
    rw [show place = _ from cut.after_eq, offset_of_le small found inside, split,
      cut.take_linesOf, List.take_left, ← cut.size_eq, utf8Len_toList]

/-- The way over two lines with characters of every size. -/
theorem boundary_round_trip_wide :
    ("é漢\n😀" ++ "a漢").utf8ByteSize < Counter.limit ∧
      (ofText ("é漢\n😀" ++ "a漢")).position 10 = .ok ⟨1, 1⟩ ∧
      (ofText ("é漢\n😀" ++ "a漢")).offset ⟨1, 1⟩ = .ok (some 10) := by
  have small : ("é漢\n😀" ++ "a漢").utf8ByteSize < Counter.limit := by decide
  exact ⟨small, boundary_round_trip "é漢\n😀" "a漢" small⟩

/-- The position after some characters of a text has their size as its offset, if that is a 32-bit
number. -/
theorem offset_of_cut {before after : List Char} (split : text.toList = before ++ after)
    (fits : utf8Len before < Counter.limit) :
    (ofText text).offset (.after before) = .ok (some (utf8Len before)) := by
  obtain ⟨cut⟩ := exists_cut before after
  have found := cut.getElem?_linesOf
  have above := cut.take_linesOf
  rw [← split] at found above
  have inside : cut.left.length ≤ (cut.left ++ cut.right).length := by simp
  have size : linesSize ((linesOf text.toList).take cut.above.length) +
      utf8Len ((cut.left ++ cut.right).take cut.left.length) = utf8Len before := by
    rw [above, List.take_left, cut.size_eq]
  rw [cut.after_eq, offset_of_fits found inside (size ▸ fits), size]

/-- The span of a range that is cut between characters goes from the position before its
characters to the one after them. -/
theorem cutSpan_of_split {text before part after : String}
    (split : text = before ++ part ++ after) :
    (ofText text).cutSpan
        ⟨before.utf8ByteSize, before.utf8ByteSize + part.utf8ByteSize⟩ =
      ⟨.after before.toList, .after (before ++ part).toList⟩ := by
  have first : text.toList = before.toList ++ (part ++ after).toList := by
    rw [split, String.append_assoc, String.toList_append]
  have last : text.toList = (before ++ part).toList ++ after.toList := by
    rw [split, String.toList_append]
  have start := position_of_cut first
  have stop := position_of_cut last
  rw [utf8Len_toList] at start stop
  rw [String.utf8ByteSize_append] at stop
  rw [cutSpan, span, start, stop]
  rfl

end GrammarDesk.Text.LineIndex
