import GrammarDesk.Text.LineIndex
import Mathlib.Data.List.Induction
import Mathlib.Data.String.Basic

/-!
Contract: the lines of a text, and what the index of a text holds of them.

Owns: the lines of a text told without the index, the position that is reached after some
characters, the positions that a text has, and the proof that the index holds every line by
where it starts and by its multi-byte characters.

Does not own: the conversions between offsets and positions (`LineIndex`).

Main statements: a cut of a text cuts one of its lines (`exists_cut`); the index holds the
lines (`getElem?_lines_ofText`), and an offset in a line selects that line (`lineOf_eq`).
-/

namespace GrammarDesk.Text

open String (utf8Len utf8Len_nil utf8Len_cons utf8Len_append utf8Len_toList)

def linesOf (characters : List Char) : List (List Char) :=
  characters.splitOn '\n'

/-- Bytes that lines take, each with the line break behind it. -/
def linesSize : List (List Char) → Nat
  | [] => 0
  | line :: rest => utf8Len line + 1 + linesSize rest

namespace Position

/-- The position that is reached after some characters: so many line breaks are among them, and
so many characters follow the last of these. -/
def after (before : List Char) : Position :=
  ⟨before.count '\n', (before.reverse.takeWhile (· ≠ '\n')).length⟩

theorem after_newline (before : List Char) :
    after (before ++ ['\n']) = ⟨(after before).line + 1, 0⟩ := by
  simp [after]

theorem after_concat {character : Char} (other : character ≠ '\n') (before : List Char) :
    after (before ++ [character]) = ⟨(after before).line, (after before).column + 1⟩ := by
  simp [after, other]

theorem le_iff {left right : Position} :
    left ≤ right ↔
      left.line < right.line ∨ (left.line = right.line ∧ left.column ≤ right.column) :=
  Iff.rfl

/-- Where more characters are read, the position moves on. -/
theorem after_le_append (before more : List Char) : after before ≤ after (before ++ more) := by
  induction more using List.reverseRecOn with
  | nil =>
      rw [List.append_nil]
      exact .inr ⟨rfl, Nat.le_refl _⟩
  | append_singleton more character inductionHypothesis =>
      rw [← List.append_assoc]
      rw [le_iff] at inductionHypothesis ⊢
      by_cases breaks : character = '\n'
      · subst breaks
        rw [after_newline]
        dsimp only
        omega
      · rw [after_concat breaks]
        dsimp only
        omega

/-- The text has the position: it has the line, and the column is not past the end of that. -/
def IsIn (position : Position) (text : String) : Prop :=
  ∃ line, (linesOf text.toList)[position.line]? = some line ∧ position.column ≤ line.length

end Position

/-! ## Lines of characters -/

theorem length_le_utf8Len (characters : List Char) : characters.length ≤ utf8Len characters := by
  induction characters with
  | nil => exact Nat.le_refl 0
  | cons character rest inductionHypothesis =>
      have size := character.utf8Size_pos
      rw [utf8Len_cons, List.length_cons]
      omega

@[simp] theorem linesSize_nil : linesSize [] = 0 := rfl

theorem linesSize_cons (line : List Char) (rest : List (List Char)) :
    linesSize (line :: rest) = utf8Len line + 1 + linesSize rest := rfl

theorem linesSize_append (above below : List (List Char)) :
    linesSize (above ++ below) = linesSize above + linesSize below := by
  induction above with
  | nil => exact (Nat.zero_add _).symm
  | cons line rest inductionHypothesis =>
      rw [List.cons_append, linesSize_cons, linesSize_cons, inductionHypothesis,
        Nat.add_assoc (utf8Len line + 1)]

theorem linesOf_nil : linesOf [] = [[]] :=
  List.splitOn_nil _

theorem linesOf_newline (rest : List Char) : linesOf ('\n' :: rest) = [] :: linesOf rest :=
  List.splitOn_cons_eq_if_modifyHead _ _

theorem linesOf_cons_of_ne {character : Char} (other : character ≠ '\n') (rest : List Char) :
    linesOf (character :: rest) = (linesOf rest).modifyHead (character :: ·) := by
  unfold linesOf
  rw [List.splitOn_cons_eq_if_modifyHead, if_neg (by simpa using other)]

theorem exists_linesOf_eq_cons (characters : List Char) :
    ∃ first below, linesOf characters = first :: below :=
  List.exists_cons_of_ne_nil (List.splitOn_ne_nil _ _)

theorem exists_linesOf_eq_concat (characters : List Char) :
    ∃ above last, linesOf characters = above ++ [last] :=
  (List.eq_nil_or_concat' _).resolve_left (List.splitOn_ne_nil _ _)

/-- Where characters are put together, the last line of the former and the first of the latter
become one. -/
theorem linesOf_append {before after left right : List Char} {above below : List (List Char)}
    (former : linesOf before = above ++ [left]) (latter : linesOf after = right :: below) :
    linesOf (before ++ after) = above ++ (left ++ right) :: below := by
  induction before generalizing above left with
  | nil =>
      obtain ⟨rfl, rfl⟩ : above = [] ∧ left = [] := by
        rw [linesOf_nil] at former
        simpa using List.append_eq_singleton_iff.mp former.symm
      exact latter
  | cons character before inductionHypothesis =>
      by_cases breaks : character = '\n'
      · subst breaks
        obtain ⟨others, last, linesBefore⟩ := exists_linesOf_eq_concat before
        rw [linesOf_newline, linesBefore, ← List.cons_append] at former
        obtain ⟨rfl, same⟩ := List.append_inj' former rfl
        obtain rfl := List.singleton_inj.mp same
        rw [List.cons_append, linesOf_newline, inductionHypothesis linesBefore]
        rfl
      · rw [List.cons_append, linesOf_cons_of_ne breaks]
        rw [linesOf_cons_of_ne breaks] at former
        obtain ⟨first, others, linesBefore⟩ := exists_linesOf_eq_cons before
        rw [linesBefore, List.modifyHead_cons] at former
        cases above with
        | nil =>
            obtain ⟨rfl, rfl⟩ := List.cons.inj former
            rw [@inductionHypothesis first [] linesBefore]
            rfl
        | cons line above =>
            obtain ⟨rfl, rfl⟩ := List.cons.inj former
            rw [@inductionHypothesis left (first :: above) linesBefore]
            rfl

/-- The position after some characters, and how many bytes they take, told by their lines. -/
theorem after_of_linesOf {before left : List Char} {above : List (List Char)}
    (split : linesOf before = above ++ [left]) :
    Position.after before = ⟨above.length, left.length⟩ ∧
      utf8Len before = linesSize above + utf8Len left := by
  induction before using List.reverseRecOn generalizing above left with
  | nil =>
      obtain ⟨rfl, rfl⟩ : above = [] ∧ left = [] := by
        rw [linesOf_nil] at split
        simpa using List.append_eq_singleton_iff.mp split.symm
      exact ⟨rfl, rfl⟩
  | append_singleton before character inductionHypothesis =>
      obtain ⟨others, last, linesBefore⟩ := exists_linesOf_eq_concat before
      obtain ⟨isAfter, size⟩ := inductionHypothesis linesBefore
      by_cases breaks : character = '\n'
      · subst breaks
        have narrow : Char.utf8Size '\n' = 1 := rfl
        rw [linesOf_append linesBefore (linesOf_newline []), List.append_nil, linesOf_nil,
          List.append_cons] at split
        obtain ⟨rfl, same⟩ := List.append_inj' split rfl
        obtain rfl := List.singleton_inj.mp same
        refine ⟨by rw [Position.after_newline, isAfter, List.length_append]; rfl, ?_⟩
        rw [utf8Len_append, size, linesSize_append, linesSize_cons, utf8Len_cons, narrow]
        rfl
      · have alone : linesOf [character] = [[character]] := by
          rw [linesOf_cons_of_ne breaks, linesOf_nil]
          rfl
        rw [linesOf_append linesBefore alone] at split
        obtain ⟨rfl, same⟩ := List.append_inj' split rfl
        obtain rfl := List.singleton_inj.mp same
        refine ⟨by rw [Position.after_concat breaks, isAfter, List.length_append]; rfl, ?_⟩
        rw [utf8Len_append, size, utf8Len_append, Nat.add_assoc]

/-- Lines take one byte more than the characters, since no line break follows the last line. -/
theorem linesSize_linesOf (characters : List Char) :
    linesSize (linesOf characters) = utf8Len characters + 1 := by
  obtain ⟨above, last, split⟩ := exists_linesOf_eq_concat characters
  rw [(after_of_linesOf split).2, split, linesSize_append, linesSize_cons, linesSize_nil,
    Nat.add_zero, Nat.add_assoc]

/-- A cut between two characters cuts one line; the lines above it and the part of it before
the cut take the bytes before the cut. -/
structure Cut (before after : List Char) where
  above : List (List Char)
  left : List Char
  right : List Char
  below : List (List Char)
  former : linesOf before = above ++ [left]
  latter : linesOf after = right :: below

namespace Cut

variable {before after : List Char} (cut : Cut before after)

theorem linesOf_eq :
    linesOf (before ++ after) = cut.above ++ (cut.left ++ cut.right) :: cut.below :=
  linesOf_append cut.former cut.latter

theorem getElem?_linesOf :
    (linesOf (before ++ after))[cut.above.length]? = some (cut.left ++ cut.right) := by
  rw [cut.linesOf_eq, List.getElem?_append_right (Nat.le_refl _), Nat.sub_self]
  rfl

theorem take_linesOf : (linesOf (before ++ after)).take cut.above.length = cut.above := by
  rw [cut.linesOf_eq, List.take_left]

theorem after_eq : Position.after before = ⟨cut.above.length, cut.left.length⟩ :=
  (after_of_linesOf cut.former).1

theorem size_eq : utf8Len before = linesSize cut.above + utf8Len cut.left :=
  (after_of_linesOf cut.former).2

end Cut

theorem exists_cut (before after : List Char) : Nonempty (Cut before after) := by
  obtain ⟨above, left, former⟩ := exists_linesOf_eq_concat before
  obtain ⟨right, below, latter⟩ := exists_linesOf_eq_cons after
  exact ⟨⟨above, left, right, below, former, latter⟩⟩

/-- A character that is no line break stands in the line that is cut before it. -/
theorem exists_cut_cons {character : Char} (noBreak : character ≠ '\n')
    (before after : List Char) :
    ∃ (cut : Cut before (character :: after)) (rest : List Char),
      cut.right = character :: rest := by
  obtain ⟨above, left, former⟩ := exists_linesOf_eq_concat before
  obtain ⟨right, below, latter⟩ := exists_linesOf_eq_cons after
  have linesAfter : linesOf (character :: after) = (character :: right) :: below := by
    rw [linesOf_cons_of_ne noBreak, latter]
    rfl
  exact ⟨⟨above, left, character :: right, below, former, linesAfter⟩, right, rfl⟩

/-- A place in a line is a cut of the whole: the characters before it are the lines above and
that much of the line. -/
theorem exists_linesOf_take {characters own : List Char} {number column : Nat}
    (found : (linesOf characters)[number]? = some own) (inside : column ≤ own.length) :
    ∃ before after, characters = before ++ after ∧
      linesOf before = (linesOf characters).take number ++ [own.take column] := by
  induction characters generalizing own number column with
  | nil =>
      rw [linesOf_nil, List.getElem?_singleton] at found
      split at found
      · obtain rfl := Option.some.inj found
        obtain rfl := Nat.le_zero.mp inside
        rename_i first
        subst first
        exact ⟨[], [], rfl, rfl⟩
      · cases found
  | cons character rest inductionHypothesis =>
      by_cases breaks : character = '\n'
      · subst breaks
        rw [linesOf_newline] at found ⊢
        cases number with
        | zero =>
            obtain rfl := Option.some.inj found
            obtain rfl := Nat.le_zero.mp inside
            exact ⟨[], _, rfl, rfl⟩
        | succ number =>
            obtain ⟨before, after, rfl, linesBefore⟩ := inductionHypothesis found inside
            refine ⟨'\n' :: before, after, rfl, ?_⟩
            rw [linesOf_newline, linesBefore]
            rfl
      · obtain ⟨first, below, linesRest⟩ := exists_linesOf_eq_cons rest
        rw [linesOf_cons_of_ne breaks, linesRest, List.modifyHead_cons] at found ⊢
        rw [linesRest] at inductionHypothesis
        cases number with
        | zero =>
            obtain rfl := Option.some.inj found
            cases column with
            | zero => exact ⟨[], _, rfl, linesOf_nil⟩
            | succ column =>
                obtain ⟨before, after, rfl, linesBefore⟩ :=
                  @inductionHypothesis first 0 column rfl (Nat.le_of_succ_le_succ inside)
                refine ⟨character :: before, after, rfl, ?_⟩
                rw [linesOf_cons_of_ne breaks, linesBefore]
                rfl
        | succ number =>
            obtain ⟨before, after, rfl, linesBefore⟩ :=
              @inductionHypothesis own (number + 1) column found inside
            refine ⟨character :: before, after, rfl, ?_⟩
            rw [linesOf_cons_of_ne breaks, linesBefore]
            rfl

/-- A line ends before the text does. -/
theorem lineEnd_le {characters own : List Char} {number : Nat}
    (found : (linesOf characters)[number]? = some own) :
    linesSize ((linesOf characters).take number) + utf8Len own ≤ utf8Len characters := by
  obtain ⟨inside, rfl⟩ := List.getElem?_eq_some_iff.mp found
  have whole := linesSize_linesOf characters
  rw [← List.take_append_drop number (linesOf characters), List.drop_eq_getElem_cons inside,
    linesSize_append, linesSize_cons] at whole
  omega

/-! ## The index of a text -/

namespace LineIndex

/-- The multi-byte characters of a line, when the line is read from a byte column on. -/
def wideFrom (column : Nat) : List Char → List WideChar
  | [] => []
  | character :: rest =>
      let others := wideFrom (column + character.utf8Size) rest
      if 1 < character.utf8Size then ⟨column, character.utf8Size⟩ :: others else others

/-- The entries of lines that stand one below the other from an offset on. -/
def entriesFrom (start : Nat) : List (List Char) → List Line
  | [] => []
  | line :: below => ⟨start, wideFrom 0 line⟩ :: entriesFrom (start + (utf8Len line + 1)) below

theorem getElem?_entriesFrom (start : Nat) (all : List (List Char)) (number : Nat) :
    (entriesFrom start all)[number]? = all[number]?.map fun line =>
      ⟨start + linesSize (all.take number), wideFrom 0 line⟩ := by
  induction all generalizing start number with
  | nil => rfl
  | cons line below inductionHypothesis =>
      cases number with
      | zero => rfl
      | succ number =>
          rw [entriesFrom, List.getElem?_cons_succ, List.getElem?_cons_succ, inductionHypothesis,
            List.take_succ_cons, linesSize_cons, Nat.add_assoc]

/-- The reader that has come to a column of a line gives the rest of that line and the lines
below it. -/
theorem linesFrom_eq {characters own : List Char} {below : List (List Char)} (start column : Nat)
    (split : linesOf characters = own :: below) :
    linesFrom start (start + column) characters =
      (⟨start, wideFrom column own⟩, entriesFrom (start + column + (utf8Len own + 1)) below) := by
  induction characters generalizing start column own below with
  | nil =>
      obtain ⟨rfl, rfl⟩ := List.cons.inj (linesOf_nil.symm.trans split)
      rfl
  | cons character rest inductionHypothesis =>
      obtain ⟨first, others, linesRest⟩ := exists_linesOf_eq_cons rest
      by_cases breaks : character = '\n'
      · subst breaks
        rw [linesOf_newline, linesRest] at split
        obtain ⟨rfl, rfl⟩ := List.cons.inj split
        have later := inductionHypothesis (start + column + 1) 0 linesRest
        rw [Nat.add_zero] at later
        have narrow : Char.utf8Size '\n' = 1 := rfl
        rw [linesFrom, if_pos rfl, narrow, later]
        rfl
      · rw [linesOf_cons_of_ne breaks, linesRest, List.modifyHead_cons] at split
        obtain ⟨rfl, rfl⟩ := List.cons.inj split
        have later := inductionHypothesis start (column + character.utf8Size) linesRest
        have size : start + (column + character.utf8Size) + (utf8Len first + 1) =
            start + column + (utf8Len (character :: first) + 1) := by
          rw [utf8Len_cons]
          omega
        rw [size, ← Nat.add_assoc] at later
        rw [linesFrom, if_neg breaks, later, wideFrom, Nat.add_sub_cancel_left]
        dsimp only
        split <;> rfl

/-- The index holds each line of the text by where it starts and by its multi-byte characters. -/
theorem getElem?_lines_ofText (text : String) (number : Nat) :
    (ofText text).lines[number]? = (linesOf text.toList)[number]?.map fun line =>
      ⟨linesSize ((linesOf text.toList).take number), wideFrom 0 line⟩ := by
  obtain ⟨first, below, split⟩ := exists_linesOf_eq_cons text.toList
  have read := linesFrom_eq 0 0 split
  rw [Nat.add_zero, Nat.zero_add] at read
  have entries := getElem?_entriesFrom 0 (first :: below) number
  simp only [Nat.zero_add] at entries
  rw [split, ← entries, ofText, read, List.getElem?_toArray, entriesFrom, Nat.zero_add]

variable {text : String} {number : Nat} {own : List Char}

/-- A line that the text has ends so many bytes after its start. -/
theorem lineEnd_ofText (found : (linesOf text.toList)[number]? = some own) :
    (ofText text).lineEnd number =
      linesSize ((linesOf text.toList).take number) + utf8Len own := by
  have through : linesSize ((linesOf text.toList).take (number + 1)) =
      linesSize ((linesOf text.toList).take number) + utf8Len own + 1 := by
    rw [List.take_add_one, found, linesSize_append]
    rfl
  unfold lineEnd
  rw [getElem?_lines_ofText]
  cases next : (linesOf text.toList)[number + 1]? with
  | some line => exact congrArg (· - 1) through
  | none =>
      rw [List.take_of_length_le (List.getElem?_eq_none_iff.mp next), linesSize_linesOf,
        utf8Len_toList] at through
      exact Nat.succ.inj through

theorem countStarts_le (lines : Array Line) (offset low high : Nat) (ordered : low ≤ high) :
    countStarts lines offset low high ≤ high := by
  fun_induction countStarts lines offset low high with
  | case1 low high separate middle early inductionHypothesis =>
      exact inductionHypothesis (by omega)
  | case2 low high separate middle late inductionHypothesis =>
      have shorter := inductionHypothesis (by omega)
      omega
  | case3 low high closed => exact ordered

/-- An offset from the start of a line through its end selects that line. -/
theorem lineOf_eq (found : (linesOf text.toList)[number]? = some own) {offset : Nat}
    (starts : linesSize ((linesOf text.toList).take number) ≤ offset)
    (ends : offset ≤ linesSize ((linesOf text.toList).take number) + utf8Len own) :
    (ofText text).lineOf offset = number := by
  have entry := getElem?_lines_ofText text number
  rw [found] at entry
  have least := (le_lineOf_iff text offset entry).mpr starts
  refine Nat.le_antisymm ?_ least
  by_contra! further
  cases next : (linesOf text.toList)[number + 1]? with
  | some line =>
      have entryNext := getElem?_lines_ofText text (number + 1)
      rw [next] at entryNext
      have startsNext := (le_lineOf_iff text offset entryNext).mp further
      rw [List.take_add_one, found, linesSize_append] at startsNext
      have size : linesSize [own] = utf8Len own + 1 := rfl
      simp only [Option.toList_some, size] at startsNext
      omega
  | none =>
      have entryNext := getElem?_lines_ofText text (number + 1)
      rw [next] at entryNext
      have last := Array.getElem?_eq_none_iff.mp entryNext
      have counted := countStarts_le (ofText text).lines offset 0 (ofText text).lines.size
        (Nat.zero_le _)
      have selected : (ofText text).lineOf offset =
        countStarts (ofText text).lines offset 0 (ofText text).lines.size - 1 := rfl
      omega

end LineIndex

end GrammarDesk.Text
