import GrammarDesk.Text.Position
import GrammarDesk.Text.Range

/-!
Contract: conversion between byte offsets of one text and its lines and
columns. A column counts characters from the start of its line.

Owns: the index of line starts and multi-byte characters, and the conversions
both ways.

Does not own: what a position is (`Position`) or counter arithmetic
(`Counter`). Columns are computed on 32-bit counters from byte columns, so every
conversion is checked. An offset inside a multi-byte character counts that whole
character, which near the start of a line takes the column below zero.

Main statement: the line of an offset is the last one that starts at or before
it (`le_lineOf_iff`).
-/

namespace GrammarDesk.Text

/-- A character of more than one byte, by the byte column it starts at. -/
structure WideChar where
  column : Nat
  size : Nat
deriving DecidableEq, Repr

/-- One line: where it starts, and its multi-byte characters in order. -/
structure Line where
  start : Nat
  wide : List WideChar
deriving DecidableEq, Repr

structure LineIndex where
  lines : Array Line
  length : Nat
deriving DecidableEq, Repr

namespace LineIndex

/-- The line being read, which began at `start`, and the lines after it, when
the reader stands at `offset` before the given characters. -/
def linesFrom (start offset : Nat) : List Char → Line × List Line
  | [] => (⟨start, []⟩, [])
  | character :: rest =>
      let next := offset + character.utf8Size
      if character = '\n' then
        let (line, others) := linesFrom next next rest
        (⟨start, []⟩, line :: others)
      else if 1 < character.utf8Size then
        let (line, others) := linesFrom start next rest
        (⟨start, ⟨offset - start, character.utf8Size⟩ :: line.wide⟩, others)
      else
        linesFrom start next rest

def ofText (text : String) : LineIndex :=
  let (first, others) := linesFrom 0 0 text.toList
  ⟨(first :: others).toArray, text.utf8ByteSize⟩

def Ascending (lines : Array Line) : Prop :=
  ∀ (first second : Nat) (left right : Line), first < second →
    lines[first]? = some left → lines[second]? = some right → left.start < right.start

theorem linesFrom_start (characters : List Char) (start offset : Nat) :
    (linesFrom start offset characters).1.start = start := by
  fun_induction linesFrom start offset characters <;> simp_all

/-- Lines start one behind the other, all behind the place they are read from. -/
theorem linesFrom_pairwise (characters : List Char) (start offset : Nat) :
    (∀ line ∈ (linesFrom start offset characters).2, offset < line.start) ∧
      (linesFrom start offset characters).2.Pairwise
        fun left right => left.start < right.start := by
  have longer (character : Char) : 0 < character.utf8Size := character.utf8Size_pos
  fun_induction linesFrom start offset characters with
  | case1 => simp
  | case2 start offset rest line others next read inductionHypothesis =>
      have size := longer '\n'
      have first := linesFrom_start rest next next
      rw [read] at first inductionHypothesis
      have first : line.start = next := first
      refine ⟨?_, List.pairwise_cons.mpr ⟨?_, inductionHypothesis.2⟩⟩
      · intro found member
        rcases List.mem_cons.mp member with rfl | later
        · omega
        · have := inductionHypothesis.1 found later
          omega
      · intro found later
        have := inductionHypothesis.1 found later
        omega
  | case3 start offset character rest next other wide line others read inductionHypothesis =>
      rw [read] at inductionHypothesis
      refine ⟨fun found member => ?_, inductionHypothesis.2⟩
      have := inductionHypothesis.1 found member
      omega
  | case4 start offset character rest next other narrow inductionHypothesis =>
      refine ⟨fun found member => ?_, inductionHypothesis.2⟩
      have := inductionHypothesis.1 found member
      have := longer character
      omega

theorem ascending_ofText (text : String) : Ascending (ofText text).lines := by
  have first := linesFrom_start text.toList 0 0
  have later := linesFrom_pairwise text.toList 0 0
  have sorted : ((linesFrom 0 0 text.toList).1 :: (linesFrom 0 0 text.toList).2).Pairwise
      fun left right => left.start < right.start := by
    refine List.pairwise_cons.mpr ⟨fun line member => ?_, later.2⟩
    have := later.1 line member
    omega
  intro low high left right less atLow atHigh
  simp only [ofText, List.getElem?_toArray] at atLow atHigh
  obtain ⟨lowInside, rfl⟩ := List.getElem?_eq_some_iff.mp atLow
  obtain ⟨highInside, rfl⟩ := List.getElem?_eq_some_iff.mp atHigh
  exact List.pairwise_iff_getElem.mp sorted low high lowInside highInside less

def lineCount (index : LineIndex) : Nat :=
  index.lines.size

def isEmpty (index : LineIndex) : Bool :=
  index.length = 0

/-! ## From offsets to positions -/

/-- Take from a byte column the surplus bytes of every wide character that
starts before it. -/
def characterColumn (byteColumn : Nat) : (column : Nat) → List WideChar → Checked Nat
  | column, [] => .ok column
  | column, wide :: rest =>
      if byteColumn ≤ wide.column then
        .ok column
      else do
        let narrowed ← Counter.sub column (wide.size - 1)
        characterColumn byteColumn narrowed rest

/-- How many lines start at or before an offset, when all below `low` do and
none from `high` on does: the lines between are halved until none is left. -/
def countStarts (lines : Array Line) (offset low high : Nat) : Nat :=
  if low < high then
    let middle := (low + high) / 2
    if lines[middle]?.any fun line => line.start ≤ offset then
      countStarts lines offset (middle + 1) high
    else
      countStarts lines offset low middle
  else
    low
termination_by high - low

/-- The number of the line that holds an offset; the first line holds what no
other does. -/
def lineOf (index : LineIndex) (offset : Nat) : Nat :=
  countStarts index.lines offset 0 index.lines.size - 1

/-- Halving finds how many lines start at or before an offset: the lines before the lower bound
do, those from the upper bound on do not. -/
theorem lt_countStarts_iff
    {lines : Array Line}
    (ascending : Ascending lines)
    (offset low high : Nat)
    (inside : high ≤ lines.size)
    (below : ∀ number line, number < low → lines[number]? = some line → line.start ≤ offset)
    (above : ∀ number line, high ≤ number → lines[number]? = some line → offset < line.start) :
    ∀ number line, lines[number]? = some line →
      (number < countStarts lines offset low high ↔ line.start ≤ offset) := by
  fun_induction countStarts lines offset low high with
  | case1 low high separate middle early inductionHypothesis =>
      refine inductionHypothesis inside ?_ above
      intro number line before found
      obtain ⟨half, atHalf, early⟩ := (Option.any_eq_true _ _).mp early
      have early : half.start ≤ offset := by simpa using early
      by_cases same : number = middle
      · rw [same, atHalf] at found
        cases found
        exact early
      · have := ascending number middle line half (by omega) found atHalf
        omega
  | case2 low high separate middle late inductionHypothesis =>
      refine inductionHypothesis (by omega) below ?_
      intro number line after found
      have half : lines[middle]? = some lines[middle] := Array.getElem?_eq_getElem (by omega)
      have late : offset < lines[middle].start := by
        rw [half] at late
        simpa using late
      by_cases same : number = middle
      · rw [same, half] at found
        cases found
        exact late
      · have := ascending middle number _ line (by omega) half found
        omega
  | case3 low high closed =>
      intro number line found
      constructor
      · exact fun small => below number line small found
      · intro early
        by_cases small : number < low
        · exact small
        · have := above number line (by omega) found
          omega

/-- A line is at or before the one that holds an offset when it starts at or
before the offset. -/
theorem le_lineOf_iff
    (text : String)
    (offset : Nat)
    {number : Nat}
    {line : Line}
    (found : (ofText text).lines[number]? = some line) :
    number ≤ (ofText text).lineOf offset ↔ line.start ≤ offset := by
  have counted := lt_countStarts_iff (ascending_ofText text) offset 0 (ofText text).lines.size
    (Nat.le_refl _) (by simp)
    (fun number line outside found => by simp [Array.getElem?_eq_none outside] at found)
  have first := counted 0 (linesFrom 0 0 text.toList).1 (by simp [ofText])
  simp only [linesFrom_start, Nat.zero_le, iff_true] at first
  rw [← counted number line found]
  unfold lineOf
  omega

/-- The position of an offset; an offset past the end counts as the end. -/
def position (index : LineIndex) (offset : Nat) : Checked Position :=
  let inside := min offset index.length
  let number := index.lineOf inside
  match index.lines[number]? with
  | none => .ok ⟨0, inside⟩
  | some line => do
      let byteColumn := inside - line.start
      let column ← characterColumn byteColumn byteColumn line.wide
      return ⟨number, column⟩

def span (index : LineIndex) (range : Range) : Checked Span := do
  let start ← index.position range.start
  let stop ← index.position range.stop
  return ⟨start, stop⟩

/-- The span of a range that is cut between characters, as tokens and nodes
are. There the column arithmetic stays in range; elsewhere this is the empty
span at the start of the text. -/
def cutSpan (index : LineIndex) (range : Range) : Span :=
  match index.span range with
  | .ok span => span
  | .error _ => ⟨⟨0, 0⟩, ⟨0, 0⟩⟩

/-! ## From positions to offsets -/

/-- Add to a column the surplus bytes of every wide character that starts before
the byte column reached so far. -/
def byteColumn : (column : Nat) → List WideChar → Checked Nat
  | column, [] => .ok column
  | column, wide :: rest =>
      if column ≤ wide.column then
        .ok column
      else do
        let widened ← Counter.add column (wide.size - 1)
        byteColumn widened rest

/-- The offset where a line ends, its line break left out. -/
def lineEnd (index : LineIndex) (line : Nat) : Nat :=
  match index.lines[line + 1]? with
  | some next => next.start - 1
  | none => index.length

/-- The offset of a position, none when the text has no such position. -/
def offset (index : LineIndex) (position : Position) : Checked (Option Nat) :=
  match index.lines[position.line]? with
  | none => .ok none
  | some line => do
      let column ← byteColumn position.column line.wide
      let offset ← Counter.add line.start column
      return if offset ≤ index.lineEnd position.line then some offset else none

end LineIndex

end GrammarDesk.Text
