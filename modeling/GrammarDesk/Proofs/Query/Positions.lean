import GrammarDesk.Proofs.Text.LineIndex
import GrammarDesk.Query.RuleAt
import GrammarDesk.Query.Hover
import GrammarDesk.Query.Uses

/-!
Contract: which positions of a loaded file can be asked about.

Owns: the offset of every position of a text, the refusal of every other position by the index
and by all questions about a position, and the positions at which the counters do not suffice.

Does not own: the answers for positions that a file has (`Target`, `RuleAt`).

The bound of a line is tested after the column was widened to bytes and added to the start of
the line. A column so far past the end of its line that this sum is no 32-bit number is
therefore not refused: there the arithmetic leaves its range.

Main statement: `positions_validated`.
-/

namespace GrammarDesk

open Text
open String (utf8Len utf8Len_append utf8Len_toList)

namespace Text.Position

/-- The column is past the end of its line, and the offset as many bytes past that end is beyond
32-bit counters. -/
def Overruns (position : Position) (text : String) : Prop :=
  ∃ own, (linesOf text.toList)[position.line]? = some own ∧ own.length < position.column ∧
    Counter.limit ≤ linesSize ((linesOf text.toList).take position.line) + utf8Len own +
      (position.column - own.length)

theorem display_eq {position : Position} (line : position.line + 1 < Counter.limit)
    (column : position.column + 1 < Counter.limit) :
    position.display =
      .ok (toString (position.line + 1) ++ ":" ++ toString (position.column + 1)) := by
  rw [display, Counter.add_eq_ok_iff.mpr ⟨line, rfl⟩, Counter.add_eq_ok_iff.mpr ⟨column, rfl⟩]
  rfl

end Text.Position

namespace Text.LineIndex

variable {text : String} {position : Position}

/-- A position in a text small enough for the counter has the offset at which the text before
it ends. -/
theorem offset_of_isIn (small : text.utf8ByteSize < Counter.limit) (isIn : position.IsIn text) :
    ∃ before after, text = before ++ after ∧ Position.after before.toList = position ∧
      (ofText text).offset position = .ok (some before.utf8ByteSize) := by
  obtain ⟨own, found, inside⟩ := isIn
  obtain ⟨before, after, split, linesBefore⟩ := exists_linesOf_take found inside
  obtain ⟨reached, size⟩ := after_of_linesOf linesBefore
  have isLine := (List.getElem?_eq_some_iff.mp found).1
  rw [List.length_take, List.length_take, Nat.min_eq_left (Nat.le_of_lt isLine),
    Nat.min_eq_left inside] at reached
  refine ⟨.ofList before, .ofList after, ?_, ?_, ?_⟩
  · rw [← String.ofList_append, ← split, String.ofList_toList]
  · rw [String.toList_ofList, reached]
  · rw [show position = ⟨position.line, position.column⟩ from rfl, offset_of_le small found inside,
      String.utf8ByteSize_ofList, size]

theorem offset_of_not_isIn (outside : ¬position.IsIn text) (fits : ¬position.Overruns text) :
    (ofText text).offset position = .ok none := by
  cases found : (linesOf text.toList)[position.line]? with
  | none => exact offset_of_none found
  | some own =>
      have past : own.length < position.column := by
        by_contra! inside
        exact outside ⟨own, found, inside⟩
      have reachable : linesSize ((linesOf text.toList).take position.line) + utf8Len own +
          (position.column - own.length) < Counter.limit := by
        by_contra! exceeds
        exact fits ⟨own, found, past, exceeds⟩
      exact (offset_of_lt found past).trans (if_pos reachable)

theorem offset_of_overruns (overruns : position.Overruns text) :
    (ofText text).offset position = .error ⟨⟩ := by
  obtain ⟨own, found, past, exceeds⟩ := overruns
  exact (offset_of_lt found past).trans (if_neg (Nat.not_lt.mpr exceeds))

theorem not_isIn_of_overruns (overruns : position.Overruns text) : ¬position.IsIn text := by
  rintro ⟨line, found, inside⟩
  obtain ⟨own, foundOwn, past, _⟩ := overruns
  obtain rfl := Option.some.inj (found.symm.trans foundOwn)
  omega

end Text.LineIndex

namespace Snapshot

/-- Every question about the position of a file is answered by the error. -/
structure Refuses (snapshot : Snapshot) (path : File.Path) (position : Position)
    (error : QueryError) : Prop where
  hover : snapshot.hover path position = .error error
  definition : snapshot.definition path position = .error error
  uses : snapshot.uses path position = .error error
  ruleAt : snapshot.ruleAt path position = .error error

/-- A question about a loaded file is refused where the file has no such offset. -/
theorem refuses_of_offset {snapshot : Snapshot} {path : File.Path} {position : Position}
    {source : SourceFile} {error : QueryError} (loaded : snapshot.fileAt? path = some source)
    (noOffset : source.offset position = .error error) :
    snapshot.Refuses path position error := by
  have target : snapshot.targetAt path position = .error error := by
    rw [targetAt, loaded]
    dsimp only
    rw [noOffset]
    rfl
  refine ⟨?_, ?_, ?_, ?_⟩
  · rw [hover, target]
    rfl
  · rw [definition, target]
    rfl
  · rw [uses, target]
    rfl
  · rw [ruleAt, loaded]
    dsimp only
    rw [noOffset]
    rfl

/-- All questions about a position that is refused by the index of a file are refused. -/
theorem refuses_of_index {snapshot : Snapshot} {path : File.Path} {position : Position}
    {source : SourceFile} (loaded : snapshot.fileAt? path = some source)
    (refused : (LineIndex.ofText source.analysis.text).offset position = .ok none) :
    snapshot.Refuses path position (.outside position source.path) := by
  refine refuses_of_offset loaded ?_
  rw [SourceFile.offset, source.analysis.index_eq, refused]

end Snapshot

/-- The refusal is in words wherever the position counted from one can be shown. -/
theorem QueryError.message_outside {position : Position}
    (line : position.line + 1 < Counter.limit) (column : position.column + 1 < Counter.limit)
    (path : File.Path) :
    (QueryError.outside position path).message =
      .ok ("Invalid argument: position " ++
        (toString (position.line + 1) ++ ":" ++ toString (position.column + 1)) ++
        " is outside " ++ path.spelling) := by
  rw [QueryError.message, Position.display_eq line column]
  rfl

/-- The index has an offset for exactly the positions that the text has, and it is the one that
is reached after as many lines and as many characters of the next line. Every other position is
refused, by the index and by all questions about a file with that text, unless it overruns the
counters, which is exactly where the arithmetic fails. The refusal is in words wherever the
position counted from one can be shown. -/
theorem positions_validated (text : String) (position : Position)
    (small : text.utf8ByteSize < Counter.limit) :
    let index := LineIndex.ofText text
    ((∃ offset, index.offset position = .ok (some offset)) ↔ position.IsIn text) ∧
      (∀ offset, index.offset position = .ok (some offset) →
        ∃ before after, text = before ++ after ∧ Position.after before.toList = position ∧
          before.utf8ByteSize = offset) ∧
      (index.offset position = .error ⟨⟩ ↔ position.Overruns text) ∧
      (¬position.IsIn text → ¬position.Overruns text →
        index.offset position = .ok none ∧
          ∀ (snapshot : Snapshot) (path : File.Path) (source : SourceFile),
            snapshot.fileAt? path = some source → source.analysis.text = text →
              snapshot.Refuses path position (.outside position source.path)) ∧
      (position.line + 1 < Counter.limit → position.column + 1 < Counter.limit →
        ∀ path : File.Path, (QueryError.outside position path).message =
          .ok ("Invalid argument: position " ++
            (toString (position.line + 1) ++ ":" ++ toString (position.column + 1)) ++
            " is outside " ++ path.spelling)) := by
  intro index
  have words := @QueryError.message_outside position
  by_cases isIn : position.IsIn text
  · obtain ⟨before, after, split, reached, isOffset⟩ := LineIndex.offset_of_isIn small isIn
    have noError : index.offset position ≠ .error ⟨⟩ := by
      rw [show index.offset position = _ from isOffset]
      exact nofun
    refine ⟨⟨fun _ => isIn, fun _ => ⟨_, isOffset⟩⟩, fun offset found => ?_, ⟨?_, ?_⟩, ?_, words⟩
    · have same := Option.some.inj (Except.ok.inj (isOffset.symm.trans found))
      exact ⟨before, after, split, reached, same⟩
    · exact fun failed => absurd failed noError
    · exact fun overruns => absurd isIn (LineIndex.not_isIn_of_overruns overruns)
    · exact fun outside => absurd isIn outside
  · by_cases overruns : position.Overruns text
    · have failed : index.offset position = .error ⟨⟩ := LineIndex.offset_of_overruns overruns
      rw [failed]
      exact ⟨⟨nofun, fun inside => absurd inside isIn⟩, nofun, ⟨fun _ => overruns, fun _ => rfl⟩,
        fun _ fits => absurd overruns fits, words⟩
    · have refused : index.offset position = .ok none :=
        LineIndex.offset_of_not_isIn isIn overruns
      rw [refused]
      refine ⟨⟨nofun, fun inside => absurd inside isIn⟩, nofun,
        ⟨nofun, fun exceeds => absurd exceeds overruns⟩, fun _ _ => ⟨rfl, ?_⟩, words⟩
      intro snapshot path source loaded isText
      exact Snapshot.refuses_of_index loaded (isText ▸ refused)

/-- A loaded file of two lines is asked about the place behind the last character of the second
line. -/
theorem positions_validated_past_wide :
    "é\n漢x".utf8ByteSize < Counter.limit ∧
      ∃ (snapshot : Snapshot) (path : File.Path) (source : SourceFile),
        snapshot.fileAt? path = some source ∧ source.analysis.text = "é\n漢x" ∧
          snapshot.Refuses path ⟨1, 3⟩ (.outside ⟨1, 3⟩ path) ∧
          (QueryError.outside ⟨1, 3⟩ path).message =
            .ok "Invalid argument: position 2:4 is outside /g/A.g4" := by
  have small : "é\n漢x".utf8ByteSize < Counter.limit := by decide
  obtain ⟨_, _, _, refused, words⟩ := positions_validated "é\n漢x" ⟨1, 3⟩ small
  have isRead : (Analysis.ofText? 0 ⟨"/g/A.g4"⟩ 1 "é\n漢x").isSome = true := by
    decide +kernel
  obtain ⟨analysis, read⟩ := Option.isSome_iff_exists.mp isRead
  obtain ⟨_, isPath, _, isText⟩ := Analysis.of_ofText? read
  let source : SourceFile := ⟨analysis, 0, ⟨[], [], ⟨[], []⟩⟩⟩
  let snapshot : Snapshot := ⟨File.Map.empty.put 0 source⟩
  have isPath : source.path = ⟨"/g/A.g4"⟩ := isPath
  have loaded : snapshot.fileAt? ⟨"/g/A.g4"⟩ = some source := by
    have named : (File.Path.mk "/g/A.g4").same source.path = true := by
      rw [isPath, File.Path.same_refl]
    exact List.find?_cons_of_pos named
  have lines : linesOf "é\n漢x".toList = [['é'], ['漢', 'x']] := by decide
  have outside : ¬(⟨1, 3⟩ : Position).IsIn "é\n漢x" := by
    rintro ⟨own, found, inside⟩
    rw [lines] at found
    obtain rfl := Option.some.inj found
    exact absurd inside (by decide)
  have fits : ¬(⟨1, 3⟩ : Position).Overruns "é\n漢x" := by
    rintro ⟨own, found, _, exceeds⟩
    rw [lines] at found exceeds
    obtain rfl := Option.some.inj found
    exact absurd exceeds (by decide)
  refine ⟨small, snapshot, ⟨"/g/A.g4"⟩, source, loaded, isText, ?_,
    words (by decide) (by decide) ⟨"/g/A.g4"⟩⟩
  rw [← isPath]
  exact (refused outside fits).2 snapshot source.path source (isPath ▸ loaded) isText

/-- A column that a client sends to mean the end of a line runs over: the position is not one of
the text, and still it is not refused. -/
theorem far_column_not_refused :
    ¬(⟨0, 4294967295⟩ : Position).IsIn "é" ∧
      (LineIndex.ofText "é").offset ⟨0, 4294967295⟩ = .error ⟨⟩ := by
  have lines : linesOf "é".toList = [['é']] := by decide
  have overruns : (⟨0, 4294967295⟩ : Position).Overruns "é" := by
    refine ⟨['é'], ?_, by decide, ?_⟩
    · rw [lines]
      rfl
    · rw [lines]
      decide
  exact ⟨LineIndex.not_isIn_of_overruns overruns, LineIndex.offset_of_overruns overruns⟩

end GrammarDesk
