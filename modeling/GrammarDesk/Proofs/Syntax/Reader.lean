import GrammarDesk.Proofs.Syntax.Progress.File

/-!
Contract: a text is read as the reader and its builder read it.

Owns: what it is for the reader over the tokens of a text, trivia among them, to come to a
result; and the proof that it comes to the reading of the text and to nothing else. So what is
proved of readings, that they spell the text and that layout does not change them, holds of what
the reader builds and reports.

No call of the builder panics on the way. Only at the end it may hand over no tree, where trivia
stands before the root.

Does not own: that the reader comes to an end (`Progress.File`), or what a reading is worth
(`Lossless`).

Main statement: `reads_iff`.
-/

namespace GrammarDesk.Syntax.Control

open Builder hiding trees
open Weave

/-- What the reader comes to on a text: the tree that its builder hands over, if it does, with
all that was reported. -/
def Reads (text : String) (result : Option Parse) : Prop :=
  let tokens := Scan.tokenize text
  let significant := tokens.filter fun token => !token.kind.isTrivia
  let lexemes := tokens.map Token.toLexeme
  ∃ log builder,
    Runs (.call .file) lexemes lexemes .next [] log ∧
      Builder.empty.run (callsIn log) = some builder ∧
        result = builder.finish?.map fun tree =>
          ⟨tree, (problemsOf log).map (Parse.locate text.utf8ByteSize significant)⟩

variable {tokens : List Token} {length : Nat} {inner : List Event} {middle : List Lexeme}

theorem ahead_map_toLexeme (tokens : List Token) :
    ahead (tokens.map Token.toLexeme) = significantOf tokens := by
  unfold ahead significantOf
  rw [List.filter_map]
  rfl

/-- Behind the last significant token stands trivia only. -/
theorem splitTrivia_of_end (ended : pastTrivia (tokens.map Token.toLexeme) = []) :
    splitTrivia tokens = (tokens, []) := by
  have none : (splitTrivia tokens).2 = [] := by
    unfold splitTrivia
    rw [List.span_eq_takeWhile_dropWhile]
    unfold pastTrivia at ended
    rw [List.dropWhile_map, List.map_eq_nil_iff] at ended
    exact ended
  have whole := splitTrivia_append tokens
  rw [none, List.append_nil] at whole
  exact Prod.ext whole none

theorem filter_splitTrivia (tokens : List Token) :
    (splitTrivia tokens).2.filter (fun token => !token.kind.isTrivia) =
      tokens.filter fun token => !token.kind.isTrivia := by
  have front := List.map_eq_nil_iff.mp (splitTrivia_spec tokens).1
  have whole := congrArg (List.filter fun token => !token.kind.isTrivia)
    (splitTrivia_append tokens)
  rw [List.filter_append, front, List.nil_append] at whole
  exact whole

/-- From any builder at the place where the first member begins, the root is put around the
members and all the rest. -/
theorem run_root {builder : Builder} {shapes : List Shape}
    (builds : Builds (tokens.map Token.toLexeme) inner shapes middle)
    (tile : Token.Tile builder.offset tokens length) (ended : pastTrivia middle = []) :
    builder.run (callsIn
        ([.build (.start .sourceFile)] ++ (inner ++ passTrivia middle) ++ [.build .finish])) =
      some (builder.put [root length tokens .sourceFile shapes] length) := by
  let opened := builder.opened builder.here .sourceFile
  obtain ⟨between, innerRun, isMiddle, right⟩ :=
    builds opened length tokens (sound_opened (Nat.le_refl _) .sourceFile) rfl tile
  have reached : Token.Tile (opened.put (trees length tokens shapes).1 between).offset
      (trees length tokens shapes).2 length := right
  obtain ⟨stop, behindRun, -, last⟩ := run_passTrivia isMiddle reached
  rw [← isMiddle] at ended
  rw [splitTrivia_of_end ended] at behindRun last
  obtain rfl : stop = length := last
  rw [put_put] at behindRun
  have closed := step_finish builder .sourceFile
    ((trees stop tokens shapes).1 ++ (trees stop tokens shapes).2.map .leaf) stop
  simp only [callsIn_append, callsIn_build, run_append, run_cons, run_nil, Option.bind_some,
    step_start, innerRun, behindRun, closed, opened]
  rw [root, offsetOf_of_tile tile]

/-- The builder puts the trivia in front and then the root. -/
theorem run_fileLog {shapes : List Shape}
    (builds : Builds (pastTrivia (tokens.map Token.toLexeme)) inner shapes middle)
    (tile : Token.Tile 0 tokens length) (ended : pastTrivia middle = []) :
    Builder.empty.run (callsIn (fileLog (tokens.map Token.toLexeme) inner middle)) =
      some (Builder.empty.put
        ((splitTrivia tokens).1.map .leaf ++
          [root length (splitTrivia tokens).2 .sourceFile shapes]) length) := by
  have begins : Token.Tile Builder.empty.offset tokens length := tile
  obtain ⟨start, triviaRun, isLeft, left⟩ := run_passTrivia rfl begins
  rw [← isLeft] at builds
  have stands : Token.Tile (Builder.empty.put ((splitTrivia tokens).1.map .leaf) start).offset
      (splitTrivia tokens).2 length := left
  have rootRun := run_root builds stands ended
  have called : callsIn [.call .file (tokens.map Token.toLexeme) []] = [] := rfl
  have whole : fileLog (tokens.map Token.toLexeme) inner middle =
      passTrivia (tokens.map Token.toLexeme) ++
        ([.build (.start .sourceFile)] ++ (inner ++ passTrivia middle) ++ [.build .finish]) ++
        [.call .file (tokens.map Token.toLexeme) []] := by
    simp only [fileLog, List.append_assoc]
  rw [whole, callsIn_append, callsIn_append, called, List.append_nil, run_append, triviaRun,
    Option.bind_some, rootRun, put_put]

/-- What is reported as a file is read are the problems of its members, with that of a missing
header in front. -/
theorem problemsOf_fileLog {lexemes : List Lexeme}
    (reports : problemsIn inner = (Production.members (ahead lexemes)).problems.toList)
    (header : inner.any Event.isHeader =
      (Production.members (ahead lexemes)).shapes.any (Shape.isNode .header)) :
    problemsOf (fileLog lexemes inner middle) = (Production.file (ahead lexemes)).2 := by
  have sameHeader : (fileLog lexemes inner middle).any Event.isHeader =
      inner.any Event.isHeader := by
    simp [fileLog, header_passTrivia, Event.isHeader, Procedure.isHeader]
  have sameProblems : problemsIn (fileLog lexemes inner middle) = problemsIn inner := by
    have ended : problemsIn [.call .file lexemes []] = [] := rfl
    simp [fileLog, problemsIn_append, problemsIn_passTrivia, problemsIn_build, ended]
  unfold problemsOf Production.file
  rw [sameHeader, sameProblems, reports, header]
  dsimp only
  split
  case isTrue => rfl
  case isFalse => rfl

/-- On every text the reader comes to the reading of the text. -/
theorem reads_ofText? (text : String) : Reads text (Parse.ofText? text) := by
  obtain ⟨inner, middle, members, file⟩ := exists_run ((Scan.tokenize text).map Token.toLexeme)
  have ended : pastTrivia middle = [] :=
    pastTrivia_of_end (members.leaves.trans (Production.rest_members _))
  have built := run_fileLog members.builds (Scan.tile_tokenize text) ended
  have problems : problemsOf (fileLog _ inner middle) = _ :=
    problemsOf_fileLog members.reports members.header
  refine ⟨_, _, file, built, ?_⟩
  have sameTokens := filter_splitTrivia (Scan.tokenize text)
  rw [problems, ahead_map_toLexeme]
  unfold Parse.ofText? Parse.ofTokens significantOf
  generalize splitTrivia (Scan.tokenize text) = parts at sameTokens ⊢
  obtain ⟨before, own⟩ := parts
  dsimp only at sameTokens ⊢
  rw [sameTokens, Production.shapes_file]
  rfl

/-- The reader of a text comes to the reading of the text and to nothing else. -/
theorem reads_iff {text : String} {result : Option Parse} :
    Reads text result ↔ result = Parse.ofText? text := by
  constructor
  · rintro ⟨log, builder, runs, built, rfl⟩
    obtain ⟨own, ownBuilder, ownRuns, ownBuilt, same⟩ := reads_ofText? text
    obtain ⟨-, -, rfl⟩ := ownRuns.unique runs
    obtain rfl := Option.some.inj (built.symm.trans ownBuilt)
    exact same.symm
  · rintro rfl
    exact reads_ofText? text

end GrammarDesk.Syntax.Control
