import GrammarDesk.Proofs.Symbol.Layout
import GrammarDesk.Proofs.Workspace.Loaded

/-!
Contract: what the analysis of a text keeps when whitespace and comments change.

Owns: what it means that two analyses differ in layout only, and its proof for texts of the
same significant lexemes.

Does not own: shapes (`Syntax`), members (`Grammar`), tables (`Symbol`).

Main statement: `analysis_ignores_layout`.
-/

namespace GrammarDesk

open Syntax

/-- Two analyses differ in layout only: their trees are the same without trivia and places,
their syntax errors have the same messages in the same order, and their tables are the same
without places and documentation. -/
structure Analysis.SameButLayout (left right : Analysis) : Prop where
  shape : left.parse.tree.shape? = right.parse.tree.shape?
  messages : left.parse.errors.map SyntaxError.message =
    right.parse.errors.map SyntaxError.message
  table : left.table.unplaced = right.table.unplaced

theorem Analysis.parse_eq_ofTokens (analysis : Analysis) :
    analysis.parse =
      .ofTokens analysis.text.utf8ByteSize (Scan.tokenize analysis.text) :=
  (Parse.ofText?_eq_some_iff.mp analysis.parse_eq).2

/-- Analyses of one file number whose texts have the same significant lexemes differ in
layout only. -/
theorem Analysis.sameButLayout_of_significant {left right : Analysis}
    (sameFile : left.file = right.file)
    (same : significant left.text = significant right.text) : left.SameButLayout right := by
  have read (analysis : Analysis) := Parse.shape_of_lexemes analysis.text.utf8ByteSize
    (Scan.tokenize analysis.text)
  have sameLexemes : significantOf (Scan.tokenize left.text) =
      significantOf (Scan.tokenize right.text) := same
  have sameShape : left.parse.tree.shape? = right.parse.tree.shape? := by
    rw [left.parse_eq_ofTokens, right.parse_eq_ofTokens, (read left).1, (read right).1,
      sameLexemes]
  have sameMessages : left.parse.errors.map SyntaxError.message =
      right.parse.errors.map SyntaxError.message := by
    rw [left.parse_eq_ofTokens, right.parse_eq_ofTokens, (read left).2, (read right).2,
      sameLexemes]
  refine ⟨sameShape, sameMessages, ?_⟩
  rw [left.table_eq, right.table_eq, sameFile]
  exact Declare.table_congr (Grammar.membersOf_congr sameShape) right.file left.index
    right.index

/-- Whitespace and comments say nothing. Two texts that can be read and have the same
significant lexemes are both analysed, and the analyses differ in layout only. -/
theorem analysis_ignores_layout (file : File.Id) (path : File.Path) (version later : Nat)
    {left right : String} (leftReadable : readable left = true)
    (rightReadable : readable right = true) (same : significant left = significant right) :
    ∃ leftAnalysis rightAnalysis,
      Analysis.ofText? file path version left = some leftAnalysis ∧
      Analysis.ofText? file path later right = some rightAnalysis ∧
      leftAnalysis.SameButLayout rightAnalysis := by
  have leftRead := Analysis.isSome_ofText? file path version left
  have rightRead := Analysis.isSome_ofText? file path later right
  rw [leftReadable] at leftRead
  rw [rightReadable] at rightRead
  obtain ⟨leftAnalysis, ofLeft⟩ := Option.isSome_iff_exists.mp leftRead
  obtain ⟨rightAnalysis, ofRight⟩ := Option.isSome_iff_exists.mp rightRead
  obtain ⟨leftFile, _, _, leftText⟩ := Analysis.of_ofText? ofLeft
  obtain ⟨rightFile, _, _, rightText⟩ := Analysis.of_ofText? ofRight
  refine ⟨leftAnalysis, rightAnalysis, ofLeft, ofRight, ?_⟩
  apply Analysis.sameButLayout_of_significant (leftFile.trans rightFile.symm)
  rw [leftText, rightText, same]

/-- A grammar on one line and the same grammar with documentation, comments and blanks, of
which some stand inside an import and in front of a missing semicolon. -/
theorem analysis_ignores_comments :
    let left := "lexer grammar A;import B=C;tokens\x7bD\x7dmode E"
    let right := "lexer grammar A ;\n/** Doc. */ import B /* is */ = C; // end\n" ++
      "tokens \x7b D \x7d\nmode E /** none */\n"
    readable left = true ∧ readable right = true ∧ significant left = significant right ∧
      ∃ leftAnalysis rightAnalysis,
        Analysis.ofText? 0 ⟨"a.g4"⟩ 1 left = some leftAnalysis ∧
        Analysis.ofText? 0 ⟨"a.g4"⟩ 2 right = some rightAnalysis ∧
        leftAnalysis.SameButLayout rightAnalysis := by
  intro left right
  have leftReadable : readable left = true := by decide +kernel
  have rightReadable : readable right = true := by decide +kernel
  have same : significant left = significant right := by decide +kernel
  exact ⟨leftReadable, rightReadable, same,
    analysis_ignores_layout 0 ⟨"a.g4"⟩ 1 2 leftReadable rightReadable same⟩

end GrammarDesk
