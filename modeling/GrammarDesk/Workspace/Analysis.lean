import GrammarDesk.Check.Basic
import GrammarDesk.Diagnostic.Merge
import GrammarDesk.Import.Closure
import GrammarDesk.Symbol.Declare
import GrammarDesk.Syntax.Parse

/-!
Contract: what the text of a file says by itself.

Owns: the analysis of a file, which holds everything about it that no other file
can change, together with the proof that all parts belong to its text.

Does not own: what the names of the file mean among other files (`Linking`).
-/

namespace GrammarDesk

open Text Grammar

def declarations (file : File.Id) (index : LineIndex) (parse : Syntax.Parse) :
    SymbolTable × List Diagnostic :=
  Declare.table file index (membersOf parse.tree)

/-- The reports about a parsed file that need no other file: its syntax errors,
its duplicate declarations, and the checks of its grammar. -/
def localReports (file : File.Id) (path : File.Path) (index : LineIndex)
    (parse : Syntax.Parse) : List Diagnostic :=
  let (table, duplicates) := declarations file index parse
  Diagnostic.merge
    [ parse.errors.map (Diagnostic.ofSyntaxError file index),
      duplicates,
      Check.grammar ⟨file, index, table⟩ (membersOf parse.tree) (rulesOf parse.tree)
        path.stem ]

/-- A file that was read, and what its text says. -/
structure Analysis where
  file : File.Id
  path : File.Path
  /-- Which reading of the file this is, counted from one; the count never wraps. -/
  version : Nat
  text : String
  parse : Syntax.Parse
  index : LineIndex
  table : SymbolTable
  /-- What is wrong with the file by itself. -/
  reports : List Diagnostic
  parse_eq : Syntax.Parse.ofText? text = some parse
  index_eq : index = LineIndex.ofText text
  table_eq : table = (declarations file index parse).1
  reports_eq : reports = localReports file path index parse
deriving Repr

namespace Analysis

/-- The analysis of a text; none for a text that begins with trivia. -/
def ofText? (file : File.Id) (path : File.Path) (version : Nat) (text : String) :
    Option Analysis :=
  match parse_eq : Syntax.Parse.ofText? text with
  | none => none
  | some parse =>
      let index := LineIndex.ofText text
      some
        { file, path, version, text, parse, index
          table := (declarations file index parse).1
          reports := localReports file path index parse
          parse_eq
          index_eq := rfl
          table_eq := rfl
          reports_eq := rfl }

/-- An analysis belongs to what was read. -/
theorem of_ofText? {file : File.Id} {path : File.Path} {version : Nat} {text : String}
    {analysis : Analysis} (read : ofText? file path version text = some analysis) :
    analysis.file = file ∧ analysis.path = path ∧ analysis.version = version ∧
      analysis.text = text := by
  unfold ofText? at read
  split at read
  · cases read
  · cases read
    exact ⟨rfl, rfl, rfl, rfl⟩

def members (analysis : Analysis) : List Member :=
  membersOf analysis.parse.tree

/-- The rules of the file, wherever they stand. -/
def rules (analysis : Analysis) : List Rule :=
  rulesOf analysis.parse.tree

/-- What the file says about itself in the import graph. -/
def node (analysis : Analysis) : Import.Node :=
  ⟨analysis.path.stem, analysis.table.grammarName, analysis.table.imports⟩

/-- The symbol that the name of the grammar stands for: the one its header
declares, or else one named like the file. -/
def grammarSymbol (analysis : Analysis) : Symbol :=
  (analysis.table.symbols.find? fun symbol => symbol.kind = .grammar).getD
    (.plain (analysis.path.stem.getD "") .grammar analysis.file (.emptyAt 0)
      ⟨⟨0, 0⟩, ⟨0, 0⟩⟩ (.emptyAt 0))

/-- Whether a new analysis looks the same to importing files as an earlier
one. -/
def sameOutside (earlier later : Analysis) : Bool :=
  earlier.table.sameExports later.table && earlier.table.imports = later.table.imports

end Analysis

end GrammarDesk
