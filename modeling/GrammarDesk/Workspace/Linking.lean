import GrammarDesk.Reference.Bind
import GrammarDesk.Workspace.Analysis

/-!
Contract: what the names of a file mean among the loaded files.

Owns: the links of a file, namely its references, all that is wrong with it, and
its import closure, as a function of the analyses of all loaded files.

Does not own: when links are computed again (`Install`).
-/

namespace GrammarDesk

abbrev Sources := File.Map Analysis

namespace Sources

def graph (sources : Sources) (precedence : Import.Precedence) : Import.Graph :=
  ⟨precedence, sources.map Analysis.node⟩

end Sources

/-- What a file's names mean, and all that is wrong with the file. -/
structure Linking where
  references : List Reference
  diagnostics : List Diagnostic
  closure : Import.Closure
deriving DecidableEq, Repr

namespace Linking

def tables (sources : Sources) (closure : Import.Closure) : List ImportedTable :=
  closure.members.filterMap fun member =>
    (sources.get? member.file).map fun analysis =>
      ⟨member.file, analysis.table, member.visibility, member.depth⟩

def grammars (sources : Sources) (resolve : String → Option File.Id)
    (imports : List ImportClause) : List (String × Symbol) :=
  imports.filterMap fun clause =>
    ((resolve clause.name).bind sources.get?).map fun analysis =>
      (clause.name, analysis.grammarSymbol)

def cycleReport (file : File.Id) (graph : Import.Graph) (cycle : Import.Cycle) : Diagnostic :=
  .ofKind .cyclicImport file cycle.start.range cycle.start.span
    ("import cycle: " ++ " -> ".intercalate (cycle.path.map graph.display))

def ofClosure (sources : Sources) (graph : Import.Graph) (resolve : String → Option File.Id)
    (reportImports : Bool) (closure : Import.Closure) (analysis : Analysis) : Linking :=
  let scope : Scope :=
    { table := analysis.table
      closure := tables sources closure
      grammars := grammars sources resolve analysis.table.imports }
  let binder : Binder := ⟨analysis.file, analysis.index, scope, reportImports⟩
  let (references, reports) := binder.bind (Use.ofMembers analysis.members)
  { references
    diagnostics :=
      Diagnostic.merge
        [ analysis.reports, reports,
          closure.cycles.map (cycleReport analysis.file graph) ]
    closure }

/-- The links of a file among the loaded files. -/
def ofAnalysis (sources : Sources) (links : Import.Links) (reportImports : Bool)
    (analysis : Analysis) : Linking :=
  ofClosure sources links.graph links.graph.resolve reportImports
    (links.closure analysis.file) analysis

end Linking

end GrammarDesk
