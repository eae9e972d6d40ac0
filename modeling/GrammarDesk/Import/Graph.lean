import GrammarDesk.File.Map
import GrammarDesk.Reference.Lookup

/-!
Contract: which files import which.

Owns: the graph of the loaded files, what the name of an imported grammar stands
for, and where the imports of a file lead.

Does not own: closures and cycles (`Closure`).

An import names a grammar. It leads to the file whose header declares that
grammar, or else to the file with that stem; of several files to the one with the
least number. A graph holds what files say and nothing computed from it, so an
answer never depends on what the graph held before.
-/

namespace GrammarDesk.Import

/-- Which declaration wins when several imported files have it. -/
inductive Precedence where
  /-- The nearest, and of equally near ones the first imported. -/
  | first
  /-- The nearest, and of equally near ones the last imported. -/
  | last
deriving DecidableEq, Repr

/-- What a file says about itself: its stem, its grammar and its imports. -/
structure Node where
  stem : Option String
  grammar : Option String
  imports : List ImportClause
deriving DecidableEq, Repr

/-- The loaded files and what they say. -/
structure Graph where
  precedence : Precedence
  nodes : File.Map Node
deriving Repr

namespace Graph

def empty (precedence : Precedence) : Graph :=
  ⟨precedence, .empty⟩

def node? (graph : Graph) (file : File.Id) : Option Node :=
  graph.nodes.get? file

def files (graph : Graph) : List File.Id :=
  graph.nodes.files

def set (graph : Graph) (file : File.Id) (node : Node) : Graph :=
  { graph with nodes := graph.nodes.put file node }

def erase (graph : Graph) (file : File.Id) : Graph :=
  { graph with nodes := graph.nodes.erase file }

/-! ## Names -/

/-- The place, in the order of the files, of the first file whose node satisfies
a test. -/
def firstPlace (graph : Graph) (test : Node → Bool) : Option Nat :=
  graph.nodes.entries.findIdx? fun entry => test entry.2

/-- The place of the file that the name of an imported grammar stands for. -/
def placeOf? (graph : Graph) (name : String) : Option Nat :=
  match graph.firstPlace fun node => node.grammar = some name with
  | some place => some place
  | none => graph.firstPlace fun node => node.stem = some name

def resolve (graph : Graph) (name : String) : Option File.Id :=
  (graph.placeOf? name).bind fun place => graph.files[place]?

/-- The name of a file for a reader: its grammar, or else its stem. -/
def display (graph : Graph) (file : File.Id) : String :=
  match graph.node? file with
  | some node => (node.grammar.or node.stem).getD "?"
  | none => "?"

/-! ## Imports of a file -/

/-- The imports that lead somewhere, in their order, with the places of the files
they lead to. -/
def placesOf (graph : Graph) (imports : List ImportClause) : List (ImportClause × Nat) :=
  imports.filterMap fun clause =>
    (graph.placeOf? clause.name).map fun place => (clause, place)

/-- The imports of a file that lead somewhere, in their order. -/
def edges (graph : Graph) (file : File.Id) : List (ImportClause × File.Id) :=
  match graph.node? file with
  | none => []
  | some node =>
      node.imports.filterMap fun clause =>
        (graph.resolve clause.name).map fun target => (clause, target)

end Graph

end GrammarDesk.Import
