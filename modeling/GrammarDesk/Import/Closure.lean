import GrammarDesk.Graph.Search
import GrammarDesk.Import.Graph

/-!
Contract: what the imports of the loaded files lead to.

Owns: the graph with every import led to its file, import closures, import
cycles, and the files that depend on others.

Files are told by their place in the order of the graph, so that a search marks
them in an array.
-/

namespace GrammarDesk.Import

open GrammarDesk.Graph (Marks rounds seek? reached)

structure Member where
  file : File.Id
  visibility : Visibility
  /-- The least number of imports that lead to the file. It never wraps. -/
  depth : Nat
deriving DecidableEq, Repr

/-- An import that leads back to the file it is in. -/
structure Cycle where
  start : ImportClause
  /-- The files along the cycle; the first and the last are the importing
  file. -/
  path : List File.Id
deriving DecidableEq, Repr

/-- The files that imports lead to from a file, in the order of lookup, and the
cycles through the file. -/
structure Closure where
  members : List Member
  cycles : List Cycle
deriving DecidableEq, Repr

/-- For every file of a graph its imports that lead somewhere, each with the
place of the file it leads to. -/
def Graph.allEdges (graph : Graph) : List (List (ImportClause × Nat)) :=
  graph.nodes.values.map fun node => graph.placesOf node.imports

/-- For every place the places that edges lead from, when these are the edges from
every place. -/
def reversed (edges : List (List (ImportClause × Nat))) : Array (List Nat) :=
  edges.zipIdx.foldl
    (fun table (row, source) =>
      row.foldl (fun table (_, target) => table.modify target (source :: ·)) table)
    (Array.replicate edges.length [])

/-- A graph whose imports have all been led to files. -/
structure Links where
  graph : Graph
  /-- The files in ascending order. -/
  files : Array File.Id
  /-- For every file its imports, each with the place of the file it leads to. -/
  edges : Array (List (ImportClause × Nat))
  /-- For every file the places of the files that import it. -/
  importers : Array (List Nat)
  files_eq : files = graph.files.toArray
  importers_eq : importers = reversed edges.toList
deriving Repr

/-- The graph with all imports led to their files. -/
def Graph.links (graph : Graph) : Links :=
  let edges := graph.allEdges
  { graph
    files := graph.files.toArray
    edges := edges.toArray
    importers := reversed edges
    files_eq := rfl
    importers_eq := rfl }

namespace Links

def size (links : Links) : Nat :=
  links.files.size

def place? (links : Links) (file : File.Id) : Option Nat :=
  links.files.findIdx? fun other => other = file

def fileAt (links : Links) (place : Nat) : File.Id :=
  links.files.getD place 0

def edgesAt (links : Links) (place : Nat) : List (ImportClause × Nat) :=
  links.edges.getD place []

def importersAt (links : Links) (place : Nat) : List Nat :=
  links.importers.getD place []

/-- The marks of a search that has found the file at one place. -/
def marksOf (links : Links) (place : Nat) : Marks :=
  (Marks.fresh links.size).mark place

/-! ## Members -/

/-- The files one import further than a file that is seen in a certain way. -/
def stepVisible (links : Links) : Nat × Visibility → List (Nat × Visibility)
  | (place, visibility) =>
      (links.edgesAt place).map fun (clause, target) =>
        (target, visibility.through clause.kind)

/-- The order in which the files of one depth are tried. -/
def arrange (links : Links) (arrivals : List (Nat × Visibility)) : List (Nat × Visibility) :=
  match links.graph.precedence with
  | .first => arrivals
  | .last => arrivals.reverse

/-- The files of each depth below a file. -/
def layers (links : Links) (place : Nat) : List (List (Nat × Visibility)) :=
  rounds links.stepVisible links.arrange links.size (links.marksOf place) [(place, .all)]

/-- The files that imports lead to from a file, nearest first. -/
def members (links : Links) (place : Nat) : List Member :=
  ((links.layers place).zipIdx 1).flatMap fun (layer, depth) =>
    layer.map fun (member, visibility) => ⟨links.fileAt member, visibility, depth⟩

/-! ## Cycles -/

/-- The files one import further than a file to which a way has led, each with its own way,
the last file first. -/
def stepOn (links : Links) : Nat × List Nat → List (Nat × List Nat)
  | (place, way) => (links.edgesAt place).map fun (_, target) => (target, target :: way)

/-- A shortest way of imports from one file to another, both included: the first that a
search finds which tries the imports of each file in their order. -/
def pathBetween (links : Links) (source goal : Nat) : Option (List Nat) :=
  if source = goal then
    some [goal]
  else
    (seek? links.stepOn (fun place => place = goal) links.size (links.marksOf source)
      [(source, [source])]).map fun (_, way) => way.reverse

/-- The cycles through a file, one for each of its imports from which imports lead back. -/
def cycles (links : Links) (place : Nat) : List Cycle :=
  (links.edgesAt place).filterMap fun (clause, target) =>
    (links.pathBetween target place).map fun path =>
      ⟨clause, (place :: path).map links.fileAt⟩

/-! ## Closures -/

/-- The import closure of a file. A file that is not loaded imports nothing. -/
def closure (links : Links) (file : File.Id) : Closure :=
  match links.place? file with
  | some place => ⟨links.members place, links.cycles place⟩
  | none => ⟨[], []⟩

/-! ## Dependents -/

/-- The files that import one of some files, directly or not, by ascending
number. -/
def dependents (links : Links) (files : List File.Id) : List File.Id :=
  let found := reached links.importersAt links.size (files.filterMap links.place?)
  ((List.range links.size).filter found.contains).map links.fileAt

end Links

namespace Graph

def closure (graph : Graph) (file : File.Id) : Closure :=
  graph.links.closure file

/-- The files that import one of some files, directly or not, by ascending
number. -/
def dependents (graph : Graph) (files : List File.Id) : List File.Id :=
  graph.links.dependents files

end Graph

end GrammarDesk.Import
