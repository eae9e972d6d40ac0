import GrammarDesk.Import.Closure

/-!
Contract: an import graph that keeps what it has found.

Owns: the files by grammar and by stem, the closures that were asked for, and the requests
that change the graph or ask it something.

Does not own: what a closure is (`Closure`), or what a name stands for (`Graph`).

Names are looked up in the two tables, also when a closure is found. Both tables are made
anew, and all closures dropped, when a file says something new or leaves. A closure is found
when it is first asked for, of a file that is not in the graph too.
-/

namespace GrammarDesk.Import

/-- Names with the files that have them. Of several files with one name the least stands
first. -/
abbrev Names := List (String × File.Id)

/-- The files of a graph by a name that they say of themselves. -/
def Names.ofNodes (nameOf : Node → Option String) (nodes : File.Map Node) : Names :=
  nodes.entries.filterMap fun entry => (nameOf entry.2).map fun name => (name, entry.1)

/-- An import graph with what has been found in it. -/
structure CachedGraph where
  graph : Graph
  byGrammar : Names
  byStem : Names
  /-- The closures that were asked for since the graph last changed. -/
  closures : File.Map Closure
deriving Repr

namespace CachedGraph

def empty (precedence : Precedence) : CachedGraph :=
  ⟨.empty precedence, [], [], .empty⟩

/-- The graph with its tables made anew and no closure kept. -/
def invalidate (cached : CachedGraph) : CachedGraph :=
  { cached with
    byGrammar := .ofNodes Node.grammar cached.graph.nodes
    byStem := .ofNodes Node.stem cached.graph.nodes
    closures := .empty }

/-- The graph in which a file says something, and whether this is new. -/
def set (cached : CachedGraph) (file : File.Id) (node : Node) : Bool × CachedGraph :=
  if cached.graph.node? file = some node then
    (false, cached)
  else
    (true, { cached with graph := cached.graph.set file node }.invalidate)

def erase (cached : CachedGraph) (file : File.Id) : Bool × CachedGraph :=
  match cached.graph.node? file with
  | none => (false, cached)
  | some _ => (true, { cached with graph := cached.graph.erase file }.invalidate)

/-! ## Questions -/

def resolve (cached : CachedGraph) (name : String) : Option File.Id :=
  match cached.byGrammar.lookup name with
  | some file => some file
  | none => cached.byStem.lookup name

def placeOf? (cached : CachedGraph) (name : String) : Option Nat :=
  (cached.resolve name).bind fun file => cached.graph.files.idxOf? file

/-- The graph with all imports led to the files that the tables name. -/
def links (cached : CachedGraph) : Links :=
  let edges := cached.graph.nodes.values.map fun node =>
    node.imports.filterMap fun clause =>
      (cached.placeOf? clause.name).map fun place => (clause, place)
  { graph := cached.graph
    files := cached.graph.files.toArray
    edges := edges.toArray
    importers := reversed edges
    files_eq := rfl
    importers_eq := rfl }

/-- The import closure of a file, and the graph that keeps it. -/
def closure (cached : CachedGraph) (file : File.Id) : Closure × CachedGraph :=
  match cached.closures.get? file with
  | some closure => (closure, cached)
  | none =>
      let closure := cached.links.closure file
      (closure, { cached with closures := cached.closures.put file closure })

/-- The files that import one of some files, directly or not, by ascending number. -/
def dependents (cached : CachedGraph) (files : List File.Id) : List File.Id :=
  cached.links.dependents files

/-! ## Requests -/

inductive Request where
  | set (file : File.Id) (node : Node)
  | erase (file : File.Id)
  | closure (file : File.Id)
  | resolve (name : String)
  | dependents (files : List File.Id)
deriving Repr

def perform (cached : CachedGraph) : Request → CachedGraph
  | .set file node => (cached.set file node).2
  | .erase file => (cached.erase file).2
  | .closure file => (cached.closure file).2
  | .resolve _ | .dependents _ => cached

/-- The graph after several requests to the graph of no files. -/
def run (precedence : Precedence) (requests : List Request) : CachedGraph :=
  requests.foldl perform (.empty precedence)

end CachedGraph

end GrammarDesk.Import
