import GrammarDesk.Import.Cached
import GrammarDesk.Workspace.Flush

/-!
Contract: a workspace that keeps its import graph from one operation to the next.

Owns: what taking in and giving up files tells the graph that is kept, what it asks
the graph and when, and the operations with these calls in them.

Does not own: what the graph answers (`Import.CachedGraph`), or the operations that
need no graph (`Flush`).

A workspace by itself reads its graph off the loaded files whenever it needs one. Here
each file that comes or goes is told to one graph, which then forgets what it has
found; the closures of the files that are linked again are asked one after another, and
the graph remembers them for later operations.
-/

namespace GrammarDesk

structure Registry where
  workspace : Workspace
  graph : Import.CachedGraph
deriving Repr

namespace Registry

def empty (config : Config) : Registry :=
  ⟨.empty config, .empty config.precedence⟩

/-! ## Linking -/

/-- The links of a file, its closure found in the graph or remembered by it. -/
def linking (sources : Sources) (reportImports : Bool) (graph : Import.CachedGraph)
    (analysis : Analysis) : Linking × Import.CachedGraph :=
  let (closure, asked) := graph.closure analysis.file
  (.ofClosure sources asked.graph asked.resolve reportImports closure analysis, asked)

/-- The file that an analysis becomes. For a file that is kept the graph is asked
nothing. -/
def link (workspace : Workspace) (sources : Sources) (read reached : List File.Id)
    (graph : Import.CachedGraph) (analysis : Analysis) : SourceFile × Import.CachedGraph :=
  match workspace.fate read reached analysis.file with
  | .linked resolution =>
      let (linking, asked) := linking sources workspace.config.reportImports graph analysis
      (⟨analysis, resolution, linking⟩, asked)
  | .kept old => (old, graph)

def publish (registry : Registry) (sources : Sources) (read reached : List File.Id) :
    List File.Path × Registry :=
  let (files, graph) := sources.thread (link registry.workspace sources read reached) registry.graph
  let (relinked, workspace) := registry.workspace.present sources read reached ⟨files⟩
  (relinked, ⟨workspace, graph⟩)

/-! ## Taking in and giving up -/

/-- The graph after it was told what some files say. -/
def tell (graph : Import.CachedGraph) (batch : List Analysis) : Import.CachedGraph :=
  batch.foldl (fun graph analysis => (graph.set analysis.file analysis.node).2) graph

/-- Install new analyses. The graph is asked for the files that they reach before it is
told what they say, and once more after. -/
def install (registry : Registry) (batch : List Analysis) : List File.Path × Registry :=
  let workspace := registry.workspace
  let read := batch.map fun analysis => analysis.file
  let news := (batch.filter workspace.isNews).map fun analysis => analysis.file
  let told := tell registry.graph batch
  let reached := registry.graph.dependents news ++ told.dependents news
  let sources :=
    batch.foldl (fun sources analysis => sources.put analysis.file analysis)
      workspace.snapshot.sources
  let counts := workspace.counts
  publish
    ⟨{ workspace with counts := { counts with recomputes := counts.recomputes + batch.length } },
      told⟩
    sources read reached

def load (registry : Registry) (path : File.Path) (text : String) : Option File.Id × Registry :=
  let (file, table) := registry.workspace.table.intern path
  let version := registry.workspace.nextVersion file
  let opened := ({ registry.workspace with table }.resetEdits file).countVersion file
  match Analysis.ofText? file path version text with
  | none => (none, ⟨opened, registry.graph⟩)
  | some analysis => (some file, (install ⟨opened, registry.graph⟩ [analysis]).2)

/-- Close the file that a path names. The graph is asked for the files that it reaches
before it is told that the file has left. -/
def close (registry : Registry) (path : File.Path) : Bool × Registry :=
  let workspace := registry.workspace
  match workspace.table.id? path with
  | none => (false, registry)
  | some file =>
      let forgetful := workspace.resetEdits file
      if (workspace.snapshot.file? file).isNone then
        (false, ⟨forgetful, registry.graph⟩)
      else
        let reached := registry.graph.dependents [file]
        let noted :=
          { forgetful with changed := (forgetful.changed ++ [file]).eraseDups }
        (true, (publish ⟨noted, (registry.graph.erase file).2⟩
          (workspace.snapshot.sources.erase file) [] reached).2)

/-! ## Batches -/

def commit (registry : Registry) (outcomes : List Outcome) : Report × Registry :=
  let (accepted, late, settled) := registry.workspace.settle outcomes
  let counted :=
    { settled with
      counts := { settled.counts with discarded := settled.counts.discarded + late } }
  let (relinked, installed) := install ⟨counted, registry.graph⟩ accepted
  (⟨accepted.map fun analysis => analysis.path, relinked, late⟩, installed)

def flush (registry : Registry) (now : Option Nat) : Option Report × Registry :=
  let (batch, started) := registry.workspace.start now
  match started.compute? batch with
  | none => (none, ⟨started, registry.graph⟩)
  | some outcomes =>
      let (report, committed) := commit ⟨started, registry.graph⟩ outcomes
      (some report, committed)

end Registry

end GrammarDesk
