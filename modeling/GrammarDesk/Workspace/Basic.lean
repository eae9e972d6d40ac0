import GrammarDesk.Edit.State
import GrammarDesk.Workspace.Linking

/-!
Contract: the loaded files of a workspace and what it remembers between
operations.

Owns: configurations, loaded files, snapshots of all loaded files, workspaces
and plain questions about them.

Does not own: the operations (`Install`, `Flush`), or questions about places in
a text (`Query`).
-/

namespace GrammarDesk

/-- The choices a workspace is opened with. -/
structure Config where
  /-- How long a file stays unread after its latest edit, in milliseconds. -/
  debounce : Nat
  precedence : Import.Precedence
  /-- Whether an import of a grammar that is not loaded is reported. -/
  reportImports : Bool
  /-- Whether the files of a batch may be read side by side, which changes no
  result. -/
  parallel : Bool
deriving DecidableEq, Repr

namespace Config

/-- The choices of a workspace that is told nothing else. -/
def standard : Config :=
  { debounce := 300
    precedence := .first
    reportImports := true
    parallel := true }

end Config

structure SourceFile where
  analysis : Analysis
  /-- How often the file was linked again since it was read. The count never wraps. -/
  resolution : Nat
  linking : Linking
deriving Repr

namespace SourceFile

def file (source : SourceFile) : File.Id :=
  source.analysis.file

/-- The path of the file, as it was spelled when the file was read. -/
def path (source : SourceFile) : File.Path :=
  source.analysis.path

def symbols (source : SourceFile) : List Symbol :=
  source.analysis.table.symbols

def references (source : SourceFile) : List Reference :=
  source.linking.references

/-- All that is wrong with the file, in the order it is shown. -/
def diagnostics (source : SourceFile) : List Diagnostic :=
  source.linking.diagnostics

end SourceFile

structure Snapshot where
  files : File.Map SourceFile
deriving Repr

namespace Snapshot

def empty : Snapshot := ⟨.empty⟩

def all (snapshot : Snapshot) : List SourceFile :=
  snapshot.files.values

def file? (snapshot : Snapshot) (file : File.Id) : Option SourceFile :=
  snapshot.files.get? file

def fileAt? (snapshot : Snapshot) (path : File.Path) : Option SourceFile :=
  snapshot.all.find? fun source => path.same source.path

def path? (snapshot : Snapshot) (file : File.Id) : Option File.Path :=
  (snapshot.file? file).map SourceFile.path

/-- The diagnostics of the file that a path names; a file that is not loaded has
none. -/
def diagnosticsAt (snapshot : Snapshot) (path : File.Path) : List Diagnostic :=
  match snapshot.fileAt? path with
  | some source => source.diagnostics
  | none => []

def size (snapshot : Snapshot) : Nat :=
  snapshot.files.size

def sources (snapshot : Snapshot) : Sources :=
  snapshot.files.map SourceFile.analysis

end Snapshot

/-- How much work a workspace has done. No count ever wraps. -/
structure Counts where
  /-- Readings of a file that were installed. -/
  recomputes : Nat
  /-- Links computed again because of another file. -/
  relinks : Nat
  /-- Readings that came too late to be installed. -/
  discarded : Nat
deriving DecidableEq, Repr

/-- The loaded files and all that is remembered between operations. -/
structure Workspace where
  config : Config
  table : File.Table
  snapshot : Snapshot
  edits : File.Map Edit.State
  /-- How often each file has been read. A version never wraps back to an old one. -/
  versions : File.Map Nat
  /-- The files whose diagnostics changed since they were last asked for. -/
  changed : List File.Id
  counts : Counts
deriving Repr

namespace Workspace

def empty (config : Config) : Workspace :=
  { config
    table := .empty
    snapshot := .empty
    edits := .empty
    versions := .empty
    changed := []
    counts := ⟨0, 0, 0⟩ }

/-- The graph of what the loaded files say. It is made anew from them each time: that a
graph told of each file as it comes and goes is the same one, and answers as it does, is
proved of `Registry`. -/
def graph (workspace : Workspace) : Import.Graph :=
  workspace.snapshot.sources.graph workspace.config.precedence

def nextVersion (workspace : Workspace) (file : File.Id) : Nat :=
  (workspace.versions.get? file).getD 0 + 1

def editsOf (workspace : Workspace) (file : File.Id) : Edit.State :=
  (workspace.edits.get? file).getD .new

/-- How far the edits of a file have come; a path never seen has none. -/
def phase? (workspace : Workspace) (path : File.Path) : Option Edit.Phase :=
  (workspace.table.id? path).map fun file => (workspace.editsOf file).phase

/-- The earliest time at which a pending edit becomes due. -/
def nextDeadline? (workspace : Workspace) : Option Nat :=
  (workspace.edits.values.filterMap Edit.State.deadline).min?

/-- The paths of the files whose diagnostics changed since the last time, in
order, and the workspace that remembers none. -/
def takeChanged (workspace : Workspace) : List File.Path × Workspace :=
  ((workspace.changed.filterMap workspace.table.path?).mergeSort File.Path.atMost,
    { workspace with changed := [] })

end Workspace

end GrammarDesk
