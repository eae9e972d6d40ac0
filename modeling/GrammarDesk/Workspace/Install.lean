import GrammarDesk.Workspace.Basic

/-!
Contract: how a workspace takes in and gives up files.

Owns: installing analyses and linking again the files they reach, loading a file,
and closing one.

Does not own: edits and batches (`Flush`).

Only files are linked again whose import closure, before or after, holds a file
that looks different from outside; every other file is kept as it is.
-/

namespace GrammarDesk

/-- What an operation did: the files that were read, the other files that were
linked again, and how many readings came too late. -/
structure Report where
  recomputed : List File.Path
  relinked : List File.Path
  discarded : Nat
deriving DecidableEq, Repr

namespace Workspace

/-! ## Linking -/

/-- What happens to a file: it is linked, as often as it says after it was read,
or kept. -/
inductive Fate where
  | linked (resolution : Nat)
  | kept (old : SourceFile)
deriving Repr

/-- What happens to the file of a number. A file that was just read is linked for
the first time, another file in `reached` is linked again, and any other file is
kept. -/
def fate (workspace : Workspace) (read reached : List File.Id) (file : File.Id) : Fate :=
  match workspace.snapshot.file? file with
  | none => .linked 0
  | some old =>
      if file ∈ read then
        .linked 0
      else if file ∈ reached then
        .linked (old.resolution + 1)
      else
        .kept old

def link (workspace : Workspace) (sources : Sources) (links : Import.Links)
    (read reached : List File.Id) (analysis : Analysis) : SourceFile :=
  match workspace.fate read reached analysis.file with
  | .linked resolution =>
      ⟨analysis, resolution,
        Linking.ofAnalysis sources links workspace.config.reportImports analysis⟩
  | .kept old => old

/-- Files whose diagnostics differ between two snapshots, among those loaded in
the second. -/
def changedFiles (before after : Snapshot) : List File.Id :=
  after.files.files.filter fun file =>
    (before.file? file).map SourceFile.diagnostics ≠
      (after.file? file).map SourceFile.diagnostics

def relinkedFiles (sources : Sources) (read reached : List File.Id) : List Analysis :=
  sources.values.filter fun analysis =>
    reached.contains analysis.file && !read.contains analysis.file

/-- Make a snapshot the loaded files, and note what changed and what was linked
again. -/
def present (workspace : Workspace) (sources : Sources) (read reached : List File.Id)
    (snapshot : Snapshot) : List File.Path × Workspace :=
  let relinked := relinkedFiles sources read reached
  (relinked.map fun analysis => analysis.path,
    { workspace with
      snapshot
      changed :=
        (workspace.changed ++ changedFiles workspace.snapshot snapshot).eraseDups
      counts :=
        { workspace.counts with relinks := workspace.counts.relinks + relinked.length } })

/-- Make some analyses the loaded ones and link the files in `reached`. -/
def publish (workspace : Workspace) (sources : Sources) (read reached : List File.Id) :
    List File.Path × Workspace :=
  let links := (sources.graph workspace.config.precedence).links
  workspace.present sources read reached
    ⟨sources.map (workspace.link sources links read reached)⟩

/-! ## Taking in -/

/-- Whether a new analysis is news to importing files. -/
def isNews (workspace : Workspace) (analysis : Analysis) : Bool :=
  match workspace.snapshot.file? analysis.file with
  | none => true
  | some old => !old.analysis.sameOutside analysis

/-- Install new analyses and link every file they reach, along imports as they
were and as they have become. -/
def install (workspace : Workspace) (batch : List Analysis) : List File.Path × Workspace :=
  let read := batch.map fun analysis => analysis.file
  let news := (batch.filter workspace.isNews).map fun analysis => analysis.file
  let sources :=
    batch.foldl (fun sources analysis => sources.put analysis.file analysis)
      workspace.snapshot.sources
  let after := sources.graph workspace.config.precedence
  let reached := workspace.graph.dependents news ++ after.dependents news
  let counts := workspace.counts
  { workspace with counts := { counts with recomputes := counts.recomputes + batch.length } }
    |>.publish sources read reached

/-- The workspace in which all work on earlier texts of a file is forgotten. -/
def resetEdits (workspace : Workspace) (file : File.Id) : Workspace :=
  { workspace with edits := workspace.edits.modify file Edit.State.reset }

/-- The workspace in which a file is about to be read once more. -/
def countVersion (workspace : Workspace) (file : File.Id) : Workspace :=
  { workspace with versions := workspace.versions.put file (workspace.nextVersion file) }

/-- Load a file with a text, now and in place of any earlier text. A text that
begins with trivia cannot be read: the file then gets no number back and nothing
is installed, though its edits are forgotten and its reading is counted. -/
def load (workspace : Workspace) (path : File.Path) (text : String) : Option File.Id × Workspace :=
  let (file, table) := workspace.table.intern path
  let version := workspace.nextVersion file
  let opened := ({ workspace with table }.resetEdits file).countVersion file
  match Analysis.ofText? file path version text with
  | none => (none, opened)
  | some analysis => (some file, (opened.install [analysis]).2)

/-! ## Giving up -/

/-- Close the file that a path names; files that import it stay loaded. The
answer is whether the file was loaded. -/
def close (workspace : Workspace) (path : File.Path) : Bool × Workspace :=
  match workspace.table.id? path with
  | none => (false, workspace)
  | some file =>
      let forgetful := workspace.resetEdits file
      if (workspace.snapshot.file? file).isNone then
        (false, forgetful)
      else
        let reached := workspace.graph.dependents [file]
        let noted :=
          { forgetful with changed := (forgetful.changed ++ [file]).eraseDups }
        (true, (noted.publish (workspace.snapshot.sources.erase file) [] reached).2)

end Workspace

end GrammarDesk
