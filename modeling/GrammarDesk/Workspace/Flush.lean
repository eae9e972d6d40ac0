import GrammarDesk.Workspace.Install

/-!
Contract: how edits reach the loaded files.

Owns: noting an edit, starting a batch of readings, reading the texts of a batch,
committing what was read, and doing all three at once.

Does not own: the state machine of one file's edits (`Edit.State`), or linking
(`Install`).

Between its start and its commit a batch is outside the workspace, so that edits
may overtake it. A reading is installed only if its ticket still counts when the
batch is committed.
-/

namespace GrammarDesk

/-- One file of a batch that was started. -/
structure Job where
  file : File.Id
  path : File.Path
  version : Nat
  ticket : Edit.Ticket
deriving DecidableEq, Repr

/-- The outcome of a job: what was read, unless the job was cancelled first. -/
structure Outcome where
  file : File.Id
  generation : Nat
  analysis : Option Analysis
deriving Repr

namespace Workspace

/-- Note an edited text, which becomes due when the file was left alone for the
debounce time. -/
def edit (workspace : Workspace) (path : File.Path) (text : String) (now : Nat) : Workspace :=
  let (file, table) := workspace.table.intern path
  let state := (workspace.editsOf file).edit text (now + workspace.config.debounce)
  { workspace with table, edits := workspace.edits.put file state }

/-! ## Starting -/

/-- The files with a pending edit; given a time, only those due by then. -/
def due (workspace : Workspace) (now : Option Nat) : List File.Id :=
  workspace.edits.files.filter fun file =>
    let state := workspace.editsOf file
    match now with
    | some now => state.isDue now
    | none => state.pending.isSome

def startJob? (workspace : Workspace) (file : File.Id) : Option (Job × Workspace) := do
  let (ticket, state) ← (workspace.editsOf file).start?
  let path ← workspace.table.path? file
  let job : Job := ⟨file, path, workspace.nextVersion file, ticket⟩
  return (job, { workspace with edits := workspace.edits.put file state }.countVersion file)

def startJobs (workspace : Workspace) : List File.Id → List Job × Workspace
  | [] => ([], workspace)
  | file :: rest =>
      match workspace.startJob? file with
      | none => workspace.startJobs rest
      | some (job, started) =>
          let (jobs, last) := started.startJobs rest
          (job :: jobs, last)

/-- Start a batch with all files whose edit is due at a time, or with all that
are edited. -/
def start (workspace : Workspace) (now : Option Nat) : List Job × Workspace :=
  workspace.startJobs (workspace.due now)

/-! ## Reading -/

/-- Read the text of a job, unless it was cancelled; none when the text begins
with trivia. -/
def read? (workspace : Workspace) (job : Job) : Option Outcome :=
  let generation := job.ticket.generation
  if (workspace.editsOf job.file).isCancelled generation then
    some ⟨job.file, generation, none⟩
  else
    (Analysis.ofText? job.file job.path job.version job.ticket.text).map fun analysis =>
      ⟨job.file, generation, some analysis⟩

/-- Read the texts of a batch; none when one that was not cancelled begins with
trivia, which costs the whole batch. -/
def compute? (workspace : Workspace) (batch : List Job) : Option (List Outcome) :=
  batch.mapM workspace.read?

/-! ## Committing -/

/-- Complete the tickets of some outcomes: what may be installed, how many
readings came too late, and the workspace after. -/
def settle (workspace : Workspace) : List Outcome → List Analysis × Nat × Workspace
  | [] => ([], 0, workspace)
  | outcome :: rest =>
      let (counts, state) := (workspace.editsOf outcome.file).complete outcome.generation
      let settled :=
        { workspace with edits := workspace.edits.modify outcome.file fun _ => state }
      let (accepted, late, last) := settled.settle rest
      match outcome.analysis, counts with
      | some analysis, true => (analysis :: accepted, late, last)
      | _, _ => (accepted, late + 1, last)

/-- Commit the outcomes of a batch: install those that still count and discard
the others. -/
def commit (workspace : Workspace) (outcomes : List Outcome) : Report × Workspace :=
  let (accepted, late, settled) := workspace.settle outcomes
  let counted :=
    { settled with
      counts := { settled.counts with discarded := settled.counts.discarded + late } }
  let (relinked, installed) := counted.install accepted
  (⟨accepted.map fun analysis => analysis.path, relinked, late⟩, installed)

/-- Start, read and commit a batch at once. Without a report a text of the batch
began with trivia, and the batch was started but not committed. -/
def flush (workspace : Workspace) (now : Option Nat) : Option Report × Workspace :=
  let (batch, started) := workspace.start now
  match started.compute? batch with
  | none => (none, started)
  | some outcomes =>
      let (report, committed) := started.commit outcomes
      (some report, committed)

end Workspace

end GrammarDesk
