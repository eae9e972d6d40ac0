import Mathlib.Data.List.Forall2
import GrammarDesk.Workspace.Flush

/-!
Contract: runs of a workspace, with any number of batches outside it.

Owns: the operations of a caller, the batches that the caller holds, sessions and
their runs, and what every operation leaves alone: the choices a workspace was
opened with, and the numbers of the paths it has seen.

Does not own: what the operations do (`Install`, `Flush`).

Main statement: `Session.run_forall`, by which an invariant of every operation holds
after every run.
-/

namespace GrammarDesk

/-- What a caller may ask for. A batch goes by the number of batches that were
started before it. -/
inductive Operation where
  | load (path : File.Path) (text : String)
  | edit (path : File.Path) (text : String) (now : Nat)
  | close (path : File.Path)
  | start (now : Option Nat)
  | compute (batch : Nat)
  | commit (batch : Nat)
  | flush (now : Option Nat)
  | takeChanged
deriving DecidableEq, Repr

/-- A batch in the hands of the caller. -/
inductive Batch where
  | started (jobs : List Job)
  | computed (jobs : List Job) (outcomes : List Outcome)
  /-- The batch was committed, or lost to a text that begins with trivia. -/
  | spent
deriving Repr

/-- A workspace and the batches that were started in it, in order. -/
structure Session where
  workspace : Workspace
  batches : List Batch
deriving Repr

namespace Workspace

/-! ## What operations leave alone -/

/-- The analysis that is installed when an outcome arrives. -/
def accepts (workspace : Workspace) (outcome : Outcome) : Option Analysis :=
  if ((workspace.editsOf outcome.file).complete outcome.generation).1 then
    outcome.analysis
  else
    none

/-- The workspace after an outcome has arrived, before anything is installed. -/
def arrive (workspace : Workspace) (outcome : Outcome) : Workspace :=
  { workspace with
    edits := workspace.edits.modify outcome.file fun _ =>
      ((workspace.editsOf outcome.file).complete outcome.generation).2 }

/-- The first outcome is accepted or late, as the edits are when it arrives, and the rest see
what it leaves. -/
theorem settle_cons (workspace : Workspace) (outcome : Outcome) (rest : List Outcome) :
    workspace.settle (outcome :: rest) =
      let later := (workspace.arrive outcome).settle rest
      match workspace.accepts outcome with
      | some analysis => (analysis :: later.1, later.2)
      | none => (later.1, later.2.1 + 1, later.2.2) := by
  conv => lhs; unfold settle
  unfold accepts arrive
  generalize (workspace.editsOf outcome.file).complete outcome.generation = completed
  obtain ⟨counts, state⟩ := completed
  cases outcome.analysis with
  | none => cases counts <;> rfl
  | some analysis => cases counts <;> rfl

/-- Settling changes nothing but edits. -/
theorem settle_eq (workspace : Workspace) (outcomes : List Outcome) :
    (workspace.settle outcomes).2.2 =
      { workspace with edits := (workspace.settle outcomes).2.2.edits } := by
  induction outcomes generalizing workspace with
  | nil => rfl
  | cons outcome rest inductionHypothesis =>
      have arrived := inductionHypothesis (workspace.arrive outcome)
      rw [settle_cons]
      cases workspace.accepts outcome with
      | none =>
          dsimp only
          rw [arrived]
          rfl
      | some analysis =>
          dsimp only
          rw [arrived]
          rfl

/-- The workspace in which the tickets of some outcomes are complete and the late ones
are counted. -/
def settled (workspace : Workspace) (outcomes : List Outcome) : Workspace :=
  let last := (workspace.settle outcomes).2.2
  { last with
    counts :=
      { last.counts with
        discarded := last.counts.discarded + (workspace.settle outcomes).2.1 } }

theorem commit_eq (workspace : Workspace) (outcomes : List Outcome) :
    workspace.commit outcomes =
      let accepted := (workspace.settle outcomes).1
      let installed := (workspace.settled outcomes).install accepted
      (⟨accepted.map fun analysis => analysis.path, installed.1, (workspace.settle outcomes).2.1⟩,
        installed.2) := rfl

theorem mem_settle {workspace : Workspace} {outcomes : List Outcome} {analysis : Analysis}
    (accepted : analysis ∈ (workspace.settle outcomes).1) :
    ∃ outcome ∈ outcomes, outcome.analysis = some analysis := by
  induction outcomes generalizing workspace with
  | nil => exact absurd accepted List.not_mem_nil
  | cons outcome rest inductionHypothesis =>
      rw [settle_cons] at accepted
      have later : analysis ∈ ((workspace.arrive outcome).settle rest).1 →
          ∃ other ∈ outcome :: rest, other.analysis = some analysis := by
        intro later
        obtain ⟨other, member, read⟩ := inductionHypothesis later
        exact ⟨other, List.mem_cons_of_mem _ member, read⟩
      cases first : workspace.accepts outcome with
      | none => exact later (by simpa only [first] using accepted)
      | some read =>
          simp only [first] at accepted
          rcases List.mem_cons.mp accepted with rfl | member
          · refine ⟨outcome, List.mem_cons_self, ?_⟩
            unfold accepts at first
            split at first
            · exact first
            · exact absurd first (Option.some_ne_none _).symm
          · exact later member

/-- Starting a job takes a ticket from the edits of its file and counts a reading. -/
theorem startJob?_eq {workspace started : Workspace} {file : File.Id} {job : Job}
    (starts : workspace.startJob? file = some (job, started)) :
    ∃ ticket state, (workspace.editsOf file).start? = some (ticket, state) ∧
      workspace.table.path? file = some job.path ∧
      job = ⟨file, job.path, workspace.nextVersion file, ticket⟩ ∧
      started =
        { workspace with
          edits := workspace.edits.put file state
          versions := workspace.versions.put file (workspace.nextVersion file) } := by
  unfold startJob? at starts
  obtain ⟨⟨ticket, state⟩, begins, starts⟩ := Option.bind_eq_some_iff.mp starts
  obtain ⟨path, listed, starts⟩ := Option.bind_eq_some_iff.mp starts
  obtain ⟨rfl, rfl⟩ := Prod.mk.inj (Option.some.inj starts)
  exact ⟨ticket, state, begins, listed, rfl, rfl⟩

/-- Starting jobs changes nothing but edits and versions. -/
theorem startJobs_eq (workspace : Workspace) (files : List File.Id) :
    (workspace.startJobs files).2 =
      { workspace with
        edits := (workspace.startJobs files).2.edits
        versions := (workspace.startJobs files).2.versions } := by
  induction files generalizing workspace with
  | nil => rfl
  | cons file rest inductionHypothesis =>
      unfold startJobs
      split
      · exact inductionHypothesis workspace
      · rename_i job started starts
        obtain ⟨ticket, state, _, _, _, rfl⟩ := startJob?_eq starts
        rw [inductionHypothesis]

/-- The path of a job is the one its file was first seen with. -/
theorem path?_of_mem_startJobs {workspace : Workspace} {files : List File.Id} {job : Job}
    (member : job ∈ (workspace.startJobs files).1) :
    workspace.table.path? job.file = some job.path := by
  induction files generalizing workspace with
  | nil => exact absurd member List.not_mem_nil
  | cons file rest inductionHypothesis =>
      unfold startJobs at member
      split at member
      · exact inductionHypothesis member
      · rename_i first started starts
        obtain ⟨ticket, state, _, listed, isJob, isStarted⟩ := startJob?_eq starts
        have sameTable : started.table = workspace.table := by rw [isStarted]
        rcases List.mem_cons.mp member with rfl | later
        · rw [isJob]
          exact listed
        · rw [← sameTable]
          exact inductionHypothesis later

/-- A job carries the number of its path. -/
theorem numbered_start {workspace : Workspace} {now : Option Nat} {job : Job}
    (started : job ∈ (workspace.start now).1) :
    workspace.table.id? job.path = some job.file :=
  (File.Table.id?_eq_some_iff _ _ _).mpr
    ⟨job.path, path?_of_mem_startJobs started, job.path.same_refl⟩

theorem read?_eq (workspace : Workspace) (job : Job) :
    workspace.read? job =
      if (workspace.editsOf job.file).isCancelled job.ticket.generation then
        some ⟨job.file, job.ticket.generation, none⟩
      else
        (Analysis.ofText? job.file job.path job.version job.ticket.text).map fun analysis =>
          ⟨job.file, job.ticket.generation, some analysis⟩ := rfl

/-- A batch is computed by reading its jobs one by one. -/
theorem forall₂_of_compute? {workspace : Workspace} {jobs : List Job} {outcomes : List Outcome}
    (computed : workspace.compute? jobs = some outcomes) :
    List.Forall₂ (fun job outcome => workspace.read? job = some outcome) jobs outcomes := by
  unfold compute? at computed
  induction jobs generalizing outcomes with
  | nil =>
      obtain rfl : outcomes = [] := by simpa using computed.symm
      exact .nil
  | cons job rest inductionHypothesis =>
      rw [List.mapM_cons] at computed
      obtain ⟨first, read, computed⟩ := Option.bind_eq_some_iff.mp computed
      obtain ⟨others, readOthers, computed⟩ := Option.bind_eq_some_iff.mp computed
      obtain rfl : first :: others = outcomes := Option.some.inj computed
      exact .cons read (inductionHypothesis readOthers)

theorem exists_of_mem_right {Left Right : Type} {Related : Left → Right → Prop}
    {lefts : List Left} {rights : List Right} (related : List.Forall₂ Related lefts rights)
    {right : Right} (member : right ∈ rights) :
    ∃ left ∈ lefts, Related left right := by
  induction related with
  | nil => exact absurd member List.not_mem_nil
  | @cons left first _ _ same _ inductionHypothesis =>
      rcases List.mem_cons.mp member with rfl | later
      · exact ⟨left, List.mem_cons_self, same⟩
      · obtain ⟨other, among, isRelated⟩ := inductionHypothesis later
        exact ⟨other, List.mem_cons_of_mem _ among, isRelated⟩

theorem mem_of_compute? {workspace : Workspace} {jobs : List Job} {outcomes : List Outcome}
    (computed : workspace.compute? jobs = some outcomes) {outcome : Outcome}
    (member : outcome ∈ outcomes) :
    ∃ job ∈ jobs, workspace.read? job = some outcome := by
  exact exists_of_mem_right (forall₂_of_compute? computed) member

/-- All that a flush does: it starts a batch and commits it if every text of it can be
read. -/
theorem flush_cases (workspace : Workspace) (now : Option Nat) :
    (workspace.flush now).2 = (workspace.start now).2 ∨
      ∃ outcomes, (workspace.start now).2.compute? (workspace.start now).1 = some outcomes ∧
        (workspace.flush now).2 = ((workspace.start now).2.commit outcomes).2 := by
  unfold flush
  generalize workspace.start now = started
  obtain ⟨jobs, next⟩ := started
  dsimp only
  cases next.compute? jobs with
  | none => exact .inl rfl
  | some outcomes => exact .inr ⟨outcomes, rfl, rfl⟩

/-- What a workspace may become: its choices stay, and so do the numbers of the paths
it has seen. -/
structure Continues (before after : Workspace) : Prop where
  config : after.config = before.config
  numbers : ∀ {path file}, before.table.id? path = some file → after.table.id? path = some file

namespace Continues

theorem refl (workspace : Workspace) : Continues workspace workspace :=
  ⟨rfl, id⟩

theorem trans {first second third : Workspace}
    (early : Continues first second) (late : Continues second third) :
    Continues first third :=
  ⟨late.config.trans early.config, fun numbered => late.numbers (early.numbers numbered)⟩

theorem of_eq {before after : Workspace} (config : after.config = before.config)
    (table : after.table = before.table) :
    Continues before after :=
  ⟨config, fun numbered => table ▸ numbered⟩

end Continues

/-- The workspace in which a path has its number and is about to be read, all work on
earlier texts forgotten. -/
def opened (workspace : Workspace) (path : File.Path) : Workspace :=
  let file := (workspace.table.intern path).1
  ({ workspace with table := (workspace.table.intern path).2 }.resetEdits file).countVersion file

/-- Loading opens the path and installs what is read, or leaves it at that. -/
theorem load_eq (workspace : Workspace) (path : File.Path) (text : String) :
    (workspace.load path text).2 =
      match Analysis.ofText? (workspace.table.intern path).1 path
        (workspace.nextVersion (workspace.table.intern path).1) text with
      | none => workspace.opened path
      | some analysis => ((workspace.opened path).install [analysis]).2 := by
  unfold load opened
  generalize workspace.table.intern path = interned
  obtain ⟨file, table⟩ := interned
  show Prod.snd (match Analysis.ofText? file path (workspace.nextVersion file) text with
    | none => _ | some analysis => _) = _
  cases Analysis.ofText? file path (workspace.nextVersion file) text with
  | none => rfl
  | some analysis => rfl

theorem continues_load (workspace : Workspace) (path : File.Path) (text : String) :
    Continues workspace (workspace.load path text).2 := by
  rw [load_eq]
  split
  · exact ⟨rfl, fun numbered => workspace.table.id?_intern_of_some path numbered⟩
  · exact ⟨rfl, fun numbered => workspace.table.id?_intern_of_some path numbered⟩

theorem continues_edit (workspace : Workspace) (path : File.Path) (text : String) (now : Nat) :
    Continues workspace (workspace.edit path text now) :=
  ⟨rfl, fun numbered => workspace.table.id?_intern_of_some path numbered⟩

theorem continues_close (workspace : Workspace) (path : File.Path) :
    Continues workspace (workspace.close path).2 := by
  unfold close
  cases workspace.table.id? path with
  | none => exact .refl workspace
  | some file =>
      dsimp only
      split
      · exact .of_eq rfl rfl
      · exact .of_eq rfl rfl

theorem continues_start (workspace : Workspace) (now : Option Nat) :
    Continues workspace (workspace.start now).2 := by
  unfold start
  rw [startJobs_eq]
  exact .of_eq rfl rfl

theorem continues_settled (workspace : Workspace) (outcomes : List Outcome) :
    Continues workspace (workspace.settled outcomes) := by
  unfold settled
  rw [settle_eq]
  exact .of_eq rfl rfl

theorem continues_commit (workspace : Workspace) (outcomes : List Outcome) :
    Continues workspace (workspace.commit outcomes).2 :=
  (workspace.continues_settled outcomes).trans (.of_eq rfl rfl)

theorem continues_flush (workspace : Workspace) (now : Option Nat) :
    Continues workspace (workspace.flush now).2 := by
  have started := workspace.continues_start now
  rcases workspace.flush_cases now with onlyStarted | ⟨outcomes, _, flushed⟩
  · rw [onlyStarted]
    exact started
  · rw [flushed]
    exact started.trans (continues_commit _ outcomes)

end Workspace

namespace Session

/-! ## Runs -/

def new (config : Config) : Session :=
  ⟨.empty config, []⟩

/-- The batch after its texts have been read. -/
def computeIn (workspace : Workspace) (jobs : List Job) : Batch :=
  match workspace.compute? jobs with
  | some outcomes => .computed jobs outcomes
  | none => .spent

/-- The session after an operation. A batch is computed once and committed once;
what is asked of a batch that is not there, or at another stage, does nothing. -/
def perform (session : Session) : Operation → Session
  | .load path text => { session with workspace := (session.workspace.load path text).2 }
  | .edit path text now => { session with workspace := session.workspace.edit path text now }
  | .close path => { session with workspace := (session.workspace.close path).2 }
  | .start now =>
      let (jobs, workspace) := session.workspace.start now
      ⟨workspace, session.batches ++ [.started jobs]⟩
  | .compute batch =>
      match session.batches[batch]? with
      | some (.started jobs) =>
          { session with batches := session.batches.set batch (computeIn session.workspace jobs) }
      | _ => session
  | .commit batch =>
      match session.batches[batch]? with
      | some (.computed _ outcomes) =>
          ⟨(session.workspace.commit outcomes).2, session.batches.set batch .spent⟩
      | _ => session
  | .flush now => { session with workspace := (session.workspace.flush now).2 }
  | .takeChanged => { session with workspace := session.workspace.takeChanged.2 }

def run (session : Session) (operations : List Operation) : Session :=
  operations.foldl perform session

@[simp] theorem run_nil (session : Session) : session.run [] = session := rfl

@[simp] theorem run_cons (session : Session) (operation : Operation) (rest : List Operation) :
    session.run (operation :: rest) = (session.perform operation).run rest := rfl

theorem run_append (session : Session) (first later : List Operation) :
    session.run (first ++ later) = (session.run first).run later :=
  List.foldl_append

/-- All that computing a batch does: a batch that was started has its texts read. -/
theorem perform_compute_cases (session : Session) (number : Nat) :
    session.perform (.compute number) = session ∨
      ∃ jobs, session.batches[number]? = some (.started jobs) ∧
        session.perform (.compute number) =
          { session with
            batches := session.batches.set number (computeIn session.workspace jobs) } := by
  unfold perform
  dsimp only
  split
  · rename_i jobs atNumber
    exact .inr ⟨jobs, atNumber, rfl⟩
  · exact .inl rfl

theorem perform_commit {session : Session} {number : Nat} {jobs : List Job}
    {outcomes : List Outcome}
    (atNumber : session.batches[number]? = some (.computed jobs outcomes)) :
    session.perform (.commit number) =
      ⟨(session.workspace.commit outcomes).2, session.batches.set number .spent⟩ := by
  unfold perform
  dsimp only
  rw [atNumber]

/-- All that committing a batch does: a batch that was computed is installed and spent. -/
theorem perform_commit_cases (session : Session) (number : Nat) :
    session.perform (.commit number) = session ∨
      ∃ jobs outcomes, session.batches[number]? = some (.computed jobs outcomes) ∧
        session.perform (.commit number) =
          ⟨(session.workspace.commit outcomes).2, session.batches.set number .spent⟩ := by
  unfold perform
  dsimp only
  split
  · rename_i jobs outcomes atNumber
    exact .inr ⟨jobs, outcomes, atNumber, rfl⟩
  · exact .inl rfl

/-- Each operation continues the workspace: configuration and given numbers stay. -/
theorem continues_perform (session : Session) (operation : Operation) :
    Workspace.Continues session.workspace (session.perform operation).workspace := by
  cases operation with
  | load path text => exact Workspace.continues_load _ path text
  | edit path text now => exact Workspace.continues_edit _ path text now
  | close path => exact Workspace.continues_close _ path
  | start now => exact Workspace.continues_start _ now
  | compute number =>
      rcases session.perform_compute_cases number with same | ⟨_, _, computed⟩
      · rw [same]
        exact .refl _
      · rw [computed]
        exact .refl _
  | commit number =>
      rcases session.perform_commit_cases number with same | ⟨_, outcomes, _, committed⟩
      · rw [same]
        exact .refl _
      · rw [committed]
        exact Workspace.continues_commit _ outcomes
  | flush now => exact Workspace.continues_flush _ now
  | takeChanged => exact .of_eq rfl rfl

/-- What an operation makes of the batches: it may add one, or take one to its next
stage. -/
theorem mem_batches_perform {session : Session} {operation : Operation} {batch : Batch}
    (member : batch ∈ (session.perform operation).batches) :
    batch ∈ session.batches ∨ batch = .spent ∨
      (∃ now, operation = .start now ∧ batch = .started (session.workspace.start now).1) ∨
      ∃ jobs outcomes, .started jobs ∈ session.batches ∧
        session.workspace.compute? jobs = some outcomes ∧ batch = .computed jobs outcomes := by
  cases operation with
  | start now =>
      rcases List.mem_append.mp member with before | isNew
      · exact .inl before
      · exact .inr (.inr (.inl ⟨now, rfl, List.mem_singleton.mp isNew⟩))
  | compute number =>
      rcases session.perform_compute_cases number with same | ⟨jobs, atNumber, after⟩
      · rw [same] at member
        exact .inl member
      · rw [after] at member
        rcases List.mem_or_eq_of_mem_set member with before | rfl
        · exact .inl before
        · unfold computeIn
          cases computed : session.workspace.compute? jobs with
          | none => exact .inr (.inl rfl)
          | some outcomes =>
              have wasStarted := List.mem_of_getElem? atNumber
              exact .inr (.inr (.inr ⟨jobs, outcomes, wasStarted, computed, rfl⟩))
  | commit number =>
      rcases session.perform_commit_cases number with same | ⟨_, _, _, after⟩
      · rw [same] at member
        exact .inl member
      · rw [after] at member
        rcases List.mem_or_eq_of_mem_set member with before | isSpent
        · exact .inl before
        · exact .inr (.inl isSpent)
  | load path text => exact .inl member
  | edit path text now => exact .inl member
  | close path => exact .inl member
  | flush now => exact .inl member
  | takeChanged => exact .inl member

/-- A later session knows all that an earlier one did. -/
theorem continues_run (session : Session) (operations : List Operation) :
    Workspace.Continues session.workspace (session.run operations).workspace := by
  induction operations generalizing session with
  | nil => exact .refl _
  | cons operation rest inductionHypothesis =>
      exact (session.continues_perform operation).trans (inductionHypothesis _)

/-- What every operation preserves holds after every run. -/
theorem run_forall {Holds : Session → Prop}
    (step : ∀ session operation, Holds session → Holds (session.perform operation))
    {session : Session} (holds : Holds session) (operations : List Operation) :
    Holds (session.run operations) := by
  induction operations generalizing session with
  | nil => exact holds
  | cons operation rest inductionHypothesis =>
      exact inductionHypothesis (step session operation holds)

end Session

end GrammarDesk
