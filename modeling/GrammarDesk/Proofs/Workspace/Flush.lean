import GrammarDesk.Proofs.Workspace.Batches

/-!
Contract: what a flush does to the edits that are due and to the loaded files.

Owns: the edit of a path that a flush takes up, the jobs that are started for it, when
the texts of a batch can be read, and what is loaded and under way after a flush.

Does not own: commits of batches in the hands of a caller (`Batches`).

A flush takes the texts of its batch out of the workspace before it reads them. If all
of them can be read, all are installed. If one of them cannot, none is, and none is
pending any more.

Main statement: `flush_installs_all_or_nothing`.
-/

namespace GrammarDesk

open Edit

/-- The edit that a flush takes up: a pending one and, given a time, only one that is
due by then. -/
def Edit.State.dueEdit? (state : State) (now : Option Nat) : Option Pending :=
  state.pending.filter fun edit => now.all fun time => edit.deadline ≤ time

namespace Workspace

/-- The edit of a path that a flush takes up. -/
def dueEdit? (workspace : Workspace) (now : Option Nat) (path : File.Path) : Option Pending :=
  (workspace.editsAt path).dueEdit? now

/-! ## Starting -/

theorem pending_of_dueEdit? {state : State} {now : Option Nat} {edit : Pending}
    (due : state.dueEdit? now = some edit) :
    state.pending = some edit :=
  (Option.filter_eq_some_iff.mp due).1

/-- A flush of all takes up every pending edit. -/
theorem dueEdit?_none (state : State) : state.dueEdit? none = state.pending := by
  unfold State.dueEdit?
  cases state.pending with
  | none => rfl
  | some edit => rfl

theorem dueEdit?_of_id? {workspace : Workspace} {path : File.Path} {file : File.Id}
    (numbered : workspace.table.id? path = some file) (now : Option Nat) :
    workspace.dueEdit? now path = (workspace.editsOf file).dueEdit? now := by
  rw [dueEdit?, editsAt_of_id? numbered]

theorem isSome_dueEdit?_some (state : State) (time : Nat) :
    (state.dueEdit? (some time)).isSome = state.isDue time := by
  rw [State.dueEdit?, Option.isSome_filter]
  rfl

/-- A file without edits has none that is pending. -/
theorem mem_files_of_dueEdit? {workspace : Workspace} {now : Option Nat} {file : File.Id}
    (due : ((workspace.editsOf file).dueEdit? now).isSome = true) :
    file ∈ workspace.edits.files := by
  cases known : workspace.edits.get? file with
  | some state => exact (workspace.edits.mem_files_iff file).mpr ⟨state, known⟩
  | none =>
      rw [editsOf, known] at due
      cases due

/-- The files of a flush are those with an edit that it takes up. -/
theorem mem_due_iff (workspace : Workspace) (now : Option Nat) (file : File.Id) :
    file ∈ workspace.due now ↔ ∃ edit, (workspace.editsOf file).dueEdit? now = some edit := by
  have asked : file ∈ workspace.due now ↔ file ∈ workspace.edits.files ∧
      ((workspace.editsOf file).dueEdit? now).isSome = true := by
    cases now with
    | none =>
        rw [dueEdit?_none]
        exact List.mem_filter
    | some time =>
        rw [isSome_dueEdit?_some]
        exact List.mem_filter
  rw [asked, ← Option.isSome_iff_exists]
  exact and_iff_right_iff_imp.mpr mem_files_of_dueEdit?

theorem not_mem_due_of_nonePending {workspace : Workspace} {now : Option Nat} {file : File.Id}
    (nonePending : (workspace.editsOf file).pending = none) :
    file ∉ workspace.due now := by
  intro isDue
  obtain ⟨edit, due⟩ := (workspace.mem_due_iff now file).mp isDue
  have isPending := pending_of_dueEdit? due
  rw [nonePending] at isPending
  cases isPending

/-- A file with a path and a pending edit gets a job, since no other file of the batch starts
its edits. -/
theorem exists_mem_startJobs {workspace : Workspace} {files : List File.Id} {file : File.Id}
    {path : File.Path} {edit : Pending} (once : files.Nodup) (member : file ∈ files)
    (listed : workspace.table.path? file = some path)
    (pending : (workspace.editsOf file).pending = some edit) :
    ∃ job ∈ (workspace.startJobs files).1, job.file = file := by
  induction files generalizing workspace with
  | nil => exact absurd member List.not_mem_nil
  | cons first rest inductionHypothesis =>
      obtain ⟨notAgain, onceLater⟩ := List.nodup_cons.mp once
      unfold startJobs
      split
      · rename_i notStarted
        rcases List.mem_cons.mp member with rfl | later
        · simp [startJob?, State.start?, listed, pending] at notStarted
        · exact inductionHypothesis onceLater later listed pending
      · rename_i job started starts
        obtain ⟨_, _, _, _, isJob, isStarted⟩ := startJob?_eq starts
        rcases List.mem_cons.mp member with rfl | later
        · exact ⟨job, List.mem_cons_self, by rw [isJob]⟩
        · have others : file ≠ first := fun same => notAgain (same ▸ later)
          have sameEdits : started.editsOf file = workspace.editsOf file := by
            rcases editsOf_startJob? starts file with ⟨_, same⟩ | ⟨isFirst, _⟩
            · exact same
            · exact absurd isFirst others
          have listedLater : started.table.path? file = some path := by
            rw [isStarted]
            exact listed
          obtain ⟨other, among, isFile⟩ :=
            inductionHypothesis onceLater later listedLater (sameEdits ▸ pending)
          exact ⟨other, List.mem_cons_of_mem _ among, isFile⟩

/-- Every edit that is due gets a job with its text. -/
theorem exists_job_of_dueEdit? {workspace : Workspace} {now : Option Nat} {path : File.Path}
    {file : File.Id} {edit : Pending} (numbered : workspace.table.id? path = some file)
    (due : (workspace.editsOf file).dueEdit? now = some edit) :
    ∃ job ∈ (workspace.start now).1, job.file = file ∧ job.ticket.text = edit.text := by
  obtain ⟨known, listed, _⟩ := (workspace.table.id?_eq_some_iff path file).mp numbered
  have pending := pending_of_dueEdit? due
  obtain ⟨job, isJob, rfl⟩ := exists_mem_startJobs (workspace.nodup_due now)
    ((workspace.mem_due_iff now file).mpr ⟨edit, due⟩) listed pending
  refine ⟨job, isJob, rfl, ?_⟩
  have begins := start?_of_mem_startJobs (workspace.nodup_due now) isJob
  obtain ⟨⟨deadline, isPending⟩, _, _⟩ := State.start?_eq_some begins
  rw [pending] at isPending
  exact congrArg Pending.text (Option.some.inj isPending).symm

theorem exists_job_of_due {workspace : Workspace} {now : Option Nat} {path : File.Path}
    {edit : Pending} (due : workspace.dueEdit? now path = some edit) :
    ∃ job ∈ (workspace.start now).1, workspace.table.id? path = some job.file ∧
      job.ticket.text = edit.text := by
  cases numbered : workspace.table.id? path with
  | none =>
      rw [dueEdit?, editsAt_of_unknown numbered] at due
      cases due
  | some file =>
      rw [dueEdit?_of_id? numbered] at due
      obtain ⟨job, isJob, rfl, sameText⟩ := exists_job_of_dueEdit? numbered due
      exact ⟨job, isJob, rfl, sameText⟩

/-- Every job carries the text of an edit that is due. -/
theorem due_of_job {workspace : Workspace} {now : Option Nat} {job : Job}
    (isJob : job ∈ (workspace.start now).1) :
    ∃ edit, workspace.dueEdit? now job.path = some edit ∧ job.ticket.text = edit.text := by
  have among := (workspace.files_startJobs_sublist _).subset (List.mem_map_of_mem isJob)
  obtain ⟨edit, due⟩ := (workspace.mem_due_iff now job.file).mp among
  have begins := start?_of_mem_startJobs (workspace.nodup_due now) isJob
  obtain ⟨⟨deadline, isPending⟩, _, _⟩ := State.start?_eq_some begins
  refine ⟨edit, ?_, ?_⟩
  · rw [dueEdit?_of_id? (numbered_start isJob)]
    exact due
  · rw [pending_of_dueEdit? due] at isPending
    exact congrArg Pending.text (Option.some.inj isPending).symm

/-! ## Reading -/

/-- A batch can be read if every text of it can whose job is not cancelled. -/
theorem isSome_compute?_iff {workspace : Workspace} {jobs : List Job} :
    (workspace.compute? jobs).isSome = true ↔ ∀ job ∈ jobs,
      (workspace.editsOf job.file).isCancelled job.ticket.generation = true ∨
        readable job.ticket.text = true := by
  unfold compute?
  induction jobs with
  | nil => exact ⟨fun _ _ member => absurd member List.not_mem_nil, fun _ => rfl⟩
  | cons job rest inductionHypothesis =>
      have first : (workspace.read? job).isSome = true ↔
          (workspace.editsOf job.file).isCancelled job.ticket.generation = true ∨
            readable job.ticket.text = true := by
        rw [read?_eq]
        cases (workspace.editsOf job.file).isCancelled job.ticket.generation with
        | true => simp
        | false => simp [Analysis.isSome_ofText?]
      rw [List.forall_mem_cons, ← first, ← inductionHypothesis, List.mapM_cons]
      cases workspace.read? job with
      | none => simp
      | some outcome =>
          cases rest.mapM workspace.read? with
          | none => simp
          | some outcomes => simp

theorem exists_compute?_of_readable (workspace : Workspace) {jobs : List Job}
    (allReadable : ∀ job ∈ jobs, readable job.ticket.text = true) :
    ∃ outcomes, workspace.compute? jobs = some outcomes :=
  Option.isSome_iff_exists.mp
    (isSome_compute?_iff.mpr fun job isJob => .inr (allReadable job isJob))

end Workspace

namespace Session

/-! ## Flushing -/

variable {session : Session}

/-- The jobs that were just started wait. -/
theorem Orderly.waits_start (orderly : session.Orderly) {now : Option Nat} {job : Job}
    (isJob : job ∈ (session.workspace.start now).1) :
    ((session.workspace.start now).2.editsOf job.file).Waits job.ticket.generation :=
  State.waits_of_start? (orderly.bounded job.file)
    (Workspace.start?_of_mem_startJobs (session.workspace.nodup_due now) isJob)

/-- If a text of its batch cannot be read, a flush only starts the batch. -/
theorem Orderly.flush_of_unreadable (orderly : session.Orderly) {now : Option Nat} {job : Job}
    (isJob : job ∈ (session.workspace.start now).1)
    (unreadable : readable job.ticket.text = false) :
    session.workspace.flush now = (none, (session.workspace.start now).2) := by
  have lost : (session.workspace.start now).2.compute? (session.workspace.start now).1 = none := by
    rw [← Option.not_isSome_iff_eq_none, Workspace.isSome_compute?_iff]
    intro allRead
    rcases allRead job isJob with cancelled | canBeRead
    · rw [(orderly.waits_start isJob).notCancelled] at cancelled
      cases cancelled
    · rw [unreadable] at canBeRead
      cases canBeRead
  unfold Workspace.flush
  dsimp only
  rw [lost]

/-- If all texts of its batch can be read, a flush is the commit of what was read. -/
theorem Regular.exists_flush_of_readable (regular : session.Regular) {now : Option Nat}
    (allReadable : ∀ job ∈ (session.workspace.start now).1, readable job.ticket.text = true) :
    ∃ outcomes, session.workspace.flush now =
        (some ((session.workspace.start now).2.commit outcomes).1,
          ((session.workspace.start now).2.commit outcomes).2) ∧
      Regular ⟨(session.workspace.start now).2,
        session.batches ++ [.computed (session.workspace.start now).1 outcomes]⟩ := by
  obtain ⟨outcomes, computed⟩ :=
    (session.workspace.start now).2.exists_compute?_of_readable allReadable
  refine ⟨outcomes, ?_, ?_⟩
  · unfold Workspace.flush
    dsimp only
    rw [computed]
  · have ready := (regular.perform (.start now)).perform (.compute session.batches.length)
    rwa [perform_start_compute, computeIn, computed] at ready

/-- If all texts of its batch can be read, a flush installs them all, and nothing else
happens to the loaded files or to the edits. -/
theorem Regular.flush_of_readable (regular : session.Regular) {now : Option Nat}
    (allReadable : ∀ job ∈ (session.workspace.start now).1, readable job.ticket.text = true) :
    (session.workspace.flush now).1.isSome = true ∧
    (∀ job ∈ (session.workspace.start now).1,
      ((session.workspace.flush now).2.snapshot.sources.get? job.file).map
          (fun analysis => analysis.text) = some job.ticket.text ∧
        ((session.workspace.flush now).2.editsOf job.file).Idle) ∧
    ∀ file ∉ session.workspace.due now,
      (session.workspace.flush now).2.snapshot.sources.get? file =
          session.workspace.snapshot.sources.get? file ∧
        (session.workspace.flush now).2.editsOf file = session.workspace.editsOf file := by
  obtain ⟨outcomes, flushed, ready⟩ := regular.exists_flush_of_readable allReadable
  have member : Batch.computed (session.workspace.start now).1 outcomes ∈
      session.batches ++ [.computed (session.workspace.start now).1 outcomes] :=
    List.mem_append_right _ List.mem_cons_self
  rw [flushed]
  refine ⟨rfl, fun job isJob => ?_, fun file notDue => ?_⟩
  · rcases ready.file_commit member job.file with
      ⟨other, isOther, sameFile, _, idle, analysis, ofOther, found⟩ | ⟨lost, _⟩
    · obtain rfl : other = job :=
        List.inj_on_of_nodup_map (distinct_start session.workspace now) isOther isJob sameFile
      refine ⟨?_, idle⟩
      rw [found, Option.map_some, (Analysis.of_ofText? ofOther).2.2.2]
    · exact absurd (lost job isJob rfl) (regular.orderly.waits_start isJob).not_lost
  · have others : ∀ job ∈ (session.workspace.start now).1, job.file ≠ file := by
      rintro job isJob rfl
      exact notDue ((session.workspace.files_startJobs_sublist _).subset
        (List.mem_map_of_mem isJob))
    constructor
    · rcases ready.file_commit member file with ⟨job, isJob, isFile, _⟩ | ⟨_, kept⟩
      · exact absurd isFile (others job isJob)
      · rw [kept, Workspace.snapshot_start]
    · have nothing : Workspace.arrivals outcomes file = [] := by
        refine List.eq_nil_iff_forall_not_mem.mpr fun event arrival => ?_
        obtain ⟨job, isJob, isFile, _⟩ :=
          Workspace.exists_job_of_mem_arrivals (ready.orderly.fits _ _ member) arrival
        exact others job isJob isFile
      rw [Workspace.editsOf_commit, nothing, List.foldl_nil]
      exact session.workspace.editsOf_startJobs_of_not_mem notDue

end Session

/-- After every run a flush treats the edits that are due as one: if all their texts can
be read, each is loaded and nothing of it is under way any more; if one of them cannot,
no file is installed, and every one of these edits, the readable ones too, is gone while
its path goes on recomputing. -/
theorem flush_installs_all_or_nothing (config : Config) (operations : List Operation)
    (now : Option Nat) :
    let workspace := ((Session.new config).run operations).workspace
    let flushed := (workspace.flush now).2
    ((∀ path edit, workspace.dueEdit? now path = some edit → readable edit.text = true) →
      (workspace.flush now).1.isSome = true ∧
      ∀ path edit, workspace.dueEdit? now path = some edit →
        flushed.snapshot.textAt? path = some edit.text ∧ flushed.phase? path = some .idle) ∧
    ((∃ path edit, workspace.dueEdit? now path = some edit ∧ readable edit.text = false) →
      (workspace.flush now).1 = none ∧ flushed.snapshot = workspace.snapshot ∧
      ∀ path edit, workspace.dueEdit? now path = some edit →
        (flushed.editsAt path).pending = none ∧ flushed.phase? path = some .recomputing) := by
  intro workspace flushed
  have regular := Session.regular_run config operations
  have coherent : flushed.Coherent := regular.coherent.workspace.flush now
  have sameTable : flushed.table = workspace.table := workspace.table_flush now
  constructor
  · intro allReadable
    have texts : ∀ job ∈ (workspace.start now).1, readable job.ticket.text = true := by
      intro job isJob
      obtain ⟨edit, due, same⟩ := Workspace.due_of_job isJob
      rw [same]
      exact allReadable job.path edit due
    obtain ⟨reported, installed, _⟩ := regular.flush_of_readable texts
    refine ⟨reported, fun path edit due => ?_⟩
    obtain ⟨job, isJob, numbered, sameText⟩ := Workspace.exists_job_of_due due
    obtain ⟨found, idle⟩ := installed job isJob
    rw [← sameTable] at numbered
    constructor
    · rw [coherent.textAt?_of_id? numbered, ← sameText]
      exact found
    · rw [Workspace.phase?, numbered, Option.map_some, State.phase_of_idle idle]
  · rintro ⟨lostPath, lostEdit, lostDue, unreadable⟩
    obtain ⟨lostJob, isLost, _, lostText⟩ := Workspace.exists_job_of_due lostDue
    have onlyStarted : workspace.flush now = (none, (workspace.start now).2) :=
      regular.orderly.flush_of_unreadable isLost (lostText ▸ unreadable)
    have isStarted : flushed = (workspace.start now).2 := congrArg Prod.snd onlyStarted
    refine ⟨congrArg Prod.fst onlyStarted, ?_, fun path edit due => ?_⟩
    · rw [isStarted, Workspace.snapshot_start]
    · obtain ⟨job, isJob, numbered, _⟩ := Workspace.exists_job_of_due due
      have waits : (flushed.editsOf job.file).Waits job.ticket.generation :=
        isStarted ▸ regular.orderly.waits_start isJob
      rw [← sameTable] at numbered
      constructor
      · rw [Workspace.editsAt_of_id? numbered]
        exact waits.noneLater
      · rw [Workspace.phase?, numbered, Option.map_some, State.phase_of_waits waits]

/-- A text that begins with a blank costs another file its edit: the text of that file
is neither loaded nor pending, and its path stays recomputing. -/
theorem flush_loses_readable_edit :
    let workspace := ((Session.new .standard).run
      [.edit ⟨"a.g4"⟩ "grammar A;" 0, .edit ⟨"b.g4"⟩ " grammar B;" 0]).workspace
    let flushed := (workspace.flush none).2
    readable "grammar A;" = true ∧
      (workspace.dueEdit? none ⟨"a.g4"⟩).map Pending.text = some "grammar A;" ∧
      flushed.snapshot.textAt? ⟨"a.g4"⟩ = none ∧
      (flushed.editsAt ⟨"a.g4"⟩).pending = none ∧
      flushed.phase? ⟨"a.g4"⟩ = some .recomputing := by
  decide +kernel

end GrammarDesk
