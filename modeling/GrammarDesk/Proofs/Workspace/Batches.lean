import GrammarDesk.Proofs.Workspace.Commit
import GrammarDesk.Proofs.Workspace.Loaded

/-!
Contract: what the batches of a session have in common, and what committing one of
them does to each file.

Owns: the invariant that a recompute which counts has the newest text, that a batch
holds every file once and that a ticket is in one batch only; the effect of a commit on
one file; and a flush as a start, a reading and a commit in a row.

Does not own: which of these happen in a run (`Latest`, `Version`).

Main statements: `Regular.file_commit`, `run_flush`.
-/

namespace GrammarDesk

open Edit

namespace Workspace

theorem snapshot_start (workspace : Workspace) (now : Option Nat) :
    (workspace.start now).2.snapshot = workspace.snapshot := by
  unfold start
  rw [startJobs_eq]

/-- Only the results of outcomes arrive. -/
theorem results_arrivals (outcomes : List Outcome) (file : File.Id) :
    ∀ event ∈ arrivals outcomes file, ∃ generation, event = .complete generation := by
  intro event arrival
  obtain ⟨outcome, _, _, rfl⟩ := mem_arrivals arrival
  exact ⟨outcome.generation, rfl⟩

theorem notTouching_arrivals (outcomes : List Outcome) (file : File.Id) :
    ∀ event ∈ arrivals outcomes file, event.touches = false := by
  intro event arrival
  obtain ⟨generation, rfl⟩ := results_arrivals outcomes file event arrival
  rfl

/-- A commit leaves pending edits alone. -/
theorem pending_commit (workspace : Workspace) (outcomes : List Outcome) (file : File.Id) :
    ((workspace.commit outcomes).2.editsOf file).pending = (workspace.editsOf file).pending := by
  rw [editsOf_commit]
  exact State.pending_foldl_complete _ (results_arrivals outcomes file)

/-- The result for a job is among those that arrive for its file. -/
theorem complete_mem_arrivals {workspace : Workspace} {jobs : List Job} {outcomes : List Outcome}
    (fits : List.Forall₂ workspace.Fits jobs outcomes) {job : Job} (isJob : job ∈ jobs) :
    Event.complete job.ticket.generation ∈ arrivals outcomes job.file := by
  obtain ⟨outcome, among, fits⟩ := exists_of_mem_right fits.flip isJob
  refine List.mem_map.mpr ⟨outcome, List.mem_filter.mpr ⟨among, ?_⟩, ?_⟩
  · simpa using fits.file
  · rw [fits.generation]

/-- What arrives for a file is the result for one of its jobs. -/
theorem exists_job_of_mem_arrivals {workspace : Workspace} {jobs : List Job}
    {outcomes : List Outcome} (fits : List.Forall₂ workspace.Fits jobs outcomes) {file : File.Id}
    {event : Event} (arrival : event ∈ arrivals outcomes file) :
    ∃ job ∈ jobs, job.file = file ∧ event = .complete job.ticket.generation := by
  obtain ⟨outcome, among, isFile, rfl⟩ := mem_arrivals arrival
  obtain ⟨job, isJob, fitsJob⟩ := exists_of_mem_right fits among
  exact ⟨job, isJob, fitsJob.file.symm.trans isFile, by rw [fitsJob.generation]⟩

end Workspace

namespace Session

/-! ## All sessions -/

/-- What holds of edits and batches in every session. -/
structure Regular (session : Session) : Prop where
  orderly : session.Orderly
  coherent : session.Coherent
  fresh : ∀ file, (session.workspace.editsOf file).Fresh
  distinct : ∀ batch ∈ session.batches, (batch.jobs.map Job.file).Nodup
  tickets : ∀ batch ∈ session.batches, ∀ job ∈ batch.jobs,
    ∀ other ∈ session.batches, ∀ otherJob ∈ other.jobs, job.file = otherJob.file →
      job.ticket.generation = otherJob.ticket.generation → job.ticket = otherJob.ticket

theorem regular_new (config : Config) : (new config).Regular where
  orderly := orderly_new config
  coherent := coherent_new config
  fresh _ := State.fresh_new
  distinct _ member := absurd member List.not_mem_nil
  tickets _ member := absurd member List.not_mem_nil

theorem distinct_start (workspace : Workspace) (now : Option Nat) :
    ((workspace.start now).1.map Job.file).Nodup :=
  (workspace.files_startJobs_sublist _).nodup (workspace.nodup_due now)

/-- The tickets of a batch that is started are newer than all others. -/
theorem Orderly.lt_start {session : Session} (orderly : session.Orderly) {batch : Batch}
    (member : batch ∈ session.batches) {job : Job} (isJob : job ∈ batch.jobs)
    {now : Option Nat} {newJob : Job} (isNew : newJob ∈ (session.workspace.start now).1)
    (sameFile : job.file = newJob.file) :
    job.ticket.generation < newJob.ticket.generation := by
  have given := orderly.given batch member job isJob
  have begins := Workspace.start?_of_mem_startJobs (session.workspace.nodup_due now) isNew
  obtain ⟨_, next, _⟩ := State.start?_eq_some begins
  rw [sameFile] at given
  omega

/-- Each operation keeps what holds of edits and batches: only a start adds a batch, one job
for each file, with tickets that no other batch has. -/
theorem Regular.perform {session : Session} (regular : session.Regular)
    (operation : Operation) :
    (session.perform operation).Regular := by
  constructor
  · exact regular.orderly.perform operation
  · exact regular.coherent.perform operation
  · intro file
    obtain ⟨events, performed⟩ := session.editsOf_perform operation file
    rw [performed]
    exact (regular.fresh file).foldl events
  · intro batch member
    rcases mem_batches_perform member with
      before | rfl | ⟨now, rfl, rfl⟩ | ⟨jobs, outcomes, started, _, rfl⟩
    · exact regular.distinct batch before
    · exact .nil
    · exact distinct_start session.workspace now
    · exact regular.distinct (.started jobs) started
  · intro batch member job isJob other otherMember otherJob isOther sameFile same
    rcases mem_jobs_perform member isJob with ⟨before, among, wasJob⟩ | ⟨now, rfl, isNew⟩
    · rcases mem_jobs_perform otherMember isOther with
        ⟨earlier, earlierAmong, wasOther⟩ | ⟨now, rfl, isNewOther⟩
      · exact regular.tickets before among job wasJob earlier earlierAmong otherJob wasOther
          sameFile same
      · have newer := regular.orderly.lt_start among wasJob isNewOther sameFile
        omega
    · rcases mem_jobs_perform otherMember isOther with
        ⟨earlier, earlierAmong, wasOther⟩ | ⟨later, isLater, isNewOther⟩
      · have newer := regular.orderly.lt_start earlierAmong wasOther isNew sameFile.symm
        omega
      · -- two jobs of the batch that is started have the ticket of their file
        cases isLater
        have once := session.workspace.nodup_due now
        have begins := Workspace.start?_of_mem_startJobs once isNew
        have beginsOther := Workspace.start?_of_mem_startJobs once isNewOther
        rw [sameFile, beginsOther] at begins
        exact (Prod.mk.inj (Option.some.inj begins)).1.symm

theorem regular_run (config : Config) (operations : List Operation) :
    ((new config).run operations).Regular :=
  run_forall (fun _ operation holds => holds.perform operation) (regular_new config) operations

/-! ## Commits -/

theorem Regular.waits_or_lost {session : Session} (regular : session.Regular) {batch : Batch}
    (member : batch ∈ session.batches) {job : Job} (isJob : job ∈ batch.jobs) :
    (session.workspace.editsOf job.file).Waits job.ticket.generation ∨
      (session.workspace.editsOf job.file).Lost job.ticket.generation :=
  (regular.fresh job.file).waits_or_lost (regular.orderly.given batch member job isJob)

/-- Exactly those outcomes of a batch are installed that would be if they arrived
alone. -/
theorem Regular.settle_eq {session : Session} (regular : session.Regular)
    {jobs : List Job} {outcomes : List Outcome}
    (member : .computed jobs outcomes ∈ session.batches) :
    (session.workspace.settle outcomes).1 = outcomes.filterMap session.workspace.accepts := by
  have distinct : (jobs.map Job.file).Nodup := regular.distinct _ member
  rw [← Workspace.files_of_fits (regular.orderly.fits jobs outcomes member)] at distinct
  exact (Workspace.settle_of_distinct session.workspace distinct).1

/-- What is installed by a commit was read for a job whose ticket waits. -/
theorem Regular.waits_of_accepted {session : Session} (regular : session.Regular)
    {jobs : List Job} {outcomes : List Outcome}
    (member : .computed jobs outcomes ∈ session.batches) {analysis : Analysis}
    (accepted : analysis ∈ (session.workspace.settle outcomes).1) :
    ∃ job ∈ jobs, job.analysis? = some analysis ∧
      (session.workspace.editsOf job.file).Waits job.ticket.generation := by
  rw [regular.settle_eq member] at accepted
  obtain ⟨outcome, among, accepted⟩ := List.mem_filterMap.mp accepted
  obtain ⟨job, isJob, fits⟩ :=
    Workspace.exists_of_mem_right (regular.orderly.fits jobs outcomes member) among
  rcases regular.waits_or_lost member isJob with waits | lost
  · obtain ⟨read, isRead, accepts⟩ := Workspace.accepts_of_waits fits waits
    obtain rfl : read = analysis := Option.some.inj (accepts.symm.trans accepted)
    exact ⟨job, isJob, isRead, waits⟩
  · rw [Workspace.accepts_of_lost fits lost] at accepted
    cases accepted

/-- What is read for a job whose ticket waits is installed by a commit. -/
theorem Regular.accepted_of_waits {session : Session} (regular : session.Regular)
    {jobs : List Job} {outcomes : List Outcome}
    (member : .computed jobs outcomes ∈ session.batches) {job : Job} (isJob : job ∈ jobs)
    (waits : (session.workspace.editsOf job.file).Waits job.ticket.generation) :
    ∃ analysis ∈ (session.workspace.settle outcomes).1, job.analysis? = some analysis := by
  have fits := regular.orderly.fits jobs outcomes member
  obtain ⟨outcome, among, fitsJob⟩ := Workspace.exists_of_mem_right fits.flip isJob
  obtain ⟨analysis, isRead, accepts⟩ := Workspace.accepts_of_waits fitsJob waits
  rw [regular.settle_eq member]
  exact ⟨analysis, List.mem_filterMap.mpr ⟨outcome, among, accepts⟩, isRead⟩

/-- What a commit does to a file: either a job of the batch waits for it, and what was
read for the job is installed and nothing is under way any more, or every job for the
file is lost and the file stays as it was. -/
theorem Regular.file_commit {session : Session} (regular : session.Regular)
    {jobs : List Job} {outcomes : List Outcome}
    (member : .computed jobs outcomes ∈ session.batches) (file : File.Id) :
    (∃ job ∈ jobs, job.file = file ∧
      (session.workspace.editsOf file).Waits job.ticket.generation ∧
      ((session.workspace.commit outcomes).2.editsOf file).Idle ∧
      ∃ analysis, job.analysis? = some analysis ∧
        (session.workspace.commit outcomes).2.snapshot.sources.get? file = some analysis) ∨
    (∀ job ∈ jobs, job.file = file →
      (session.workspace.editsOf file).Lost job.ticket.generation) ∧
      (session.workspace.commit outcomes).2.snapshot.sources.get? file =
        session.workspace.snapshot.sources.get? file := by
  have fits := regular.orderly.fits jobs outcomes member
  have installed := regular.coherent.workspace.sources_commit
    (regular.orderly.numbered _ member) fits
  rcases (session.workspace.settled outcomes).get?_taken (session.workspace.settle outcomes).1 file
    with ⟨analysis, accepted, isFile, found⟩ | ⟨others, found⟩
  · obtain ⟨job, isJob, isRead, waits⟩ := regular.waits_of_accepted member accepted
    obtain rfl : job.file = file := (Analysis.of_ofText? isRead).1.symm.trans isFile
    refine .inl ⟨job, isJob, rfl, waits, ?_, analysis, isRead, ?_⟩
    · rw [Workspace.editsOf_commit]
      exact waits.idle_of_complete (Workspace.notTouching_arrivals outcomes job.file)
        (Workspace.complete_mem_arrivals fits isJob)
    · rw [installed]
      exact found
  · refine .inr ⟨fun job isJob isFile => ?_, ?_⟩
    · subst isFile
      refine (regular.waits_or_lost member isJob).resolve_left fun waits => ?_
      obtain ⟨analysis, accepted, isRead⟩ := regular.accepted_of_waits member isJob waits
      exact others analysis accepted (Analysis.of_ofText? isRead).1
    · rw [installed, found]
      unfold Workspace.settled
      rw [Workspace.settle_eq]

/-! ## Flushes -/

theorem set_last (batches : List Batch) (batch other : Batch) :
    (batches ++ [batch]).set batches.length other = batches ++ [other] := by
  rw [List.set_append_right _ _ (Nat.le_refl _), Nat.sub_self]
  rfl

/-- The batch that is started next, with its texts read at once. -/
theorem perform_start_compute (session : Session) (now : Option Nat) :
    (session.perform (.start now)).perform (.compute session.batches.length) =
      ⟨(session.workspace.start now).2, session.batches ++
        [computeIn (session.workspace.start now).2 (session.workspace.start now).1]⟩ := by
  have started : session.perform (.start now) =
      ⟨(session.workspace.start now).2,
        session.batches ++ [.started (session.workspace.start now).1]⟩ := rfl
  rw [started, perform]
  simp only [List.getElem?_concat_length, set_last]

/-- A flush is a start, a reading and a commit in a row. -/
theorem run_flush (session : Session) (now : Option Nat) :
    session.run
        [.start now, .compute session.batches.length, .commit session.batches.length] =
      ⟨(session.perform (.flush now)).workspace, session.batches ++ [.spent]⟩ := by
  have flushed : (session.perform (.flush now)).workspace =
      (session.workspace.flush now).2 := rfl
  rw [run_cons, run_cons, run_cons, run_nil, perform_start_compute, flushed, Workspace.flush,
    perform]
  simp only [List.getElem?_concat_length]
  unfold computeIn
  cases (session.workspace.start now).2.compute? (session.workspace.start now).1 with
  | none => rfl
  | some outcomes =>
      dsimp only
      rw [set_last]

end Session

end GrammarDesk
