import Mathlib.Data.List.Induction
import Mathlib.Data.List.Nodup
import GrammarDesk.Proofs.Workspace.Edits
import GrammarDesk.Proofs.Workspace.Incremental

/-!
Contract: which results of a batch are installed, and what is then loaded.

Owns: what was read for a job, the tickets of a batch on their way from its start to
its commit, and the operation that a job was begun for.

Does not own: how tickets are given out and lost (`Edit`), or linking
(`Incremental`).

A ticket is followed from the start of its batch: as long as the caller leaves its
path alone it waits, and from the first load, edit or close on it is lost. Results of
other batches carry other generations and pass it by.

Main statement: `commit_installs_untouched`.
-/

namespace GrammarDesk

open Edit

namespace Job

/-- What reading the text of a job yields. -/
def analysis? (job : Job) : Option Analysis :=
  Analysis.ofText? job.file job.path job.version job.ticket.text

end Job

namespace Workspace

/-! ## Outcomes of jobs -/

/-- The outcome is one of the job: its text was read, unless it is cancelled. -/
structure Fits (workspace : Workspace) (job : Job) (outcome : Outcome) : Prop where
  file : outcome.file = job.file
  generation : outcome.generation = job.ticket.generation
  analysis :
    (∃ analysis, job.analysis? = some analysis ∧ outcome.analysis = some analysis) ∨
      outcome.analysis = none ∧
        (workspace.editsOf job.file).isCancelled job.ticket.generation = true

theorem Fits.mono {before after : Workspace} {job : Job} {outcome : Outcome}
    (fits : before.Fits job outcome)
    (kept : (before.editsOf job.file).isCancelled job.ticket.generation = true →
      (after.editsOf job.file).isCancelled job.ticket.generation = true) :
    after.Fits job outcome :=
  ⟨fits.file, fits.generation, fits.analysis.imp id (And.imp id kept)⟩

theorem fits_of_read? {workspace : Workspace} {job : Job} {outcome : Outcome}
    (read : workspace.read? job = some outcome) :
    workspace.Fits job outcome := by
  obtain ⟨file, generation⟩ := of_read? read
  refine ⟨file, generation, ?_⟩
  rw [read?_eq] at read
  split at read
  · rename_i cancelled
    cases read
    exact .inr ⟨rfl, cancelled⟩
  · obtain ⟨analysis, isRead, rfl⟩ := Option.map_eq_some_iff.mp read
    exact .inl ⟨analysis, isRead, rfl⟩

theorem files_of_fits {workspace : Workspace} {jobs : List Job} {outcomes : List Outcome}
    (fits : List.Forall₂ workspace.Fits jobs outcomes) :
    outcomes.map Outcome.file = jobs.map Job.file := by
  rw [← List.forall₂_eq_eq_eq, List.forall₂_map_left_iff, List.forall₂_map_right_iff]
  exact fits.flip.imp fun _ _ fits => fits.file

/-- The result for a waiting ticket is installed. -/
theorem accepts_of_waits {workspace : Workspace} {job : Job} {outcome : Outcome}
    (fits : workspace.Fits job outcome)
    (waits : (workspace.editsOf job.file).Waits job.ticket.generation) :
    ∃ analysis, job.analysis? = some analysis ∧ workspace.accepts outcome = some analysis := by
  rcases fits.analysis with ⟨analysis, isRead, isOutcome⟩ | ⟨_, cancelled⟩
  · refine ⟨analysis, isRead, ?_⟩
    rw [accepts, fits.file, fits.generation, State.complete_of_waits waits]
    exact isOutcome
  · rw [waits.notCancelled] at cancelled
    cases cancelled

theorem accepts_of_lost {workspace : Workspace} {job : Job} {outcome : Outcome}
    (fits : workspace.Fits job outcome)
    (lost : (workspace.editsOf job.file).Lost job.ticket.generation) :
    workspace.accepts outcome = none := by
  rw [accepts, fits.file, fits.generation, State.complete_of_lost lost]
  rfl

/-- It does not matter when a job was read. -/
theorem accepts_congr {workspace : Workspace} {job : Job} {outcome other : Outcome}
    (fits : workspace.Fits job outcome) (fitsOther : workspace.Fits job other) :
    workspace.accepts outcome = workspace.accepts other := by
  unfold accepts
  rw [fits.file, fits.generation, fitsOther.file, fitsOther.generation]
  cases counts : ((workspace.editsOf job.file).complete job.ticket.generation).1 with
  | false => rfl
  | true =>
      have notCancelled := State.not_cancelled_of_complete counts
      rcases fits.analysis with ⟨analysis, isRead, isOutcome⟩ | ⟨_, cancelled⟩
      · rcases fitsOther.analysis with ⟨analysis', isRead', isOther⟩ | ⟨_, cancelled⟩
        · rw [isOutcome, isOther, ← isRead, ← isRead']
        · exact absurd cancelled (by simp [notCancelled])
      · exact absurd cancelled (by simp [notCancelled])

theorem arrive_congr {workspace : Workspace} {job : Job} {outcome other : Outcome}
    (fits : workspace.Fits job outcome) (fitsOther : workspace.Fits job other) :
    workspace.arrive outcome = workspace.arrive other := by
  unfold arrive
  rw [fits.file, fits.generation, fitsOther.file, fitsOther.generation]

theorem Fits.arrive {workspace : Workspace} {job : Job} {outcome : Outcome}
    (fits : workspace.Fits job outcome) (first : Outcome) :
    (workspace.arrive first).Fits job outcome := by
  apply fits.mono
  intro cancelled
  rw [editsOf_arrive]
  split
  · exact State.isCancelled_after cancelled _
  · exact cancelled

/-- A batch settles in the same way whenever its jobs were read. -/
theorem settle_congr {workspace : Workspace} {jobs : List Job} {outcomes others : List Outcome}
    (fits : List.Forall₂ workspace.Fits jobs outcomes)
    (fitsOthers : List.Forall₂ workspace.Fits jobs others) :
    workspace.settle outcomes = workspace.settle others := by
  induction jobs generalizing workspace outcomes others with
  | nil =>
      cases fits
      cases fitsOthers
      rfl
  | cons job rest inductionHypothesis =>
      cases fits with
      | @cons _ outcome _ _ first later =>
      cases fitsOthers with
      | @cons _ other _ _ firstOther laterOthers =>
      have sameLater := inductionHypothesis (later.imp fun _ _ fits => fits.arrive outcome)
        (laterOthers.imp fun _ _ fits => fits.arrive outcome)
      rw [settle_cons, settle_cons, sameLater, accepts_congr first firstOther,
        arrive_congr first firstOther]

/-! ## Settling a batch -/

theorem accepts_arrive {workspace : Workspace} {first later : Outcome}
    (apart : later.file ≠ first.file) :
    (workspace.arrive first).accepts later = workspace.accepts later := by
  unfold accepts
  rw [editsOf_arrive, if_neg apart]

/-- Of a batch with every file once, exactly that is installed which would be if it
arrived alone. -/
theorem settle_of_distinct (workspace : Workspace) {outcomes : List Outcome}
    (distinct : (outcomes.map Outcome.file).Nodup) :
    (workspace.settle outcomes).1 = outcomes.filterMap workspace.accepts ∧
      (workspace.settle outcomes).2.1 + (workspace.settle outcomes).1.length =
        outcomes.length := by
  induction outcomes generalizing workspace with
  | nil => exact ⟨rfl, rfl⟩
  | cons outcome rest inductionHypothesis =>
      obtain ⟨notAgain, distinctLater⟩ := List.nodup_cons.mp distinct
      obtain ⟨accepted, counted⟩ := inductionHypothesis (workspace.arrive outcome) distinctLater
      have sameLater : rest.filterMap (workspace.arrive outcome).accepts =
          rest.filterMap workspace.accepts := by
        refine List.filterMap_congr fun later member => accepts_arrive fun same => ?_
        exact notAgain (same ▸ List.mem_map_of_mem member)
      rw [settle_cons]
      cases first : workspace.accepts outcome with
      | none =>
          refine ⟨?_, ?_⟩
          · rw [List.filterMap_cons_none first]
            exact accepted.trans sameLater
          · show ((workspace.arrive outcome).settle rest).2.1 + 1 +
              ((workspace.arrive outcome).settle rest).1.length = rest.length + 1
            omega
      | some analysis =>
          refine ⟨?_, ?_⟩
          · rw [List.filterMap_cons_some first]
            exact congrArg (analysis :: ·) (accepted.trans sameLater)
          · show ((workspace.arrive outcome).settle rest).2.1 +
              (((workspace.arrive outcome).settle rest).1.length + 1) = rest.length + 1
            omega

/-- When every ticket of a batch waits or is lost, the waiting ones decide what is
installed. -/
theorem filterMap_accepts {workspace : Workspace} {jobs : List Job} {outcomes : List Outcome}
    {live : Job → Bool} (fits : List.Forall₂ workspace.Fits jobs outcomes)
    (waits : ∀ job ∈ jobs, live job = true →
      (workspace.editsOf job.file).Waits job.ticket.generation)
    (lost : ∀ job ∈ jobs, live job = false →
      (workspace.editsOf job.file).Lost job.ticket.generation) :
    List.Forall₂ (fun job analysis => job.analysis? = some analysis)
      (jobs.filter live) (outcomes.filterMap workspace.accepts) := by
  induction fits with
  | nil => exact .nil
  | @cons job outcome rest _ first _ inductionHypothesis =>
      obtain ⟨firstWaits, laterWait⟩ := List.forall_mem_cons.mp waits
      obtain ⟨firstLost, laterLost⟩ := List.forall_mem_cons.mp lost
      have later := inductionHypothesis laterWait laterLost
      cases isLive : live job with
      | true =>
          obtain ⟨analysis, isRead, accepted⟩ := accepts_of_waits first (firstWaits isLive)
          rw [List.filter_cons_of_pos isLive, List.filterMap_cons_some accepted]
          exact .cons isRead later
      | false =>
          rw [List.filter_cons_of_neg (by simp [isLive]),
            List.filterMap_cons_none (accepts_of_lost first (firstLost isLive))]
          exact later

end Workspace

/-! ## Tickets in a session -/

/-- The jobs of a batch that may still be committed. -/
def Batch.jobs : Batch → List Job
  | .started jobs => jobs
  | .computed jobs _ => jobs
  | .spent => []

/-- Whether the outcomes of a batch wait to be committed. -/
def Batch.isComputed : Batch → Bool
  | .computed _ _ => true
  | .started _ | .spent => false

namespace Session

/-- What holds of tickets in every session: they were given out, and what was computed
for a job is an outcome of it. -/
structure Orderly (session : Session) : Prop where
  bounded : ∀ file, (session.workspace.editsOf file).Bounded
  numbered : ∀ batch ∈ session.batches, ∀ job ∈ batch.jobs,
    session.workspace.table.id? job.path = some job.file
  given : ∀ batch ∈ session.batches, ∀ job ∈ batch.jobs,
    job.ticket.generation ≤ (session.workspace.editsOf job.file).generation
  fits : ∀ jobs outcomes, .computed jobs outcomes ∈ session.batches →
    List.Forall₂ session.workspace.Fits jobs outcomes

theorem orderly_new (config : Config) : (new config).Orderly where
  bounded _ := State.bounded_new
  numbered _ member := absurd member List.not_mem_nil
  given _ member := absurd member List.not_mem_nil
  fits _ _ member := absurd member List.not_mem_nil

theorem generation_le_perform (session : Session) (operation : Operation) (file : File.Id) :
    (session.workspace.editsOf file).generation ≤
      ((session.perform operation).workspace.editsOf file).generation := by
  obtain ⟨events, performed⟩ := session.editsOf_perform operation file
  rw [performed]
  exact State.generation_le_foldl _ events

theorem isCancelled_perform {session : Session} {file : File.Id} {generation : Nat}
    (cancelled : (session.workspace.editsOf file).isCancelled generation = true)
    (operation : Operation) :
    ((session.perform operation).workspace.editsOf file).isCancelled generation = true := by
  obtain ⟨events, performed⟩ := session.editsOf_perform operation file
  rw [performed]
  exact State.isCancelled_foldl cancelled events

theorem isCancelled_run {session : Session} {file : File.Id} {generation : Nat}
    (cancelled : (session.workspace.editsOf file).isCancelled generation = true)
    (operations : List Operation) :
    ((session.run operations).workspace.editsOf file).isCancelled generation = true := by
  induction operations generalizing session with
  | nil => exact cancelled
  | cons operation rest inductionHypothesis =>
      exact inductionHypothesis (isCancelled_perform cancelled operation)

/-- A job that may be committed after an operation is one of a batch that was there
before, or of the batch that is started. -/
theorem mem_jobs_perform {session : Session} {operation : Operation} {batch : Batch}
    (member : batch ∈ (session.perform operation).batches) {job : Job}
    (isJob : job ∈ batch.jobs) :
    (∃ before ∈ session.batches, job ∈ before.jobs) ∨
      ∃ now, operation = .start now ∧ job ∈ (session.workspace.start now).1 := by
  rcases mem_batches_perform member with
    before | rfl | ⟨now, isStart, rfl⟩ | ⟨jobs, outcomes, before, _, rfl⟩
  · exact .inl ⟨batch, before, isJob⟩
  · exact absurd isJob List.not_mem_nil
  · exact .inr ⟨now, isStart, isJob⟩
  · exact .inl ⟨_, before, isJob⟩

/-- Each operation keeps tickets within those given out, and what was computed for jobs
outcomes of them. -/
theorem Orderly.perform {session : Session} (orderly : session.Orderly)
    (operation : Operation) :
    (session.perform operation).Orderly := by
  have continues := session.continues_perform operation
  constructor
  · intro file
    obtain ⟨events, performed⟩ := session.editsOf_perform operation file
    rw [performed]
    exact (orderly.bounded file).foldl events
  · intro batch member job isJob
    rcases mem_jobs_perform member isJob with ⟨before, among, wasJob⟩ | ⟨now, rfl, isNew⟩
    · exact continues.numbers (orderly.numbered before among job wasJob)
    · exact continues.numbers (Workspace.numbered_start isNew)
  · intro batch member job isJob
    rcases mem_jobs_perform member isJob with ⟨before, among, wasJob⟩ | ⟨now, rfl, isNew⟩
    · exact Nat.le_trans (orderly.given before among job wasJob)
        (session.generation_le_perform operation job.file)
    · have begins := Workspace.start?_of_mem_startJobs (session.workspace.nodup_due now) isNew
      obtain ⟨_, _, started⟩ := State.start?_eq_some begins
      show _ ≤ ((session.workspace.start now).2.editsOf job.file).generation
      unfold Workspace.start
      rw [started]
  · intro jobs outcomes member
    rcases mem_batches_perform member with
      before | isSpent | ⟨now, _, isStarted⟩ | ⟨jobs', outcomes', _, computed, same⟩
    · exact (orderly.fits jobs outcomes before).imp fun _ _ fits =>
        fits.mono fun cancelled => isCancelled_perform cancelled operation
    · cases isSpent
    · cases isStarted
    · cases same
      exact (Workspace.forall₂_of_compute? computed).imp fun _ _ read =>
        (Workspace.fits_of_read? read).mono fun cancelled => isCancelled_perform cancelled operation

theorem orderly_run (config : Config) (operations : List Operation) :
    ((new config).run operations).Orderly :=
  run_forall (fun _ operation holds => holds.perform operation) (orderly_new config) operations

/-! ## Following one ticket -/

/-- A job on its way to its commit: its ticket waits or, once its path was touched, is
lost, and no other batch carries its generation. -/
structure Tracks (session : Session) (number : Nat) (jobs : List Job) (job : Job)
    (touched : Bool) : Prop where
  numbered : session.workspace.table.id? job.path = some job.file
  positive : 0 < job.ticket.generation
  given : job.ticket.generation ≤ (session.workspace.editsOf job.file).generation
  batch : ∃ batch, session.batches[number]? = some batch ∧ (batch = .spent ∨ batch.jobs = jobs)
  foreign : ∀ other, other ≠ number → ∀ batch, session.batches[other]? = some batch →
    ∀ otherJob ∈ batch.jobs, otherJob.file = job.file →
      otherJob.ticket.generation ≠ job.ticket.generation
  status : session.batches[number]? = some .spent ∨
    if touched then
      (session.workspace.editsOf job.file).Lost job.ticket.generation
    else
      (session.workspace.editsOf job.file).Waits job.ticket.generation

/-- The batch of a number after an operation. -/
theorem getElem?_batches_perform {session : Session} (operation : Operation) {number : Nat}
    {batch : Batch} (before : session.batches[number]? = some batch) :
    ∃ after, (session.perform operation).batches[number]? = some after ∧
      (after = batch ∨ after = .spent ∨
        ∃ jobs outcomes, batch = .started jobs ∧ after = .computed jobs outcomes) := by
  have below := (List.getElem?_eq_some_iff.mp before).1
  have same : (∃ after, session.batches[number]? = some after ∧
      (after = batch ∨ after = .spent ∨
        ∃ jobs outcomes, batch = .started jobs ∧ after = .computed jobs outcomes)) :=
    ⟨batch, before, .inl rfl⟩
  cases operation with
  | start now =>
      refine ⟨batch, ?_, .inl rfl⟩
      show (session.batches ++ [_])[number]? = _
      rw [List.getElem?_append_left below]
      exact before
  | compute other =>
      rcases session.perform_compute_cases other with isSame | ⟨jobs, atOther, after⟩
      · rw [isSame]
        exact same
      · rw [after]
        by_cases here : other = number
        · subst here
          refine ⟨computeIn session.workspace jobs, List.getElem?_set_self below, ?_⟩
          obtain rfl : batch = .started jobs := Option.some.inj (before.symm.trans atOther)
          unfold computeIn
          split
          · rename_i outcomes _
            exact .inr (.inr ⟨jobs, outcomes, rfl, rfl⟩)
          · exact .inr (.inl rfl)
        · exact ⟨batch, (List.getElem?_set_ne here).trans before, .inl rfl⟩
  | commit other =>
      rcases session.perform_commit_cases other with isSame | ⟨_, _, _, after⟩
      · rw [isSame]
        exact same
      · rw [after]
        by_cases here : other = number
        · subst here
          exact ⟨.spent, List.getElem?_set_self below, .inr (.inl rfl)⟩
        · exact ⟨batch, (List.getElem?_set_ne here).trans before, .inl rfl⟩
  | load path text => exact same
  | edit path text now => exact same
  | close path => exact same
  | flush now => exact same
  | takeChanged => exact same

/-- Only a start adds a batch. -/
theorem length_batches_perform (session : Session) (operation : Operation) :
    (session.perform operation).batches.length = session.batches.length ∨
      ∃ now, operation = .start now ∧
        (session.perform operation).batches =
          session.batches ++ [.started (session.workspace.start now).1] := by
  cases operation with
  | start now => exact .inr ⟨now, rfl, rfl⟩
  | compute number =>
      left
      rcases session.perform_compute_cases number with same | ⟨_, _, after⟩
      · rw [same]
      · rw [after]
        exact List.length_set
  | commit number =>
      left
      rcases session.perform_commit_cases number with same | ⟨_, _, _, after⟩
      · rw [same]
      · rw [after]
        exact List.length_set
  | load path text => exact .inl rfl
  | edit path text now => exact .inl rfl
  | close path => exact .inl rfl
  | flush now => exact .inl rfl
  | takeChanged => exact .inl rfl

theorem getElem?_of_mem_perform {session : Session} {operation : Operation} {number : Nat}
    {batch : Batch} (after : (session.perform operation).batches[number]? = some batch)
    {job : Job} (isJob : job ∈ batch.jobs) :
    (∃ before, session.batches[number]? = some before ∧ job ∈ before.jobs) ∨
      ∃ now, operation = .start now ∧ job ∈ (session.workspace.start now).1 := by
  cases atNumber : session.batches[number]? with
  | some before =>
      obtain ⟨later, isLater, stage⟩ := getElem?_batches_perform operation atNumber
      obtain rfl : later = batch := Option.some.inj (isLater.symm.trans after)
      rcases stage with rfl | rfl | ⟨jobs, outcomes, rfl, rfl⟩
      · exact .inl ⟨later, rfl, isJob⟩
      · exact absurd isJob List.not_mem_nil
      · exact .inl ⟨_, rfl, isJob⟩
  | none =>
      have beyond := List.getElem?_eq_none_iff.mp atNumber
      rcases session.length_batches_perform operation with sameLength | ⟨now, rfl, added⟩
      · have below := (List.getElem?_eq_some_iff.mp after).1
        omega
      · rw [added, List.getElem?_append_right beyond] at after
        obtain rfl := List.mem_singleton.mp (List.mem_of_getElem? after)
        exact .inr ⟨now, rfl, isJob⟩

/-- A ticket is lost once its path is touched. -/
theorem Tracks.lost_perform {session : Session} {number : Nat} {jobs : List Job} {job : Job}
    {touched : Bool} (tracks : session.Tracks number jobs job touched)
    {operation : Operation} (touches : operation.touches job.path = true) :
    ((session.perform operation).workspace.editsOf job.file).Lost job.ticket.generation := by
  have numbered := (session.continues_perform operation).numbers tracks.numbered
  rcases editsOf_of_touches touches numbered with ⟨_, _, _, _, _, isEdited⟩ | isReset | ⟨isNew, _⟩
  · rw [isEdited]
    exact State.lost_of_touches tracks.given rfl
  · rw [isReset]
    exact State.lost_of_touches tracks.given rfl
  · -- a file without edits has given out no ticket
    have given := tracks.given
    rw [isNew] at given
    exact absurd given (Nat.not_le_of_lt tracks.positive)

/-- Only the commit of its own batch hands in the result for a ticket. -/
theorem Tracks.spent_of_delivers {session : Session} {number : Nat} {jobs : List Job}
    {job : Job} {touched : Bool} (tracks : session.Tracks number jobs job touched)
    (orderly : session.Orderly) {operation : Operation}
    (delivers : session.Delivers operation job.file job.ticket.generation) :
    (session.perform operation).batches[number]? = some .spent := by
  obtain ⟨other, jobs', outcomes, rfl, atOther, outcome, among, file, generation⟩ := delivers
  by_cases here : other = number
  · subst here
    rw [perform_commit atOther]
    exact List.getElem?_set_self (List.getElem?_eq_some_iff.mp atOther).1
  · have fits := orderly.fits jobs' outcomes (List.mem_of_getElem? atOther)
    obtain ⟨otherJob, isJob, fits⟩ := Workspace.exists_of_mem_right fits among
    exact absurd (fits.generation.symm.trans generation)
      (tracks.foreign other here _ atOther otherJob isJob (fits.file.symm.trans file))

/-- A ticket whose path is not touched stays as it is until its batch is committed. -/
theorem Tracks.status_perform_of_not_touches {session : Session} {number : Nat}
    {jobs : List Job} {job : Job} {touched : Bool}
    (tracks : session.Tracks number jobs job touched) (orderly : session.Orderly)
    {operation : Operation} (notTouches : operation.touches job.path = false)
    (status :
      if touched then
        (session.workspace.editsOf job.file).Lost job.ticket.generation
      else
        (session.workspace.editsOf job.file).Waits job.ticket.generation) :
    (session.perform operation).batches[number]? = some .spent ∨
      if touched then
        ((session.perform operation).workspace.editsOf job.file).Lost job.ticket.generation
      else
        ((session.perform operation).workspace.editsOf job.file).Waits job.ticket.generation := by
  have numbered := (session.continues_perform operation).numbers tracks.numbered
  obtain ⟨events, notTouching, delivered, performed⟩ := spares_of_not_touches notTouches numbered
  rw [performed]
  cases touched with
  | true => exact .inr (status.foldl events)
  | false =>
      by_cases mine : Event.complete job.ticket.generation ∈ events
      · rcases delivered _ mine with delivers | newer
        · exact .inl (tracks.spent_of_delivers orderly delivers)
        · exact absurd newer (Nat.not_lt_of_le tracks.given)
      · exact .inr (State.Waits.foldl status notTouching mine)

/-- Each operation keeps track of a job, which is lost from the first touch of its path on. -/
theorem Tracks.perform {session : Session} {number : Nat} {jobs : List Job} {job : Job}
    {touched : Bool} (tracks : session.Tracks number jobs job touched)
    (orderly : session.Orderly) (operation : Operation) :
    (session.perform operation).Tracks number jobs job
      (touched || operation.touches job.path) := by
  obtain ⟨batch, atNumber, stage⟩ := tracks.batch
  obtain ⟨after, atAfter, nextStage⟩ := getElem?_batches_perform operation atNumber
  constructor
  · exact (session.continues_perform operation).numbers tracks.numbered
  · exact tracks.positive
  · exact Nat.le_trans tracks.given (session.generation_le_perform operation job.file)
  · refine ⟨after, atAfter, ?_⟩
    rcases nextStage with rfl | rfl | ⟨started, outcomes, rfl, rfl⟩
    · exact stage
    · exact .inl rfl
    · rcases stage with isSpent | same
      · cases isSpent
      · exact .inr same
  · intro other different batch atOther otherJob isJob sameFile
    rcases getElem?_of_mem_perform atOther isJob with ⟨before, wasOther, wasJob⟩ | ⟨now, rfl, isNew⟩
    · exact tracks.foreign other different before wasOther otherJob wasJob sameFile
    · -- the tickets of a new batch are newer
      have begins := Workspace.start?_of_mem_startJobs (session.workspace.nodup_due now) isNew
      obtain ⟨_, next, _⟩ := State.start?_eq_some begins
      have given := tracks.given
      rw [sameFile] at next
      omega
  · rcases tracks.status with isSpent | status
    · left
      rw [atAfter]
      obtain rfl : batch = .spent := Option.some.inj (atNumber.symm.trans isSpent)
      rcases nextStage with rfl | rfl | ⟨started, outcomes, isStarted, _⟩
      · rfl
      · rfl
      · cases isStarted
    · cases touches : operation.touches job.path with
      | true =>
          right
          rw [Bool.or_true, if_pos rfl]
          exact tracks.lost_perform touches
      | false =>
          rw [Bool.or_false]
          exact tracks.status_perform_of_not_touches orderly touches status

theorem Tracks.run {session : Session} {number : Nat} {jobs : List Job} {job : Job}
    {touched : Bool} (tracks : session.Tracks number jobs job touched)
    (orderly : session.Orderly) (operations : List Operation) :
    (session.run operations).Tracks number jobs job
      (touched || operations.any (Operation.touches job.path)) := by
  induction operations generalizing session touched with
  | nil => simpa using tracks
  | cons operation rest inductionHypothesis =>
      have later := inductionHypothesis (tracks.perform orderly operation)
        (orderly.perform operation)
      rwa [Bool.or_assoc] at later

/-- The jobs of a batch that was just started wait. -/
theorem tracks_start {session : Session} (orderly : session.Orderly) (now : Option Nat)
    {job : Job} (isJob : job ∈ (session.workspace.start now).1) :
    (session.perform (.start now)).Tracks session.batches.length (session.workspace.start now).1
      job false := by
  have begins := Workspace.start?_of_mem_startJobs (session.workspace.nodup_due now) isJob
  obtain ⟨_, next, started⟩ := State.start?_eq_some begins
  have atNumber : (session.perform (.start now)).batches[session.batches.length]? =
      some (.started (session.workspace.start now).1) := by
    show (session.batches ++ [_])[session.batches.length]? = _
    rw [List.getElem?_append_right (Nat.le_refl _), Nat.sub_self]
    rfl
  have orderlyAfter := orderly.perform (.start now)
  have member := List.mem_of_getElem? atNumber
  constructor
  · exact orderlyAfter.numbered _ member job isJob
  · omega
  · exact orderlyAfter.given _ member job isJob
  · exact ⟨_, atNumber, .inr rfl⟩
  · intro other different batch atOther otherJob isOther sameFile
    have before : session.batches[other]? = some batch := by
      change (session.batches ++ [.started (session.workspace.start now).1])[other]? = _ at atOther
      rcases Nat.lt_or_ge other session.batches.length with below | beyond
      · rwa [List.getElem?_append_left below] at atOther
      · have outside : (session.batches ++
            [Batch.started (session.workspace.start now).1]).length ≤ other := by
          rw [List.length_append, List.length_singleton]
          omega
        rw [List.getElem?_eq_none outside] at atOther
        cases atOther
    have given := orderly.given batch (List.mem_of_getElem? before) otherJob isOther
    rw [sameFile] at given
    omega
  · exact .inr (State.waits_of_start? (orderly.bounded job.file) begins)

/-- When a batch is to be committed, the tickets of its jobs wait, or are lost where the
caller touched the path since the start. -/
theorem status_of_computed {session : Session} (orderly : session.Orderly)
    {now : Option Nat} {between : List Operation} {jobs : List Job} {outcomes : List Outcome}
    (computed : ((session.perform (.start now)).run between).batches[session.batches.length]? =
      some (.computed jobs outcomes))
    {job : Job} (isJob : job ∈ (session.workspace.start now).1) :
    if between.any (Operation.touches job.path) then
      (((session.perform (.start now)).run between).workspace.editsOf job.file).Lost
        job.ticket.generation
    else
      (((session.perform (.start now)).run between).workspace.editsOf job.file).Waits
        job.ticket.generation := by
  have tracks := (tracks_start orderly now isJob).run (orderly.perform (.start now)) between
  rcases tracks.status with isSpent | status
  · rw [computed] at isSpent
    cases isSpent
  · exact status

/-- What was read for a job fits it from then on. -/
theorem fits_run {session : Session} {job : Job} {outcome : Outcome}
    (read : session.workspace.read? job = some outcome) (later : List Operation) :
    (session.run later).workspace.Fits job outcome := by
  apply (Workspace.fits_of_read? read).mono
  intro cancelled
  exact isCancelled_run cancelled later

end Session

/-! ## The operation that a job was begun for -/

namespace Operation

/-- The last operation of a run that touches a path. -/
def lastTouching (path : File.Path) (operations : List Operation) : Option Operation :=
  operations.reverse.find? (touches path)

theorem lastTouching_append (path : File.Path) (operations : List Operation)
    (operation : Operation) :
    lastTouching path (operations ++ [operation]) =
      if operation.touches path then some operation else lastTouching path operations := by
  unfold lastTouching
  rw [List.reverse_append, List.reverse_singleton, List.singleton_append, List.find?_cons]
  cases operation.touches path with
  | true => rfl
  | false => rfl

end Operation

/-- A text is pending only if the last operation that touched its path was the edit
with that text. -/
theorem lastTouching_of_pending (config : Config) (operations : List Operation)
    {path : File.Path} {file : File.Id} {edit : Pending}
    (numbered : ((Session.new config).run operations).workspace.table.id? path = some file)
    (pending : (((Session.new config).run operations).workspace.editsOf file).pending = some edit) :
    ∃ other time, Operation.lastTouching path operations = some (.edit other edit.text time) := by
  induction operations using List.reverseRecOn with
  | nil => cases pending
  | append_singleton operations operation inductionHypothesis =>
      rw [Session.run_append] at numbered pending
      rw [Operation.lastTouching_append]
      cases touches : operation.touches path with
      | true =>
          rw [if_pos rfl]
          rcases Session.editsOf_of_touches touches numbered with
            ⟨other, text, time, deadline, rfl, isEdited⟩ | isReset | ⟨_, isNew⟩
          · rw [Session.run_cons, Session.run_nil, isEdited] at pending
            cases pending
            exact ⟨other, time, rfl⟩
          · rw [Session.run_cons, Session.run_nil, isReset] at pending
            cases pending
          · rw [Session.run_cons, Session.run_nil, isNew] at pending
            cases pending
      | false =>
          rw [if_neg Bool.false_ne_true]
          have before := Session.id?_of_not_touches touches numbered
          obtain ⟨events, notTouching, _, performed⟩ :=
            Session.spares_of_not_touches touches numbered
          rw [Session.run_cons, Session.run_nil, performed] at pending
          exact inductionHypothesis before (State.pending_foldl notTouching pending)

/-- The text of a job is that of the last edit of its path. -/
theorem lastTouching_of_started (config : Config) (operations : List Operation)
    {now : Option Nat} {job : Job}
    (isJob : job ∈ (((Session.new config).run operations).workspace.start now).1) :
    ∃ other time,
      Operation.lastTouching job.path operations = some (.edit other job.ticket.text time) := by
  have begins := Workspace.start?_of_mem_startJobs (Workspace.nodup_due _ now) isJob
  obtain ⟨⟨deadline, pending⟩, _, _⟩ := State.start?_eq_some begins
  exact lastTouching_of_pending config operations (Workspace.numbered_start isJob) pending

/-! ## Commits -/

namespace Workspace

/-- What is loaded after the outcomes of jobs were committed. -/
theorem Coherent.sources_commit {workspace : Workspace} (coherent : workspace.Coherent)
    {jobs : List Job} {outcomes : List Outcome}
    (numbered : ∀ job ∈ jobs, workspace.table.id? job.path = some job.file)
    (fits : List.Forall₂ workspace.Fits jobs outcomes) :
    (workspace.commit outcomes).2.snapshot.sources =
      (workspace.settled outcomes).taken (workspace.settle outcomes).1 := by
  apply (coherent.settled outcomes).sources_install
  intro analysis accepted
  obtain ⟨outcome, among, isRead⟩ := mem_settle accepted
  obtain ⟨job, isJob, fits⟩ := exists_of_mem_right fits among
  rcases fits.analysis with ⟨read, ofJob, ofOutcome⟩ | ⟨nothing, _⟩
  · obtain rfl : read = analysis := Option.some.inj (ofOutcome.symm.trans isRead)
    obtain ⟨isFile, isPath, _⟩ := Analysis.of_ofText? ofJob
    rw [isFile, isPath]
    exact (workspace.continues_settled outcomes).numbers (numbered job isJob)
  · rw [nothing] at isRead
    cases isRead

/-- Committing outcomes whose tickets wait or are lost installs what was read for the
waiting ones and leaves the other files as they were. -/
theorem commit_spec {workspace : Workspace} (coherent : workspace.Coherent)
    {jobs : List Job} {outcomes : List Outcome} (live : Job → Bool)
    (numbered : ∀ job ∈ jobs, workspace.table.id? job.path = some job.file)
    (distinct : (jobs.map Job.file).Nodup)
    (fits : List.Forall₂ workspace.Fits jobs outcomes)
    (waits : ∀ job ∈ jobs, live job = true →
      (workspace.editsOf job.file).Waits job.ticket.generation)
    (lost : ∀ job ∈ jobs, live job = false →
      (workspace.editsOf job.file).Lost job.ticket.generation) :
    (workspace.commit outcomes).1.recomputed = (jobs.filter live).map Job.path ∧
      (workspace.commit outcomes).1.discarded + (jobs.filter live).length = jobs.length ∧
      (∀ job ∈ jobs, live job = true →
        job.analysis?.isSome ∧
          (workspace.commit outcomes).2.snapshot.sources.get? job.file = job.analysis?) ∧
      ∀ job ∈ jobs, live job = false →
        (workspace.commit outcomes).2.snapshot.sources.get? job.file =
          workspace.snapshot.sources.get? job.file := by
  obtain ⟨settled, counted⟩ := settle_of_distinct workspace (files_of_fits fits ▸ distinct)
  have accepted := filterMap_accepts fits waits lost
  rw [← settled] at accepted
  have installed := coherent.sources_commit numbered fits
  -- the accepted analysis of a file is that of its only job
  have onlyJob : ∀ job ∈ jobs, ∀ analysis ∈ (workspace.settle outcomes).1,
      analysis.file = job.file → live job = true ∧ job.analysis? = some analysis := by
    intro job isJob analysis member isFile
    obtain ⟨other, among, read⟩ := exists_of_mem_right accepted member
    obtain ⟨isOther, isLive⟩ := List.mem_filter.mp among
    obtain rfl : other = job := by
      apply List.inj_on_of_nodup_map distinct isOther isJob
      exact (Analysis.of_ofText? read).1.symm.trans isFile
    exact ⟨isLive, read⟩
  refine ⟨?_, ?_, fun job isJob isLive => ?_, fun job isJob notLive => ?_⟩
  · rw [commit_eq, ← List.forall₂_eq_eq_eq, List.forall₂_map_left_iff,
      List.forall₂_map_right_iff]
    exact accepted.flip.imp fun _ _ read => (Analysis.of_ofText? read).2.1
  · rw [accepted.length_eq, fits.length_eq]
    exact counted
  · obtain ⟨analysis, member, read⟩ : ∃ analysis ∈ (workspace.settle outcomes).1,
        job.analysis? = some analysis :=
      exists_of_mem_right accepted.flip (List.mem_filter.mpr ⟨isJob, isLive⟩)
    refine ⟨read ▸ rfl, ?_⟩
    rw [installed]
    rcases (workspace.settled outcomes).get?_taken (workspace.settle outcomes).1 job.file with
      ⟨other, among, isFile, found⟩ | ⟨others, _⟩
    · rw [found, (onlyJob job isJob other among isFile).2]
    · exact absurd (Analysis.of_ofText? read).1 (others analysis member)
  · rw [installed]
    rcases (workspace.settled outcomes).get?_taken (workspace.settle outcomes).1 job.file with
      ⟨other, among, isFile, _⟩ | ⟨_, found⟩
    · rw [(onlyJob job isJob other among isFile).1] at notLive
      cases notLive
    · rw [found]
      unfold Workspace.settled
      rw [settle_eq]

end Workspace

/-- Whatever happens between the start of a batch and its commit, the commit installs
exactly those jobs whose path the caller did not load, edit or close in between, each
with the text of the edit that it was begun for. All others are discarded and their
files stay as they are. When the jobs were read, each by itself, makes no
difference. -/
theorem commit_installs_untouched (config : Config) (before between : List Operation)
    (now : Option Nat) (jobs : List Job) (outcomes : List Outcome)
    (started : (((Session.new config).run before).workspace.start now).1 = jobs)
    (computed :
      ((Session.new config).run (before ++ .start now :: between)).batches[
        ((Session.new config).run before).batches.length]? = some (.computed jobs outcomes)) :
    let session := (Session.new config).run (before ++ .start now :: between)
    let committed := (session.perform (.commit ((Session.new config).run before).batches.length))
    let report := (session.workspace.commit outcomes).1
    let untouched (job : Job) : Bool := !between.any (Operation.touches job.path)
    report.recomputed = (jobs.filter untouched).map Job.path ∧
      report.recomputed.length + report.discarded = jobs.length ∧
      (∀ job ∈ jobs,
        (∃ path time,
          Operation.lastTouching job.path before = some (.edit path job.ticket.text time)) ∧
        if untouched job then
          ∃ source, committed.workspace.snapshot.file? job.file = some source ∧
            job.analysis? = some source.analysis ∧ source.analysis.text = job.ticket.text
        else
          committed.workspace.snapshot.sources.get? job.file =
            session.workspace.snapshot.sources.get? job.file) ∧
      ∀ others,
        List.Forall₂ (fun job other => ∃ early, early <+: between ∧
          ((Session.new config).run (before ++ .start now :: early)).workspace.read? job =
            some other) jobs others →
        session.workspace.commit others = session.workspace.commit outcomes := by
  intro session committed report untouched
  subst started
  have orderly : session.Orderly := Session.orderly_run config _
  have coherent : session.Coherent := Session.coherent_run config _
  have member := List.mem_of_getElem? computed
  have fits := orderly.fits _ outcomes member
  have ran : ∀ operations, (Session.new config).run (before ++ .start now :: operations) =
      (((Session.new config).run before).perform (.start now)).run operations := by
    intro operations
    rw [Session.run_append, Session.run_cons]
  have tracked : ∀ job ∈ (((Session.new config).run before).workspace.start now).1,
      if between.any (Operation.touches job.path) then
        (session.workspace.editsOf job.file).Lost job.ticket.generation
      else
        (session.workspace.editsOf job.file).Waits job.ticket.generation := by
    intro job isJob
    rw [ran] at computed
    have status := Session.status_of_computed (Session.orderly_run config before) computed isJob
    rwa [← ran] at status
  have distinct : ((((Session.new config).run before).workspace.start now).1.map
      Job.file).Nodup :=
    (Workspace.files_startJobs_sublist _ _).nodup (Workspace.nodup_due _ now)
  obtain ⟨recomputed, counted, installed, kept⟩ := Workspace.commit_spec coherent.workspace
    untouched (orderly.numbered _ member) distinct fits
    (fun job isJob isLive => by
      have status := tracked job isJob
      rwa [if_neg (by simpa [untouched] using isLive)] at status)
    (fun job isJob notLive => by
      have status := tracked job isJob
      rwa [if_pos (by simpa [untouched] using notLive)] at status)
  have isCommitted : committed.workspace = (session.workspace.commit outcomes).2 := by
    show (session.perform (.commit _)).workspace = _
    rw [Session.perform_commit computed]
  refine ⟨recomputed, ?_, fun job isJob => ⟨?_, ?_⟩, fun others reads => ?_⟩
  · show report.recomputed.length + report.discarded = _
    rw [recomputed, List.length_map]
    exact (Nat.add_comm _ _).trans counted
  · exact lastTouching_of_started config before isJob
  · rw [isCommitted]
    cases isLive : untouched job with
    | true =>
        rw [if_pos rfl]
        obtain ⟨isRead, found⟩ := installed job isJob isLive
        obtain ⟨analysis, read⟩ := Option.isSome_iff_exists.mp isRead
        rw [read, Snapshot.get?_sources] at found
        obtain ⟨source, isSource, rfl⟩ := Option.map_eq_some_iff.mp found
        exact ⟨source, isSource, read, (Analysis.of_ofText? read).2.2.2⟩
    | false =>
        rw [if_neg Bool.false_ne_true]
        exact kept job isJob isLive
  · have fitsOthers : List.Forall₂ session.workspace.Fits
        (((Session.new config).run before).workspace.start now).1 others := by
      refine reads.imp fun job other ⟨early, ⟨late, whole⟩, read⟩ => ?_
      have fitsLate := Session.fits_run read late
      rwa [ran, ← Session.run_append, whole, ← ran] at fitsLate
    unfold Workspace.commit
    rw [Workspace.settle_congr fitsOthers fits]

/-- Of two files that were edited, one is closed and opened again after its text was
read: only the other is installed. -/
theorem commit_installs_one_of_two :
    let before : List Operation :=
      [.edit ⟨"a.g4"⟩ "grammar A;" 0, .edit ⟨"b.g4"⟩ "grammar B;" 0]
    let between : List Operation :=
      [.compute 0, .close ⟨"b.g4"⟩, .edit ⟨"b.g4"⟩ "grammar B;" 1]
    let session := (Session.new .standard).run (before ++ .start none :: between)
    ∃ jobs outcomes, (((Session.new .standard).run before).workspace.start none).1 = jobs ∧
      session.batches[0]? = some (.computed jobs outcomes) ∧
      (session.workspace.commit outcomes).1.recomputed = [⟨"a.g4"⟩] ∧
      (session.workspace.commit outcomes).1.discarded = 1 := by
  intro before between session
  have isComputed : session.batches[0]?.map (fun batch => (batch.isComputed, batch.jobs)) =
      some (true, (((Session.new .standard).run before).workspace.start none).1) := by
    decide +kernel
  obtain ⟨batch, atNumber, same⟩ := Option.map_eq_some_iff.mp isComputed
  obtain ⟨computed, isJobs⟩ := Prod.mk.inj same
  cases batch with
  | started jobs => cases computed
  | spent => cases computed
  | computed jobs outcomes =>
      obtain rfl : jobs = _ := isJobs
      obtain ⟨recomputed, counted, _⟩ :=
        commit_installs_untouched .standard before between none _ outcomes rfl atNumber
      have live : ((((Session.new .standard).run before).workspace.start none).1.filter
          fun job => !between.any (Operation.touches job.path)).map Job.path = [⟨"a.g4"⟩] := by
        decide +kernel
      have both : (((Session.new .standard).run before).workspace.start none).1.length = 2 := by
        decide +kernel
      rw [live] at recomputed
      rw [recomputed, both] at counted
      exact ⟨_, outcomes, rfl, atNumber, recomputed,
        Nat.succ.inj ((Nat.add_comm _ _).trans counted)⟩

end GrammarDesk
