import GrammarDesk.Proofs.Workspace.Flush

/-!
Contract: no text that a caller gives is lost on its way to the loaded files.

Owns: the text that the operations of a run last gave for a path, where in a session
that text is kept, the operations that keep it, and what is loaded in the end.

Does not own: texts that cannot be read, which cost a whole batch (`Flush`).

The latest text of a file is loaded with nothing under way, or pending, or the text of
a job whose ticket waits. A commit may hand in the results of any batch: only the one
job that waits for the file is installed, and its text is the latest.

Main statement: `flush_loads_latest`.
-/

namespace GrammarDesk

open Edit

namespace Operation

def text? : Operation → Option String
  | .load _ text | .edit _ text _ => some text
  | .close _ | .start _ | .compute _ | .commit _ | .flush _ | .takeChanged => none

/-- Whether the text that an operation gives, if it gives one, can be read. -/
def isReadable (operation : Operation) : Bool :=
  operation.text?.all readable

def enters (path : File.Path) (operation : Operation) : Bool :=
  operation.text?.isSome && operation.touches path

/-- The text of a path as the operations of a run leave it: that of the last load or
edit, or none after a close. -/
def latestText? (path : File.Path) (operations : List Operation) : Option String :=
  (lastTouching path operations).bind text?

theorem latestText?_append (path : File.Path) (operations : List Operation)
    (operation : Operation) :
    latestText? path (operations ++ [operation]) =
      if operation.touches path then operation.text? else latestText? path operations := by
  unfold latestText?
  rw [lastTouching_append]
  split
  · rfl
  · rfl

end Operation

/-- Whether a batch was committed, or lost. -/
def Batch.isSpent : Batch → Bool
  | .spent => true
  | .started _ | .computed _ _ => false

namespace Session

/-! ## Texts that can be read -/

/-- Every text that is under way can be read, and the file of a pending text has a
path. -/
structure Legible (session : Session) : Prop where
  pending : ∀ {file edit}, (session.workspace.editsOf file).pending = some edit →
    (∃ path, session.workspace.table.id? path = some file) ∧ readable edit.text = true
  jobs : ∀ batch ∈ session.batches, ∀ job ∈ batch.jobs, readable job.ticket.text = true

theorem legible_new (config : Config) : (new config).Legible where
  pending isPending := by cases isPending
  jobs _ member := absurd member List.not_mem_nil

theorem pending_of_spares {session : Session} {operation : Operation} {file : File.Id}
    (spares : session.Spares operation file) {edit : Pending}
    (pending : ((session.perform operation).workspace.editsOf file).pending = some edit) :
    (session.workspace.editsOf file).pending = some edit := by
  obtain ⟨events, notTouching, _, performed⟩ := spares
  rw [performed] at pending
  exact State.pending_foldl notTouching pending

theorem pending_resetEdits {workspace : Workspace} {number file : File.Id} {edit : Pending}
    (pending : ((workspace.resetEdits number).editsOf file).pending = some edit) :
    (workspace.editsOf file).pending = some edit := by
  rcases workspace.editsOf_resetEdits number file with
    ⟨_, same⟩ | ⟨_, isReset⟩ | ⟨_, _, staysNew⟩
  · rwa [same] at pending
  · rw [isReset] at pending
    cases pending
  · rw [staysNew] at pending
    cases pending

/-- An edit that is pending after an operation was pending before, unless the operation
is that edit. -/
theorem pending_perform {session : Session} {operation : Operation} {file : File.Id}
    {edit : Pending}
    (pending : ((session.perform operation).workspace.editsOf file).pending = some edit) :
    (session.workspace.editsOf file).pending = some edit ∨
      ∃ path, (session.perform operation).workspace.table.id? path = some file ∧
        operation.text? = some edit.text := by
  cases operation with
  | load path text =>
      change ((session.workspace.load path text).2.editsOf file).pending = _ at pending
      rw [Workspace.editsOf_load] at pending
      exact .inl (pending_resetEdits pending)
  | edit path text now =>
      change ((session.workspace.edit path text now).editsOf file).pending = _ at pending
      rw [Workspace.editsOf_edit] at pending
      by_cases here : file = (session.workspace.table.intern path).1
      · rw [if_pos here] at pending
        cases pending
        exact .inr ⟨path, here ▸ session.workspace.table.id?_intern path, rfl⟩
      · rw [if_neg here] at pending
        exact .inl pending
  | close path =>
      left
      change ((session.workspace.close path).2.editsOf file).pending = _ at pending
      rw [Workspace.editsOf_close] at pending
      split at pending
      · exact pending
      · exact pending_resetEdits pending
  | start now => exact .inl (pending_of_spares (session.spares_start now file) pending)
  | compute number =>
      left
      rcases session.perform_compute_cases number with same | ⟨_, _, computed⟩
      · rwa [same] at pending
      · rwa [computed] at pending
  | commit number => exact .inl (pending_of_spares (session.spares_commit number file) pending)
  | flush now => exact .inl (pending_of_spares (session.spares_flush now file) pending)
  | takeChanged => exact .inl pending

/-- Operations with readable texts leave only readable texts to be recomputed. -/
theorem Legible.perform {session : Session} (legible : session.Legible)
    {operation : Operation} (isReadable : operation.isReadable = true) :
    (session.perform operation).Legible := by
  constructor
  · intro file edit isPending
    rcases pending_perform isPending with before | ⟨path, numbered, isText⟩
    · obtain ⟨⟨path, numbered⟩, canBeRead⟩ := legible.pending before
      exact ⟨⟨path, (session.continues_perform operation).numbers numbered⟩, canBeRead⟩
    · rw [Operation.isReadable, isText] at isReadable
      exact ⟨⟨path, numbered⟩, isReadable⟩
  · intro batch member job isJob
    rcases mem_jobs_perform member isJob with ⟨before, among, wasJob⟩ | ⟨now, rfl, isNew⟩
    · exact legible.jobs before among job wasJob
    · have begins := Workspace.start?_of_mem_startJobs (session.workspace.nodup_due now) isNew
      obtain ⟨⟨deadline, wasPending⟩, _, _⟩ := State.start?_eq_some begins
      exact (legible.pending wasPending).2

/-! ## Where the latest text is -/

/-- A session keeps a text for a file: the text is loaded and nothing is under way, or
it is pending, or it is being read for a batch that the caller holds. A file without a
text is not loaded. -/
inductive Keeps (session : Session) (file : File.Id) : Option String → Prop where
  | loaded (text? : Option String) (idle : (session.workspace.editsOf file).Idle)
      (loaded : (session.workspace.snapshot.sources.get? file).map
        (fun analysis => analysis.text) = text?) : Keeps session file text?
  | pending (edit : Pending)
      (pending : (session.workspace.editsOf file).pending = some edit) :
      Keeps session file (some edit.text)
  | reading (batch : Batch) (member : batch ∈ session.batches) (job : Job)
      (isJob : job ∈ batch.jobs) (isFile : job.file = file)
      (waits : (session.workspace.editsOf file).Waits job.ticket.generation) :
      Keeps session file (some job.ticket.text)

variable {session : Session} {file : File.Id} {text? : Option String}

/-- What an operation leaves alone it keeps. -/
theorem Keeps.of_same (keeps : session.Keeps file text?) {after : Session}
    (edits : after.workspace.editsOf file = session.workspace.editsOf file)
    (sources : after.workspace.snapshot.sources.get? file =
      session.workspace.snapshot.sources.get? file)
    (jobs : ∀ batch ∈ session.batches, ∀ job ∈ batch.jobs, ∃ later ∈ after.batches,
      job ∈ later.jobs) :
    after.Keeps file text? := by
  cases keeps with
  | loaded _ idle loaded => exact .loaded _ (edits ▸ idle) (sources ▸ loaded)
  | pending edit pending => exact .pending edit (edits ▸ pending)
  | reading batch member job isJob isFile waits =>
      obtain ⟨later, among, isLater⟩ := jobs batch member job isJob
      exact .reading later among job isLater isFile (edits ▸ waits)

/-- A start keeps a text: a pending one becomes that of a job. -/
theorem Keeps.start (keeps : session.Keeps file text?) (regular : session.Regular)
    (legible : session.Legible) (now : Option Nat) :
    (session.perform (.start now)).Keeps file text? := by
  have sources : (session.perform (.start now)).workspace.snapshot.sources.get? file =
      session.workspace.snapshot.sources.get? file :=
    congrArg (·.sources.get? file) (session.workspace.snapshot_start now)
  by_cases isDue : file ∈ session.workspace.due now
  · cases keeps with
    | loaded _ idle loaded =>
        exact absurd isDue (Workspace.not_mem_due_of_nonePending idle.nonePending)
    | pending edit pending =>
        obtain ⟨path, numbered⟩ := (legible.pending pending).1
        obtain ⟨due, isEdit⟩ := (session.workspace.mem_due_iff now file).mp isDue
        obtain rfl : due = edit :=
          Option.some.inj ((Workspace.pending_of_dueEdit? isEdit).symm.trans pending)
        obtain ⟨job, isJob, rfl, sameText⟩ := Workspace.exists_job_of_dueEdit? numbered isEdit
        rw [← sameText]
        exact .reading (.started (session.workspace.start now).1)
          (List.mem_append_right _ List.mem_cons_self) job isJob rfl
          (regular.orderly.waits_start isJob)
    | reading batch member job isJob isFile waits =>
        -- while a ticket waits nothing is pending
        exact absurd isDue (Workspace.not_mem_due_of_nonePending waits.noneLater)
  · refine keeps.of_same (session.workspace.editsOf_startJobs_of_not_mem isDue) sources ?_
    exact fun batch member job isJob => ⟨batch, List.mem_append_left _ member, isJob⟩

/-- Reading a batch loses no job. -/
theorem jobs_computeIn (workspace : Workspace) {jobs : List Job}
    (allReadable : ∀ job ∈ jobs, readable job.ticket.text = true) :
    (computeIn workspace jobs).jobs = jobs := by
  obtain ⟨outcomes, computed⟩ := workspace.exists_compute?_of_readable allReadable
  unfold computeIn
  rw [computed]
  rfl

theorem getElem?_or_mem_set {batches : List Batch} {batch : Batch} (member : batch ∈ batches)
    (number : Nat) (other : Batch) :
    batches[number]? = some batch ∨ batch ∈ batches.set number other := by
  obtain ⟨index, isBelow, isBatch⟩ := List.mem_iff_getElem.mp member
  by_cases here : index = number
  · exact .inl (List.getElem?_eq_some_iff.mpr ⟨here ▸ isBelow, by simpa [here] using isBatch⟩)
  · refine .inr (List.mem_iff_getElem.mpr ⟨index, ?_, ?_⟩)
    · rwa [List.length_set]
    · rw [List.getElem_set_ne (Ne.symm here)]
      exact isBatch

/-- Computing a batch keeps the latest text: it stays in the results until they are committed.
-/
theorem Keeps.compute (keeps : session.Keeps file text?) (legible : session.Legible)
    (number : Nat) :
    (session.perform (.compute number)).Keeps file text? := by
  rcases session.perform_compute_cases number with same | ⟨jobs, atNumber, computed⟩
  · rw [same]
    exact keeps
  · rw [computed]
    refine keeps.of_same rfl rfl fun batch member job isJob => ?_
    have below := (List.getElem?_eq_some_iff.mp atNumber).1
    rcases getElem?_or_mem_set member number (computeIn session.workspace jobs) with
      here | elsewhere
    · obtain rfl : batch = .started jobs := Option.some.inj (here.symm.trans atNumber)
      refine ⟨computeIn session.workspace jobs, List.mem_set below _, ?_⟩
      have sameJobs := jobs_computeIn session.workspace (legible.jobs (.started jobs) member)
      exact sameJobs.symm ▸ isJob
    · exact ⟨batch, elsewhere, isJob⟩

/-- A commit keeps a text that is being read: either it installs what was read for the
job that waits, or the batch that holds the job is another one, and it stays. -/
theorem keeps_commit_of_reading (regular : session.Regular) {number : Nat} {jobs : List Job}
    {outcomes : List Outcome} (atNumber : session.batches[number]? = some (.computed jobs outcomes))
    {batch : Batch} (member : batch ∈ session.batches) {job : Job} (isJob : job ∈ batch.jobs)
    (waits : (session.workspace.editsOf job.file).Waits job.ticket.generation) :
    Keeps ⟨(session.workspace.commit outcomes).2, session.batches.set number .spent⟩ job.file
      (some job.ticket.text) := by
  have isComputed := List.mem_of_getElem? atNumber
  have edits := session.workspace.editsOf_commit outcomes job.file
  rcases regular.file_commit isComputed job.file with
    ⟨other, isOther, sameFile, otherWaits, idle, analysis, isRead, found⟩ | ⟨lost, _⟩
  · have sameGeneration : other.ticket.generation = job.ticket.generation :=
      Option.some.inj (otherWaits.inFlight.symm.trans waits.inFlight)
    have sameTicket := regular.tickets _ isComputed other isOther batch member job isJob
      sameFile sameGeneration
    refine .loaded _ idle ?_
    rw [found, Option.map_some, (Analysis.of_ofText? isRead).2.2.2, sameTicket]
  · have notMine : Event.complete job.ticket.generation ∉
        Workspace.arrivals outcomes job.file := by
      intro arrival
      obtain ⟨other, isOther, isFile, sameEvent⟩ := Workspace.exists_job_of_mem_arrivals
        (regular.orderly.fits jobs outcomes isComputed) arrival
      have otherLost := lost other isOther isFile
      rw [← Event.complete.inj sameEvent] at otherLost
      exact waits.not_lost otherLost
    have elsewhere : batch ∈ session.batches.set number .spent := by
      refine (getElem?_or_mem_set member number .spent).resolve_left fun here => ?_
      obtain rfl : batch = .computed jobs outcomes :=
        Option.some.inj (here.symm.trans atNumber)
      exact waits.not_lost (lost job isJob rfl)
    exact .reading batch elsewhere job isJob rfl
      (edits ▸ waits.foldl (Workspace.notTouching_arrivals outcomes job.file) notMine)

/-- A commit keeps a text: if it installs anything for the file, this is what was read
for the one job that waits, and that job has the text. -/
theorem Keeps.commit (keeps : session.Keeps file text?) (regular : session.Regular)
    (number : Nat) :
    (session.perform (.commit number)).Keeps file text? := by
  rcases session.perform_commit_cases number with same | ⟨jobs, outcomes, atNumber, committed⟩
  · rw [same]
    exact keeps
  · rw [committed]
    cases keeps with
    | pending edit pending =>
        exact .pending edit ((session.workspace.pending_commit outcomes file).trans pending)
    | loaded _ idle loaded =>
        have edits := session.workspace.editsOf_commit outcomes file
        refine .loaded _ (edits ▸ idle.foldl (Workspace.notTouching_arrivals outcomes file)) ?_
        rcases regular.file_commit (List.mem_of_getElem? atNumber) file with
          ⟨job, _, _, waits, _⟩ | ⟨_, kept⟩
        · -- no ticket waits when nothing is in flight
          have inFlight := waits.inFlight
          rw [idle.noneInFlight] at inFlight
          cases inFlight
        · rw [← loaded, ← kept]
    | reading batch member job isJob isFile waits =>
        subst isFile
        exact keeps_commit_of_reading regular atNumber member isJob waits

/-- A flush is a start, a reading and a commit, and its batch is spent after it. -/
theorem Keeps.flush (keeps : session.Keeps file text?) (regular : session.Regular)
    (legible : session.Legible) (now : Option Nat) :
    (session.perform (.flush now)).Keeps file text? := by
  have started := keeps.start regular legible now
  have computed := started.compute (legible.perform rfl) session.batches.length
  have committed := computed.commit
    ((regular.perform (.start now)).perform (.compute session.batches.length))
    session.batches.length
  have flushed := session.run_flush now
  rw [run_cons, run_cons, run_cons, run_nil] at flushed
  rw [flushed] at committed
  cases committed with
  | loaded _ idle loaded => exact .loaded _ idle loaded
  | pending edit pending => exact .pending edit pending
  | reading batch member job isJob isFile waits =>
      refine .reading batch ?_ job isJob isFile waits
      rcases List.mem_append.mp member with before | isSpent
      · exact before
      · rw [List.mem_singleton.mp isSpent] at isJob
        exact absurd isJob List.not_mem_nil

/-! ## Whole operations -/

/-- What touches one path leaves the edits and the source of the file of another alone. -/
theorem same_of_touches_other (coherent : session.workspace.Coherent) {path : File.Path}
    (numbered : session.workspace.table.id? path = some file) {operation : Operation}
    (notTouches : operation.touches path = false) {other : File.Path}
    (touchesOther : operation.touches other = true) :
    (session.perform operation).workspace.editsOf file = session.workspace.editsOf file ∧
      (session.perform operation).workspace.snapshot.sources.get? file =
        session.workspace.snapshot.sources.get? file := by
  have numberedAfter := (session.continues_perform operation).numbers numbered
  cases operation with
  | load other text =>
      have different : file ≠ (session.workspace.table.intern other).1 := by
        change (session.workspace.load other text).2.table.id? path = _ at numberedAfter
        rw [Workspace.table_load] at numberedAfter
        exact File.Table.ne_of_not_same notTouches numberedAfter
          (session.workspace.table.id?_intern other)
      constructor
      · exact (session.workspace.editsOf_load other text file).trans
          (session.workspace.editsOf_resetEdits_of_ne different)
      · exact (coherent.sources_load other text file).trans (if_neg different)
  | edit other text now =>
      have different : file ≠ (session.workspace.table.intern other).1 :=
        File.Table.ne_of_not_same notTouches numberedAfter
          (session.workspace.table.id?_intern other)
      exact ⟨(session.workspace.editsOf_edit other text now file).trans (if_neg different), rfl⟩
  | close other =>
      have different : session.workspace.table.id? other ≠ some file := fun isFile =>
        File.Table.ne_of_not_same notTouches numbered isFile rfl
      constructor
      · refine (session.workspace.editsOf_close other file).trans ?_
        split
        · rfl
        · rename_i closed isClosed
          exact session.workspace.editsOf_resetEdits_of_ne fun same =>
            different (same ▸ isClosed)
      · exact (coherent.sources_close other file).trans (if_neg different)
  | start now => cases touchesOther
  | compute number => cases touchesOther
  | commit number => cases touchesOther
  | flush now => cases touchesOther
  | takeChanged => cases touchesOther

/-- An operation that does not touch the path of a file keeps its text. -/
theorem Keeps.perform (keeps : session.Keeps file text?) (regular : session.Regular)
    (legible : session.Legible) {path : File.Path}
    (numbered : session.workspace.table.id? path = some file) {operation : Operation}
    (notTouches : operation.touches path = false) :
    (session.perform operation).Keeps file text? := by
  have sameJobs : ∀ batch ∈ session.batches, ∀ job ∈ batch.jobs,
      ∃ later ∈ session.batches, job ∈ later.jobs :=
    fun batch member job isJob => ⟨batch, member, isJob⟩
  have others : ∀ {other : File.Path}, operation.touches other = true →
      session.batches = (session.perform operation).batches →
      (session.perform operation).Keeps file text? := by
    intro other touchesOther sameBatches
    obtain ⟨edits, sources⟩ :=
      same_of_touches_other regular.coherent.workspace numbered notTouches touchesOther
    exact keeps.of_same edits sources (sameBatches ▸ sameJobs)
  cases operation with
  | load other text => exact others other.same_refl rfl
  | edit other text now => exact others other.same_refl rfl
  | close other => exact others other.same_refl rfl
  | start now => exact keeps.start regular legible now
  | compute number => exact keeps.compute legible number
  | commit number => exact keeps.commit regular number
  | flush now => exact keeps.flush regular legible now
  | takeChanged => exact keeps.of_same rfl rfl sameJobs

/-- A load or a close of the path of a file leaves nothing under way for it. -/
theorem idle_of_touches {path : File.Path} {operation : Operation}
    (touches : operation.touches path = true)
    (notEdit : ∀ other text now, operation ≠ .edit other text now)
    (numbered : (session.perform operation).workspace.table.id? path = some file) :
    ((session.perform operation).workspace.editsOf file).Idle := by
  rcases editsOf_of_touches touches numbered with
    ⟨other, text, now, _, isEdit, _⟩ | isReset | ⟨_, staysNew⟩
  · exact absurd isEdit (notEdit other text now)
  · rw [isReset]
    exact State.idle_reset _
  · rw [staysNew]
    exact State.idle_new

/-- An operation that touches the path of a file gives it its text. -/
theorem keeps_of_touches (regular : session.Regular) {path : File.Path} {operation : Operation}
    (isReadable : operation.isReadable = true) (touches : operation.touches path = true)
    (numbered : (session.perform operation).workspace.table.id? path = some file) :
    (session.perform operation).Keeps file operation.text? := by
  have coherent := regular.coherent.workspace
  cases operation with
  | load other text =>
      have idle := idle_of_touches touches (fun _ _ _ => by simp) numbered
      have isFile : file = (session.workspace.table.intern other).1 := by
        change (session.workspace.load other text).2.table.id? path = _ at numbered
        rw [Workspace.table_load, File.Table.id?_congr _ touches, File.Table.id?_intern] at numbered
        exact (Option.some.inj numbered).symm
      refine .loaded _ idle ?_
      have isRead := Analysis.isSome_ofText? file other (session.workspace.nextVersion file) text
      rw [show readable text = true from isReadable] at isRead
      obtain ⟨analysis, ofText⟩ := Option.isSome_iff_exists.mp isRead
      have found := (coherent.sources_load other text file).trans (if_pos isFile)
      rw [ofText, Option.some_or] at found
      show ((session.workspace.load other text).2.snapshot.sources.get? file).map _ = some text
      rw [found, Option.map_some, (Analysis.of_ofText? ofText).2.2.2]
  | close other =>
      have idle := idle_of_touches touches (fun _ _ _ => by simp) numbered
      have isFile : session.workspace.table.id? other = some file := by
        change (session.workspace.close other).2.table.id? path = _ at numbered
        rwa [Workspace.table_close, File.Table.id?_congr _ touches] at numbered
      refine .loaded _ idle ?_
      show ((session.workspace.close other).2.snapshot.sources.get? file).map _ = none
      rw [coherent.sources_close, if_pos isFile]
      rfl
  | edit other text now =>
      have isFile : file = (session.workspace.table.intern other).1 := by
        change (session.workspace.table.intern other).2.id? path = _ at numbered
        rw [File.Table.id?_congr _ touches, File.Table.id?_intern] at numbered
        exact (Option.some.inj numbered).symm
      have edited := (session.workspace.editsOf_edit other text now file).trans (if_pos isFile)
      exact .pending ⟨text, now + session.workspace.config.debounce⟩
        (congrArg State.pending edited)
  | start now => cases touches
  | compute number => cases touches
  | commit number => cases touches
  | flush now => cases touches
  | takeChanged => cases touches

/-! ## Runs -/

/-- A path has a number once a text was given for it. -/
theorem isSome_id?_perform (session : Session) (operation : Operation) (path : File.Path) :
    ((session.perform operation).workspace.table.id? path).isSome =
      ((session.workspace.table.id? path).isSome || operation.enters path) := by
  unfold Operation.enters
  cases touches : operation.touches path with
  | false =>
      rw [Bool.and_false, Bool.or_false]
      cases after : (session.perform operation).workspace.table.id? path with
      | some file => rw [id?_of_not_touches touches after]
      | none =>
          cases before : session.workspace.table.id? path with
          | none => rfl
          | some file =>
              rw [(session.continues_perform operation).numbers before] at after
              cases after
  | true =>
      rw [Bool.and_true]
      cases operation with
      | load other text =>
          show ((session.workspace.load other text).2.table.id? path).isSome = _
          rw [Workspace.table_load, File.Table.id?_congr _ touches, File.Table.id?_intern]
          exact (Bool.or_true _).symm
      | edit other text now =>
          show ((session.workspace.table.intern other).2.id? path).isSome = _
          rw [File.Table.id?_congr _ touches, File.Table.id?_intern]
          exact (Bool.or_true _).symm
      | close other =>
          show ((session.workspace.close other).2.table.id? path).isSome = _
          rw [Workspace.table_close]
          exact (Bool.or_false _).symm
      | start now => cases touches
      | compute number => cases touches
      | commit number => cases touches
      | flush now => cases touches
      | takeChanged => cases touches

theorem isSome_id?_run (config : Config) (operations : List Operation) (path : File.Path) :
    (((new config).run operations).workspace.table.id? path).isSome =
      operations.any (Operation.enters path) := by
  induction operations using List.reverseRecOn with
  | nil => rfl
  | append_singleton operations operation inductionHypothesis =>
      rw [run_append, run_cons, run_nil, isSome_id?_perform, inductionHypothesis,
        List.any_append, List.any_cons, List.any_nil, Bool.or_false]

/-- A path without a number was given no text. -/
theorem latestText?_of_unknown {config : Config} {operations : List Operation}
    {path : File.Path}
    (unknown : ((new config).run operations).workspace.table.id? path = none) :
    Operation.latestText? path operations = none := by
  have nobody := isSome_id?_run config operations path
  rw [unknown, Option.isSome_none, eq_comm, List.any_eq_false] at nobody
  rw [Operation.latestText?, Option.bind_eq_none_iff]
  intro operation isLast
  have touches : operation.touches path = true :=
    List.find?_some (p := Operation.touches path) isLast
  have member := List.mem_reverse.mp (List.mem_of_find?_eq_some isLast)
  have notEnters := nobody operation member
  rw [Operation.enters, touches, Bool.and_true] at notEnters
  simpa using notEnters

theorem legible_run (config : Config) {operations : List Operation}
    (allReadable : ∀ operation ∈ operations, operation.isReadable = true) :
    ((new config).run operations).Legible := by
  induction operations using List.reverseRecOn with
  | nil => exact legible_new config
  | append_singleton operations operation inductionHypothesis =>
      obtain ⟨before, last⟩ := List.forall_mem_append.mp allReadable
      rw [run_append]
      exact (inductionHypothesis before).perform (last operation List.mem_cons_self)

/-- After every run of texts that can be read, the session keeps the latest text of
every file. -/
theorem keeps_run (config : Config) {operations : List Operation}
    (allReadable : ∀ operation ∈ operations, operation.isReadable = true) {path : File.Path}
    (numbered : ((new config).run operations).workspace.table.id? path = some file) :
    ((new config).run operations).Keeps file (Operation.latestText? path operations) := by
  induction operations using List.reverseRecOn with
  | nil => cases numbered
  | append_singleton operations operation inductionHypothesis =>
      obtain ⟨before, last⟩ := List.forall_mem_append.mp allReadable
      have regular := regular_run config operations
      rw [run_append, run_cons, run_nil] at numbered ⊢
      rw [Operation.latestText?_append]
      cases touches : operation.touches path with
      | true =>
          rw [if_pos rfl]
          exact keeps_of_touches regular (last operation List.mem_cons_self) touches numbered
      | false =>
          rw [if_neg Bool.false_ne_true]
          have wasNumbered := id?_of_not_touches touches numbered
          exact (inductionHypothesis before wasNumbered).perform regular
            (legible_run config before) wasNumbered touches

/-! ## The last flush -/

theorem Legible.jobs_start (legible : session.Legible) (now : Option Nat) :
    ∀ job ∈ (session.workspace.start now).1, readable job.ticket.text = true := by
  intro job isJob
  have begins := Workspace.start?_of_mem_startJobs (session.workspace.nodup_due now) isJob
  obtain ⟨⟨deadline, pending⟩, _, _⟩ := State.start?_eq_some begins
  exact (legible.pending pending).2

/-- When no batch is under way, a flush of all edits loads the text that is kept for a
file, and nothing is under way for it any more. -/
theorem Keeps.flush_all (keeps : session.Keeps file text?) (regular : session.Regular)
    (legible : session.Legible) (allSpent : ∀ batch ∈ session.batches, batch.isSpent = true) :
    ((session.workspace.flush none).2.snapshot.sources.get? file).map
        (fun analysis => analysis.text) = text? ∧
      ((session.workspace.flush none).2.editsOf file).Idle := by
  obtain ⟨_, installed, others⟩ := regular.flush_of_readable (legible.jobs_start none)
  cases keeps with
  | loaded _ idle loaded =>
      obtain ⟨sources, edits⟩ :=
        others file (Workspace.not_mem_due_of_nonePending idle.nonePending)
      exact ⟨by rw [sources]; exact loaded, edits ▸ idle⟩
  | pending edit pending =>
      obtain ⟨path, numbered⟩ := (legible.pending pending).1
      obtain ⟨job, isJob, rfl, sameText⟩ := Workspace.exists_job_of_dueEdit? numbered
        ((Workspace.dueEdit?_none _).trans pending)
      obtain ⟨found, idle⟩ := installed job isJob
      exact ⟨found.trans (congrArg some sameText), idle⟩
  | reading batch member job isJob _ _ =>
      have isSpent := allSpent batch member
      cases batch with
      | started jobs => cases isSpent
      | computed jobs outcomes => cases isSpent
      | spent => exact absurd isJob List.not_mem_nil

/-- No edit is pending after a flush of all. -/
theorem Regular.nonePending_flush (regular : session.Regular) (legible : session.Legible)
    (file : File.Id) :
    ((session.workspace.flush none).2.editsOf file).pending = none := by
  obtain ⟨_, installed, others⟩ := regular.flush_of_readable (legible.jobs_start none)
  cases isPending : (session.workspace.editsOf file).pending with
  | some edit =>
      obtain ⟨path, numbered⟩ := (legible.pending isPending).1
      obtain ⟨job, isJob, rfl, _⟩ := Workspace.exists_job_of_dueEdit? numbered
        ((Workspace.dueEdit?_none _).trans isPending)
      exact (installed job isJob).2.nonePending
  | none =>
      rw [(others file (Workspace.not_mem_due_of_nonePending isPending)).2, isPending]

end Session

/-- No update is lost: after every run of operations whose texts can be read, when all
batches have been committed in whatever order, a flush of all edits leaves exactly those
paths loaded whose last load, edit or close gave a text, each with that text, every path
that was seen idle, and no deadline. -/
theorem flush_loads_latest (config : Config) (operations : List Operation)
    (allReadable : ∀ operation ∈ operations, operation.isReadable = true)
    (allSpent : ∀ batch ∈ ((Session.new config).run operations).batches,
      batch.isSpent = true) :
    let flushed := ((Session.new config).run operations).workspace.flush none
    flushed.1.isSome = true ∧
      (∀ path, flushed.2.snapshot.textAt? path = Operation.latestText? path operations) ∧
      (∀ path, flushed.2.phase? path =
        if operations.any (Operation.enters path) then some .idle else none) ∧
      flushed.2.nextDeadline? = none := by
  intro flushed
  have regular := Session.regular_run config operations
  have legible := Session.legible_run config allReadable
  have coherent : flushed.2.Coherent := regular.coherent.workspace.flush none
  have sameTable : flushed.2.table = ((Session.new config).run operations).workspace.table :=
    Workspace.table_flush _ none
  have keeps : ∀ {path file},
      ((Session.new config).run operations).workspace.table.id? path = some file →
      (flushed.2.snapshot.sources.get? file).map (fun analysis => analysis.text) =
          Operation.latestText? path operations ∧
        (flushed.2.editsOf file).Idle := fun numbered =>
    (Session.keeps_run config allReadable numbered).flush_all regular legible allSpent
  refine ⟨(regular.flush_of_readable (legible.jobs_start none)).1, fun path => ?_, fun path => ?_,
    ?_⟩
  · cases numbered : ((Session.new config).run operations).workspace.table.id? path with
    | none =>
        rw [coherent.textAt?_of_unknown (sameTable ▸ numbered),
          Session.latestText?_of_unknown numbered]
    | some file =>
        rw [coherent.textAt?_of_id? (sameTable ▸ numbered)]
        exact (keeps numbered).1
  · rw [← Session.isSome_id?_run config operations path, Workspace.phase?, sameTable]
    cases numbered : ((Session.new config).run operations).workspace.table.id? path with
    | none => rfl
    | some file => exact congrArg some (State.phase_of_idle (keeps numbered).2)
  · have noDeadline : flushed.2.edits.values.filterMap State.deadline = [] := by
      refine List.filterMap_eq_nil_iff.mpr fun state member => ?_
      obtain ⟨file, known⟩ := (File.Map.mem_values_iff _ state).mp member
      have nonePending := regular.nonePending_flush legible file
      rw [show (Workspace.flush _ none).2.editsOf file = state from by
        show (flushed.2.edits.get? file).getD .new = state
        rw [known]
        rfl] at nonePending
      rw [State.deadline, nonePending]
      rfl
    rw [Workspace.nextDeadline?, noDeadline]
    rfl

/-- Two overlapping recomputes of one file are committed the wrong way round, and the
file is edited once more; another file is opened and closed again. -/
theorem flush_loads_latest_of_three :
    let operations : List Operation :=
      [.edit ⟨"a.g4"⟩ "grammar A;" 0, .start none, .load ⟨"b.g4"⟩ "grammar B;",
        .edit ⟨"a.g4"⟩ "grammar A; x : Y;" 1, .compute 0, .start none, .compute 1, .commit 1,
        .commit 0, .close ⟨"b.g4"⟩, .edit ⟨"a.g4"⟩ "grammar A; z : Y;" 2]
    let flushed := ((Session.new .standard).run operations).workspace.flush none
    flushed.2.snapshot.textAt? ⟨"a.g4"⟩ = some "grammar A; z : Y;" ∧
      flushed.2.snapshot.textAt? ⟨"b.g4"⟩ = none ∧
      flushed.2.phase? ⟨"b.g4"⟩ = some .idle ∧ flushed.2.nextDeadline? = none := by
  intro operations flushed
  have allReadable : ∀ operation ∈ operations, operation.isReadable = true := by decide +kernel
  have allSpent : ∀ batch ∈ ((Session.new .standard).run operations).batches,
      batch.isSpent = true := by decide +kernel
  obtain ⟨_, texts, phases, deadline⟩ :=
    flush_loads_latest .standard operations allReadable allSpent
  exact ⟨texts ⟨"a.g4"⟩, texts ⟨"b.g4"⟩, phases ⟨"b.g4"⟩, deadline⟩

end GrammarDesk
