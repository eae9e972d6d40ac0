import GrammarDesk.Proofs.Workspace.Latest

/-!
Contract: an edited file is left alone until its edits have paused for the debounce time.

Owns: a caller that goes on editing one path, what such a caller leaves loaded there, the
flush that ends the pause, and the earliest deadline of a workspace.

Does not own: what a flush installs (`Flush`), or texts on their way (`Latest`).

From its first edit on the path has a pending text that no early flush takes up, and every
reading that was begun before is lost. So nothing is left that could install a text there.

Main statement: `edits_wait_for_pause`.
-/

namespace GrammarDesk

open Edit

/-- The caller edits a path and goes on editing it. Nothing else touches the path, no batch
is started by itself or with all edits, and every flush comes before the latest edit has
waited for the debounce time. Whatever happens to other paths is left open. -/
structure Operation.Editing (debounce : Nat) (path : File.Path) (operations : List Operation) :
    Prop where
  opens : ∃ other text time rest, operations = .edit other text time :: rest ∧
    path.same other = true
  onlyEdits : ∀ operation ∈ operations, operation.touches path = true →
    ∃ other text time, operation = .edit other text time
  noStart : ∀ now, .start now ∉ operations
  noFlushOfAll : .flush none ∉ operations
  early : ∀ before now rest, operations = before ++ .flush (some now) :: rest →
    ∀ other text time, lastTouching path before = some (.edit other text time) →
      now < time + debounce

/-- The reading that is loaded at a path, its text and its version with it. -/
def Snapshot.readingAt? (snapshot : Snapshot) (path : File.Path) : Option Analysis :=
  (snapshot.fileAt? path).map SourceFile.analysis

theorem Snapshot.textAt?_eq (snapshot : Snapshot) (path : File.Path) :
    snapshot.textAt? path = (snapshot.readingAt? path).map fun analysis => analysis.text := by
  rw [textAt?, readingAt?, Option.map_map]
  rfl

def Workspace.PendingUntil (workspace : Workspace) (deadline : Nat) : Prop :=
  ∃ path edit, (workspace.editsAt path).pending = some edit ∧ edit.deadline = deadline

namespace Operation

/-- Editing goes on in every part of it from its beginning. -/
theorem Editing.of_prefix {debounce : Nat} {path : File.Path} {operations early : List Operation}
    (editing : Editing debounce path operations) (isEarly : early <+: operations)
    (notEmpty : early ≠ []) :
    Editing debounce path early := by
  obtain ⟨later, rfl⟩ := isEarly
  constructor
  · obtain ⟨other, text, time, rest, isFirst, same⟩ := editing.opens
    cases early with
    | nil => exact absurd rfl notEmpty
    | cons first others =>
        rw [List.cons_append] at isFirst
        exact ⟨other, text, time, others, by rw [(List.cons.inj isFirst).1], same⟩
  · exact fun operation member => editing.onlyEdits operation (List.mem_append_left later member)
  · exact fun now member => editing.noStart now (List.mem_append_left later member)
  · exact fun member => editing.noFlushOfAll (List.mem_append_left later member)
  · intro before now rest split
    apply editing.early before now (rest ++ later)
    rw [split, List.append_assoc, List.cons_append]

end Operation

namespace Workspace

theorem Coherent.readingAt?_of_later {before after : Workspace} (coherent : before.Coherent)
    (continues : Continues before after) {path : File.Path} {file : File.Id}
    (numbered : after.table.id? path = some file) :
    before.snapshot.readingAt? path = before.snapshot.sources.get? file := by
  rw [Snapshot.readingAt?, coherent.fileAt?_of_later continues numbered, Snapshot.get?_sources]

theorem not_mem_due_of_early {workspace : Workspace} {file : File.Id} {edit : Pending}
    (pending : (workspace.editsOf file).pending = some edit) {now : Nat}
    (early : now < edit.deadline) :
    file ∉ workspace.due (some now) := by
  intro isDue
  obtain ⟨due, isEdit⟩ := (workspace.mem_due_iff (some now) file).mp isDue
  have inTime : decide (due.deadline ≤ now) = true := (Option.filter_eq_some_iff.mp isEdit).2
  obtain rfl : due = edit := Option.some.inj ((pending_of_dueEdit? isEdit).symm.trans pending)
  have late := of_decide_eq_true inTime
  omega

end Workspace

namespace Session

variable {session : Session} {file : File.Id} {edit : Pending} {reading? : Option Analysis}

/-! ## While the edits go on -/

/-- An edit of a file is held back: it is pending, no reading that was begun may still be
installed, and what is loaded is known. -/
structure Holds (session : Session) (file : File.Id) (edit : Pending)
    (reading? : Option Analysis) : Prop where
  pending : (session.workspace.editsOf file).pending = some edit
  lost : ∀ batch ∈ session.batches, ∀ job ∈ batch.jobs, job.file = file →
    (session.workspace.editsOf file).Lost job.ticket.generation
  loaded : session.workspace.snapshot.sources.get? file = reading?

/-- An edit of a file is held back, and what is loaded stays. -/
theorem Orderly.holds_edit (orderly : session.Orderly) (path : File.Path) (text : String)
    (now : Nat) :
    (session.perform (.edit path text now)).Holds (session.workspace.table.intern path).1
      ⟨text, now + session.workspace.config.debounce⟩
      (session.workspace.snapshot.sources.get? (session.workspace.table.intern path).1) := by
  have edited := (session.workspace.editsOf_edit path text now
    (session.workspace.table.intern path).1).trans (if_pos rfl)
  refine ⟨?_, fun batch member job isJob isFile => ?_, rfl⟩
  · exact congrArg State.pending edited
  · have given := orderly.given batch member job isJob
    rw [isFile] at given
    show ((session.workspace.edit path text now).editsOf _).Lost _
    rw [edited]
    exact @State.lost_of_touches _ _ (.edit text _) given rfl

/-- A flush that does not take up the edit of a file leaves the file alone. -/
theorem Regular.flush_of_not_due (regular : session.Regular) {now : Option Nat}
    (notDue : file ∉ session.workspace.due now) :
    (session.workspace.flush now).2.snapshot.sources.get? file =
        session.workspace.snapshot.sources.get? file ∧
      (session.workspace.flush now).2.editsOf file = session.workspace.editsOf file := by
  by_cases allReadable : ∀ job ∈ (session.workspace.start now).1,
      readable job.ticket.text = true
  · exact (regular.flush_of_readable allReadable).2.2 file notDue
  · simp only [not_forall, Bool.not_eq_true] at allReadable
    obtain ⟨job, isJob, unreadable⟩ := allReadable
    rw [regular.orderly.flush_of_unreadable isJob unreadable]
    constructor
    · rw [Workspace.snapshot_start]
    · exact session.workspace.editsOf_startJobs_of_not_mem notDue

/-- A commit installs nothing for a file whose readings are all lost. -/
theorem Holds.loaded_commit (holds : session.Holds file edit reading?)
    (regular : session.Regular) {jobs : List Job} {outcomes : List Outcome}
    (member : .computed jobs outcomes ∈ session.batches) :
    (session.workspace.commit outcomes).2.snapshot.sources.get? file = reading? := by
  rcases regular.file_commit member file with ⟨job, isJob, isFile, waits, _⟩ | ⟨_, kept⟩
  · exact absurd (holds.lost _ member job isJob isFile) waits.not_lost
  · exact kept.trans holds.loaded

/-- What does not touch a file leaves its edit pending and what is loaded as it is, unless
it is a flush that takes up the edit. -/
theorem Holds.pending_and_loaded (holds : session.Holds file edit reading?)
    (regular : session.Regular) {path : File.Path}
    (numbered : session.workspace.table.id? path = some file) {operation : Operation}
    (notTouches : operation.touches path = false) (notStart : ∀ now, operation ≠ .start now)
    (early : ∀ now, operation = .flush now → file ∉ session.workspace.due now) :
    ((session.perform operation).workspace.editsOf file).pending = some edit ∧
      (session.perform operation).workspace.snapshot.sources.get? file = reading? := by
  have others : ∀ {other : File.Path}, operation.touches other = true →
      ((session.perform operation).workspace.editsOf file).pending = some edit ∧
        (session.perform operation).workspace.snapshot.sources.get? file = reading? := by
    intro other touchesOther
    obtain ⟨sameEdits, sameSource⟩ :=
      same_of_touches_other regular.coherent.workspace numbered notTouches touchesOther
    exact ⟨(congrArg State.pending sameEdits).trans holds.pending, sameSource.trans holds.loaded⟩
  cases operation with
  | load other text => exact others other.same_refl
  | edit other text now => exact others other.same_refl
  | close other => exact others other.same_refl
  | start now => exact absurd rfl (notStart now)
  | compute number =>
      rcases session.perform_compute_cases number with same | ⟨_, _, computed⟩
      · rw [same]
        exact ⟨holds.pending, holds.loaded⟩
      · rw [computed]
        exact ⟨holds.pending, holds.loaded⟩
  | commit number =>
      rcases session.perform_commit_cases number with same | ⟨_, outcomes, atNumber, committed⟩
      · rw [same]
        exact ⟨holds.pending, holds.loaded⟩
      · rw [committed]
        exact ⟨(session.workspace.pending_commit outcomes file).trans holds.pending,
          holds.loaded_commit regular (List.mem_of_getElem? atNumber)⟩
  | flush now =>
      obtain ⟨sameSource, sameEdits⟩ := regular.flush_of_not_due (early now rfl)
      exact ⟨(congrArg State.pending sameEdits).trans holds.pending,
        sameSource.trans holds.loaded⟩
  | takeChanged => exact ⟨holds.pending, holds.loaded⟩

/-- An edit stays held back while nobody touches its file, starts a batch or flushes it when it
is due. -/
theorem Holds.perform (holds : session.Holds file edit reading?) (regular : session.Regular)
    {path : File.Path} (numbered : session.workspace.table.id? path = some file)
    {operation : Operation} (notTouches : operation.touches path = false)
    (notStart : ∀ now, operation ≠ .start now)
    (early : ∀ now, operation = .flush now → file ∉ session.workspace.due now) :
    (session.perform operation).Holds file edit reading? := by
  obtain ⟨pending, loaded⟩ :=
    holds.pending_and_loaded regular numbered notTouches notStart early
  refine ⟨pending, fun batch member job isJob isFile => ?_, loaded⟩
  rcases mem_jobs_perform member isJob with ⟨before, among, wasJob⟩ | ⟨now, isStart, _⟩
  · obtain ⟨events, performed⟩ := session.editsOf_perform operation file
    rw [performed]
    exact (holds.lost before among job wasJob isFile).foldl events
  · exact absurd isStart (notStart now)

/-- While a caller goes on editing a path, its latest edit is held back, over what was
loaded before the first one. -/
theorem holds_run (regular : session.Regular) {path : File.Path} {operations : List Operation}
    (editing : Operation.Editing session.workspace.config.debounce path operations) :
    ∃ file other text time,
      (session.run operations).workspace.table.id? path = some file ∧
      Operation.lastTouching path operations = some (.edit other text time) ∧
      (session.run operations).Holds file ⟨text, time + session.workspace.config.debounce⟩
        (session.workspace.snapshot.readingAt? path) := by
  induction operations using List.reverseRecOn with
  | nil =>
      obtain ⟨_, _, _, _, isFirst, _⟩ := editing.opens
      cases isFirst
  | append_singleton before operation inductionHypothesis =>
      have regularBefore : (session.run before).Regular :=
        run_forall (fun _ operation holds => holds.perform operation) regular before
      have editingBefore : before ≠ [] →
          Operation.Editing session.workspace.config.debounce path before :=
        editing.of_prefix (List.prefix_append before [operation])
      rw [run_append, run_cons, run_nil, Operation.lastTouching_append]
      cases touches : operation.touches path with
      | true =>
          obtain ⟨other, text, time, rfl⟩ :=
            editing.onlyEdits operation (List.mem_append_right before List.mem_cons_self) touches
          have numbered : ((session.run before).perform
              (.edit other text time)).workspace.table.id? path =
                some ((session.run before).workspace.table.intern other).1 := by
            show (Workspace.edit _ other text time).table.id? path = _
            exact (File.Table.id?_congr _ touches).trans (File.Table.id?_intern _ other)
          have holds := regularBefore.orderly.holds_edit other text time
          rw [(session.continues_run before).config] at holds
          refine ⟨_, other, text, time, numbered, if_pos rfl, holds.pending, holds.lost,
            holds.loaded.trans ?_⟩
          by_cases isFirst : before = []
          · subst isFirst
            exact (regular.coherent.workspace.readingAt?_of_later
              (session.continues_perform _) numbered).symm
          · obtain ⟨known, _, _, _, wasNumbered, _, held⟩ :=
              inductionHypothesis (editingBefore isFirst)
            have stays := (continues_perform _ (.edit other text time)).numbers wasNumbered
            obtain rfl := Option.some.inj (stays.symm.trans numbered)
            exact held.loaded
      | false =>
          have notEmpty : before ≠ [] := by
            rintro rfl
            obtain ⟨other, text, time, rest, isFirst, same⟩ := editing.opens
            rw [(List.cons.inj isFirst).1] at touches
            exact absurd same (Bool.eq_false_iff.mp touches)
          obtain ⟨file, other, text, time, numbered, isLast, holds⟩ :=
            inductionHypothesis (editingBefore notEmpty)
          have numberedAfter := (continues_perform _ operation).numbers numbered
          refine ⟨file, other, text, time, numberedAfter, ?_, ?_⟩
          · rw [if_neg Bool.false_ne_true]
            exact isLast
          · refine holds.perform regularBefore numbered touches ?_ ?_
            · rintro now rfl
              exact editing.noStart now (List.mem_append_right before List.mem_cons_self)
            · rintro now rfl
              cases now with
              | none =>
                  exact absurd (List.mem_append_right before List.mem_cons_self)
                    editing.noFlushOfAll
              | some now =>
                  exact Workspace.not_mem_due_of_early holds.pending
                    (editing.early before now [] rfl other text time isLast)

/-! ## The flush after the pause -/

/-- A flush whose texts can be read reports each of its jobs once. -/
theorem Regular.recomputed_flush (regular : session.Regular) {now : Option Nat}
    (allReadable : ∀ job ∈ (session.workspace.start now).1, readable job.ticket.text = true) :
    ∃ report, (session.workspace.flush now).1 = some report ∧
      report.recomputed = (session.workspace.start now).1.map Job.path := by
  obtain ⟨outcomes, flushed, ready⟩ := regular.exists_flush_of_readable allReadable
  have member : Batch.computed (session.workspace.start now).1 outcomes ∈
      session.batches ++ [.computed (session.workspace.start now).1 outcomes] :=
    List.mem_append_right _ List.mem_cons_self
  obtain ⟨recomputed, _⟩ := Workspace.commit_spec ready.coherent.workspace (fun _ => true)
    (ready.orderly.numbered _ member) (distinct_start session.workspace now)
    (ready.orderly.fits _ _ member) (fun job isJob _ => regular.orderly.waits_start isJob)
    (fun _ _ isFalse => by cases isFalse)
  exact ⟨_, congrArg Prod.fst flushed,
    recomputed.trans (congrArg (List.map Job.path) (List.filter_true _))⟩

/-- Of the jobs of a batch just one is for the file of an edit that is due. -/
theorem countP_path_start (workspace : Workspace) {now : Option Nat} {path : File.Path}
    (numbered : workspace.table.id? path = some file) {job : Job}
    (isJob : job ∈ (workspace.start now).1) (isFile : job.file = file) :
    ((workspace.start now).1.map Job.path).countP path.same = 1 := by
  have sameTest : ∀ other ∈ (workspace.start now).1,
      (path.same other.path = true ↔ (other.file == file) = true) := by
    intro other isOther
    have numberedOther := Workspace.numbered_start isOther
    rw [beq_iff_eq]
    constructor
    · intro same
      rw [workspace.table.id?_congr same, numberedOther] at numbered
      exact Option.some.inj numbered
    · rintro rfl
      exact workspace.table.same_of_id? numbered numberedOther
  have once : ((workspace.start now).1.map Job.file).count file = 1 :=
    List.count_eq_one_of_mem (distinct_start workspace now)
      (isFile ▸ List.mem_map_of_mem isJob)
  rw [List.count_eq_countP, List.countP_map] at once
  rw [List.countP_map, ← once]
  exact List.countP_congr sameTest

/-! ## The earliest deadline -/

/-- A pending edit is one of some path. -/
theorem numbered_of_pending (config : Config) (operations : List Operation)
    (pending : (((new config).run operations).workspace.editsOf file).pending = some edit) :
    ∃ path, ((new config).run operations).workspace.table.id? path = some file := by
  induction operations using List.reverseRecOn with
  | nil => cases pending
  | append_singleton before operation inductionHypothesis =>
      rw [run_append, run_cons, run_nil] at pending ⊢
      rcases pending_perform pending with wasPending | ⟨path, numbered, _⟩
      · obtain ⟨path, numbered⟩ := inductionHypothesis wasPending
        exact ⟨path, (continues_perform _ operation).numbers numbered⟩
      · exact ⟨path, numbered⟩

/-- An edit that a flush takes up is not pending after it, whether or not its text can be
read. -/
theorem Orderly.nonePending_flush (orderly : session.Orderly) {now : Option Nat}
    {path : File.Path} (numbered : session.workspace.table.id? path = some file)
    (due : (session.workspace.editsOf file).dueEdit? now = some edit) :
    ((session.workspace.flush now).2.editsOf file).pending = none := by
  obtain ⟨job, isJob, rfl, _⟩ := Workspace.exists_job_of_dueEdit? numbered due
  have waits := orderly.waits_start isJob
  rcases session.workspace.flush_cases now with onlyStarted | ⟨outcomes, _, flushed⟩
  · rw [onlyStarted]
    exact waits.noneLater
  · rw [flushed, Workspace.pending_commit]
    exact waits.noneLater

end Session

namespace Workspace

/-- The earliest deadline is that of a pending edit, and no pending edit has an earlier
one. -/
theorem nextDeadline?_eq_some_iff {workspace : Workspace}
    (numbered : ∀ {file edit}, (workspace.editsOf file).pending = some edit →
      ∃ path, workspace.table.id? path = some file) (deadline : Nat) :
    workspace.nextDeadline? = some deadline ↔
      workspace.PendingUntil deadline ∧
        ∀ other, workspace.PendingUntil other → deadline ≤ other := by
  have isDeadline : ∀ other, other ∈ workspace.edits.values.filterMap State.deadline ↔
      workspace.PendingUntil other := by
    intro other
    rw [List.mem_filterMap]
    constructor
    · rintro ⟨state, member, isDeadline⟩
      obtain ⟨file, known⟩ := (File.Map.mem_values_iff _ state).mp member
      obtain ⟨edit, pending, rfl⟩ := Option.map_eq_some_iff.mp isDeadline
      have isState : workspace.editsOf file = state := by
        rw [editsOf, known, Option.getD_some]
      have isPending : (workspace.editsOf file).pending = some edit := isState ▸ pending
      obtain ⟨path, named⟩ := numbered isPending
      exact ⟨path, edit, editsAt_of_id? named ▸ isPending, rfl⟩
    · rintro ⟨path, edit, pending, rfl⟩
      cases named : workspace.table.id? path with
      | none =>
          rw [editsAt_of_unknown named] at pending
          cases pending
      | some file =>
          rw [editsAt_of_id? named] at pending
          cases known : workspace.edits.get? file with
          | none =>
              rw [editsOf, known] at pending
              cases pending
          | some state =>
              rw [editsOf, known, Option.getD_some] at pending
              exact ⟨state, (File.Map.mem_values_iff _ state).mpr ⟨file, known⟩,
                Option.map_eq_some_iff.mpr ⟨edit, pending, rfl⟩⟩
  rw [nextDeadline?, List.min?_eq_some_iff]
  simp only [isDeadline]

end Workspace

/-- An edit that is pending after a flush is not due yet. -/
theorem Session.Orderly.lt_of_pending_flush {session : Session} (orderly : session.Orderly)
    {now : Nat} {path : File.Path} {edit : Pending}
    (pending : ((session.workspace.flush (some now)).2.editsAt path).pending = some edit) :
    now < edit.deadline := by
  have sameTable := session.workspace.table_flush (some now)
  cases numbered : (session.workspace.flush (some now)).2.table.id? path with
  | none =>
      rw [Workspace.editsAt_of_unknown numbered] at pending
      cases pending
  | some file =>
      rw [Workspace.editsAt_of_id? numbered] at pending
      rw [sameTable] at numbered
      have wasPending := pending_of_spares (session.spares_flush (some now) file) pending
      by_contra late
      have due : (session.workspace.editsOf file).dueEdit? (some now) = some edit :=
        Option.filter_eq_some_iff.mpr ⟨wasPending, decide_eq_true (Nat.not_lt.mp late)⟩
      rw [orderly.nonePending_flush numbered due] at pending
      cases pending

/-- While a caller goes on editing a path and every flush comes before the latest edit has
waited for the debounce time, nothing changes what is loaded there; no other reading of the
path is begun or installed, whatever happens to other paths. The first flush after that,
unless a text that it takes up begins with trivia, reads the path exactly once, with the
text of the latest edit, and leaves nothing under way. In every workspace the next deadline
is the least of all pending edits, and after a flush it is still to come. -/
theorem edits_wait_for_pause (config : Config) (earlier : List Operation) :
    let state (operations : List Operation) : Workspace :=
      ((Session.new config).run (earlier ++ operations)).workspace
    (∀ path operations, Operation.Editing config.debounce path operations →
      (∀ early, early <+: operations →
        (state early).snapshot.readingAt? path = (state []).snapshot.readingAt? path) ∧
      ∃ other text time,
        Operation.lastTouching path operations = some (.edit other text time) ∧
        ∀ now, time + config.debounce ≤ now →
          (∀ due edit, (state operations).dueEdit? (some now) due = some edit →
            readable edit.text = true) →
          ∃ report, ((state operations).flush (some now)).1 = some report ∧
            report.recomputed.countP path.same = 1 ∧
            ((state operations).flush (some now)).2.snapshot.textAt? path = some text ∧
            ((state operations).flush (some now)).2.phase? path = some .idle) ∧
    (∀ operations deadline, (state operations).nextDeadline? = some deadline ↔
      (state operations).PendingUntil deadline ∧
        ∀ other, (state operations).PendingUntil other → deadline ≤ other) ∧
    ∀ operations now deadline,
      ((state operations).flush (some now)).2.nextDeadline? = some deadline →
        now < deadline := by
  intro state
  have leastDeadline : ∀ operations deadline, (state operations).nextDeadline? = some deadline ↔
      (state operations).PendingUntil deadline ∧
        ∀ other, (state operations).PendingUntil other → deadline ≤ other :=
    fun operations => Workspace.nextDeadline?_eq_some_iff (Session.numbered_of_pending config _)
  have held : ∀ path operations, Operation.Editing config.debounce path operations →
      ∃ file other text time, (state operations).table.id? path = some file ∧
        Operation.lastTouching path operations = some (.edit other text time) ∧
        (state operations).snapshot.sources.get? file = (state []).snapshot.readingAt? path ∧
        ((state operations).editsOf file).pending = some ⟨text, time + config.debounce⟩ := by
    intro path operations editing
    have sameConfig : ((Session.new config).run earlier).workspace.config = config :=
      ((Session.new config).continues_run earlier).config
    obtain ⟨file, other, text, time, numbered, isLast, holds⟩ :=
      Session.holds_run (Session.regular_run config earlier) (sameConfig.symm ▸ editing)
    rw [sameConfig, ← Session.run_append] at holds
    rw [← Session.run_append] at numbered
    refine ⟨file, other, text, time, numbered, isLast, ?_, holds.pending⟩
    rw [holds.loaded]
    show _ = (((Session.new config).run (earlier ++ [])).workspace).snapshot.readingAt? path
    rw [List.append_nil]
  refine ⟨fun path operations editing => ⟨fun early isEarly => ?_, ?_⟩, leastDeadline, ?_⟩
  · by_cases isEmpty : early = []
    · rw [isEmpty]
    · obtain ⟨file, _, _, _, numbered, _, loaded, _⟩ :=
        held path early (editing.of_prefix isEarly isEmpty)
      have coherent := (Session.coherent_run config (earlier ++ early)).workspace
      rw [coherent.readingAt?_of_later (.refl _) numbered]
      exact loaded
  · obtain ⟨file, other, text, time, numbered, isLast, _, pending⟩ := held path operations editing
    refine ⟨other, text, time, isLast, fun now late allReadable => ?_⟩
    have regular := Session.regular_run config (earlier ++ operations)
    have due : ((state operations).editsOf file).dueEdit? (some now) =
        some ⟨text, time + config.debounce⟩ :=
      Option.filter_eq_some_iff.mpr ⟨pending, decide_eq_true late⟩
    have canBeRead : ∀ job ∈ ((state operations).start (some now)).1,
        readable job.ticket.text = true := by
      intro job isJob
      obtain ⟨edit, isDue, sameText⟩ := Workspace.due_of_job isJob
      exact sameText ▸ allReadable job.path edit isDue
    obtain ⟨job, isJob, isFile, sameText⟩ := Workspace.exists_job_of_dueEdit? numbered due
    obtain ⟨report, reported, recomputed⟩ := regular.recomputed_flush canBeRead
    obtain ⟨found, idle⟩ := (regular.flush_of_readable canBeRead).2.1 job isJob
    have flushedCoherent : ((state operations).flush (some now)).2.Coherent :=
      regular.coherent.workspace.flush (some now)
    have numberedAfter : ((state operations).flush (some now)).2.table.id? path = some file :=
      ((state operations).continues_flush (some now)).numbers numbered
    refine ⟨report, reported, ?_, ?_, ?_⟩
    · rw [recomputed]
      exact Session.countP_path_start _ numbered isJob isFile
    · rw [flushedCoherent.textAt?_of_id? numberedAfter, ← isFile]
      exact found.trans (congrArg some sameText)
    · rw [Workspace.phase?, numberedAfter, Option.map_some, ← isFile,
        State.phase_of_idle idle]
  · intro operations now deadline next
    have flushed : ((state operations).flush (some now)).2 =
        state (operations ++ [.flush (some now)]) := by
      show _ = ((Session.new config).run (earlier ++ (operations ++ _))).workspace
      rw [← List.append_assoc, Session.run_append]
      rfl
    rw [flushed, leastDeadline, ← flushed] at next
    obtain ⟨⟨path, edit, pending, rfl⟩, _⟩ := next
    exact (Session.orderly_run config (earlier ++ operations)).lt_of_pending_flush pending

/-- A loaded file is edited twice, with early flushes and an edit of another file in between.
It keeps its first text until the flush at the deadline of the second edit. -/
theorem edits_wait_for_pause_of_two :
    let earlier : List Operation := [.load ⟨"a.g4"⟩ "grammar A; x : Y;"]
    let operations : List Operation :=
      [.edit ⟨"a.g4"⟩ "grammar A; y : Y;" 0, .flush (some 299), .edit ⟨"b.g4"⟩ "grammar B;" 50,
        .edit ⟨"a.g4"⟩ "grammar A; z : Y;" 100, .flush (some 399)]
    let workspace := ((Session.new .standard).run (earlier ++ operations)).workspace
    workspace.snapshot.textAt? ⟨"a.g4"⟩ = some "grammar A; x : Y;" ∧
      (workspace.flush (some 400)).2.snapshot.textAt? ⟨"a.g4"⟩ = some "grammar A; z : Y;" := by
  intro earlier operations workspace
  have editing : Operation.Editing Config.standard.debounce ⟨"a.g4"⟩ operations := by
    refine ⟨⟨_, _, _, _, rfl, by decide⟩, ?_, by simp [operations], by simp [operations], ?_⟩
    · intro operation member touches
      simp only [operations, List.mem_cons, List.not_mem_nil, or_false] at member
      rcases member with rfl | rfl | rfl | rfl | rfl
      · exact ⟨_, _, _, rfl⟩
      · cases touches
      · exact ⟨_, _, _, rfl⟩
      · exact ⟨_, _, _, rfl⟩
      · cases touches
    · intro before now rest split other text time isLast
      simp only [operations, List.cons_eq_append_iff, List.nil_eq, List.append_eq_nil_iff,
        reduceCtorEq, List.cons.injEq, Operation.flush.injEq, Option.some.injEq, false_and,
        and_false, false_or, exists_false, or_false] at split
      obtain ⟨_, rfl, ⟨rfl, rfl, _⟩ | ⟨_, rfl, _, rfl, _, rfl, rfl, rfl, _⟩⟩ := split
      · obtain ⟨rfl, rfl, rfl⟩ := Operation.edit.inj (Option.some.inj isLast)
        decide
      · have latest : Operation.lastTouching ⟨"a.g4"⟩ (operations.take 4) =
            some (.edit ⟨"a.g4"⟩ "grammar A; z : Y;" 100) := by decide +kernel
        obtain ⟨rfl, rfl, rfl⟩ := Operation.edit.inj (Option.some.inj (isLast.symm.trans latest))
        decide
  obtain ⟨waits, _⟩ := edits_wait_for_pause .standard earlier
  obtain ⟨kept, other, text, time, isLast, reads⟩ := waits ⟨"a.g4"⟩ operations editing
  have latest : Operation.lastTouching ⟨"a.g4"⟩ operations =
      some (.edit ⟨"a.g4"⟩ "grammar A; z : Y;" 100) := by decide +kernel
  obtain ⟨rfl, rfl, rfl⟩ := Operation.edit.inj (Option.some.inj (isLast.symm.trans latest))
  have legible := Session.legible_run .standard
    (show ∀ operation ∈ earlier ++ operations, operation.isReadable = true by decide +kernel)
  have allReadable : ∀ due edit, workspace.dueEdit? (some 400) due = some edit →
      readable edit.text = true := by
    intro due edit isDue
    obtain ⟨job, isJob, _, sameText⟩ := Workspace.exists_job_of_due isDue
    exact sameText ▸ legible.jobs_start (some 400) job isJob
  obtain ⟨report, _, _, found, _⟩ := reads 400 (by decide) allReadable
  have sameReading := kept operations (List.prefix_refl operations)
  refine ⟨?_, found⟩
  rw [Snapshot.textAt?_eq, sameReading, ← Snapshot.textAt?_eq]
  decide +kernel

end GrammarDesk
