import Mathlib.Data.Prod.Lex
import GrammarDesk.Proofs.Workspace.Batches

/-!
Contract: how the version and the resolution of a loaded file date it.

Owns: how often a file was read, readings that belong to the past, what one operation
may make of a loaded file, and the order in which the files loaded at one path follow
each other.

Does not own: which results a commit installs (`Batches`), or links (`Incremental`).

A version is drawn when a reading begins and may be installed much later. It is in
order all the same, because a newer reading begins only after the caller touched the
file, which loses the older one, or after the older one was installed.

Main statement: `stamp_dates_loaded`.
-/

namespace GrammarDesk

open Edit

namespace SourceFile

/-- The date of a loaded file: which reading of the file it is, and how often it was
linked again since. -/
def stamp (source : SourceFile) : Lex (Nat × Nat) :=
  toLex (source.analysis.version, source.resolution)

theorem stamp_lt_of_version {old new : SourceFile}
    (newer : old.analysis.version < new.analysis.version) :
    old.stamp < new.stamp :=
  Prod.Lex.toLex_lt_toLex.mpr (.inl newer)

theorem stamp_lt_of_resolution {old new : SourceFile} (same : new.analysis = old.analysis)
    (newer : old.resolution < new.resolution) :
    old.stamp < new.stamp :=
  Prod.Lex.toLex_lt_toLex.mpr (.inr ⟨by rw [same], newer⟩)

end SourceFile

namespace Workspace

/-! ## Counting readings -/

/-- How often a file has been read, or was about to be. -/
def readings (workspace : Workspace) (file : File.Id) : Nat :=
  (workspace.versions.get? file).getD 0

theorem readings_of_versions_eq {left right : Workspace} (same : left.versions = right.versions)
    (file : File.Id) :
    left.readings file = right.readings file := by
  unfold readings
  rw [same]

theorem readings_countVersion (workspace : Workspace) (file other : File.Id) :
    (workspace.countVersion file).readings other =
      if other = file then workspace.readings other + 1 else workspace.readings other := by
  unfold readings countVersion
  rw [File.Map.get?_put]
  by_cases here : other = file
  · rw [if_pos here, if_pos here, here]
    rfl
  · rw [if_neg here, if_neg here]

theorem readings_le_countVersion (workspace : Workspace) (file other : File.Id) :
    workspace.readings other ≤ (workspace.countVersion file).readings other := by
  rw [readings_countVersion]
  split
  · exact Nat.le_succ _
  · exact Nat.le_refl _

/-- Every job that is started reads its file once more than it was read before. -/
theorem version_startJobs (workspace : Workspace) (files : List File.Id) :
    (∀ file, workspace.readings file ≤ (workspace.startJobs files).2.readings file) ∧
      ∀ job ∈ (workspace.startJobs files).1, workspace.readings job.file < job.version ∧
        job.version ≤ (workspace.startJobs files).2.readings job.file := by
  induction files generalizing workspace with
  | nil => exact ⟨fun _ => Nat.le_refl _, fun _ member => absurd member List.not_mem_nil⟩
  | cons first rest inductionHypothesis =>
      unfold startJobs
      split
      · exact inductionHypothesis workspace
      · rename_i firstJob started starts
        obtain ⟨later, jobs⟩ := inductionHypothesis started
        obtain ⟨ticket, state, _, _, isJob, isStarted⟩ := startJob?_eq starts
        have counted : ∀ file, started.readings file =
            (workspace.countVersion first).readings file :=
          readings_of_versions_eq (by rw [isStarted]; rfl)
        have grows : ∀ file, workspace.readings file ≤ started.readings file := by
          intro file
          rw [counted]
          exact workspace.readings_le_countVersion first file
        refine ⟨fun file => Nat.le_trans (grows file) (later file), fun job member => ?_⟩
        rcases List.mem_cons.mp member with rfl | isLater
        · have drawn : job.version = started.readings job.file := by
            rw [counted, isJob, readings_countVersion, if_pos rfl]
            rfl
          refine ⟨?_, drawn ▸ later job.file⟩
          rw [drawn, counted, isJob, readings_countVersion, if_pos rfl]
          exact Nat.lt_succ_self _
        · obtain ⟨newer, bounded⟩ := jobs job isLater
          exact ⟨Nat.lt_of_le_of_lt (grows job.file) newer, bounded⟩

/-- Loading counts one reading of its file, also when the text cannot be read. -/
theorem readings_load (workspace : Workspace) (path : File.Path) (text : String)
    (file : File.Id) :
    (workspace.load path text).2.readings file =
      if file = (workspace.table.intern path).1 then
        workspace.readings file + 1
      else
        workspace.readings file := by
  have opened : (workspace.opened path).readings file = _ :=
    readings_countVersion _ (workspace.table.intern path).1 file
  rw [load_eq]
  split
  · exact opened
  · exact opened

theorem readings_close (workspace : Workspace) (path : File.Path) (file : File.Id) :
    (workspace.close path).2.readings file = workspace.readings file := by
  rw [close_eq]
  split
  · rfl
  · split
    · rfl
    · rfl

theorem readings_commit (workspace : Workspace) (outcomes : List Outcome) (file : File.Id) :
    (workspace.commit outcomes).2.readings file = workspace.readings file := by
  apply readings_of_versions_eq
  show (workspace.settle outcomes).2.2.versions = _
  rw [settle_eq]

theorem readings_le_flush (workspace : Workspace) (now : Option Nat) (file : File.Id) :
    workspace.readings file ≤ (workspace.flush now).2.readings file := by
  have started := (workspace.version_startJobs (workspace.due now)).1 file
  rcases workspace.flush_cases now with onlyStarted | ⟨outcomes, _, flushed⟩
  · rw [onlyStarted]
    exact started
  · rw [flushed, readings_commit]
    exact started

/-! ## Replacing loaded files -/

/-- A file that is published without having been read is kept, or linked once more. -/
theorem file?_publish_of_not_read {workspace : Workspace} {sources : Sources}
    {read : List File.Id} (reached : List File.Id) {file : File.Id} {old : SourceFile}
    (wasLoaded : workspace.snapshot.file? file = some old)
    (isFile : old.file = file)
    (listed : sources.get? file = some old.analysis) (notRead : file ∉ read) :
    ∃ new, (workspace.publish sources read reached).2.snapshot.file? file = some new ∧
      (new = old ∨ new.analysis = old.analysis ∧ new.resolution = old.resolution + 1) := by
  subst isFile
  refine ⟨workspace.link sources (sources.graph workspace.config.precedence).links read reached
    old.analysis, ?_, ?_⟩
  · rw [file?_publish, listed]
    rfl
  · rw [link_of_not_read sources _ wasLoaded notRead]
    by_cases isReached : old.file ∈ reached
    · rw [if_pos isReached]
      exact .inr ⟨rfl, rfl⟩
    · rw [if_neg isReached]
      exact .inl rfl

end Workspace

namespace Session

/-! ## The past -/

/-- A reading of a file belongs to the past: it was counted, and whatever is under way
for the file is a newer reading or will not be installed. -/
structure Past (session : Session) (file : File.Id) (version : Nat) : Prop where
  counted : version ≤ session.workspace.readings file
  newer : ∀ batch ∈ session.batches, ∀ job ∈ batch.jobs, job.file = file →
    (session.workspace.editsOf file).Lost job.ticket.generation ∨ version < job.version

/-- No operation takes back a reading. -/
theorem readings_le_perform (session : Session) (operation : Operation) (file : File.Id) :
    session.workspace.readings file ≤ (session.perform operation).workspace.readings file := by
  cases operation with
  | load path text =>
      show _ ≤ (session.workspace.load path text).2.readings file
      rw [Workspace.readings_load]
      split
      · exact Nat.le_succ _
      · exact Nat.le_refl _
  | edit path text now => exact Nat.le_refl _
  | close path => exact Nat.le_of_eq (session.workspace.readings_close path file).symm
  | start now => exact (session.workspace.version_startJobs _).1 file
  | compute number =>
      rcases session.perform_compute_cases number with same | ⟨_, _, computed⟩
      · rw [same]
      · rw [computed]
  | commit number =>
      rcases session.perform_commit_cases number with same | ⟨_, outcomes, _, committed⟩
      · rw [same]
      · rw [committed]
        exact Nat.le_of_eq (session.workspace.readings_commit outcomes file).symm
  | flush now => exact session.workspace.readings_le_flush now file
  | takeChanged => exact Nat.le_refl _

/-- What belongs to the past stays there. -/
theorem Past.perform {session : Session} {file : File.Id} {version : Nat}
    (past : session.Past file version) (operation : Operation) :
    (session.perform operation).Past file version := by
  constructor
  · exact Nat.le_trans past.counted (session.readings_le_perform operation file)
  · intro batch member job isJob isFile
    rcases mem_jobs_perform member isJob with ⟨before, among, wasJob⟩ | ⟨now, rfl, isNew⟩
    · obtain ⟨events, performed⟩ := session.editsOf_perform operation file
      rcases past.newer before among job wasJob isFile with lost | newer
      · rw [performed]
        exact .inl (lost.foldl events)
      · exact .inr newer
    · have drawn := ((session.workspace.version_startJobs _).2 job isNew).1
      rw [isFile] at drawn
      exact .inr (Nat.lt_of_le_of_lt past.counted drawn)

/-- With nothing under way for a file, every reading that was counted is past. -/
theorem past_of_idle {session : Session} (orderly : session.Orderly) {file : File.Id}
    {version : Nat} (counted : version ≤ session.workspace.readings file)
    (idle : (session.workspace.editsOf file).Idle) :
    session.Past file version := by
  refine ⟨counted, fun batch member job isJob isFile => .inl ?_⟩
  have given := orderly.given batch member job isJob
  rw [isFile] at given
  exact idle.lost given

/-- The versions of all jobs were counted. -/
def Counted (session : Session) : Prop :=
  ∀ batch ∈ session.batches, ∀ job ∈ batch.jobs,
    job.version ≤ session.workspace.readings job.file

theorem counted_new (config : Config) : (new config).Counted :=
  fun _ member => absurd member List.not_mem_nil

theorem Counted.perform {session : Session} (counted : session.Counted)
    (operation : Operation) :
    (session.perform operation).Counted := by
  intro batch member job isJob
  rcases mem_jobs_perform member isJob with ⟨before, among, wasJob⟩ | ⟨now, rfl, isNew⟩
  · exact Nat.le_trans (counted before among job wasJob)
      (session.readings_le_perform operation job.file)
  · exact ((session.workspace.version_startJobs _).2 job isNew).2

/-! ## What an operation makes of a loaded file -/

/-- All that an operation may make of the file with a number. -/
inductive Turn (before : Session) (after : Workspace) (file : File.Id) : Prop where
  | kept (same : after.snapshot.file? file = before.workspace.snapshot.file? file)
  | closed (gone : after.snapshot.file? file = none)
  /-- The file was linked again because of another file. -/
  | relinked (old new : SourceFile)
      (wasLoaded : before.workspace.snapshot.file? file = some old)
      (loaded : after.snapshot.file? file = some new)
      (same : new.analysis = old.analysis) (next : new.resolution = old.resolution + 1)
  /-- A reading that is newer than all past ones was installed. -/
  | read (new : SourceFile) (loaded : after.snapshot.file? file = some new)
      (newer : ∀ version, before.Past file version → version < new.analysis.version)
      (counted : new.analysis.version ≤ after.readings file)
      (idle : (after.editsOf file).Idle)

/-- A file that is not among those installed is kept, or linked once more. -/
theorem turn_of_not_read {session : Session} {workspace : Workspace} {sources : Sources}
    {read reached : List File.Id} {file : File.Id} (coherent : session.workspace.Coherent)
    (same : workspace.snapshot = session.workspace.snapshot)
    (listed : sources.get? file = session.workspace.snapshot.sources.get? file)
    (notRead : file ∉ read) :
    session.Turn (workspace.publish sources read reached).2 file := by
  rw [Snapshot.get?_sources] at listed
  cases wasLoaded : session.workspace.snapshot.file? file with
  | none =>
      refine .kept ?_
      rw [Workspace.file?_publish, listed, wasLoaded]
      rfl
  | some old =>
      rw [wasLoaded] at listed
      obtain ⟨new, loaded, rfl | ⟨sameAnalysis, next⟩⟩ :=
        Workspace.file?_publish_of_not_read reached (same ▸ wasLoaded)
          (coherent.numbered wasLoaded).1 listed notRead
      · exact .kept (loaded.trans wasLoaded.symm)
      · exact .relinked old new wasLoaded loaded sameAnalysis next

theorem turn_of_read {session : Session} {after : Workspace} {file : File.Id}
    {analysis : Analysis} (listed : after.snapshot.sources.get? file = some analysis)
    (newer : ∀ version, session.Past file version → version < analysis.version)
    (counted : analysis.version ≤ after.readings file)
    (idle : (after.editsOf file).Idle) :
    session.Turn after file := by
  rw [Snapshot.get?_sources] at listed
  obtain ⟨new, loaded, rfl⟩ := Option.map_eq_some_iff.mp listed
  exact .read new loaded newer counted idle

/-- Loading a path installs a reading that is newer than all past ones, and other files are
kept or linked once more. -/
theorem turn_load {session : Session} (coherent : session.workspace.Coherent)
    (path : File.Path) (text : String) (file : File.Id) :
    session.Turn (session.workspace.load path text).2 file := by
  have sources := coherent.sources_load path text file
  have readings := session.workspace.readings_load path text file
  have edits := session.workspace.editsOf_load path text file
  by_cases here : file = (session.workspace.table.intern path).1
  · subst here
    rw [if_pos rfl] at sources readings
    cases isRead : Analysis.ofText? (session.workspace.table.intern path).1 path
        (session.workspace.nextVersion (session.workspace.table.intern path).1) text with
    | none =>
        refine .kept ?_
        rw [Workspace.load_eq, isRead]
        rfl
    | some analysis =>
        have isVersion : analysis.version = session.workspace.readings _ + 1 :=
          (Analysis.of_ofText? isRead).2.2.1
        rw [isRead] at sources
        refine turn_of_read sources (fun version past => ?_) ?_ ?_
        · rw [isVersion]
          exact Nat.lt_succ_of_le past.counted
        · rw [isVersion, readings]
        · rw [edits]
          rcases session.workspace.editsOf_resetEdits _ (session.workspace.table.intern path).1
            with ⟨different, _⟩ | ⟨_, isReset⟩ | ⟨_, _, staysNew⟩
          · exact absurd rfl different
          · rw [isReset]
            exact State.idle_reset _
          · rw [staysNew]
            exact State.idle_new
  · rw [Workspace.load_eq]
    split
    · exact .kept rfl
    · rename_i analysis isRead
      have others : file ≠ analysis.file := (Analysis.of_ofText? isRead).1 ▸ here
      refine turn_of_not_read coherent rfl ?_ ?_
      · exact (File.Map.get?_put session.workspace.snapshot.sources _ _ _).trans (if_neg others)
      · simpa using others

theorem turn_close {session : Session} (coherent : session.workspace.Coherent)
    (path : File.Path) (file : File.Id) :
    session.Turn (session.workspace.close path).2 file := by
  rw [Workspace.close_eq]
  split
  · exact .kept rfl
  · rename_i closed _
    split
    · exact .kept rfl
    · by_cases here : file = closed
      · refine .closed ?_
        rw [Workspace.file?_publish, File.Map.get?_erase, if_pos here]
        rfl
      · refine turn_of_not_read coherent rfl ?_ List.not_mem_nil
        rw [File.Map.get?_erase, if_neg here]

/-- A commit installs only readings that are newer than all past ones: their versions were
counted when the batch was started, and a job that was overtaken since is not installed. -/
theorem turn_commit {session : Session} (regular : session.Regular) (counted : session.Counted)
    {jobs : List Job} {outcomes : List Outcome}
    (member : .computed jobs outcomes ∈ session.batches) (file : File.Id) :
    session.Turn (session.workspace.commit outcomes).2 file := by
  rcases regular.file_commit member file with
    ⟨job, isJob, rfl, waits, idle, analysis, isRead, listed⟩ | ⟨lost, listed⟩
  · have isVersion : analysis.version = job.version := (Analysis.of_ofText? isRead).2.2.1
    refine turn_of_read listed (fun version past => ?_) ?_ idle
    · rw [isVersion]
      exact (past.newer _ member job isJob rfl).resolve_left waits.not_lost
    · rw [isVersion, Workspace.readings_commit]
      exact counted _ member job isJob
  · have taken := regular.coherent.workspace.sources_commit
      (regular.orderly.numbered _ member) (regular.orderly.fits jobs outcomes member)
    have settled : (session.workspace.settled outcomes).snapshot = session.workspace.snapshot := by
      unfold Workspace.settled
      rw [Workspace.settle_eq]
    rw [taken] at listed
    rw [Workspace.commit_eq]
    refine turn_of_not_read regular.coherent.workspace settled listed ?_
    intro isRead
    obtain ⟨analysis, accepted, isFile⟩ := List.mem_map.mp isRead
    obtain ⟨job, isJob, ofJob, waits⟩ := regular.waits_of_accepted member accepted
    obtain rfl : job.file = file := (Analysis.of_ofText? ofJob).1.symm.trans isFile
    exact waits.not_lost (lost job isJob rfl)

theorem Turn.of_later {before later : Session} {after : Workspace} {file : File.Id}
    (turn : later.Turn after file)
    (same : later.workspace.snapshot = before.workspace.snapshot)
    (past : ∀ version, before.Past file version → later.Past file version) :
    before.Turn after file := by
  cases turn with
  | kept kept => exact .kept (kept.trans (by rw [same]))
  | closed gone => exact .closed gone
  | relinked old new wasLoaded loaded sameAnalysis next =>
      exact .relinked old new (same ▸ wasLoaded) loaded sameAnalysis next
  | read new loaded newer counted idle =>
      exact .read new loaded (fun version isPast => newer version (past version isPast))
        counted idle

theorem snapshot_compute (session : Session) (number : Nat) :
    (session.perform (.compute number)).workspace.snapshot = session.workspace.snapshot := by
  rcases session.perform_compute_cases number with same | ⟨_, _, computed⟩
  · rw [same]
  · rw [computed]

/-- What holds in every session of files, edits and batches, and of the versions of
jobs. -/
structure Ordered (session : Session) : Prop where
  regular : session.Regular
  counted : session.Counted

theorem Ordered.perform {session : Session} (ordered : session.Ordered)
    (operation : Operation) :
    (session.perform operation).Ordered :=
  ⟨ordered.regular.perform operation, ordered.counted.perform operation⟩

theorem Ordered.turn_commit {session : Session} (ordered : session.Ordered) (number : Nat)
    (file : File.Id) :
    session.Turn (session.perform (.commit number)).workspace file := by
  rcases session.perform_commit_cases number with same | ⟨jobs, outcomes, atNumber, committed⟩
  · rw [same]
    exact .kept rfl
  · rw [committed]
    exact Session.turn_commit ordered.regular ordered.counted (List.mem_of_getElem? atNumber) file

/-- In an ordered session each operation keeps a loaded file, closes it, links it once more, or
installs a newer reading. -/
theorem Ordered.turn {session : Session} (ordered : session.Ordered) (operation : Operation)
    (file : File.Id) :
    session.Turn (session.perform operation).workspace file := by
  cases operation with
  | load path text => exact turn_load ordered.regular.coherent.workspace path text file
  | edit path text now => exact .kept rfl
  | close path => exact turn_close ordered.regular.coherent.workspace path file
  | start now => exact .kept (congrArg (·.file? file) (session.workspace.snapshot_start now))
  | compute number => exact .kept (congrArg (·.file? file) (session.snapshot_compute number))
  | commit number => exact ordered.turn_commit number file
  | flush now =>
      -- the batch of a flush is the next one, and only its commit installs anything
      have started := ordered.perform (.start now)
      have computed := started.perform (.compute session.batches.length)
      have committed := computed.turn_commit session.batches.length file
      have flushed := congrArg Session.workspace (session.run_flush now)
      rw [run_cons, run_cons, run_cons, run_nil] at flushed
      rw [flushed] at committed
      refine committed.of_later ?_ fun version past => (past.perform _).perform _
      rw [snapshot_compute]
      exact session.workspace.snapshot_start now
  | takeChanged => exact .kept rfl

/-! ## The order of loaded files -/

/-- All loaded files are dated: each belongs to a reading of the past. -/
structure Dated (session : Session) : Prop where
  ordered : session.Ordered
  past : ∀ {file source}, session.workspace.snapshot.file? file = some source →
    session.Past file source.analysis.version

theorem dated_new (config : Config) : (new config).Dated where
  ordered := ⟨regular_new config, counted_new config⟩
  past {file source} loaded := by cases loaded

/-- Each operation keeps the session dated. -/
theorem Dated.perform {session : Session} (dated : session.Dated) (operation : Operation) :
    (session.perform operation).Dated := by
  refine ⟨dated.ordered.perform operation, fun {file source} loaded => ?_⟩
  cases dated.ordered.turn operation file with
  | kept same => exact (dated.past (same.symm.trans loaded)).perform operation
  | closed gone =>
      rw [gone] at loaded
      cases loaded
  | relinked old new wasLoaded isLoaded same next =>
      obtain rfl : new = source := Option.some.inj (isLoaded.symm.trans loaded)
      rw [same]
      exact (dated.past wasLoaded).perform operation
  | read new isLoaded newer counted idle =>
      obtain rfl : new = source := Option.some.inj (isLoaded.symm.trans loaded)
      exact past_of_idle (dated.ordered.perform operation).regular.orderly counted idle

theorem dated_run (config : Config) (operations : List Operation) :
    ((new config).run operations).Dated :=
  run_forall (fun _ operation holds => holds.perform operation) (dated_new config) operations

/-- A file was loaded once: what is loaded in its place now is itself or has a later
date. -/
structure Precedes (session : Session) (file : File.Id) (old : SourceFile) : Prop where
  past : session.Past file old.analysis.version
  order : ∀ {source}, session.workspace.snapshot.file? file = some source →
    source = old ∨ old.stamp < source.stamp

theorem Dated.precedes {session : Session} (dated : session.Dated) {file : File.Id}
    {old : SourceFile} (loaded : session.workspace.snapshot.file? file = some old) :
    session.Precedes file old :=
  ⟨dated.past loaded, fun isLoaded => .inl (Option.some.inj (isLoaded.symm.trans loaded))⟩

/-- Whatever is loaded newly has a later date than all that was loaded before. -/
theorem Precedes.lt_of_turn {session : Session} {after : Workspace} {file : File.Id}
    {old : SourceFile} (precedes : session.Precedes file old) (turn : session.Turn after file)
    {source : SourceFile} (loaded : after.snapshot.file? file = some source)
    (isNew : session.workspace.snapshot.file? file ≠ some source) :
    old.stamp < source.stamp := by
  cases turn with
  | kept same => exact absurd (same.symm.trans loaded) isNew
  | closed gone =>
      rw [gone] at loaded
      cases loaded
  | relinked earlier new wasLoaded isLoaded same next =>
      obtain rfl : new = source := Option.some.inj (isLoaded.symm.trans loaded)
      have later : earlier.stamp < new.stamp :=
        SourceFile.stamp_lt_of_resolution same (next ▸ Nat.lt_succ_self _)
      rcases precedes.order wasLoaded with rfl | order
      · exact later
      · exact order.trans later
  | read new isLoaded newer _ _ =>
      obtain rfl : new = source := Option.some.inj (isLoaded.symm.trans loaded)
      exact SourceFile.stamp_lt_of_version (newer _ precedes.past)

theorem Precedes.perform {session : Session} {file : File.Id} {old : SourceFile}
    (precedes : session.Precedes file old) (ordered : session.Ordered)
    (operation : Operation) :
    (session.perform operation).Precedes file old := by
  refine ⟨precedes.past.perform operation, fun {source} loaded => ?_⟩
  by_cases wasLoaded : session.workspace.snapshot.file? file = some source
  · exact precedes.order wasLoaded
  · exact .inr (precedes.lt_of_turn (ordered.turn operation file) loaded wasLoaded)

theorem Precedes.run {session : Session} {file : File.Id} {old : SourceFile}
    (precedes : session.Precedes file old) (ordered : session.Ordered)
    (operations : List Operation) :
    (session.run operations).Precedes file old := by
  induction operations generalizing session with
  | nil => exact precedes
  | cons operation rest inductionHypothesis =>
      exact inductionHypothesis (precedes.perform ordered operation) (ordered.perform operation)

/-- After more operations the number of a path is the same, and all that was loaded
there precedes what is. -/
theorem precedes_of_fileAt? (config : Config) {before operations : List Operation}
    (earlier : before <+: operations) {path : File.Path} {old : SourceFile}
    (loaded : ((new config).run before).workspace.snapshot.fileAt? path = some old) :
    ∃ file, ((new config).run operations).workspace.table.id? path = some file ∧
      ((new config).run operations).Precedes file old := by
  obtain ⟨rest, rfl⟩ := earlier
  have dated := dated_run config before
  rw [dated.ordered.regular.coherent.workspace.fileAt?_eq] at loaded
  obtain ⟨file, numbered, isLoaded⟩ := Option.bind_eq_some_iff.mp loaded
  rw [run_append]
  exact ⟨file, (((new config).run before).continues_run rest).numbers numbered,
    (dated.precedes isLoaded).run dated.ordered rest⟩

/-- Of two files loaded at a path the later one is the same or has a later date. -/
theorem order_of_fileAt? (config : Config) {before operations : List Operation}
    (earlier : before <+: operations) {path : File.Path} {old source : SourceFile}
    (isOld : ((new config).run before).workspace.snapshot.fileAt? path = some old)
    (isSource : ((new config).run operations).workspace.snapshot.fileAt? path = some source) :
    source = old ∨ old.stamp < source.stamp := by
  obtain ⟨file, numbered, precedes⟩ := precedes_of_fileAt? config earlier isOld
  have coherent := (dated_run config operations).ordered.regular.coherent.workspace
  rw [coherent.fileAt?_eq, numbered] at isSource
  exact precedes.order isSource

/-- What an operation newly loads at a path has a later date than all that was loaded
there before. -/
theorem lt_of_fileAt?_perform (config : Config) {before operations : List Operation}
    (earlier : before <+: operations) {path : File.Path} {old source : SourceFile}
    (isOld : ((new config).run before).workspace.snapshot.fileAt? path = some old)
    (operation : Operation)
    (isSource : (((new config).run operations).perform operation).workspace.snapshot.fileAt? path =
      some source)
    (isNew : ((new config).run operations).workspace.snapshot.fileAt? path ≠ some source) :
    old.stamp < source.stamp := by
  obtain ⟨file, numbered, precedes⟩ := precedes_of_fileAt? config earlier isOld
  have ordered := (dated_run config operations).ordered
  have numberedNext := (((new config).run operations).continues_perform operation).numbers numbered
  have performed := (ordered.perform operation).regular.coherent.workspace
  rw [performed.fileAt?_eq, numberedNext] at isSource
  rw [ordered.regular.coherent.workspace.fileAt?_eq, numbered] at isNew
  exact precedes.lt_of_turn (ordered.turn operation file) isSource isNew

/-- One step further in a run, unless the run is over. -/
theorem run_take_succ (session : Session) (operations : List Operation) (time : Nat) :
    (∃ operation, session.run (operations.take (time + 1)) =
      (session.run (operations.take time)).perform operation) ∨
    session.run (operations.take (time + 1)) = session.run (operations.take time) := by
  rcases Nat.lt_or_ge time operations.length with below | beyond
  · refine .inl ⟨operations[time], ?_⟩
    rw [List.take_succ_eq_append_getElem below, run_append]
    rfl
  · right
    rw [List.take_of_length_le beyond, List.take_of_length_le (Nat.le_succ_of_le beyond)]

end Session

/-- In every run, whenever the file at a path is replaced, or comes back after a close,
the pair of its version and its resolution is greater than that of every file loaded at
the path before. So two snapshots of a run with the same pair at a path hold the same
file there: the same text, tree, symbols, references, diagnostics and closure. -/
theorem stamp_dates_loaded (config : Config) (operations : List Operation) (path : File.Path) :
    let loaded (time : Nat) : Option SourceFile :=
      ((Session.new config).run (operations.take time)).workspace.snapshot.fileAt? path
    (∀ time source, loaded (time + 1) = some source → loaded time ≠ some source →
      ∀ earlier ≤ time, ∀ old, loaded earlier = some old → old.stamp < source.stamp) ∧
    ∀ left right old source, loaded left = some old → loaded right = some source →
      old.stamp = source.stamp → old = source := by
  intro loaded
  constructor
  · intro time source isSource isNew earlier le old isOld
    rcases (Session.new config).run_take_succ operations time with ⟨operation, next⟩ | isOver
    · have performed : (((Session.new config).run (operations.take time)).perform
          operation).workspace.snapshot.fileAt? path = some source := next ▸ isSource
      exact Session.lt_of_fileAt?_perform config (List.take_prefix_take_left le) isOld operation
        performed isNew
    · have same : loaded (time + 1) = loaded time :=
        congrArg (fun session => session.workspace.snapshot.fileAt? path) isOver
      exact absurd (same.symm.trans isSource) isNew
  · intro left right old source isOld isSource same
    rcases Nat.le_total left right with le | le
    · rcases Session.order_of_fileAt? config (List.take_prefix_take_left le) isOld isSource with
        isSame | later
      · exact isSame.symm
      · exact absurd same (ne_of_lt later)
    · rcases Session.order_of_fileAt? config (List.take_prefix_take_left le) isSource isOld with
        isSame | later
      · exact isSame
      · exact absurd same.symm (ne_of_lt later)

/-- A file is linked again when its import is loaded, and then closed and opened
again. -/
theorem stamp_dates_reopened :
    let operations : List Operation :=
      [.load ⟨"b.g4"⟩ "grammar B; import A;", .load ⟨"a.g4"⟩ "grammar A;", .close ⟨"b.g4"⟩,
        .load ⟨"b.g4"⟩ "grammar B;"]
    let loaded (time : Nat) : Option SourceFile :=
      ((Session.new .standard).run (operations.take time)).workspace.snapshot.fileAt? ⟨"b.g4"⟩
    ∃ linked reopened, loaded 2 = some linked ∧ loaded 4 = some reopened ∧
      linked.stamp = toLex (1, 1) ∧ reopened.stamp = toLex (2, 0) ∧
      linked.stamp < reopened.stamp := by
  intro operations loaded
  have linkedStamp : (loaded 2).map SourceFile.stamp = some (toLex (1, 1)) := by decide +kernel
  have reopenedStamp : (loaded 4).map SourceFile.stamp = some (toLex (2, 0)) := by decide +kernel
  have closed : (loaded 3).isNone = true := by decide +kernel
  obtain ⟨linked, isLinked, linkedAt⟩ := Option.map_eq_some_iff.mp linkedStamp
  obtain ⟨reopened, isReopened, reopenedAt⟩ := Option.map_eq_some_iff.mp reopenedStamp
  have isNew : loaded 3 ≠ some reopened := by
    rw [Option.isNone_iff_eq_none.mp closed]
    exact (Option.some_ne_none _).symm
  exact ⟨linked, reopened, isLinked, isReopened, linkedAt, reopenedAt,
    (stamp_dates_loaded .standard operations ⟨"b.g4"⟩).1 3 reopened isReopened isNew 2
      (by decide) linked isLinked⟩

end GrammarDesk
