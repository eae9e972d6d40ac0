import GrammarDesk.Proofs.File.Order
import GrammarDesk.Proofs.Workspace.Batches

/-!
Contract: which files a workspace reports as changed.

Owns: what it means that a file shows other diagnostics in a later snapshot, and the
proof that the files noted since the last report are those that some operation in
between made so.

Does not own: what the diagnostics are (`Incremental`).

An operation compares the snapshot before it with the one it publishes, and notes a
file that is opened or closed whatever its diagnostics are. So a file is noted exactly
if some operation changed it, even if a later one changed it back.

Main statement: `takeChanged_tells_changes`.
-/

namespace GrammarDesk

namespace Snapshot

/-- Whether a file shows something else in a later snapshot: other diagnostics, or
diagnostics at all where it was not loaded, or none where it was. -/
def Differs (before after : Snapshot) (file : File.Id) : Prop :=
  (before.file? file).map SourceFile.diagnostics ≠ (after.file? file).map SourceFile.diagnostics

/-- All ways in which a file may show something else. -/
theorem Differs.cases {before after : Snapshot} {file : File.Id}
    (differs : before.Differs after file) :
    ((before.file? file).isSome ∧ after.file? file = none) ∨
      (before.file? file = none ∧ (after.file? file).isSome) ∨
      ∃ old new, before.file? file = some old ∧ after.file? file = some new ∧
        old.diagnostics ≠ new.diagnostics := by
  unfold Differs at differs
  cases isOld : before.file? file with
  | none =>
      cases isNew : after.file? file with
      | none => simp [isOld, isNew] at differs
      | some new => exact .inr (.inl ⟨rfl, rfl⟩)
  | some old =>
      cases isNew : after.file? file with
      | none => exact .inl ⟨rfl, rfl⟩
      | some new =>
          refine .inr (.inr ⟨old, new, rfl, rfl, fun same => differs ?_⟩)
          rw [isOld, isNew, Option.map_some, Option.map_some, same]

/-- The diagnostics at a path are those of the file loaded there. -/
theorem diagnosticsAt_eq (snapshot : Snapshot) (path : File.Path) :
    snapshot.diagnosticsAt path =
      ((snapshot.fileAt? path).map SourceFile.diagnostics).getD [] := by
  unfold diagnosticsAt
  cases snapshot.fileAt? path with
  | none => rfl
  | some source => rfl

end Snapshot

namespace Workspace

/-! ## One operation -/

/-- What an operation notes: exactly the files that it makes show something else. -/
structure Notes (before after : Workspace) : Prop where
  mem_changed_iff : ∀ file, file ∈ after.changed ↔
    file ∈ before.changed ∨ before.snapshot.Differs after.snapshot file
  nodup : before.changed.Nodup → after.changed.Nodup

/-- Where nothing is published nothing is noted. -/
theorem notes_of_same {before after : Workspace} (snapshot : after.snapshot = before.snapshot)
    (changed : after.changed = before.changed) :
    Notes before after where
  mem_changed_iff file := by
    rw [changed, snapshot]
    simp [Snapshot.Differs]
  nodup distinct := changed ▸ distinct

/-- What an operation notes after steps that publish nothing. -/
theorem Notes.of_later {before middle after : Workspace} (notes : Notes middle after)
    (snapshot : middle.snapshot = before.snapshot) (changed : middle.changed = before.changed) :
    Notes before after := by
  obtain ⟨members, nodup⟩ := notes
  rw [snapshot, changed] at members
  exact ⟨members, changed ▸ nodup⟩

section Publish

variable {workspace : Workspace} {sources : Sources} {read reached : List File.Id}

theorem nodup_changed_publish :
    (workspace.publish sources read reached).2.changed.Nodup :=
  Graph.nodup_eraseDups _

/-- A publication notes the files it holds that show something else. -/
theorem mem_changed_publish (file : File.Id) :
    file ∈ (workspace.publish sources read reached).2.changed ↔
      file ∈ workspace.changed ∨ (sources.get? file).isSome ∧
        workspace.snapshot.Differs (workspace.publish sources read reached).2.snapshot file := by
  have listed : file ∈ (workspace.publish sources read reached).2.snapshot.files.files ↔
      (sources.get? file).isSome := by
    rw [Option.isSome_iff_exists, ← File.Map.mem_files_iff]
    exact iff_of_eq (congrArg (file ∈ ·) (File.Map.files_map sources _))
  rw [← listed]
  show file ∈ (workspace.changed ++ changedFiles _ _).eraseDups ↔ _
  rw [List.mem_eraseDups, List.mem_append]
  unfold changedFiles
  rw [List.mem_filter, decide_eq_true_iff]
  rfl

/-- A publication that holds every file that was loaded notes all that shows something
else. -/
theorem notes_publish (holds : ∀ file, (workspace.snapshot.file? file).isSome →
      (sources.get? file).isSome) :
    Notes workspace (workspace.publish sources read reached).2 where
  mem_changed_iff file := by
    rw [mem_changed_publish]
    refine or_congr Iff.rfl ⟨And.right, fun differs => ⟨?_, differs⟩⟩
    by_contra absent
    have notLoaded : workspace.snapshot.file? file = none :=
      Option.not_isSome_iff_eq_none.mp fun loaded => absent (holds file loaded)
    apply differs
    rw [notLoaded, file?_publish, Option.not_isSome_iff_eq_none.mp absent]
    rfl
  nodup _ := nodup_changed_publish

end Publish

/-- Files stay loaded when others are taken in. -/
theorem isSome_get?_taken (workspace : Workspace) (batch : List Analysis) {file : File.Id}
    (loaded : (workspace.snapshot.file? file).isSome) :
    ((workspace.taken batch).get? file).isSome := by
  rcases workspace.get?_taken batch file with ⟨analysis, _, _, found⟩ | ⟨_, found⟩
  · rw [found]
    rfl
  · rw [found, Snapshot.get?_sources, Option.isSome_map]
    exact loaded

theorem notes_install (workspace : Workspace) (batch : List Analysis) :
    Notes workspace (workspace.install batch).2 := by
  have published := @notes_publish
    { workspace with counts :=
        { workspace.counts with recomputes := workspace.counts.recomputes + batch.length } }
    (workspace.taken batch)
  exact (published fun _ loaded => workspace.isSome_get?_taken batch loaded).of_later rfl rfl

theorem notes_load (workspace : Workspace) (path : File.Path) (text : String) :
    Notes workspace (workspace.load path text).2 := by
  rw [load_eq]
  split
  · exact notes_of_same rfl rfl
  · exact (notes_install _ _).of_later rfl rfl

/-- Closing a file notes it, and every file that is linked otherwise without it. -/
theorem notes_close (workspace : Workspace) (path : File.Path) :
    Notes workspace (workspace.close path).2 := by
  rw [close_eq]
  split
  · exact notes_of_same rfl rfl
  · rename_i closed _
    split
    · exact notes_of_same rfl rfl
    · rename_i wasLoaded
      refine ⟨fun file => ?_, fun _ => nodup_changed_publish⟩
      have noted : file ∈ (workspace.closing closed).changed ↔
          file ∈ workspace.changed ∨ file = closed := by
        unfold closing
        rw [List.mem_eraseDups, List.mem_append, List.mem_singleton]
      rw [mem_changed_publish, noted, or_assoc]
      refine or_congr Iff.rfl ?_
      unfold Snapshot.Differs
      rw [file?_publish, File.Map.get?_erase]
      by_cases here : file = closed
      · subst here
        rw [if_pos rfl]
        simpa [Option.isNone_iff_eq_none] using wasLoaded
      · rw [if_neg here, Snapshot.get?_sources, Option.isSome_map]
        show (_ ∨ _ ∧ (Option.map _ (workspace.snapshot.file? file)) ≠ _) ↔ _
        cases workspace.snapshot.file? file with
        | none => simp [here]
        | some source => simp [here]

theorem notes_start (workspace : Workspace) (now : Option Nat) :
    Notes workspace (workspace.start now).2 := by
  apply notes_of_same
  · exact workspace.snapshot_start now
  · unfold start
    rw [startJobs_eq]

theorem notes_commit (workspace : Workspace) (outcomes : List Outcome) :
    Notes workspace (workspace.commit outcomes).2 := by
  rw [commit_eq]
  apply (notes_install _ _).of_later
  · unfold settled
    rw [settle_eq]
  · unfold settled
    rw [settle_eq]

theorem notes_flush (workspace : Workspace) (now : Option Nat) :
    Notes workspace (workspace.flush now).2 := by
  rcases workspace.flush_cases now with onlyStarted | ⟨outcomes, _, flushed⟩
  · rw [onlyStarted]
    exact workspace.notes_start now
  · rw [flushed]
    apply (notes_commit _ outcomes).of_later
    · exact workspace.snapshot_start now
    · unfold start
      rw [startJobs_eq]

/-! ## Files that are given up -/

theorem isSome_file?_install (workspace : Workspace) (batch : List Analysis) {file : File.Id}
    (loaded : (workspace.snapshot.file? file).isSome) :
    ((workspace.install batch).2.snapshot.file? file).isSome := by
  unfold install
  rw [file?_publish, Option.isSome_map]
  exact workspace.isSome_get?_taken batch loaded

theorem isSome_file?_load (workspace : Workspace) (path : File.Path) (text : String)
    {file : File.Id} (loaded : (workspace.snapshot.file? file).isSome) :
    ((workspace.load path text).2.snapshot.file? file).isSome := by
  rw [load_eq]
  split
  · exact loaded
  · exact isSome_file?_install _ _ loaded

theorem isSome_file?_commit (workspace : Workspace) (outcomes : List Outcome)
    {file : File.Id} (loaded : (workspace.snapshot.file? file).isSome) :
    ((workspace.commit outcomes).2.snapshot.file? file).isSome := by
  rw [commit_eq]
  apply isSome_file?_install
  unfold settled
  rw [settle_eq]
  exact loaded

theorem isSome_file?_flush (workspace : Workspace) (now : Option Nat)
    {file : File.Id} (loaded : (workspace.snapshot.file? file).isSome) :
    ((workspace.flush now).2.snapshot.file? file).isSome := by
  rcases workspace.flush_cases now with onlyStarted | ⟨outcomes, _, flushed⟩
  · rw [onlyStarted, snapshot_start]
    exact loaded
  · rw [flushed]
    apply isSome_file?_commit
    rw [snapshot_start]
    exact loaded

/-- A close gives up the file that its path names and no other. -/
theorem id?_of_gone_close {workspace : Workspace} {path : File.Path} {file : File.Id}
    (loaded : (workspace.snapshot.file? file).isSome)
    (gone : (workspace.close path).2.snapshot.file? file = none) :
    workspace.table.id? path = some file := by
  rw [close_eq] at gone
  split at gone
  · simp [gone] at loaded
  · rename_i closed numbered
    split at gone
    · have kept : workspace.snapshot.file? file = none := gone
      simp [kept] at loaded
    · rw [file?_publish, Option.map_eq_none_iff, File.Map.get?_erase] at gone
      by_cases here : file = closed
      · exact here ▸ numbered
      · rw [if_neg here, Snapshot.get?_sources, Option.map_eq_none_iff] at gone
        simp [gone] at loaded

end Workspace

/-! ## Runs -/

namespace Session

/-- What every operation notes, other than the report itself. -/
theorem notes_perform (session : Session) {operation : Operation}
    (quiet : operation ≠ .takeChanged) :
    Workspace.Notes session.workspace (session.perform operation).workspace := by
  cases operation with
  | load path text => exact Workspace.notes_load _ path text
  | edit path text now => exact Workspace.notes_of_same rfl rfl
  | close path => exact Workspace.notes_close _ path
  | start now => exact Workspace.notes_start _ now
  | compute number =>
      rcases session.perform_compute_cases number with same | ⟨_, _, computed⟩
      · rw [same]
        exact Workspace.notes_of_same rfl rfl
      · rw [computed]
        exact Workspace.notes_of_same rfl rfl
  | commit number =>
      rcases session.perform_commit_cases number with same | ⟨_, outcomes, _, committed⟩
      · rw [same]
        exact Workspace.notes_of_same rfl rfl
      · rw [committed]
        exact Workspace.notes_commit _ outcomes
  | flush now => exact Workspace.notes_flush _ now
  | takeChanged => exact absurd rfl quiet

/-- Only a close gives up a file. -/
theorem close_of_gone {session : Session} {operation : Operation} {file : File.Id}
    (loaded : (session.workspace.snapshot.file? file).isSome)
    (gone : (session.perform operation).workspace.snapshot.file? file = none) :
    ∃ path, operation = .close path ∧ session.workspace.table.id? path = some file := by
  have notGone : ((session.perform operation).workspace.snapshot.file? file).isSome ≠ true := by
    rw [gone]
    decide
  cases operation with
  | load path text => exact absurd (Workspace.isSome_file?_load _ path text loaded) notGone
  | edit path text now => exact absurd loaded notGone
  | close path => exact ⟨path, rfl, Workspace.id?_of_gone_close loaded gone⟩
  | start now =>
      have same : (session.perform (.start now)).workspace.snapshot = session.workspace.snapshot :=
        session.workspace.snapshot_start now
      exact absurd (same ▸ loaded) notGone
  | compute number =>
      rcases session.perform_compute_cases number with same | ⟨_, _, computed⟩
      · rw [same] at notGone
        exact absurd loaded notGone
      · rw [computed] at notGone
        exact absurd loaded notGone
  | commit number =>
      rcases session.perform_commit_cases number with same | ⟨_, outcomes, _, committed⟩
      · rw [same] at notGone
        exact absurd loaded notGone
      · rw [committed] at notGone
        exact absurd (Workspace.isSome_file?_commit _ outcomes loaded) notGone
  | flush now => exact absurd (Workspace.isSome_file?_flush _ now loaded) notGone
  | takeChanged => exact absurd loaded notGone

/-- Whether an operation of a run makes a file show something else. -/
def Turned (session : Session) (operations : List Operation) (file : File.Id) : Prop :=
  ∃ early operation late, operations = early ++ operation :: late ∧
    (session.run early).workspace.snapshot.Differs
      ((session.run early).perform operation).workspace.snapshot file

/-- A file turned in a run if it did in the first operation or in a later one. -/
theorem turned_cons_iff (session : Session) (operation : Operation) (rest : List Operation)
    (file : File.Id) :
    session.Turned (operation :: rest) file ↔
      session.workspace.snapshot.Differs (session.perform operation).workspace.snapshot file ∨
        (session.perform operation).Turned rest file := by
  constructor
  · rintro ⟨early, turning, late, split, differs⟩
    cases early with
    | nil =>
        obtain ⟨rfl, rfl⟩ := List.cons.inj split
        exact .inl differs
    | cons first early =>
        obtain ⟨rfl, rfl⟩ := List.cons.inj split
        exact .inr ⟨early, turning, late, rfl, differs⟩
  · rintro (now | ⟨early, turning, late, rfl, differs⟩)
    · exact ⟨[], operation, rest, rfl, now⟩
    · exact ⟨operation :: early, turning, late, rfl, differs⟩

theorem not_turned_nil (session : Session) (file : File.Id) : ¬ session.Turned [] file := by
  rintro ⟨early, operation, late, split, _⟩
  simp at split

/-- After a run without a report, exactly those files are noted that were noted before,
or that some operation of the run turned. -/
theorem mem_changed_run (session : Session) {operations : List Operation}
    (quiet : .takeChanged ∉ operations) (file : File.Id) :
    file ∈ (session.run operations).workspace.changed ↔
      file ∈ session.workspace.changed ∨ session.Turned operations file := by
  induction operations generalizing session with
  | nil => simp [not_turned_nil]
  | cons operation rest inductionHypothesis =>
      obtain ⟨isQuiet, restQuiet⟩ := List.ne_and_not_mem_of_not_mem_cons quiet
      rw [run_cons, inductionHypothesis _ restQuiet, turned_cons_iff,
        (session.notes_perform isQuiet.symm).mem_changed_iff, or_assoc]

theorem nodup_changed_run (session : Session) {operations : List Operation}
    (quiet : .takeChanged ∉ operations) (distinct : session.workspace.changed.Nodup) :
    (session.run operations).workspace.changed.Nodup := by
  induction operations generalizing session with
  | nil => exact distinct
  | cons operation rest inductionHypothesis =>
      obtain ⟨isQuiet, restQuiet⟩ := List.ne_and_not_mem_of_not_mem_cons quiet
      exact inductionHypothesis _ restQuiet ((session.notes_perform isQuiet.symm).nodup distinct)

/-- A file that shows something else after a run was turned by some operation of it. -/
theorem turned_of_differs {session : Session} {operations : List Operation} {file : File.Id}
    (differs : session.workspace.snapshot.Differs
      (session.run operations).workspace.snapshot file) :
    session.Turned operations file := by
  induction operations generalizing session with
  | nil => exact absurd rfl differs
  | cons operation rest inductionHypothesis =>
      rw [turned_cons_iff]
      by_cases now : session.workspace.snapshot.Differs
          (session.perform operation).workspace.snapshot file
      · exact .inl now
      · refine .inr (inductionHypothesis fun same => differs ?_)
        exact (not_not.mp now).trans same

end Session

namespace Workspace

/-- What is reported ascends and names no file twice. -/
theorem pairwise_takeChanged {workspace : Workspace} (distinct : workspace.changed.Nodup) :
    workspace.takeChanged.1.Pairwise fun left right =>
      left.atMost right = true ∧ left.same right = false := by
  apply File.Path.pairwise_mergeSort_of_distinct
  rw [List.pairwise_filterMap]
  refine distinct.imp fun {left right} different path atLeft other atRight => ?_
  by_contra same
  exact different (workspace.table.eq_of_same atLeft atRight (Bool.not_eq_false _ ▸ same))

theorem mem_takeChanged_iff (workspace : Workspace) (path : File.Path) :
    path ∈ workspace.takeChanged.1 ↔
      ∃ file ∈ workspace.changed, workspace.table.path? file = some path := by
  unfold takeChanged
  rw [List.mem_mergeSort, List.mem_filterMap]

end Workspace

/-! ## Reports -/

/-- How an operation makes a path show something else: it closes it, or loads it where
it was not loaded, or gives it other diagnostics. -/
inductive Turns (before after : Session) (operation : Operation) (path : File.Path) : Prop where
  | closed (spelling : File.Path) (isClose : operation = .close spelling)
      (names : path.same spelling = true)
      (wasLoaded : (before.workspace.snapshot.fileAt? path).isSome)
      (gone : after.workspace.snapshot.fileAt? path = none)
  | opened (notLoaded : before.workspace.snapshot.fileAt? path = none)
      (loaded : (after.workspace.snapshot.fileAt? path).isSome)
  | rediagnosed (old new : SourceFile)
      (wasLoaded : before.workspace.snapshot.fileAt? path = some old)
      (loaded : after.workspace.snapshot.fileAt? path = some new)
      (differ : old.diagnostics ≠ new.diagnostics)

namespace Session

variable {session : Session} {path : File.Path} {file : File.Id}

theorem Coherent.run (coherent : session.Coherent) (operations : List Operation) :
    (session.run operations).Coherent :=
  @run_forall Coherent (fun _ operation holds => holds.perform operation) _ coherent operations

/-- What an operation does to a file it does to the path that has its number, now or
later. -/
theorem Coherent.turns_of_differs (coherent : session.Coherent) (operation : Operation)
    {later : Workspace}
    (continues : Workspace.Continues (session.perform operation).workspace later)
    (numbered : later.table.id? path = some file)
    (differs : session.workspace.snapshot.Differs
      (session.perform operation).workspace.snapshot file) :
    Turns session (session.perform operation) operation path := by
  have fromSession := (session.continues_perform operation).trans continues
  have atOld := coherent.workspace.fileAt?_of_later fromSession numbered
  have atNew := (coherent.perform operation).workspace.fileAt?_of_later continues numbered
  rcases differs.cases with
    ⟨wasLoaded, gone⟩ | ⟨notLoaded, loaded⟩ | ⟨old, new, wasLoaded, loaded, differ⟩
  · obtain ⟨spelling, isClose, closed⟩ := close_of_gone wasLoaded gone
    have names := later.table.same_of_id? numbered (fromSession.numbers closed)
    exact .closed spelling isClose names (atOld ▸ wasLoaded) (atNew.trans gone)
  · exact .opened (atOld.trans notLoaded) (atNew ▸ loaded)
  · exact .rediagnosed old new (atOld.trans wasLoaded) (atNew.trans loaded) differ

/-- A path with other diagnostics after a run has the number of a file that shows
something else. -/
theorem Coherent.differs_of_diagnosticsAt (coherent : session.Coherent)
    {operations : List Operation}
    (differ : session.workspace.snapshot.diagnosticsAt path ≠
      (session.run operations).workspace.snapshot.diagnosticsAt path) :
    ∃ file, (session.run operations).workspace.table.id? path = some file ∧
      session.workspace.snapshot.Differs (session.run operations).workspace.snapshot file := by
  have later := coherent.run operations
  have continues := session.continues_run operations
  cases numbered : (session.run operations).workspace.table.id? path with
  | none =>
      -- a path without a number is loaded neither before nor after
      have unknown : session.workspace.table.id? path = none := by
        cases known : session.workspace.table.id? path with
        | none => rfl
        | some file =>
            rw [continues.numbers known] at numbered
            cases numbered
      have notLoaded : session.workspace.snapshot.fileAt? path = none := by
        rw [coherent.workspace.fileAt?_eq, unknown]
        rfl
      have stillNot : (session.run operations).workspace.snapshot.fileAt? path = none := by
        rw [later.workspace.fileAt?_eq, numbered]
        rfl
      rw [Snapshot.diagnosticsAt_eq, Snapshot.diagnosticsAt_eq, notLoaded, stillNot] at differ
      exact absurd rfl differ
  | some file =>
      refine ⟨file, rfl, fun same => differ ?_⟩
      have atOld := coherent.workspace.fileAt?_of_later continues numbered
      have atNew := later.workspace.fileAt?_of_later (.refl _) numbered
      rw [Snapshot.diagnosticsAt_eq, Snapshot.diagnosticsAt_eq, atOld, atNew, same]

end Session

/-- A report of changed files is complete and honest. It names every path whose
diagnostics differ from those at the report before, and each path that it names was in
between closed, or loaded while not loaded before, or given other diagnostics than just
before. Its paths ascend, and no two of them name one file. -/
theorem takeChanged_tells_changes (config : Config) (before between : List Operation)
    (quiet : .takeChanged ∉ between) :
    let first := (Session.new config).run (before ++ [.takeChanged])
    let second := first.run between
    let told := second.workspace.takeChanged.1
    (∀ path, first.workspace.snapshot.diagnosticsAt path ≠
        second.workspace.snapshot.diagnosticsAt path →
      ∃ listed ∈ told, path.same listed = true) ∧
    (∀ path ∈ told, ∃ early operation late, between = early ++ operation :: late ∧
      Turns (first.run early) ((first.run early).perform operation) operation path) ∧
    told.Pairwise fun left right => left.atMost right = true ∧ left.same right = false := by
  intro first second told
  have coherent : first.Coherent := Session.coherent_run config _
  have nothingNoted : first.workspace.changed = [] := by
    show ((Session.new config).run (before ++ [.takeChanged])).workspace.changed = []
    rw [Session.run_append]
    rfl
  have noted : ∀ file, file ∈ second.workspace.changed ↔ first.Turned between file := by
    intro file
    rw [first.mem_changed_run quiet file, nothingNoted]
    simp
  refine ⟨fun path differ => ?_, fun path among => ?_, ?_⟩
  · obtain ⟨file, numbered, differs⟩ := coherent.differs_of_diagnosticsAt differ
    obtain ⟨listed, atFile, names⟩ := (File.Table.id?_eq_some_iff _ path file).mp numbered
    have isNoted := (noted file).mpr (Session.turned_of_differs differs)
    exact ⟨listed, (Workspace.mem_takeChanged_iff _ _).mpr ⟨file, isNoted, atFile⟩, names⟩
  · obtain ⟨file, isNoted, atFile⟩ := (Workspace.mem_takeChanged_iff _ _).mp among
    have numbered : second.workspace.table.id? path = some file :=
      (File.Table.id?_eq_some_iff _ path file).mpr ⟨path, atFile, path.same_refl⟩
    obtain ⟨early, operation, late, split, differs⟩ := (noted file).mp isNoted
    have isSecond : second = ((first.run early).perform operation).run late := by
      show first.run between = _
      rw [split, Session.run_append, Session.run_cons]
    refine ⟨early, operation, late, split,
      (coherent.run early).turns_of_differs operation ?_ numbered differs⟩
    rw [isSecond]
    exact Session.continues_run _ late
  · apply Workspace.pairwise_takeChanged
    exact first.nodup_changed_run quiet (nothingNoted ▸ .nil)

/-- A file that was opened and closed again between two reports is told by the second,
though it has no diagnostics at either. -/
theorem takeChanged_tells_reopened :
    let between : List Operation :=
      [.load ⟨"b.g4"⟩ "grammar B; import A; b : a ;", .close ⟨"./b.g4"⟩]
    let first :=
      (Session.new .standard).run ([.load ⟨"b.g4"⟩ "grammar B;", .close ⟨"b.g4"⟩] ++ [.takeChanged])
    .takeChanged ∉ between ∧ ⟨"b.g4"⟩ ∈ (first.run between).workspace.takeChanged.1 ∧
      ∃ early operation late, between = early ++ operation :: late ∧
        Turns (first.run early) ((first.run early).perform operation) operation ⟨"b.g4"⟩ := by
  intro between first
  have quiet : .takeChanged ∉ between := by decide
  obtain ⟨_, honest, _⟩ := takeChanged_tells_changes .standard
    [.load ⟨"b.g4"⟩ "grammar B;", .close ⟨"b.g4"⟩] between quiet
  have told : ⟨"b.g4"⟩ ∈ (first.run between).workspace.takeChanged.1 :=
    (Workspace.mem_takeChanged_iff _ _).mpr ⟨0, by decide +kernel, by decide +kernel⟩
  exact ⟨quiet, told, honest _ told⟩

end GrammarDesk
