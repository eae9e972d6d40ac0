import GrammarDesk.Proofs.Edit.Machine
import GrammarDesk.Proofs.Workspace.Session

/-!
Contract: what the operations on a workspace mean for the edits of one file.

Owns: which operations touch a path, and for every operation the events it causes in
the edits of a file.

Does not own: what the events do (`Edit`).

Main statements: `editsOf_of_touches`, `spares_of_not_touches`.
-/

namespace GrammarDesk

open Edit

namespace Operation

/-- Whether an operation loads, edits or closes the file that a path names. A load
touches the file even if its text cannot be read. -/
def touches (path : File.Path) : Operation → Bool
  | .load other _ | .edit other _ _ | .close other => path.same other
  | .start _ | .compute _ | .commit _ | .flush _ | .takeChanged => false

end Operation

namespace Workspace

/-! ## Parts of operations -/

theorem editsOf_of_edits_eq {left right : Workspace} (same : left.edits = right.edits)
    (file : File.Id) :
    left.editsOf file = right.editsOf file := by
  unfold editsOf
  rw [same]

/-- Forgetting the work on a file resets its edits, if it ever had any. -/
theorem editsOf_resetEdits (workspace : Workspace) (file other : File.Id) :
    (other ≠ file ∧ (workspace.resetEdits file).editsOf other = workspace.editsOf other) ∨
      (other = file ∧ (workspace.resetEdits file).editsOf other =
        (workspace.editsOf other).after .reset) ∨
      (other = file ∧ workspace.editsOf other = .new ∧
        (workspace.resetEdits file).editsOf other = .new) := by
  unfold editsOf resetEdits
  rw [File.Map.get?_modify]
  by_cases same : other = file
  · subst same
    rw [if_pos rfl]
    cases workspace.edits.get? other with
    | none => exact .inr (.inr ⟨rfl, rfl, rfl⟩)
    | some state => exact .inr (.inl ⟨rfl, rfl⟩)
  · rw [if_neg same]
    exact .inl ⟨same, rfl⟩

theorem editsOf_resetEdits_of_ne (workspace : Workspace) {file other : File.Id}
    (different : other ≠ file) :
    (workspace.resetEdits file).editsOf other = workspace.editsOf other := by
  rcases workspace.editsOf_resetEdits file other with ⟨_, same⟩ | ⟨isFile, _⟩ | ⟨isFile, _, _⟩
  · exact same
  · exact absurd isFile different
  · exact absurd isFile different

theorem editsOf_arrive (workspace : Workspace) (outcome : Outcome) (file : File.Id) :
    (workspace.arrive outcome).editsOf file =
      if file = outcome.file then
        (workspace.editsOf file).after (.complete outcome.generation)
      else
        workspace.editsOf file := by
  unfold editsOf arrive
  rw [File.Map.get?_modify]
  by_cases same : file = outcome.file
  · subst same
    rw [if_pos rfl, if_pos rfl]
    unfold editsOf
    cases workspace.edits.get? outcome.file with
    | some state => rfl
    | none =>
        -- a file without edits has no ticket in flight
        show State.new = (State.new.complete outcome.generation).2
        rw [State.complete_eq]
        rfl
  · rw [if_neg same, if_neg same]

def arrivals (outcomes : List Outcome) (file : File.Id) : List Event :=
  (outcomes.filter fun outcome => outcome.file = file).map fun outcome =>
    .complete outcome.generation

theorem mem_arrivals {outcomes : List Outcome} {file : File.Id} {event : Event}
    (arrival : event ∈ arrivals outcomes file) :
    ∃ outcome ∈ outcomes, outcome.file = file ∧ event = .complete outcome.generation := by
  obtain ⟨outcome, among, rfl⟩ := List.mem_map.mp arrival
  obtain ⟨among, isFile⟩ := List.mem_filter.mp among
  exact ⟨outcome, among, of_decide_eq_true isFile, rfl⟩

/-- The edits of a file see the arrivals for it, in the order of the outcomes, and nothing
else. -/
theorem editsOf_settle (workspace : Workspace) (outcomes : List Outcome) (file : File.Id) :
    (workspace.settle outcomes).2.2.editsOf file =
      (arrivals outcomes file).foldl State.after (workspace.editsOf file) := by
  induction outcomes generalizing workspace with
  | nil => rfl
  | cons outcome rest inductionHypothesis =>
      have last : (workspace.settle (outcome :: rest)).2.2 =
          ((workspace.arrive outcome).settle rest).2.2 := by
        rw [settle_cons]
        cases workspace.accepts outcome with
        | none => rfl
        | some analysis => rfl
      rw [last, inductionHypothesis, editsOf_arrive]
      unfold arrivals
      by_cases same : outcome.file = file
      · rw [if_pos same.symm, List.filter_cons_of_pos (by simpa using same)]
        rfl
      · rw [if_neg (Ne.symm same), List.filter_cons_of_neg (by simpa using same)]

theorem editsOf_commit (workspace : Workspace) (outcomes : List Outcome) (file : File.Id) :
    (workspace.commit outcomes).2.editsOf file =
      (arrivals outcomes file).foldl State.after (workspace.editsOf file) :=
  (editsOf_of_edits_eq rfl file).trans (workspace.editsOf_settle outcomes file)

/-- Starting a job starts the edits of its file and leaves those of the others alone. -/
theorem editsOf_startJob? {workspace started : Workspace} {file : File.Id} {job : Job}
    (starts : workspace.startJob? file = some (job, started)) (other : File.Id) :
    (other ≠ file ∧ started.editsOf other = workspace.editsOf other) ∨
      (other = file ∧
        (workspace.editsOf other).start? = some (job.ticket, started.editsOf other)) := by
  obtain ⟨ticket, state, begins, _, isJob, rfl⟩ := startJob?_eq starts
  unfold editsOf
  rw [File.Map.get?_put]
  by_cases same : other = file
  · subst same
    rw [if_pos rfl, isJob]
    exact .inr ⟨rfl, begins⟩
  · rw [if_neg same]
    exact .inl ⟨same, rfl⟩

theorem after_start {state started : State} {ticket : Ticket}
    (starts : state.start? = some (ticket, started)) :
    state.after .start = started := by
  unfold State.after
  rw [starts]

/-- Starting jobs does nothing else to the edits of a file. -/
theorem editsOf_startJobs (workspace : Workspace) (files : List File.Id) (file : File.Id) :
    ∃ events : List Event, (∀ event ∈ events, event = .start) ∧
      (workspace.startJobs files).2.editsOf file =
        events.foldl State.after (workspace.editsOf file) := by
  induction files generalizing workspace with
  | nil => exact ⟨[], fun event member => absurd member List.not_mem_nil, rfl⟩
  | cons first rest inductionHypothesis =>
      unfold startJobs
      split
      · exact inductionHypothesis workspace
      · rename_i job started starts
        obtain ⟨events, onlyStarts, later⟩ := inductionHypothesis started
        rcases editsOf_startJob? starts file with ⟨_, same⟩ | ⟨_, begins⟩
        · exact ⟨events, onlyStarts, by rw [← same]; exact later⟩
        · refine ⟨.start :: events, List.forall_mem_cons.mpr ⟨rfl, onlyStarts⟩, ?_⟩
          rw [List.foldl_cons, after_start begins]
          exact later

theorem editsOf_startJobs_of_not_mem (workspace : Workspace) {files : List File.Id}
    {file : File.Id} (others : file ∉ files) :
    (workspace.startJobs files).2.editsOf file = workspace.editsOf file := by
  induction files generalizing workspace with
  | nil => rfl
  | cons first rest inductionHypothesis =>
      obtain ⟨notFirst, notRest⟩ := List.ne_and_not_mem_of_not_mem_cons others
      unfold startJobs
      split
      · exact inductionHypothesis _ notRest
      · rename_i job started starts
        rcases editsOf_startJob? starts file with ⟨_, same⟩ | ⟨isFirst, _⟩
        · exact (inductionHypothesis _ notRest).trans same
        · exact absurd isFirst notFirst

/-- The files of the jobs of a batch are among those it was started for, in order. -/
theorem files_startJobs_sublist (workspace : Workspace) (files : List File.Id) :
    ((workspace.startJobs files).1.map Job.file).Sublist files := by
  induction files generalizing workspace with
  | nil => exact .slnil
  | cons first rest inductionHypothesis =>
      unfold startJobs
      split
      · exact (inductionHypothesis workspace).cons first
      · rename_i job started starts
        obtain ⟨ticket, state, _, _, isJob, _⟩ := startJob?_eq starts
        have isFirst : job.file = first := by rw [isJob]
        have later := (inductionHypothesis started).cons_cons job.file
        rw [isFirst] at later
        show (job.file :: _).Sublist _
        rw [isFirst]
        exact later

/-- The ticket of every job comes from the edits of its file. -/
theorem start?_of_mem_startJobs {workspace : Workspace} {files : List File.Id} {job : Job}
    (once : files.Nodup) (member : job ∈ (workspace.startJobs files).1) :
    (workspace.editsOf job.file).start? =
      some (job.ticket, (workspace.startJobs files).2.editsOf job.file) := by
  induction files generalizing workspace with
  | nil => exact absurd member List.not_mem_nil
  | cons first rest inductionHypothesis =>
      obtain ⟨notAgain, onceLater⟩ := List.nodup_cons.mp once
      unfold startJobs at member ⊢
      split at member
      · exact inductionHypothesis onceLater member
      · rename_i firstJob started starts
        rcases List.mem_cons.mp member with rfl | later
        · rcases editsOf_startJob? starts job.file with ⟨notFirst, _⟩ | ⟨isFirst, begins⟩
          · obtain ⟨_, _, _, _, isJob, _⟩ := startJob?_eq starts
            exact absurd (congrArg Job.file isJob) notFirst
          · have kept := editsOf_startJobs_of_not_mem started (isFirst ▸ notAgain)
            rw [begins, kept]
        · have among := (files_startJobs_sublist started rest).subset (List.mem_map_of_mem later)
          have begins := inductionHypothesis onceLater later
          rcases editsOf_startJob? starts job.file with ⟨_, same⟩ | ⟨isFirst, _⟩
          · rw [← same]
            exact begins
          · exact absurd (isFirst ▸ among) notAgain

theorem nodup_due (workspace : Workspace) (now : Option Nat) : (workspace.due now).Nodup :=
  (workspace.edits.files_ascending.imp Nat.ne_of_lt).filter _

theorem of_read? {workspace : Workspace} {job : Job} {outcome : Outcome}
    (read : workspace.read? job = some outcome) :
    outcome.file = job.file ∧ outcome.generation = job.ticket.generation := by
  rw [read?_eq] at read
  split at read
  · cases read
    exact ⟨rfl, rfl⟩
  · obtain ⟨analysis, _, rfl⟩ := Option.map_eq_some_iff.mp read
    exact ⟨rfl, rfl⟩

/-! ## Whole operations -/

theorem table_load (workspace : Workspace) (path : File.Path) (text : String) :
    (workspace.load path text).2.table = (workspace.table.intern path).2 := by
  rw [load_eq]
  split
  · rfl
  · rfl

theorem editsOf_load (workspace : Workspace) (path : File.Path) (text : String)
    (file : File.Id) :
    (workspace.load path text).2.editsOf file =
      (workspace.resetEdits (workspace.table.intern path).1).editsOf file := by
  rw [load_eq]
  split
  · rfl
  · rfl

theorem editsOf_edit (workspace : Workspace) (path : File.Path) (text : String) (now : Nat)
    (file : File.Id) :
    (workspace.edit path text now).editsOf file =
      if file = (workspace.table.intern path).1 then
        (workspace.editsOf file).after (.edit text (now + workspace.config.debounce))
      else
        workspace.editsOf file := by
  show ((workspace.edits.put (workspace.table.intern path).1
    ((workspace.editsOf (workspace.table.intern path).1).edit text
      (now + workspace.config.debounce))).get? file).getD .new = _
  rw [File.Map.get?_put]
  by_cases same : file = (workspace.table.intern path).1
  · rw [if_pos same, if_pos same, same]
    rfl
  · rw [if_neg same, if_neg same]
    rfl

/-- Closing a file resets its edits, also when it is not loaded. -/
theorem editsOf_close (workspace : Workspace) (path : File.Path) (file : File.Id) :
    (workspace.close path).2.editsOf file =
      match workspace.table.id? path with
      | none => workspace.editsOf file
      | some closed => (workspace.resetEdits closed).editsOf file := by
  unfold close
  cases workspace.table.id? path with
  | none => rfl
  | some closed =>
      dsimp only
      split
      · rfl
      · rfl

theorem table_close (workspace : Workspace) (path : File.Path) :
    (workspace.close path).2.table = workspace.table := by
  unfold close
  cases workspace.table.id? path with
  | none => rfl
  | some closed =>
      dsimp only
      split
      · rfl
      · rfl

theorem table_start (workspace : Workspace) (now : Option Nat) :
    (workspace.start now).2.table = workspace.table := by
  unfold start
  rw [startJobs_eq]

theorem table_commit (workspace : Workspace) (outcomes : List Outcome) :
    (workspace.commit outcomes).2.table = workspace.table := by
  show (workspace.settle outcomes).2.2.table = _
  rw [settle_eq]

theorem table_flush (workspace : Workspace) (now : Option Nat) :
    (workspace.flush now).2.table = workspace.table := by
  have started := workspace.table_start now
  rcases workspace.flush_cases now with onlyStarted | ⟨outcomes, _, flushed⟩
  · rw [onlyStarted, started]
  · rw [flushed, table_commit, started]

/-- What a flush does to the edits of a file: it may start a recompute, and the results
that then arrive are for tickets that were not given out before. -/
theorem editsOf_flush (workspace : Workspace) (now : Option Nat) (file : File.Id) :
    ∃ events : List Event,
      (∀ event ∈ events, event = .start ∨
        ∃ generation, event = .complete generation ∧
          (workspace.editsOf file).generation < generation) ∧
      (workspace.flush now).2.editsOf file =
        events.foldl State.after (workspace.editsOf file) := by
  obtain ⟨starts, onlyStarts, started⟩ := workspace.editsOf_startJobs (workspace.due now) file
  have tickets : ∀ job ∈ (workspace.start now).1, job.file = file →
      (workspace.editsOf file).generation < job.ticket.generation := by
    rintro job member rfl
    have begins := start?_of_mem_startJobs (workspace.nodup_due now) member
    obtain ⟨_, next, _⟩ := State.start?_eq_some begins
    omega
  change (workspace.start now).2.editsOf file = _ at started
  rcases workspace.flush_cases now with onlyStarted | ⟨outcomes, computed, flushed⟩
  · rw [onlyStarted]
    exact ⟨starts, fun event member => .inl (onlyStarts event member), started⟩
  · refine ⟨starts ++ arrivals outcomes file, fun event member => ?_, ?_⟩
    · rcases List.mem_append.mp member with isStart | arrival
      · exact .inl (onlyStarts event isStart)
      · obtain ⟨outcome, among, isFile, rfl⟩ := mem_arrivals arrival
        obtain ⟨job, isJob, read⟩ := mem_of_compute? computed among
        obtain ⟨sameFile, sameGeneration⟩ := of_read? read
        refine .inr ⟨outcome.generation, rfl, ?_⟩
        rw [sameGeneration]
        exact tickets job isJob (sameFile.symm.trans isFile)
    · rw [flushed, editsOf_commit, List.foldl_append, started]

end Workspace

namespace Session

open Workspace

/-- Whatever an operation does to the edits of a file, it does by events. -/
theorem editsOf_perform (session : Session) (operation : Operation) (file : File.Id) :
    ∃ events : List Event,
      (session.perform operation).workspace.editsOf file =
        events.foldl State.after (session.workspace.editsOf file) := by
  have reset : ∀ number, ∃ events : List Event,
      (session.workspace.resetEdits number).editsOf file =
        events.foldl State.after (session.workspace.editsOf file) := by
    intro number
    rcases session.workspace.editsOf_resetEdits number file with
      ⟨_, same⟩ | ⟨_, isReset⟩ | ⟨_, isNew, staysNew⟩
    · exact ⟨[], same⟩
    · exact ⟨[.reset], isReset⟩
    · exact ⟨[], staysNew.trans isNew.symm⟩
  cases operation with
  | load path text =>
      obtain ⟨events, isReset⟩ := reset (session.workspace.table.intern path).1
      exact ⟨events, (session.workspace.editsOf_load path text file).trans isReset⟩
  | edit path text now =>
      have edited := session.workspace.editsOf_edit path text now file
      split at edited
      · exact ⟨[.edit text (now + session.workspace.config.debounce)], edited⟩
      · exact ⟨[], edited⟩
  | close path =>
      have closed := session.workspace.editsOf_close path file
      split at closed
      · exact ⟨[], closed⟩
      · rename_i number _
        obtain ⟨events, isReset⟩ := reset number
        exact ⟨events, closed.trans isReset⟩
  | start now =>
      obtain ⟨events, _, started⟩ :=
        session.workspace.editsOf_startJobs (session.workspace.due now) file
      exact ⟨events, started⟩
  | compute number =>
      rcases session.perform_compute_cases number with same | ⟨_, _, computed⟩
      · exact ⟨[], by rw [same]; rfl⟩
      · exact ⟨[], by rw [computed]; rfl⟩
  | commit number =>
      rcases session.perform_commit_cases number with same | ⟨_, outcomes, _, committed⟩
      · exact ⟨[], by rw [same]; rfl⟩
      · rw [committed]
        exact ⟨arrivals outcomes file, session.workspace.editsOf_commit outcomes file⟩
  | flush now =>
      obtain ⟨events, _, flushed⟩ := session.workspace.editsOf_flush now file
      exact ⟨events, flushed⟩
  | takeChanged => exact ⟨[], rfl⟩

/-- An operation hands in the result for a ticket of a file. -/
def Delivers (session : Session) (operation : Operation) (file : File.Id) (generation : Nat) :
    Prop :=
  ∃ number jobs outcomes, operation = .commit number ∧
    session.batches[number]? = some (.computed jobs outcomes) ∧
    ∃ outcome ∈ outcomes, outcome.file = file ∧ outcome.generation = generation

/-- An operation that touches a path makes its text pending if it is an edit, and else
forgets all work on earlier texts. -/
theorem editsOf_of_touches {session : Session} {operation : Operation} {path : File.Path}
    {file : File.Id} (touches : operation.touches path = true)
    (numbered : (session.perform operation).workspace.table.id? path = some file) :
    (∃ other text now deadline, operation = .edit other text now ∧
      (session.perform operation).workspace.editsOf file =
        (session.workspace.editsOf file).after (.edit text deadline)) ∨
    (session.perform operation).workspace.editsOf file =
      (session.workspace.editsOf file).after .reset ∨
    session.workspace.editsOf file = .new ∧
      (session.perform operation).workspace.editsOf file = .new := by
  cases operation with
  | load other text =>
      have isFile : file = (session.workspace.table.intern other).1 := by
        change (session.workspace.load other text).2.table.id? path = _ at numbered
        rw [table_load, File.Table.id?_congr _ touches, File.Table.id?_intern] at numbered
        exact (Option.some.inj numbered).symm
      right
      show (session.workspace.load other text).2.editsOf file = _ ∨
        _ ∧ (session.workspace.load other text).2.editsOf file = _
      rw [editsOf_load, ← isFile]
      rcases session.workspace.editsOf_resetEdits file file with
        ⟨different, _⟩ | ⟨_, isReset⟩ | ⟨_, isNew, staysNew⟩
      · exact absurd rfl different
      · exact .inl isReset
      · exact .inr ⟨isNew, staysNew⟩
  | edit other text now =>
      have isFile : file = (session.workspace.table.intern other).1 := by
        change (session.workspace.table.intern other).2.id? path = _ at numbered
        rw [File.Table.id?_congr _ touches, File.Table.id?_intern] at numbered
        exact (Option.some.inj numbered).symm
      refine .inl ⟨other, text, now, now + session.workspace.config.debounce, rfl, ?_⟩
      show (session.workspace.edit other text now).editsOf file = _
      rw [editsOf_edit, if_pos isFile]
  | close other =>
      have isFile : session.workspace.table.id? other = some file := by
        change (session.workspace.close other).2.table.id? path = _ at numbered
        rwa [table_close, File.Table.id?_congr _ touches] at numbered
      right
      show (session.workspace.close other).2.editsOf file = _ ∨
        _ ∧ (session.workspace.close other).2.editsOf file = _
      rw [editsOf_close, isFile]
      rcases session.workspace.editsOf_resetEdits file file with
        ⟨different, _⟩ | ⟨_, isReset⟩ | ⟨_, isNew, staysNew⟩
      · exact absurd rfl different
      · exact .inl isReset
      · exact .inr ⟨isNew, staysNew⟩
  | start now => cases touches
  | compute number => cases touches
  | commit number => cases touches
  | flush now => cases touches
  | takeChanged => cases touches

/-- What an operation does to the edits of a file that it does not touch: it may start
a recompute, and hand in results for tickets that it delivers or that it gave out. -/
def Spares (session : Session) (operation : Operation) (file : File.Id) : Prop :=
  ∃ events : List Event,
    (∀ event ∈ events, event.touches = false) ∧
    (∀ generation, .complete generation ∈ events →
      session.Delivers operation file generation ∨
        (session.workspace.editsOf file).generation < generation) ∧
    (session.perform operation).workspace.editsOf file =
      events.foldl State.after (session.workspace.editsOf file)

theorem spares_of_same {session : Session} {operation : Operation} {file : File.Id}
    (same : (session.perform operation).workspace.editsOf file =
      session.workspace.editsOf file) :
    session.Spares operation file :=
  ⟨[], fun _ member => absurd member List.not_mem_nil,
    fun _ member => absurd member List.not_mem_nil, same⟩

theorem spares_start (session : Session) (now : Option Nat) (file : File.Id) :
    session.Spares (.start now) file := by
  obtain ⟨events, onlyStarts, started⟩ :=
    session.workspace.editsOf_startJobs (session.workspace.due now) file
  refine ⟨events, ?_, ?_, started⟩
  · intro event member
    rw [onlyStarts event member]
    rfl
  · intro generation member
    cases onlyStarts _ member

/-- A commit hands in results for tickets that it delivers, and does nothing else to edits that
it does not touch. -/
theorem spares_commit (session : Session) (number : Nat) (file : File.Id) :
    session.Spares (.commit number) file := by
  rcases session.perform_commit_cases number with same | ⟨jobs, outcomes, atNumber, committed⟩
  · apply spares_of_same
    rw [same]
  · refine ⟨arrivals outcomes file, ?_, ?_, ?_⟩
    · intro event arrival
      obtain ⟨outcome, _, _, rfl⟩ := mem_arrivals arrival
      rfl
    · intro generation arrival
      obtain ⟨outcome, among, isFile, same⟩ := mem_arrivals arrival
      exact .inl ⟨number, jobs, outcomes, rfl, atNumber, outcome, among, isFile,
        (Event.complete.inj same).symm⟩
    · rw [committed]
      exact session.workspace.editsOf_commit outcomes file

/-- A flush may start a recompute and hand in its result, for a ticket that it gave out itself.
-/
theorem spares_flush (session : Session) (now : Option Nat) (file : File.Id) :
    session.Spares (.flush now) file := by
  obtain ⟨events, allowed, flushed⟩ := session.workspace.editsOf_flush now file
  refine ⟨events, ?_, ?_, flushed⟩
  · intro event member
    rcases allowed event member with rfl | ⟨generation, rfl, _⟩
    · rfl
    · rfl
  · intro generation member
    rcases allowed _ member with isStart | ⟨other, same, newer⟩
    · cases isStart
    · cases same
      exact .inr newer

/-- An operation gives no number to a path that it does not touch. -/
theorem id?_of_not_touches {session : Session} {operation : Operation} {path : File.Path}
    {file : File.Id} (notTouches : operation.touches path = false)
    (numbered : (session.perform operation).workspace.table.id? path = some file) :
    session.workspace.table.id? path = some file := by
  cases operation with
  | load other text =>
      change (session.workspace.load other text).2.table.id? path = _ at numbered
      rw [table_load] at numbered
      exact session.workspace.table.id?_of_id?_intern notTouches numbered
  | edit other text now => exact session.workspace.table.id?_of_id?_intern notTouches numbered
  | close other =>
      change (session.workspace.close other).2.table.id? path = _ at numbered
      rwa [table_close] at numbered
  | start now =>
      change (session.workspace.start now).2.table.id? path = _ at numbered
      rwa [table_start] at numbered
  | compute number =>
      rcases session.perform_compute_cases number with same | ⟨_, _, computed⟩
      · rwa [same] at numbered
      · rwa [computed] at numbered
  | commit number =>
      rcases session.perform_commit_cases number with same | ⟨_, outcomes, _, committed⟩
      · rwa [same] at numbered
      · rwa [committed, table_commit] at numbered
  | flush now =>
      change (session.workspace.flush now).2.table.id? path = _ at numbered
      rwa [table_flush] at numbered
  | takeChanged => exact numbered

/-- An operation that does not touch a path spares the edits of its file. -/
theorem spares_of_not_touches {session : Session} {operation : Operation} {path : File.Path}
    {file : File.Id} (notTouches : operation.touches path = false)
    (numbered : (session.perform operation).workspace.table.id? path = some file) :
    session.Spares operation file := by
  cases operation with
  | load other text =>
      change (session.workspace.load other text).2.table.id? path = _ at numbered
      rw [table_load] at numbered
      apply spares_of_same
      show (session.workspace.load other text).2.editsOf file = _
      rw [editsOf_load]
      exact editsOf_resetEdits_of_ne _ (File.Table.ne_of_not_same notTouches numbered
        (session.workspace.table.id?_intern other))
  | edit other text now =>
      have different := File.Table.ne_of_not_same notTouches numbered
        (session.workspace.table.id?_intern other)
      apply spares_of_same
      show (session.workspace.edit other text now).editsOf file = _
      rw [editsOf_edit, if_neg different]
  | close other =>
      change (session.workspace.close other).2.table.id? path = _ at numbered
      rw [table_close] at numbered
      apply spares_of_same
      show (session.workspace.close other).2.editsOf file = _
      rw [editsOf_close]
      cases known : session.workspace.table.id? other with
      | none => rfl
      | some closed =>
          have different := File.Table.ne_of_not_same notTouches numbered known
          exact editsOf_resetEdits_of_ne _ different
  | start now => exact session.spares_start now file
  | compute number =>
      apply spares_of_same
      rcases session.perform_compute_cases number with same | ⟨_, _, computed⟩
      · rw [same]
      · rw [computed]
  | commit number => exact session.spares_commit number file
  | flush now => exact session.spares_flush now file
  | takeChanged => exact spares_of_same rfl

end Session

end GrammarDesk
