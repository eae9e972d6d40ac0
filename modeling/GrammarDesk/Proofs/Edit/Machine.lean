import GrammarDesk.Edit.State

/-!
Contract: the edits of one file as a machine that events drive.

Owns: events, when a ticket waits for its result and when it is lost, and what no
sequence of events can undo: a lost ticket stays lost, a cancelled one cancelled, and
no generation is given out twice; when nothing is under way, and what takes a ticket
there.

Does not own: which events an operation on a workspace causes (`Workspace`).

Main statements: `Waits.foldl`, `Lost.foldl`, `Waits.idle_of_complete`.
-/

namespace GrammarDesk.Edit

/-- What can happen to the edits of a file. -/
inductive Event where
  | edit (text : String) (deadline : Nat)
  | start
  | complete (generation : Nat)
  | reset
deriving DecidableEq, Repr

namespace Event

/-- Whether an event is the caller's touching the file. -/
def touches : Event → Bool
  | .edit .. | .reset => true
  | .start | .complete _ => false

end Event

namespace State

/-- The state after an event. A start with nothing pending changes nothing. -/
def after (state : State) : Event → State
  | .edit text deadline => state.edit text deadline
  | .start =>
      match state.start? with
      | some (_, started) => started
      | none => state
  | .complete generation => (state.complete generation).2
  | .reset => state.reset

/-- Every generation that the state knows of has been given out. -/
structure Bounded (state : State) : Prop where
  inFlight : ∀ generation, state.inFlight = some generation → generation ≤ state.generation
  cancelled : ∀ generation, state.isCancelled generation = true → generation ≤ state.generation

/-- The result for a ticket would count, and no newer text is pending. -/
structure Waits (state : State) (generation : Nat) : Prop where
  inFlight : state.inFlight = some generation
  notCancelled : state.isCancelled generation = false
  noneLater : state.pending = none

/-- The result for a ticket that was given out would not count. -/
structure Lost (state : State) (generation : Nat) : Prop where
  given : generation ≤ state.generation
  notLive : state.inFlight = some generation → state.isCancelled generation = true

/-- Nothing is pending and nothing is in flight. -/
structure Idle (state : State) : Prop where
  nonePending : state.pending = none
  noneInFlight : state.inFlight = none

/-- A recompute whose result would count works on the newest text. -/
def Fresh (state : State) : Prop :=
  ∀ generation, state.inFlight = some generation → state.isCancelled generation = false →
    state.pending = none

/-! ## One event -/

theorem isCancelled_cancel (state : State) (generation : Nat) :
    state.cancel.isCancelled generation = true ↔
      state.inFlight = some generation ∨ state.isCancelled generation = true := by
  unfold cancel isCancelled
  cases state.inFlight with
  | none => simp
  | some current =>
      rw [Option.some.injEq, eq_comm (a := current)]
      simp

/-- Completing changes at most what is in flight. -/
theorem complete_eq (state : State) (generation : Nat) :
    (state.complete generation).2 =
      { state with
        inFlight := if state.inFlight = some generation then none else state.inFlight } := by
  unfold complete
  by_cases current : state.inFlight = some generation
  · rw [if_pos current, if_pos current]
  · rw [if_neg current, if_neg current]

theorem start?_eq_some {state started : State} {ticket : Ticket}
    (starts : state.start? = some (ticket, started)) :
    (∃ deadline, state.pending = some ⟨ticket.text, deadline⟩) ∧
      ticket.generation = state.generation + 1 ∧
      started =
        { state.cancel with
          generation := ticket.generation
          pending := none
          inFlight := some ticket.generation } := by
  unfold start? at starts
  obtain ⟨edit, pending, starts⟩ := Option.map_eq_some_iff.mp starts
  obtain ⟨rfl, rfl⟩ := Prod.mk.inj starts
  exact ⟨⟨edit.deadline, pending⟩, rfl, rfl⟩

/-- No event takes a generation back. -/
theorem generation_le_after (state : State) (event : Event) :
    state.generation ≤ (state.after event).generation := by
  cases event with
  | edit text deadline => exact Nat.le_refl _
  | start =>
      unfold after
      dsimp only
      split
      · rename_i ticket started starts
        obtain ⟨_, next, rfl⟩ := start?_eq_some starts
        show state.generation ≤ ticket.generation
        omega
      · exact Nat.le_refl _
  | complete generation =>
      have same := congrArg State.generation (complete_eq state generation)
      exact Nat.le_of_eq same.symm
  | reset => exact Nat.le_succ _

/-- A cancelled recompute stays cancelled whatever happens. -/
theorem isCancelled_after {state : State} {generation : Nat}
    (cancelled : state.isCancelled generation = true) (event : Event) :
    (state.after event).isCancelled generation = true := by
  have kept := (state.isCancelled_cancel generation).mpr (.inr cancelled)
  cases event with
  | edit text deadline => exact kept
  | start =>
      unfold after
      dsimp only
      split
      · rename_i ticket started starts
        obtain ⟨_, _, rfl⟩ := start?_eq_some starts
        exact kept
      · exact cancelled
  | complete other =>
      rw [after, complete_eq]
      exact cancelled
  | reset => exact kept

/-- Each event keeps all generations that are named within those given out. -/
theorem Bounded.after {state : State} (bounded : state.Bounded) (event : Event) :
    (state.after event).Bounded := by
  have cancelled : ∀ generation, state.cancel.isCancelled generation = true →
      generation ≤ state.generation := by
    intro generation isCancelled
    rcases (state.isCancelled_cancel generation).mp isCancelled with current | before
    · exact bounded.inFlight generation current
    · exact bounded.cancelled generation before
  cases event with
  | edit text deadline => exact ⟨bounded.inFlight, cancelled⟩
  | start =>
      unfold State.after
      dsimp only
      split
      · rename_i ticket started starts
        obtain ⟨_, next, rfl⟩ := start?_eq_some starts
        constructor
        · intro generation current
          exact Nat.le_of_eq (Option.some.inj current).symm
        · intro generation isCancelled
          have given := cancelled generation isCancelled
          show generation ≤ ticket.generation
          omega
      · exact bounded
  | complete generation =>
      rw [State.after, complete_eq]
      refine ⟨fun other current => ?_, bounded.cancelled⟩
      by_cases mine : state.inFlight = some generation
      · simp [mine] at current
      · exact bounded.inFlight other (by simpa [mine] using current)
  | reset =>
      refine ⟨fun generation current => ?_, fun generation isCancelled => ?_⟩
      · cases current
      · exact Nat.le_succ_of_le (cancelled generation isCancelled)

theorem bounded_new : new.Bounded where
  inFlight generation current := by cases current
  cancelled generation isCancelled := by simp [State.isCancelled, new] at isCancelled

/-- A ticket that was just given out waits. -/
theorem waits_of_start? {state started : State} {ticket : Ticket} (bounded : state.Bounded)
    (starts : state.start? = some (ticket, started)) :
    started.Waits ticket.generation := by
  obtain ⟨_, next, rfl⟩ := start?_eq_some starts
  refine ⟨rfl, ?_, rfl⟩
  -- a cancelled generation was given out before
  cases isCancelled : state.cancel.isCancelled ticket.generation with
  | false => exact isCancelled
  | true =>
      have given : ticket.generation ≤ state.generation := by
        rcases (state.isCancelled_cancel _).mp isCancelled with current | before
        · exact bounded.inFlight _ current
        · exact bounded.cancelled _ before
      omega

/-- Touching the file loses every ticket that was given out. -/
theorem lost_of_touches {state : State} {generation : Nat} {event : Event}
    (given : generation ≤ state.generation) (touches : event.touches = true) :
    (state.after event).Lost generation := by
  cases event with
  | edit text deadline =>
      refine ⟨given, ?_⟩
      intro current
      exact (state.isCancelled_cancel generation).mpr (.inl current)
  | reset =>
      refine ⟨Nat.le_succ_of_le given, ?_⟩
      intro current
      cases current
  | start => cases touches
  | complete other => cases touches

/-- A ticket that no longer counts never counts again. -/
theorem Lost.after {state : State} {generation : Nat} (lost : state.Lost generation)
    (event : Event) :
    (state.after event).Lost generation := by
  cases touches : event.touches with
  | true => exact lost_of_touches lost.given touches
  | false =>
      cases event with
      | edit text deadline => cases touches
      | reset => cases touches
      | start =>
          unfold State.after
          dsimp only
          split
          · rename_i ticket started starts
            obtain ⟨_, next, rfl⟩ := start?_eq_some starts
            have given := lost.given
            refine ⟨by show generation ≤ ticket.generation; omega, ?_⟩
            intro current
            have same : ticket.generation = generation := Option.some.inj current
            omega
          · exact lost
      | complete other =>
          rw [State.after, complete_eq]
          refine ⟨lost.given, ?_⟩
          intro current
          by_cases mine : state.inFlight = some other
          · simp [mine] at current
          · exact lost.notLive (by simpa [mine] using current)

/-- Nobody but the caller and the result itself takes a waiting ticket away. -/
theorem Waits.after {state : State} {generation : Nat} (waits : state.Waits generation)
    {event : Event} (notTouching : event.touches = false)
    (notMine : event ≠ .complete generation) :
    (state.after event).Waits generation := by
  cases event with
  | edit text deadline => cases notTouching
  | reset => cases notTouching
  | start =>
      have nothing : state.start? = none := by
        rw [start?, waits.noneLater]
        rfl
      rw [State.after, nothing]
      exact waits
  | complete other =>
      have different : state.inFlight ≠ some other := by
        rw [waits.inFlight]
        exact fun same => notMine (congrArg Event.complete (Option.some.inj same).symm)
      rw [State.after, complete_eq, if_neg different]
      exact waits

/-- Only an edit makes a text pending. -/
theorem pending_after {state : State} {event : Event} (notTouching : event.touches = false)
    {edit : Pending} (pending : (state.after event).pending = some edit) :
    state.pending = some edit := by
  cases event with
  | edit text deadline => cases notTouching
  | reset => cases notTouching
  | start =>
      unfold after at pending
      dsimp only at pending
      split at pending
      · rename_i ticket started starts
        obtain ⟨_, _, rfl⟩ := start?_eq_some starts
        cases pending
      · exact pending
  | complete generation =>
      rw [after, complete_eq] at pending
      exact pending

theorem fresh_new : new.Fresh := fun _ current _ => by cases current

/-- Each event keeps a live result fresh: an edit that would make it out of date cancels it. -/
theorem Fresh.after {state : State} (fresh : state.Fresh) (event : Event) :
    (state.after event).Fresh := by
  cases event with
  | edit text deadline =>
      -- the edit cancels what is in flight
      intro generation current notCancelled
      have cancelled : state.cancel.isCancelled generation = true :=
        (state.isCancelled_cancel generation).mpr (.inl current)
      exact absurd (cancelled.symm.trans notCancelled) (by decide)
  | start =>
      unfold State.after
      dsimp only
      split
      · rename_i ticket started starts
        obtain ⟨_, _, rfl⟩ := start?_eq_some starts
        exact fun _ _ _ => rfl
      · exact fresh
  | complete generation =>
      rw [State.after, complete_eq]
      intro other current notCancelled
      by_cases mine : state.inFlight = some generation
      · simp [mine] at current
      · exact fresh other (by simpa [mine] using current) notCancelled
  | reset =>
      intro generation current
      cases current

/-! ## Nothing under way -/

theorem idle_new : new.Idle := ⟨rfl, rfl⟩

theorem idle_reset (state : State) : (state.after .reset).Idle := ⟨rfl, rfl⟩

/-- Only a touch ends idleness: there is nothing to start and nothing to complete. -/
theorem Idle.after {state : State} (idle : state.Idle) {event : Event}
    (notTouching : event.touches = false) :
    (state.after event).Idle := by
  cases event with
  | edit text deadline => cases notTouching
  | reset => cases notTouching
  | start =>
      have nothing : state.start? = none := by
        rw [start?, idle.nonePending]
        rfl
      rw [State.after, nothing]
      exact idle
  | complete generation =>
      rw [State.after, complete_eq]
      refine ⟨idle.nonePending, ?_⟩
      simp [idle.noneInFlight]

/-- With nothing in flight no ticket waits. -/
theorem Idle.lost {state : State} (idle : state.Idle) {generation : Nat}
    (given : generation ≤ state.generation) :
    state.Lost generation := by
  refine ⟨given, fun current => ?_⟩
  rw [idle.noneInFlight] at current
  cases current

theorem Waits.not_lost {state : State} {generation : Nat} (waits : state.Waits generation) :
    ¬ state.Lost generation := by
  intro lost
  have cancelled := lost.notLive waits.inFlight
  rw [waits.notCancelled] at cancelled
  cases cancelled

/-- A ticket that was given out waits or is lost. -/
theorem Fresh.waits_or_lost {state : State} (fresh : state.Fresh) {generation : Nat}
    (given : generation ≤ state.generation) :
    state.Waits generation ∨ state.Lost generation := by
  by_cases current : state.inFlight = some generation
  · cases cancelled : state.isCancelled generation with
    | true => exact .inr ⟨given, fun _ => cancelled⟩
    | false => exact .inl ⟨current, cancelled, fresh generation current cancelled⟩
  · exact .inr ⟨given, fun now => absurd now current⟩

theorem phase_of_idle {state : State} (idle : state.Idle) : state.phase = .idle := by
  rw [phase, idle.nonePending, idle.noneInFlight]

theorem phase_of_waits {state : State} {generation : Nat} (waits : state.Waits generation) :
    state.phase = .recomputing := by
  have live : state.isLive = true := by
    rw [isLive, waits.inFlight, Option.any_some, waits.notCancelled]
    rfl
  rw [phase, waits.inFlight, waits.noneLater]
  exact if_pos live

/-! ## Results -/

theorem complete_of_waits {state : State} {generation : Nat} (waits : state.Waits generation) :
    (state.complete generation).1 = true := by
  rw [complete, if_pos waits.inFlight, isLive, waits.inFlight, Option.any_some,
    waits.notCancelled]
  rfl

theorem complete_of_lost {state : State} {generation : Nat} (lost : state.Lost generation) :
    (state.complete generation).1 = false := by
  unfold complete
  by_cases current : state.inFlight = some generation
  · rw [if_pos current]
    simp [isLive, current, lost.notLive current]
  · rw [if_neg current]

theorem not_cancelled_of_complete {state : State} {generation : Nat}
    (counts : (state.complete generation).1 = true) :
    state.isCancelled generation = false := by
  unfold complete at counts
  by_cases current : state.inFlight = some generation
  · rw [if_pos current] at counts
    simpa [isLive, current] using counts
  · rw [if_neg current] at counts
    cases counts

/-! ## Many events -/

theorem generation_le_foldl (state : State) (events : List Event) :
    state.generation ≤ (events.foldl after state).generation := by
  induction events generalizing state with
  | nil => exact Nat.le_refl _
  | cons event rest inductionHypothesis =>
      exact Nat.le_trans (state.generation_le_after event) (inductionHypothesis _)

theorem isCancelled_foldl {state : State} {generation : Nat}
    (cancelled : state.isCancelled generation = true) (events : List Event) :
    (events.foldl after state).isCancelled generation = true := by
  induction events generalizing state with
  | nil => exact cancelled
  | cons event rest inductionHypothesis =>
      exact inductionHypothesis (isCancelled_after cancelled event)

theorem Bounded.foldl {state : State} (bounded : state.Bounded) (events : List Event) :
    (events.foldl State.after state).Bounded := by
  induction events generalizing state with
  | nil => exact bounded
  | cons event rest inductionHypothesis => exact inductionHypothesis (bounded.after event)

/-- A lost ticket stays lost. -/
theorem Lost.foldl {state : State} {generation : Nat} (lost : state.Lost generation)
    (events : List Event) :
    (events.foldl State.after state).Lost generation := by
  induction events generalizing state with
  | nil => exact lost
  | cons event rest inductionHypothesis => exact inductionHypothesis (lost.after event)

/-- A waiting ticket waits until the caller touches the file or its result arrives. -/
theorem Waits.foldl {state : State} {generation : Nat} (waits : state.Waits generation)
    {events : List Event} (notTouching : ∀ event ∈ events, event.touches = false)
    (notMine : Event.complete generation ∉ events) :
    (events.foldl State.after state).Waits generation := by
  induction events generalizing state with
  | nil => exact waits
  | cons event rest inductionHypothesis =>
      obtain ⟨notFirst, notLater⟩ := List.forall_mem_cons.mp notTouching
      have different : event ≠ .complete generation :=
        fun same => notMine (same ▸ List.mem_cons_self)
      exact inductionHypothesis (waits.after notFirst different) notLater
        fun later => notMine (List.mem_cons_of_mem _ later)

theorem Fresh.foldl {state : State} (fresh : state.Fresh) (events : List Event) :
    (events.foldl State.after state).Fresh := by
  induction events generalizing state with
  | nil => exact fresh
  | cons event rest inductionHypothesis => exact inductionHypothesis (fresh.after event)

theorem Idle.foldl {state : State} (idle : state.Idle) {events : List Event}
    (notTouching : ∀ event ∈ events, event.touches = false) :
    (events.foldl State.after state).Idle := by
  induction events generalizing state with
  | nil => exact idle
  | cons event rest inductionHypothesis =>
      obtain ⟨notFirst, notLater⟩ := List.forall_mem_cons.mp notTouching
      exact inductionHypothesis (idle.after notFirst) notLater

/-- Once the result of a waiting ticket is among those that arrived, nothing is under
way. -/
theorem Waits.idle_of_complete {state : State} {generation : Nat}
    (waits : state.Waits generation) {events : List Event}
    (notTouching : ∀ event ∈ events, event.touches = false)
    (arrives : Event.complete generation ∈ events) :
    (events.foldl State.after state).Idle := by
  induction events generalizing state with
  | nil => exact absurd arrives List.not_mem_nil
  | cons event rest inductionHypothesis =>
      obtain ⟨notFirst, notLater⟩ := List.forall_mem_cons.mp notTouching
      by_cases mine : event = .complete generation
      · subst mine
        have arrived : (state.after (.complete generation)).Idle := by
          rw [State.after, complete_eq, if_pos waits.inFlight]
          exact ⟨waits.noneLater, rfl⟩
        exact arrived.foldl notLater
      · have later : Event.complete generation ∈ rest :=
          (List.mem_cons.mp arrives).resolve_left (Ne.symm mine)
        exact inductionHypothesis (waits.after notFirst mine) notLater later

/-- The results that arrive leave a pending edit alone. -/
theorem pending_foldl_complete (state : State) {events : List Event}
    (results : ∀ event ∈ events, ∃ generation, event = .complete generation) :
    (events.foldl after state).pending = state.pending := by
  induction events generalizing state with
  | nil => rfl
  | cons event rest inductionHypothesis =>
      obtain ⟨⟨generation, rfl⟩, later⟩ := List.forall_mem_cons.mp results
      rw [List.foldl_cons, inductionHypothesis _ later, after, complete_eq]

theorem pending_foldl {state : State} {events : List Event}
    (notTouching : ∀ event ∈ events, event.touches = false) {edit : Pending}
    (pending : (events.foldl after state).pending = some edit) :
    state.pending = some edit := by
  induction events generalizing state with
  | nil => exact pending
  | cons event rest inductionHypothesis =>
      obtain ⟨notFirst, notLater⟩ := List.forall_mem_cons.mp notTouching
      exact pending_after notFirst (inductionHypothesis notLater pending)

end State

end GrammarDesk.Edit
