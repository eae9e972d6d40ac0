import GrammarDesk.Proofs.Edit.Machine
import GrammarDesk.Proofs.Lists
import Mathlib.Data.List.Induction

/-!
Contract: the edits of one file, told by the history of its events alone.

Owns: which tickets a history hands out, which of them is in flight and which text is
pending after it, and what completing, starting and the phase answer then.

Does not own: one event's effect on the state (`Proofs.Edit.Machine`).

Main statement: `toldByHistory`.
-/

namespace GrammarDesk.Edit

namespace State

def run (history : List Event) : State := history.foldl after .new

/-- A history hands out a ticket: one event starts it, some come before and some after. -/
structure Issued (history before : List Event) (ticket : Ticket) (later : List Event) :
    Prop where
  split : history = before ++ .start :: later
  starts : ∃ started, (run before).start? = some (ticket, started)

/-- No ticket of a history is handed out after this one. -/
structure Latest (history before : List Event) (ticket : Ticket) (later : List Event) : Prop
    extends Issued history before ticket later where
  last : ∀ other earlier rest, Issued history other earlier rest →
    other.length ≤ before.length

/-- The latest ticket of a history has this generation, and nothing took it back: no result
arrived for it and no reset came. -/
def InFlight (history : List Event) (generation : Nat) : Prop :=
  ∃ before ticket later, Latest history before ticket later ∧
    ticket.generation = generation ∧ .complete generation ∉ later ∧ .reset ∉ later

/-- An edit came after the last start and the last reset of a history. -/
def EditPending (history : List Event) : Prop :=
  ∃ before text deadline later, history = before ++ .edit text deadline :: later ∧
    .start ∉ later ∧ .reset ∉ later

/-- The edit is the last one of a history, and no start and no reset came after it. -/
def LastEdit (history : List Event) (text : String) (deadline : Nat) : Prop :=
  ∃ before later, history = before ++ .edit text deadline :: later ∧
    ∀ event ∈ later, ∃ generation, event = .complete generation

/-- The caller touched the file among these events, and the result for the generation had
not arrived until then. -/
def TouchedBefore (generation : Nat) (events : List Event) : Prop :=
  ∃ waiting touch rest, events = waiting ++ touch :: rest ∧ touch.touches = true ∧
    .complete generation ∉ waiting

/-- What the machine answers after a history, told by the history alone. -/
structure ToldBy (history : List Event) : Prop where
  /-- A result counts for the latest ticket, untouched since and without a result since. -/
  completes : ∀ generation, ((run history).complete generation).1 = true ↔
    ∃ before ticket later, Latest history before ticket later ∧
      ticket.generation = generation ∧ (∀ event ∈ later, event.touches = false) ∧
      .complete generation ∉ later
  /-- A ticket is cancelled by a touch that comes before its result. -/
  cancels : ∀ before ticket later, Issued history before ticket later →
    ((run history).isCancelled ticket.generation = true ↔
      TouchedBefore ticket.generation later)
  /-- A start hands out a ticket when an edit came since the last start or reset. -/
  starts : (run history).start?.isSome = true ↔ EditPending history
  /-- The ticket carries the last such edit and a generation above all before. -/
  carries : ∀ ticket started, (run history).start? = some (ticket, started) →
    (∃ deadline, LastEdit history ticket.text deadline) ∧
      ∀ before earlier later, Issued history before earlier later →
        earlier.generation < ticket.generation
  /-- A recompute is superseded when it is in flight and an edit is pending. -/
  supersedes : (run history).phase = .superseded ↔
    (∃ generation, InFlight history generation) ∧ EditPending history

theorem run_concat (history : List Event) (event : Event) :
    run (history ++ [event]) = (run history).after event :=
  List.foldl_append

theorem run_append (before later : List Event) :
    run (before ++ later) = later.foldl after (run before) :=
  List.foldl_append

theorem bounded_run (history : List Event) : (run history).Bounded :=
  bounded_new.foldl history

theorem fresh_run (history : List Event) : (run history).Fresh :=
  fresh_new.foldl history

/-! ## The pending edit -/

/-- An edit is the last one if it is the event itself, or was the last one before and the event
only completes a generation. -/
theorem lastEdit_concat_iff (history : List Event) (event : Event) (text : String)
    (deadline : Nat) :
    LastEdit (history ++ [event]) text deadline ↔
      event = .edit text deadline ∨
        (∃ generation, event = .complete generation) ∧ LastEdit history text deadline := by
  constructor
  · rintro ⟨before, later, split, results⟩
    rcases (concat_eq_append_cons_iff ..).mp split with ⟨_, same, _⟩ | ⟨middle, rfl, shorter⟩
    · exact .inl same.symm
    · exact .inr ⟨results event (by simp), before, middle, shorter,
        fun other inMiddle => results other (by simp [inMiddle])⟩
  · rintro (rfl | ⟨arrived, before, later, rfl, results⟩)
    · exact ⟨history, [], rfl, by simp⟩
    · refine ⟨before, later ++ [event], by simp, ?_⟩
      intro other inLater
      rcases List.mem_append.mp inLater with earlier | last
      · exact results other earlier
      · rw [List.mem_singleton.mp last]
        exact arrived

/-- What is pending after a history is its last edit. -/
theorem pending_run_iff (history : List Event) (text : String) (deadline : Nat) :
    (run history).pending = some ⟨text, deadline⟩ ↔ LastEdit history text deadline := by
  induction history using List.reverseRecOn with
  | nil =>
      constructor
      · intro pending
        cases pending
      · rintro ⟨before, later, split, _⟩
        simp at split
  | append_singleton history event inductionHypothesis =>
      rw [run_concat, lastEdit_concat_iff, ← inductionHypothesis]
      cases event with
      | edit other time => simp [after, edit]
      | start =>
          unfold after
          dsimp only
          split
          · rename_i ticket started starts
            obtain ⟨_, _, rfl⟩ := start?_eq_some starts
            simp
          · rename_i nothing
            rw [start?, Option.map_eq_none_iff] at nothing
            simp [nothing]
      | complete generation => simp [after, complete_eq]
      | reset => simp [after, reset]

/-- An edit is pending after an event if it is the event, or was pending before and the event
only completes a generation. -/
theorem editPending_concat_iff (history : List Event) (event : Event) :
    EditPending (history ++ [event]) ↔
      (∃ text deadline, event = .edit text deadline) ∨
        (∃ generation, event = .complete generation) ∧ EditPending history := by
  constructor
  · rintro ⟨before, text, deadline, later, split, noStart, noReset⟩
    rcases (concat_eq_append_cons_iff ..).mp split with ⟨_, same, _⟩ | ⟨middle, rfl, shorter⟩
    · exact .inl ⟨text, deadline, same.symm⟩
    · have earlier : EditPending history :=
        ⟨before, text, deadline, middle, shorter, by simp_all, by simp_all⟩
      cases event with
      | edit other time => exact .inl ⟨other, time, rfl⟩
      | start => simp at noStart
      | complete generation => exact .inr ⟨⟨generation, rfl⟩, earlier⟩
      | reset => simp at noReset
  · rintro (⟨text, deadline, rfl⟩ | ⟨⟨generation, rfl⟩, before, text, deadline, later, rfl,
      noStart, noReset⟩)
    · exact ⟨history, text, deadline, [], rfl, by simp, by simp⟩
    · exact ⟨before, text, deadline, later ++ [.complete generation], by simp, by simp [noStart],
        by simp [noReset]⟩

/-- An edit is pending when one came after the last start and the last reset. -/
theorem editPending_iff_lastEdit (history : List Event) :
    EditPending history ↔ ∃ text deadline, LastEdit history text deadline := by
  induction history using List.reverseRecOn with
  | nil => simp [EditPending, LastEdit]
  | append_singleton history event inductionHypothesis =>
      rw [editPending_concat_iff, inductionHypothesis]
      simp only [lastEdit_concat_iff, exists_or, exists_and_left]

theorem pending_run_isSome_iff (history : List Event) :
    (run history).pending.isSome = true ↔ EditPending history := by
  rw [editPending_iff_lastEdit, Option.isSome_iff_exists]
  simp only [← pending_run_iff]
  exact ⟨fun ⟨edit, pending⟩ => ⟨edit.text, edit.deadline, pending⟩,
    fun ⟨text, deadline, pending⟩ => ⟨⟨text, deadline⟩, pending⟩⟩

/-! ## The ticket in flight -/

/-- A ticket was given out by the last event or by one before it. -/
theorem issued_concat_iff (history : List Event) (event : Event) (before : List Event)
    (ticket : Ticket) (later : List Event) :
    Issued (history ++ [event]) before ticket later ↔
      (event = .start ∧ before = history ∧ later = [] ∧
          ∃ started, (run history).start? = some (ticket, started)) ∨
        ∃ middle, later = middle ++ [event] ∧ Issued history before ticket middle := by
  constructor
  · rintro ⟨split, starts⟩
    rcases (concat_eq_append_cons_iff ..).mp split with ⟨rfl, same, rfl⟩ | ⟨middle, rfl, shorter⟩
    · exact .inl ⟨same.symm, rfl, rfl, starts⟩
    · exact .inr ⟨middle, rfl, shorter, starts⟩
  · rintro (⟨rfl, rfl, rfl, starts⟩ | ⟨middle, rfl, split, starts⟩)
    · exact ⟨rfl, starts⟩
    · exact ⟨by rw [split]; simp, starts⟩

theorem Issued.length_lt {history before later : List Event} {ticket : Ticket}
    (issued : Issued history before ticket later) : before.length < history.length := by
  rw [issued.split, List.length_append, List.length_cons]
  omega

/-- An event that hands out no ticket leaves the latest one. -/
theorem latest_concat_iff {history : List Event} {event : Event}
    (handsOutNone : event = .start → (run history).start? = none) (before : List Event)
    (ticket : Ticket) (later : List Event) :
    Latest (history ++ [event]) before ticket later ↔
      ∃ middle, later = middle ++ [event] ∧ Latest history before ticket middle := by
  have issued_iff : ∀ other earlier rest, Issued (history ++ [event]) other earlier rest ↔
      ∃ middle, rest = middle ++ [event] ∧ Issued history other earlier middle := by
    intro other earlier rest
    rw [issued_concat_iff]
    constructor
    · rintro (⟨isStart, _, _, started, starts⟩ | old)
      · rw [handsOutNone isStart] at starts
        cases starts
      · exact old
    · exact .inr
  constructor
  · rintro ⟨issued, last⟩
    obtain ⟨middle, same, issued⟩ := (issued_iff before ticket later).mp issued
    exact ⟨middle, same, issued, fun other earlier rest issuedOther =>
      last other earlier (rest ++ [event]) ((issued_iff _ _ _).mpr ⟨rest, rfl, issuedOther⟩)⟩
  · rintro ⟨middle, rfl, issued, last⟩
    refine ⟨(issued_iff _ _ _).mpr ⟨middle, rfl, issued⟩, ?_⟩
    intro other earlier rest issuedOther
    obtain ⟨rest, _, issuedOther⟩ := (issued_iff _ _ _).mp issuedOther
    exact last other earlier rest issuedOther

/-- A ticket that was just handed out is the latest one. -/
theorem latest_start_iff {history : List Event} {ticket : Ticket} {started : State}
    (starts : (run history).start? = some (ticket, started)) (before : List Event)
    (other : Ticket) (later : List Event) :
    Latest (history ++ [.start]) before other later ↔
      before = history ∧ other = ticket ∧ later = [] := by
  have issued : Issued (history ++ [.start]) history ticket [] := ⟨rfl, started, starts⟩
  constructor
  · rintro ⟨issuedOther, last⟩
    have notEarlier := last history ticket [] issued
    rcases (issued_concat_iff ..).mp issuedOther with ⟨_, rfl, rfl, _, same⟩ | ⟨middle, _, old⟩
    · rw [starts] at same
      exact ⟨rfl, (congrArg Prod.fst (Option.some.inj same)).symm, rfl⟩
    · exact absurd notEarlier (Nat.not_le.mpr old.length_lt)
  · rintro ⟨rfl, rfl, rfl⟩
    refine ⟨issued, fun rest earlier after issuedOther => ?_⟩
    have shorter := issuedOther.length_lt
    rw [List.length_append, List.length_singleton] at shorter
    omega

/-- A generation stays in flight until it is completed or the edits are reset. The premise
leaves out a start that hands out a ticket, which would put another one in flight. -/
theorem inFlight_concat_iff {history : List Event} {event : Event}
    (handsOutNone : event = .start → (run history).start? = none) (generation : Nat) :
    InFlight (history ++ [event]) generation ↔
      InFlight history generation ∧ event ≠ .complete generation ∧ event ≠ .reset := by
  constructor
  · rintro ⟨before, ticket, later, latest, same, noResult, noReset⟩
    obtain ⟨middle, rfl, latestBefore⟩ := (latest_concat_iff handsOutNone ..).mp latest
    simp only [List.mem_append, List.mem_singleton, not_or] at noResult noReset
    exact ⟨⟨before, ticket, middle, latestBefore, same, noResult.1, noReset.1⟩,
      Ne.symm noResult.2, Ne.symm noReset.2⟩
  · rintro ⟨⟨before, ticket, middle, latest, same, noResult, noReset⟩, notResult, notReset⟩
    refine ⟨before, ticket, middle ++ [event],
      (latest_concat_iff handsOutNone ..).mpr ⟨middle, rfl, latest⟩, same, ?_, ?_⟩
    · simp [noResult, Ne.symm notResult]
    · simp [noReset, Ne.symm notReset]

theorem inFlight_start_iff {history : List Event} {ticket : Ticket} {started : State}
    (starts : (run history).start? = some (ticket, started)) (generation : Nat) :
    InFlight (history ++ [.start]) generation ↔ ticket.generation = generation := by
  constructor
  · rintro ⟨before, other, later, latest, same, _, _⟩
    obtain ⟨_, rfl, _⟩ := (latest_start_iff starts ..).mp latest
    exact same
  · intro same
    exact ⟨history, ticket, [], (latest_start_iff starts ..).mpr ⟨rfl, rfl, rfl⟩, same,
      by simp, by simp⟩

/-- What is in flight after a history is its latest ticket, until its result or a reset. -/
theorem inFlight_run_iff (history : List Event) (generation : Nat) :
    (run history).inFlight = some generation ↔ InFlight history generation := by
  induction history using List.reverseRecOn with
  | nil =>
      constructor
      · intro current
        cases current
      · rintro ⟨before, ticket, later, latest, _⟩
        have split := latest.split
        simp at split
  | append_singleton history event inductionHypothesis =>
      rw [run_concat]
      cases event with
      | edit text deadline =>
          rw [inFlight_concat_iff (fun same => by cases same), ← inductionHypothesis]
          simp [after, edit, cancel]
      | start =>
          cases starts : (run history).start? with
          | none =>
              rw [inFlight_concat_iff (fun _ => starts), ← inductionHypothesis]
              simp [after, starts]
          | some handed =>
              obtain ⟨ticket, started⟩ := handed
              obtain ⟨_, _, rfl⟩ := start?_eq_some starts
              rw [inFlight_start_iff starts]
              simp [after, starts]
      | complete other =>
          rw [inFlight_concat_iff (fun same => by cases same), ← inductionHypothesis, after,
            complete_eq]
          by_cases mine : (run history).inFlight = some other
          · simp [mine, eq_comm]
          · simp only [if_neg mine, ne_eq, reduceCtorEq, not_false_eq_true, and_true,
              Event.complete.injEq, iff_self_and]
            rintro current rfl
            exact mine current
      | reset =>
          rw [inFlight_concat_iff (fun same => by cases same)]
          simp [after, reset]

/-! ## Cancelled tickets -/

/-- The result for a ticket arrived while it was not cancelled. -/
structure Settled (state : State) (generation : Nat) : Prop where
  given : generation ≤ state.generation
  notInFlight : state.inFlight ≠ some generation
  notCancelled : state.isCancelled generation = false

theorem Settled.not_cancelled_cancel {state : State} {generation : Nat}
    (settled : state.Settled generation) : state.cancel.isCancelled generation = false := by
  rw [← Bool.not_eq_true, isCancelled_cancel]
  simp [settled.notInFlight, settled.notCancelled]

/-- Once a generation is settled no event unsettles it. -/
theorem Settled.after {state : State} {generation : Nat} (settled : state.Settled generation)
    (event : Event) : (state.after event).Settled generation := by
  have given : generation ≤ (state.after event).generation :=
    Nat.le_trans settled.given (state.generation_le_after event)
  cases event with
  | edit text deadline => exact ⟨given, settled.notInFlight, settled.not_cancelled_cancel⟩
  | start =>
      cases starts : state.start? with
      | none =>
          rw [State.after, starts]
          exact settled
      | some handed =>
          obtain ⟨ticket, started⟩ := handed
          obtain ⟨_, next, rfl⟩ := start?_eq_some starts
          have older := settled.given
          refine ⟨given, ?_, ?_⟩
          · simp only [State.after, starts, ne_eq, Option.some.injEq]
            omega
          · simp only [State.after, starts]
            exact settled.not_cancelled_cancel
  | complete other =>
      refine ⟨given, ?_, ?_⟩
      · simp only [State.after, complete_eq]
        split
        · simp
        · exact settled.notInFlight
      · simp only [State.after, complete_eq]
        exact settled.notCancelled
  | reset =>
      have idle : (state.after .reset).inFlight ≠ some generation := by intro current; cases current
      exact ⟨given, idle, settled.not_cancelled_cancel⟩

theorem Settled.foldl {state : State} {generation : Nat} (settled : state.Settled generation)
    (events : List Event) : (events.foldl State.after state).Settled generation := by
  induction events generalizing state with
  | nil => exact settled
  | cons event rest inductionHypothesis => exact inductionHypothesis (settled.after event)

/-- A generation is touched before it is completed if the first event touches, or does not
complete it and a later one touches in time. -/
theorem touchedBefore_cons_iff (generation : Nat) (event : Event) (events : List Event) :
    TouchedBefore generation (event :: events) ↔
      event.touches = true ∨
        event ≠ .complete generation ∧ TouchedBefore generation events := by
  constructor
  · rintro ⟨waiting, touch, rest, split, touches, noResult⟩
    cases waiting with
    | nil =>
        obtain ⟨rfl, rfl⟩ := List.cons.inj split
        exact .inl touches
    | cons first waiting =>
        obtain ⟨rfl, rfl⟩ := List.cons.inj split
        simp only [List.mem_cons, not_or] at noResult
        exact .inr ⟨Ne.symm noResult.1, waiting, touch, rest, rfl, touches, noResult.2⟩
  · rintro (touches | ⟨notResult, waiting, touch, rest, rfl, touches, noResult⟩)
    · exact ⟨[], event, events, rfl, touches, by simp⟩
    · exact ⟨event :: waiting, touch, rest, rfl, touches, by simp [Ne.symm notResult, noResult]⟩

/-- A waiting ticket is cancelled by the first touch, unless its result arrives before. -/
theorem Waits.isCancelled_foldl_iff {state : State} {generation : Nat}
    (waits : state.Waits generation) (bounded : state.Bounded) (events : List Event) :
    (events.foldl State.after state).isCancelled generation = true ↔
      TouchedBefore generation events := by
  induction events generalizing state with
  | nil => simp [TouchedBefore, waits.notCancelled]
  | cons event rest inductionHypothesis =>
      have given : generation ≤ state.generation := bounded.inFlight _ waits.inFlight
      rw [touchedBefore_cons_iff, List.foldl_cons]
      cases touches : event.touches with
      | true =>
          have cancelledNow : state.cancel.isCancelled generation = true :=
            (state.isCancelled_cancel generation).mpr (.inl waits.inFlight)
          have cancelled : (state.after event).isCancelled generation = true := by
            cases event with
            | edit text deadline => exact cancelledNow
            | reset => exact cancelledNow
            | start => cases touches
            | complete other => cases touches
          simp [isCancelled_foldl cancelled rest]
      | false =>
          by_cases mine : event = .complete generation
          · subst mine
            have settled : (state.after (.complete generation)).Settled generation := by
              rw [State.after, complete_eq, if_pos waits.inFlight]
              have idle : none ≠ some generation := by intro current; cases current
              exact ⟨given, idle, waits.notCancelled⟩
            simp [(settled.foldl rest).notCancelled]
          · rw [inductionHypothesis (waits.after touches mine) (bounded.after event)]
            simp [mine]

theorem Issued.bounded_waits {history before later : List Event} {ticket : Ticket}
    (issued : Issued history before ticket later) :
    (run (before ++ [.start])).Bounded ∧ (run (before ++ [.start])).Waits ticket.generation := by
  obtain ⟨started, starts⟩ := issued.starts
  have begun : run (before ++ [.start]) = started := by
    rw [run_concat, after, starts]
  exact ⟨bounded_run _, begun ▸ waits_of_start? (bounded_run before) starts⟩

theorem Issued.run_eq {history before later : List Event} {ticket : Ticket}
    (issued : Issued history before ticket later) :
    run history = later.foldl after (run (before ++ [.start])) := by
  rw [issued.split, ← run_append, List.append_assoc, List.singleton_append]

theorem Issued.isCancelled_iff {history before later : List Event} {ticket : Ticket}
    (issued : Issued history before ticket later) :
    (run history).isCancelled ticket.generation = true ↔
      TouchedBefore ticket.generation later := by
  obtain ⟨bounded, waits⟩ := issued.bounded_waits
  rw [issued.run_eq]
  exact waits.isCancelled_foldl_iff bounded later

theorem Issued.generation_le {history before later : List Event} {ticket : Ticket}
    (issued : Issued history before ticket later) :
    ticket.generation ≤ (run history).generation := by
  obtain ⟨bounded, waits⟩ := issued.bounded_waits
  rw [issued.run_eq]
  exact Nat.le_trans (bounded.inFlight _ waits.inFlight) (generation_le_foldl _ later)

/-! ## The phase -/

/-- What is in flight is cancelled only by an edit that is still pending. -/
def Superseding (state : State) : Prop :=
  ∀ generation, state.inFlight = some generation → state.isCancelled generation = true →
    state.pending.isSome = true

theorem superseding_new : new.Superseding := fun _ current => by cases current

/-- Each event keeps that behind a cancelled recompute a later edit is pending. -/
theorem Superseding.after {state : State} (superseding : state.Superseding)
    (bounded : state.Bounded) (event : Event) : (state.after event).Superseding := by
  cases event with
  | edit text deadline => exact fun _ _ _ => rfl
  | start =>
      cases starts : state.start? with
      | none =>
          rw [State.after, starts]
          exact superseding
      | some handed =>
          obtain ⟨ticket, started⟩ := handed
          have waits := waits_of_start? bounded starts
          intro generation current cancelled
          simp only [State.after, starts] at current cancelled
          obtain rfl := Option.some.inj (waits.inFlight.symm.trans current)
          rw [waits.notCancelled] at cancelled
          cases cancelled
  | complete other =>
      rw [State.after, complete_eq]
      intro generation current cancelled
      by_cases mine : state.inFlight = some other
      · simp [mine] at current
      · exact superseding generation (by simpa [mine] using current) cancelled
  | reset => exact fun _ current => by cases current

theorem superseding_run (history : List Event) : (run history).Superseding := by
  induction history using List.reverseRecOn with
  | nil => exact superseding_new
  | append_singleton history event inductionHypothesis =>
      rw [run_concat]
      exact inductionHypothesis.after (bounded_run history) event

/-- The phase is superseded exactly while a recompute is in flight and an edit is
pending. -/
theorem phase_eq_superseded_iff {state : State} (fresh : state.Fresh)
    (superseding : state.Superseding) :
    state.phase = .superseded ↔
      (∃ generation, state.inFlight = some generation) ∧ state.pending.isSome = true := by
  cases current : state.inFlight with
  | none =>
      have notSuperseded : state.phase ≠ .superseded := by
        unfold phase
        rw [current]
        cases state.pending <;> nofun
      simp [notSuperseded]
  | some generation =>
      have phase : state.phase = if state.isLive then .recomputing else .superseded := by
        unfold phase
        rw [current]
      have live : state.isLive = !state.isCancelled generation := by
        rw [isLive, current, Option.any_some]
      cases cancelled : state.isCancelled generation with
      | true =>
          have pending := superseding generation current cancelled
          simp [phase, live, cancelled, pending]
      | false =>
          have nonePending := fresh generation current cancelled
          simp [phase, live, cancelled, nonePending]

/-! ## The machine -/

theorem complete_iff (state : State) (generation : Nat) :
    (state.complete generation).1 = true ↔
      state.inFlight = some generation ∧ state.isCancelled generation = false := by
  unfold complete
  by_cases current : state.inFlight = some generation
  · simp [current, isLive]
  · simp [current]

/-- A touch takes effect before the result exactly if one came and no result did. -/
theorem not_touchedBefore_iff {generation : Nat} {events : List Event}
    (noResult : .complete generation ∉ events) :
    ¬ TouchedBefore generation events ↔ ∀ event ∈ events, event.touches = false := by
  induction events with
  | nil => simp [TouchedBefore]
  | cons event rest inductionHypothesis =>
      simp only [List.mem_cons, not_or] at noResult
      rw [touchedBefore_cons_iff, List.forall_mem_cons, ← inductionHypothesis noResult.2]
      simp [Ne.symm noResult.1]

/-- Everything that the machine answers is told by the history of its events. -/
theorem toldByHistory (history : List Event) : ToldBy history where
  completes generation := by
    rw [complete_iff, inFlight_run_iff, ← Bool.not_eq_true]
    constructor
    · rintro ⟨⟨before, ticket, later, latest, rfl, noResult, _⟩, notCancelled⟩
      rw [latest.isCancelled_iff, not_touchedBefore_iff noResult] at notCancelled
      exact ⟨before, ticket, later, latest, rfl, notCancelled, noResult⟩
    · rintro ⟨before, ticket, later, latest, rfl, untouched, noResult⟩
      refine ⟨⟨before, ticket, later, latest, rfl, noResult, ?_⟩, ?_⟩
      · intro reset
        cases untouched _ reset
      · rw [latest.isCancelled_iff, not_touchedBefore_iff noResult]
        exact untouched
  cancels before ticket later issued := issued.isCancelled_iff
  starts := by
    rw [← pending_run_isSome_iff, start?, Option.isSome_map]
  carries ticket started starts := by
    obtain ⟨⟨deadline, pending⟩, next, _⟩ := start?_eq_some starts
    refine ⟨⟨deadline, (pending_run_iff ..).mp pending⟩, ?_⟩
    intro before earlier later issued
    have older := issued.generation_le
    omega
  supersedes := by
    rw [phase_eq_superseded_iff (fresh_run history) (superseding_run history),
      pending_run_isSome_iff]
    simp only [← inFlight_run_iff]

/-- A result may be announced for a generation before it is handed out, and counts once it
is. -/
theorem counts_though_completed_before :
    ¬ ∀ history generation, ((run history).complete generation).1 = true ↔
      (∃ before ticket later, Latest history before ticket later ∧
        ticket.generation = generation ∧ ∀ event ∈ later, event.touches = false) ∧
      .complete generation ∉ history := by
  intro claim
  have counts : ((run [.complete 1, .edit "a" 0, .start]).complete 1).1 = true := by decide
  exact ((claim _ 1).mp counts).2 List.mem_cons_self

end State

end GrammarDesk.Edit
