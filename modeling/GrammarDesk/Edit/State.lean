/-!
Contract: the edits of one file between typing and recomputing.

Owns: pending edits with their deadlines, the one recompute that may be in
flight, and the tickets that recomputes run under.

Does not own: who recomputes, and what a result is. A result counts only if its
ticket is in flight and not cancelled when it arrives. Every ticket has a
generation of its own, so an old ticket never passes for a new one. Generations
count up without end: 64 bits hold more of them than there will be edits, so
that they wrap is left out.
-/

namespace GrammarDesk.Edit

/-- An edited text and the time from which it may be recomputed. -/
structure Pending where
  text : String
  deadline : Nat
deriving DecidableEq, Repr

/-- The right to recompute a text. -/
structure Ticket where
  generation : Nat
  text : String
deriving DecidableEq, Repr

/-- How far the edits of a file have come. -/
inductive Phase where
  | idle
  | pending
  | recomputing
  /-- A newer edit came while a recompute was in flight. -/
  | superseded
deriving DecidableEq, Repr

structure State where
  /-- The latest generation given out or skipped. It only grows and never wraps. -/
  generation : Nat
  pending : Option Pending
  /-- The generation being recomputed. -/
  inFlight : Option Nat
  /-- The generations whose recompute was cancelled. -/
  cancelled : List Nat
deriving DecidableEq, Repr

namespace State

def new : State :=
  { generation := 0
    pending := none
    inFlight := none
    cancelled := [] }

def isCancelled (state : State) (generation : Nat) : Bool :=
  state.cancelled.contains generation

/-- Whether a recompute is in flight whose result would still count. -/
def isLive (state : State) : Bool :=
  state.inFlight.any fun generation => !state.isCancelled generation

def phase (state : State) : Phase :=
  match state.inFlight, state.pending with
  | none, none => .idle
  | none, some _ => .pending
  | some _, _ => if state.isLive then .recomputing else .superseded

def deadline (state : State) : Option Nat :=
  state.pending.map fun edit => edit.deadline

/-- Whether an edit is pending whose deadline has come. -/
def isDue (state : State) (now : Nat) : Bool :=
  state.pending.any fun edit => edit.deadline ≤ now

/-- The state in which the recompute in flight is cancelled. It stays in flight
until it is completed or forgotten. -/
def cancel (state : State) : State :=
  { state with cancelled := state.inFlight.toList ++ state.cancelled }

/-- The state after an edit, which replaces a pending one and cancels the
recompute in flight. -/
def edit (state : State) (text : String) (deadline : Nat) : State :=
  { state.cancel with pending := some ⟨text, deadline⟩ }

/-- The ticket for the pending text, if there is one, and the state in which it
is recomputed. -/
def start? (state : State) : Option (Ticket × State) :=
  state.pending.map fun edit =>
    let generation := state.generation + 1
    (⟨generation, edit.text⟩,
      { state.cancel with
        generation := generation
        pending := none
        inFlight := some generation })

/-- Whether the result for a generation counts, and the state after it
arrived. -/
def complete (state : State) (generation : Nat) : Bool × State :=
  if state.inFlight = some generation then
    (state.isLive, { state with inFlight := none })
  else
    (false, state)

/-- The state in which all work on earlier texts is forgotten. -/
def reset (state : State) : State :=
  { state.cancel with
    generation := state.generation + 1
    pending := none
    inFlight := none }

end State

end GrammarDesk.Edit
