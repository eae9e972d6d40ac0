import GrammarDesk.Text.Counter

/-!
Contract: places in a text by line and column, and spans between two places.

Owns: positions and their text, spans, and what it means to lie in a span.
Lines and columns count from zero; a position is shown to a reader counting
from one.

Does not own: how byte offsets become positions.
-/

namespace GrammarDesk.Text

/-- A line and a column in it, both counted from zero. -/
structure Position where
  line : Nat
  column : Nat
deriving DecidableEq, Repr, Inhabited

namespace Position

def le (left right : Position) : Prop :=
  left.line < right.line ∨ (left.line = right.line ∧ left.column ≤ right.column)

instance : LE Position := ⟨le⟩

instance (left right : Position) : Decidable (left ≤ right) :=
  inferInstanceAs
    (Decidable (left.line < right.line ∨ (left.line = right.line ∧ left.column ≤ right.column)))

/-- Line and column counted from one and joined by a colon. -/
def display (position : Position) : Checked String := do
  let line ← Counter.add position.line 1
  let column ← Counter.add position.column 1
  return toString line ++ ":" ++ toString column

end Position

/-- The stretch of text between two positions. -/
structure Span where
  start : Position
  stop : Position
deriving DecidableEq, Repr, Inhabited

namespace Span

/-- Whether a position lies between the ends of the span, both included. -/
def contains (span : Span) (position : Position) : Bool :=
  decide (span.start ≤ position) && decide (position ≤ span.stop)

/-- The number of columns of a span on a single line; a span over several lines
has none. -/
def width (span : Span) : Checked (Option Nat) :=
  if span.start.line = span.stop.line then
    some <$> Counter.sub span.stop.column span.start.column
  else
    return none

end Span

end GrammarDesk.Text
