/-!
Contract: half-open ranges of byte offsets into a text.

Owns: the range type and its two membership tests.
-/

namespace GrammarDesk.Text

/-- The bytes from `start` up to, and not including, `stop`. Offsets have no largest one and never
wrap; a text has to be small where they are counted in 32 bits (`Counter`). -/
structure Range where
  start : Nat
  stop : Nat
deriving DecidableEq, Repr, Inhabited

namespace Range

def emptyAt (offset : Nat) : Range :=
  ⟨offset, offset⟩

def contains (range : Range) (offset : Nat) : Bool :=
  range.start ≤ offset && offset < range.stop

def touches (range : Range) (offset : Nat) : Bool :=
  range.start ≤ offset && offset ≤ range.stop

theorem contains_iff (range : Range) (offset : Nat) :
    range.contains offset = true ↔ range.start ≤ offset ∧ offset < range.stop := by
  simp [contains]

theorem touches_iff (range : Range) (offset : Nat) :
    range.touches offset = true ↔ range.start ≤ offset ∧ offset ≤ range.stop := by
  simp [touches]

end Range

end GrammarDesk.Text
