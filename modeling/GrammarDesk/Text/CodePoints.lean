/-!
Contract: sets of Unicode code points, written as lists of closed intervals.

Owns: the interval form and membership of a character.

Does not own: any particular character property; each property is a table in a
module of its own.
-/

namespace GrammarDesk.Text

/-- A set of code points as closed intervals. -/
abbrev CodePoints := List (Nat × Nat)

namespace CodePoints

def has (set : CodePoints) (character : Char) : Bool :=
  set.any fun interval =>
    interval.1 ≤ character.toNat && character.toNat ≤ interval.2

theorem has_iff (set : CodePoints) (character : Char) :
    set.has character = true ↔
      ∃ interval ∈ set, interval.1 ≤ character.toNat ∧ character.toNat ≤ interval.2 := by
  simp [has]

end CodePoints

end GrammarDesk.Text
