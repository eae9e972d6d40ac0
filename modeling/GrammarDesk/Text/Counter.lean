/-!
Contract: arithmetic on 32-bit counters that reports leaving their range.

Owns: the overflow outcome, checked addition and checked subtraction.

Main statements: a checked operation succeeds exactly when its exact result is a
32-bit number, and then it is that result.
-/

namespace GrammarDesk.Text

/-- The outcome of counter arithmetic whose exact result is not a 32-bit
number. -/
structure Overflow where
deriving DecidableEq, Repr

/-- A result of counter arithmetic. -/
abbrev Checked (α : Type) := Except Overflow α

namespace Counter

/-- The least number a counter cannot hold. -/
def limit : Nat := 0x100000000

def add (left right : Nat) : Checked Nat :=
  if left + right < limit then .ok (left + right) else .error ⟨⟩

def sub (left right : Nat) : Checked Nat :=
  if right ≤ left then .ok (left - right) else .error ⟨⟩

theorem add_eq_ok_iff {left right sum : Nat} :
    add left right = .ok sum ↔ left + right < limit ∧ left + right = sum := by
  by_cases small : left + right < limit <;> simp [add, small]

theorem sub_eq_ok_iff {left right difference : Nat} :
    sub left right = .ok difference ↔ right ≤ left ∧ left - right = difference := by
  by_cases enough : right ≤ left <;> simp [sub, enough]

end Counter

end GrammarDesk.Text
