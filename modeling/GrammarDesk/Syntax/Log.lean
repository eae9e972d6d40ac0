import GrammarDesk.Syntax.Problem

/-!
Contract: problems in the order they were met, as readers hand them on.

Owns: logs, which join at no cost however long they are, and the list of what a
log holds.

Main statement: the list of two logs joined is the first list followed by the
second (`toList_append`).
-/

namespace GrammarDesk.Syntax

/-- Problems in the order they were met. -/
inductive Log where
  | empty
  | entry (problem : Problem)
  | both (first second : Log)
deriving Repr

namespace Log

/-- One log after another; an empty one leaves no trace. -/
def append : Log → Log → Log
  | .empty, second => second
  | first, .empty => first
  | first, second => .both first second

instance : Append Log := ⟨append⟩

def prepend (others : List Problem) : Log → List Problem
  | .empty => others
  | .entry problem => problem :: others
  | .both first second => prepend (prepend others second) first

def toList (log : Log) : List Problem :=
  log.prepend []

theorem prepend_eq (others : List Problem) (log : Log) :
    log.prepend others = log.toList ++ others := by
  induction log generalizing others with
  | empty => rfl
  | entry problem => rfl
  | both first second firstHypothesis secondHypothesis =>
      simp only [toList, prepend]
      rw [firstHypothesis, firstHypothesis (prepend [] second), secondHypothesis,
        secondHypothesis [], List.append_nil, List.append_assoc]

@[simp] theorem toList_empty : empty.toList = [] := rfl

@[simp] theorem toList_entry (problem : Problem) : (entry problem).toList = [problem] := rfl

@[simp] theorem toList_both (first second : Log) :
    (both first second).toList = first.toList ++ second.toList :=
  prepend_eq _ first

@[simp] theorem toList_append (first second : Log) :
    (first ++ second).toList = first.toList ++ second.toList := by
  show (append first second).toList = _
  fun_cases append first second <;> simp

end Log

end GrammarDesk.Syntax
