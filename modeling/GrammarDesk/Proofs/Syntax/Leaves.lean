import GrammarDesk.Proofs.Syntax.Ahead
import GrammarDesk.Proofs.Syntax.Ebnf

/-!
Contract: readings that find no fault, and what they leave.

Owns: readings whose only problems are unreadable lexemes, the lexemes that such a reading
leaves, how the steps that readers are made of hand these on, and how a reader that loops
gets through a repetition.

Does not own: which words each production reads whole (`Completeness`).

Main statements: after a reading without fault the next reader goes on with what that one left
(`Leaves.andThen`); a loop that gets through one word of a phrase gets through many of them
(`leaves_many`).
-/

namespace GrammarDesk.Syntax

namespace Reading

variable {input middle rest : List Lexeme} {limit : Nat} {reading : Reading input limit}
variable {head : Lexeme} {tail : List Lexeme} {kind : Kind}

/-- The reading found no fault and left these lexemes. -/
def Leaves (reading : Reading input limit) (rest : List Lexeme) : Prop :=
  reading.rest = rest ∧ ∀ problem ∈ reading.problems.toList, problem.isUnreadable = true

theorem leaves_nothing : (nothing input).Leaves input :=
  ⟨rfl, fun _ member => absurd member List.not_mem_nil⟩

theorem unreadable_of_mem_problemsOf :
    ∀ problem ∈ (problemsOf head tail).toList, problem.isUnreadable = true := by
  intro problem member
  rw [toList_problemsOf] at member
  unfold Problem.ofLexeme at member
  split at member
  · rw [List.mem_singleton.mp member]
    rfl
  · exact absurd member List.not_mem_nil

theorem leaves_take : (take head tail).Leaves tail :=
  ⟨rfl, unreadable_of_mem_problemsOf⟩

theorem leaves_takeNext : (takeNext (head :: tail)).Leaves tail :=
  ⟨rfl, unreadable_of_mem_problemsOf⟩

theorem Leaves.node (leaves : reading.Leaves rest) : (reading.node kind).Leaves rest :=
  leaves

theorem Leaves.attempt {reading : Advance head tail} (leaves : reading.Leaves rest) :
    reading.attempt.Leaves rest :=
  leaves

theorem Leaves.append {limit' : Nat} {following : Reading reading.rest limit'}
    (former : reading.Leaves middle) (latter : following.Leaves rest) :
    (reading.append following).Leaves rest := by
  refine ⟨latter.1, ?_⟩
  intro problem member
  change problem ∈ (reading.problems ++ following.problems).toList at member
  rw [Log.toList_append, List.mem_append] at member
  rcases member with inFormer | inLatter
  · exact former.2 problem inFormer
  · exact latter.2 problem inLatter

/-- What a reader leaves is where the next one goes on. -/
theorem Leaves.andThen {following : (input : List Lexeme) → Attempt input}
    (former : reading.Leaves middle) (latter : (following middle).Leaves rest) :
    (reading.andThen (following reading.rest)).Leaves rest := by
  obtain ⟨rfl, _⟩ := id former
  exact former.append latter

/-- The shapes of what the next reader makes of the rest come after those so far. -/
theorem shapes_andThen {following : (input : List Lexeme) → Attempt input}
    (left : reading.rest = middle) :
    (reading.andThen (following reading.rest)).shapes =
      reading.shapes ++ (following middle).shapes := by
  subst left
  rfl

theorem rest_andThen {following : (input : List Lexeme) → Attempt input}
    (left : reading.rest = middle) :
    (reading.andThen (following reading.rest)).rest = (following middle).rest := by
  subst left
  rfl

theorem Leaves.bump (leaves : reading.Leaves (head :: tail)) : reading.bump.Leaves tail :=
  leaves.andThen leaves_takeNext

theorem Leaves.next (leaves : reading.Leaves (head :: tail)) (same : head.kind = kind) :
    Ahead.next kind reading.rest = true := by
  rw [leaves.1]
  exact decide_eq_true same

theorem Leaves.not_next (leaves : reading.Leaves rest) (other : Ahead.next kind rest = false) :
    ¬Ahead.next kind reading.rest = true := by
  rw [leaves.1, other]
  exact Bool.false_ne_true

theorem Leaves.expect (leaves : reading.Leaves (head :: tail)) (same : head.kind = kind) :
    (reading.expect kind).Leaves tail := by
  unfold Reading.expect
  rw [if_pos (leaves.next same)]
  exact leaves.bump

theorem Leaves.expect_shapes (leaves : reading.Leaves (head :: tail)) (same : head.kind = kind) :
    (reading.expect kind).shapes = reading.shapes ++ [.leaf head] := by
  unfold Reading.expect
  rw [if_pos (leaves.next same)]
  exact shapes_andThen leaves.1

theorem Leaves.eat (leaves : reading.Leaves (head :: tail)) (same : head.kind = kind) :
    (reading.eat kind).Leaves tail := by
  unfold Reading.eat
  rw [if_pos (leaves.next same)]
  exact leaves.bump

theorem Leaves.eat_none (leaves : reading.Leaves rest) (none : Ahead.next kind rest = false) :
    (reading.eat kind).Leaves rest := by
  unfold Reading.eat
  rw [if_neg (leaves.not_next none)]
  exact leaves

/-- A loop gets through a repetition if it stops before what follows and gets through one word
wherever it gets through what comes after that. -/
theorem leaves_many {loop : (input : List Lexeme) → Attempt input} {phrase : Ebnf.Phrase}
    (Follow : List Lexeme → Prop) {word : List Lexeme}
    (derives : Ebnf.Derives (.many phrase) word) (follow : Follow rest)
    (stops : (loop rest).Leaves rest)
    (step : ∀ {one later}, Ebnf.Derives phrase one → one.length ≤ word.length → Follow later →
      (loop later).Leaves rest → Follow (one ++ later) ∧ (loop (one ++ later)).Leaves rest) :
    (loop (word ++ rest)).Leaves rest := by
  obtain ⟨words, rfl, each⟩ := Ebnf.derives_many_iff.mp derives
  have lengths : ∀ one ∈ words, one.length ≤ words.flatten.length := fun one member =>
    (List.sublist_flatten_of_mem member).length_le
  suffices both : ∀ later : List (List Lexeme), (∀ one ∈ later, one ∈ words) →
      Follow (later.flatten ++ rest) ∧ (loop (later.flatten ++ rest)).Leaves rest from
    (both words fun _ member => member).2
  intro later
  induction later with
  | nil => exact fun _ => ⟨follow, stops⟩
  | cons one later inductionHypothesis =>
      intro members
      obtain ⟨first, others⟩ := List.forall_mem_cons.mp members
      obtain ⟨followed, read⟩ := inductionHypothesis others
      rw [List.flatten_cons, List.append_assoc]
      exact step (each one first) (lengths one first) followed read

end Reading

end GrammarDesk.Syntax
