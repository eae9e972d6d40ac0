/-!
Contract: search of a finite graph in rounds, nearest nodes first.

Owns: one round of a search, the rounds of a whole search, and the search for one
node that takes nodes off a queue. The nodes are numbered from zero. Every node found
carries a note, such as the way to it; of several arrivals in one round the first
counts.

Does not own: which graph is searched. The number of rounds is bounded by the
number of nodes, since every round but the last finds one.

Main statements: a round finds no node that was found before and none twice.
-/

namespace GrammarDesk.Graph

universe u

variable {Note : Type u}

/-- For every node whether a search has found it. -/
abbrev Marks := Array Bool

namespace Marks

/-- The marks of a search that has found none of some number of nodes. -/
def fresh (size : Nat) : Marks :=
  Array.replicate size false

/-- Whether a node is yet to be found. What is no node of the graph never is. -/
def awaits (marks : Marks) (node : Nat) : Bool :=
  marks[node]? = some false

def mark (marks : Marks) (node : Nat) : Marks :=
  marks.setIfInBounds node true

theorem awaits_mark (marks : Marks) (node other : Nat) :
    (marks.mark node).awaits other = (decide (other ≠ node) && marks.awaits other) := by
  unfold awaits mark
  rw [Array.getElem?_setIfInBounds]
  by_cases same : node = other
  · subst same
    by_cases inside : node < marks.size <;> simp [inside]
  · simp [same, Ne.symm same]

end Marks

/-- The first arrival at every node that was yet to be found, and the marks
after. -/
def firstArrivals (marks : Marks) : List (Nat × Note) → List (Nat × Note) × Marks
  | [] => ([], marks)
  | (node, note) :: rest =>
      if marks.awaits node then
        let (later, last) := firstArrivals (marks.mark node) rest
        ((node, note) :: later, last)
      else
        firstArrivals marks rest

/-- The rounds of a search that has `fuel` rounds left. `arrange` puts the
arrivals of a round in order before the first at every node is chosen. -/
def rounds
    (step : Nat × Note → List (Nat × Note))
    (arrange : List (Nat × Note) → List (Nat × Note)) :
    (fuel : Nat) → (marks : Marks) → (frontier : List (Nat × Note)) → List (List (Nat × Note))
  | 0, _, _ => []
  | fuel + 1, marks, frontier =>
      match firstArrivals marks (arrange (frontier.flatMap step)) with
      | ([], _) => []
      | (next, later) => next :: rounds step arrange fuel later next

/-- The first goal that a search with a queue finds. It takes the first node off the queue
and puts what it finds from there at the end, until a goal is among it. -/
def seek?
    (step : Nat × Note → List (Nat × Note))
    (isGoal : Nat → Bool) :
    (fuel : Nat) → (marks : Marks) → (queue : List (Nat × Note)) → Option (Nat × Note)
  | _, _, [] => none
  | 0, _, _ => none
  | fuel + 1, marks, first :: waiting =>
      let (found, later) := firstArrivals marks (step first)
      match found.find? fun arrival => isGoal arrival.1 with
      | some arrival => some arrival
      | none => seek? step isGoal fuel later (waiting ++ found)

/-- The nodes that one or more steps lead to from some nodes, in a graph of
`size` nodes. -/
def reached (next : Nat → List Nat) (size : Nat) (start : List Nat) : List Nat :=
  let step : Nat × Unit → List (Nat × Unit) := fun (node, _) => (next node).map (·, ())
  (rounds step id size (.fresh size) (start.map (·, ()))).flatten.map Prod.fst

/-- Nothing is found that was found before. -/
theorem awaits_of_mem_firstArrivals
    {marks : Marks} {arrivals : List (Nat × Note)} {arrival : Nat × Note}
    (found : arrival ∈ (firstArrivals marks arrivals).1) :
    marks.awaits arrival.1 = true := by
  fun_induction firstArrivals marks arrivals with
  | case1 => simp at found
  | case2 marks node note rest awaited later last read inductionHypothesis =>
      rcases List.mem_cons.mp found with rfl | found
      · exact awaited
      · rw [read] at inductionHypothesis
        have stillAwaited := inductionHypothesis found
        rw [Marks.awaits_mark, Bool.and_eq_true] at stillAwaited
        exact stillAwaited.2
  | case3 marks node note rest _ inductionHypothesis => exact inductionHypothesis found

theorem firstArrivals_nodup (marks : Marks) (arrivals : List (Nat × Note)) :
    ((firstArrivals marks arrivals).1.map Prod.fst).Nodup := by
  fun_induction firstArrivals marks arrivals with
  | case1 => simp
  | case2 marks node note rest awaited later last read inductionHypothesis =>
      rw [read] at inductionHypothesis
      refine List.nodup_cons.mpr ⟨fun again => ?_, inductionHypothesis⟩
      obtain ⟨arrival, found, same⟩ := List.mem_map.mp again
      have among : arrival ∈ (firstArrivals (marks.mark node) rest).1 := by rw [read]; exact found
      have new := awaits_of_mem_firstArrivals among
      rw [Marks.awaits_mark] at new
      simp [same] at new
  | case3 marks node note rest _ inductionHypothesis => exact inductionHypothesis

end GrammarDesk.Graph
