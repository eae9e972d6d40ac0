import GrammarDesk.Proofs.Graph.Search

/-!
Contract: what a search with a queue finds first.

Owns: the proof that a queue brings the nodes in the order in which rounds find them.
While the nodes of one round stand before those that they lead to, taking them off one
after another comes to the same as one round.

Does not own: which nodes a round finds (`Search`).

Main statement: `seek?_eq_find?`.
-/

namespace GrammarDesk.Graph

universe u

variable {Note : Type u}

/-- Arrivals may be tried in two parts, the second with the marks that the first leaves. -/
theorem firstArrivals_append (marks : Marks) (arrivals others : List (Nat × Note)) :
    firstArrivals marks (arrivals ++ others) =
      Prod.map ((firstArrivals marks arrivals).1 ++ ·) id
        (firstArrivals (firstArrivals marks arrivals).2 others) := by
  fun_induction firstArrivals marks arrivals with
  | case1 => rfl
  | case2 marks node note rest awaited later last read inductionHypothesis =>
      rw [read] at inductionHypothesis
      rw [List.cons_append, firstArrivals, if_pos awaited, inductionHypothesis]
      rfl
  | case3 marks node note rest notAwaited inductionHypothesis =>
      rw [List.cons_append, firstArrivals, if_neg notAwaited]
      exact inductionHypothesis

section Queue

variable {step : Nat × Note → List (Nat × Note)} {isGoal : Nat → Bool}

@[simp] theorem seek?_nil (fuel : Nat) (marks : Marks) :
    seek? step isGoal fuel marks [] = none := by
  cases fuel <;> rfl

theorem seek?_cons (fuel : Nat) (marks : Marks) (first : Nat × Note)
    (waiting : List (Nat × Note)) :
    seek? step isGoal (fuel + 1) marks (first :: waiting) =
      ((firstArrivals marks (step first)).1.find? fun arrival => isGoal arrival.1).or
        (seek? step isGoal fuel (firstArrivals marks (step first)).2
          (waiting ++ (firstArrivals marks (step first)).1)) := by
  rw [seek?]
  generalize firstArrivals marks (step first) = result
  obtain ⟨found, later⟩ := result
  dsimp only
  cases found.find? fun arrival => isGoal arrival.1 with
  | none => rfl
  | some arrival => rfl

/-- With the nodes of a round at the head of the queue, a search finds a goal in the next
round, or goes on with that round at the end of the queue. -/
theorem seek?_append (frontier : List (Nat × Note)) (fuel : Nat) (marks : Marks)
    (behind : List (Nat × Note)) :
    seek? step isGoal (frontier.length + fuel) marks (frontier ++ behind) =
      ((firstArrivals marks (frontier.flatMap step)).1.find? fun arrival => isGoal arrival.1).or
        (seek? step isGoal fuel (firstArrivals marks (frontier.flatMap step)).2
          (behind ++ (firstArrivals marks (frontier.flatMap step)).1)) := by
  induction frontier generalizing marks behind with
  | nil => simp [firstArrivals]
  | cons first rest inductionHypothesis =>
      rw [List.length_cons, Nat.succ_add, List.cons_append, seek?_cons, List.append_assoc,
        inductionHypothesis, List.flatMap_cons, firstArrivals_append, Prod.map_fst, Prod.map_snd,
        List.find?_append, Option.or_assoc, List.append_assoc, id_eq]

/-- While only one round is in the queue, the search takes it off as a whole. -/
theorem seek?_frontier (frontier : List (Nat × Note)) (fuel : Nat) (marks : Marks) :
    seek? step isGoal (frontier.length + fuel) marks frontier =
      ((firstArrivals marks (frontier.flatMap step)).1.find? fun arrival => isGoal arrival.1).or
        (seek? step isGoal fuel (firstArrivals marks (frontier.flatMap step)).2
          (firstArrivals marks (frontier.flatMap step)).1) := by
  have taken : seek? step isGoal _ _ _ = _ := seek?_append frontier fuel marks []
  rwa [List.append_nil, List.nil_append] at taken

/-- A search with a queue finds the first goal among what the rounds of a search find, if it
has fuel for each node in the queue and each that is yet to be found. -/
theorem seek?_eq_find? (bound : Nat) {fuel : Nat} {marks : Marks}
    {frontier : List (Nat × Note)} (enough : marks.waiting ≤ bound)
    (enoughFuel : frontier.length + marks.waiting ≤ fuel) :
    seek? step isGoal fuel marks frontier =
      (rounds step id bound marks frontier).flatten.find? fun arrival => isGoal arrival.1 := by
  induction bound generalizing fuel marks frontier with
  | zero =>
      obtain ⟨left, rfl⟩ := Nat.exists_eq_add_of_le (Nat.le_of_add_right_le enoughFuel)
      have fewer := waiting_firstArrivals marks (frontier.flatMap step)
      have nothing : (firstArrivals marks (frontier.flatMap step)).1 = [] :=
        List.eq_nil_of_length_eq_zero (by omega)
      rw [seek?_frontier, nothing]
      simp [rounds]
  | succ bound inductionHypothesis =>
      obtain ⟨left, rfl⟩ := Nat.exists_eq_add_of_le (Nat.le_of_add_right_le enoughFuel)
      have fewer := waiting_firstArrivals marks (frontier.flatMap step)
      rw [seek?_frontier]
      unfold rounds
      rw [id_eq]
      generalize firstArrivals marks (frontier.flatMap step) = result at *
      obtain ⟨found, later⟩ := result
      cases found with
      | nil => simp
      | cons first others =>
          simp only [List.length_cons] at fewer ⊢
          rw [List.flatten_cons, List.find?_append,
            inductionHypothesis (by omega) (by rw [List.length_cons]; omega)]

end Queue

end GrammarDesk.Graph
