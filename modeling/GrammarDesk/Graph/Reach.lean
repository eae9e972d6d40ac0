/-!
Contract: which nodes of a numbered graph lead to which.

Owns: the graph as one row of bits for every node, and the rows of all nodes
that one or more edges lead to. Rows are completed by admitting the nodes one
after another as stations of a path.

Does not own: what a node stands for, or searches that keep a distance
(`Search`).

Main statement: the completed rows hold exactly the ends of the paths of the
graph (`reach_iff`).
-/

namespace GrammarDesk.Graph

/-- For every node the nodes that its edges lead to, one bit for each. -/
abbrev Rows := List Nat

namespace Rows

def leads (rows : Rows) (source target : Nat) : Bool :=
  (rows.getD source 0).testBit target

/-- The rows with an edge for every two edges that meet in a station. -/
def through (rows : Rows) (station : Nat) : Rows :=
  let onward := rows.getD station 0
  rows.map fun row => if row.testBit station then row ||| onward else row

/-- The rows of all nodes that one or more edges lead to. -/
def reach (rows : Rows) : Rows :=
  (List.range rows.length).foldl through rows

theorem leads_through (rows : Rows) (station source target : Nat) :
    (rows.through station).leads source target =
      (rows.leads source target ||
        (rows.leads source station && rows.leads station target)) := by
  simp only [leads, through, List.getD_eq_getElem?_getD, List.getElem?_map]
  cases rows[source]? with
  | none => simp
  | some row =>
      by_cases meets : row.testBit station = true
      · simp [meets]
      · simp [meets]

theorem length_foldl_through (stations : List Nat) (rows : Rows) :
    (stations.foldl through rows).length = rows.length := by
  induction stations generalizing rows with
  | nil => rfl
  | cons station rest inductionHypothesis =>
      rw [List.foldl_cons, inductionHypothesis]
      simp [through]

def Path (rows : Rows) : Nat → Nat → Prop :=
  Relation.TransGen fun source target => rows.leads source target = true

/-- Edges on top of rows that hold paths of a graph hold paths too. -/
theorem path_of_foldl
    (graph rows : Rows)
    (stations : List Nat)
    (sound : ∀ source target, rows.leads source target = true → graph.Path source target) :
    ∀ source target, (stations.foldl through rows).leads source target = true →
      graph.Path source target := by
  induction stations generalizing rows with
  | nil => exact sound
  | cons station rest inductionHypothesis =>
      refine inductionHypothesis (rows.through station) fun source target edge => ?_
      rw [leads_through, Bool.or_eq_true, Bool.and_eq_true] at edge
      rcases edge with direct | ⟨into, onward⟩
      · exact sound source target direct
      · exact (sound source station into).trans (sound station target onward)

/-- Two edges that meet in a station have an edge. -/
def Closed (rows : Rows) (station : Nat) : Prop :=
  ∀ source target, rows.leads source station = true → rows.leads station target = true →
    rows.leads source target = true

theorem closed_through {rows : Rows} {station other : Nat}
    (closed : other = station ∨ rows.Closed other) :
    (rows.through station).Closed other := by
  intro source target into onward
  simp only [leads_through, Bool.or_eq_true, Bool.and_eq_true] at into onward ⊢
  rcases closed with rfl | closed
  · rcases into with into | ⟨into, _⟩ <;> rcases onward with onward | ⟨_, onward⟩ <;>
      exact .inr ⟨into, onward⟩
  · rcases into with into | ⟨into, between⟩ <;> rcases onward with onward | ⟨back, onward⟩
    · exact .inl (closed source target into onward)
    · exact .inr ⟨closed source station into back, onward⟩
    · exact .inr ⟨into, closed station target between onward⟩
    · exact .inr ⟨into, onward⟩

/-- Led through some stations, rows lose no edge and every station is closed. A station that
was closed stays so when others are led through. -/
theorem foldl_through_complete (stations : List Nat) (rows : Rows) :
    (∀ source target, rows.leads source target = true →
        (stations.foldl through rows).leads source target = true) ∧
      ∀ station, station ∈ stations ∨ rows.Closed station →
        (stations.foldl through rows).Closed station := by
  induction stations generalizing rows with
  | nil => exact ⟨fun _ _ edge => edge, fun station closed => by simpa using closed⟩
  | cons first rest inductionHypothesis =>
      have later := inductionHypothesis (rows.through first)
      refine ⟨fun source target edge => later.1 source target ?_, fun station closed => ?_⟩
      · rw [leads_through, edge, Bool.true_or]
      · refine later.2 station ?_
        rcases closed with listed | closed
        · rcases List.mem_cons.mp listed with rfl | listed
          · exact .inr (closed_through (.inl rfl))
          · exact .inl listed
        · exact .inr (closed_through (.inr closed))

/-- A node that an edge leaves is one of the graph. -/
theorem lt_length_of_leads {rows : Rows} {source target : Nat}
    (edge : rows.leads source target = true) :
    source < rows.length := by
  by_cases inside : source < rows.length
  · exact inside
  · simp [leads, List.getD_eq_getElem?_getD, List.getElem?_eq_none (Nat.le_of_not_lt inside)]
      at edge

/-- The completed rows lead from a node to exactly the ends of its paths. -/
theorem reach_iff (rows : Rows) (source target : Nat) :
    rows.reach.leads source target = true ↔ rows.Path source target := by
  constructor
  · exact path_of_foldl rows rows _ (fun _ _ edge => .single edge) source target
  · have complete := foldl_through_complete (List.range rows.length) rows
    intro path
    induction path with
    | single edge => exact complete.1 _ _ edge
    | tail _ edge inductionHypothesis =>
        have listed := List.mem_range.mpr (lt_length_of_leads edge)
        exact complete.2 _ (.inl listed) _ _ inductionHypothesis (complete.1 _ _ edge)

end Rows

end GrammarDesk.Graph
