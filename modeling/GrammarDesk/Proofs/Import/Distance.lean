import GrammarDesk.Proofs.Import.Graph

/-!
Contract: how far files are from each other along imports.

Owns: walks of imports between files, the walks of places that they are, the
reverse of all edges, and what the search along reversed edges finds: the files that
depend on some files.

Does not own: the searches of a closure (`Closure`).

Main statements: `walk_iff`, `mem_dependents_iff`.
-/

namespace GrammarDesk.Import

open GrammarDesk.Graph

/-- A walk of some number of imports from one file to another. -/
abbrev Graph.Trail (graph : Graph) (steps : Nat) (source target : File.Id) : Prop :=
  Walk graph.targets steps source target

namespace Links

variable {graph : Graph}

def onward (links : Links) (place : Nat) : List Nat :=
  (links.edgesAt place).map Prod.snd

theorem map_onward {place : Nat} {file : File.Id} (atPlace : graph.files[place]? = some file) :
    (graph.links.onward place).map graph.links.fileAt = graph.targets file := by
  rw [Graph.targets, ← map_edgesAt atPlace]
  simp [onward]

theorem getElem?_of_mem_onward {place target : Nat}
    (edge : target ∈ graph.links.onward place) :
    graph.files[target]? = some (graph.links.fileAt target) := by
  obtain ⟨⟨clause, other⟩, member, rfl⟩ := List.mem_map.mp edge
  exact getElem?_of_mem_edgesAt member

theorem lt_of_mem_onward {source place : Nat} (edge : place ∈ graph.links.onward source) :
    place < graph.links.size :=
  size_links graph ▸ (List.getElem?_eq_some_iff.mp (getElem?_of_mem_onward edge)).1

theorem mem_onward_iff {place target : Nat} {file other : File.Id}
    (atPlace : graph.files[place]? = some file) (atTarget : graph.files[target]? = some other) :
    target ∈ graph.links.onward place ↔ other ∈ graph.targets file := by
  rw [← map_onward atPlace, List.mem_map]
  constructor
  · exact fun edge => ⟨target, edge, fileAt_eq atTarget⟩
  · rintro ⟨place', edge, rfl⟩
    have atPlace' := getElem?_of_mem_onward edge
    rw [Graph.place_unique atTarget atPlace']
    exact edge

/-- Walks of places are walks of files. -/
theorem walk_iff {steps place target : Nat} {file other : File.Id}
    (atPlace : graph.files[place]? = some file) (atTarget : graph.files[target]? = some other) :
    Walk graph.links.onward steps place target ↔ graph.Trail steps file other := by
  induction steps generalizing target other with
  | zero =>
      constructor
      · rintro rfl
        exact Option.some.inj (atPlace.symm.trans atTarget)
      · rintro rfl
        exact Graph.place_unique atPlace atTarget
  | succ steps inductionHypothesis =>
      constructor
      · rintro ⟨middle, walk, edge⟩
        have inGraph : middle < graph.files.length := by
          obtain ⟨entry, member, _⟩ := List.mem_map.mp edge
          exact lt_of_mem_edgesAt member
        have atMiddle : graph.files[middle]? = some graph.files[middle] :=
          List.getElem?_eq_getElem inGraph
        exact ⟨graph.files[middle], (inductionHypothesis atMiddle).mp walk,
          (mem_onward_iff atMiddle atTarget).mp edge⟩
      · rintro ⟨between, trail, imports⟩
        have inGraph := (Graph.mem_files_of_targets imports).1
        obtain ⟨middle, atMiddle⟩ := List.mem_iff_getElem?.mp inGraph
        exact ⟨middle, (inductionHypothesis atMiddle).mpr trail,
          (mem_onward_iff atMiddle atTarget).mpr imports⟩

/-- The least walks of places are the least walks of files. -/
theorem isLeastWalk_iff {steps place target : Nat} {file other : File.Id}
    (atPlace : graph.files[place]? = some file) (atTarget : graph.files[target]? = some other) :
    IsLeastWalk graph.links.onward steps place target ↔
      IsLeastWalk graph.targets steps file other := by
  unfold IsLeastWalk
  simp only [walk_iff atPlace atTarget]

/-- What is one edge further is imported. -/
theorem mem_targets_of_mem_onward {place target : Nat}
    (edge : target ∈ graph.links.onward place) :
    graph.links.fileAt target ∈ graph.targets (graph.links.fileAt place) := by
  obtain ⟨entry, isEntry, rfl⟩ := List.mem_map.mp edge
  exact (mem_onward_iff (getElem?_of_source isEntry) (getElem?_of_mem_edgesAt isEntry)).mp edge

/-! ## Searches along imports -/

theorem waiting_marksOf_le (links : Links) (place : Nat) :
    (links.marksOf place).waiting ≤ links.size :=
  Nat.le_trans (Marks.waiting_mark_le _ _) (Nat.le_of_eq (Marks.waiting_fresh _))

/-- The rounds of a search along the imports are the fronts below its source, whatever is
noted and in whatever order the files of a round are tried. -/
theorem mem_rounds_iff_front {Note : Type} {step : Nat × Note → List (Nat × Note)}
    {arrange : List (Nat × Note) → List (Nat × Note)}
    (steps : ∀ source note node,
      (∃ further, (node, further) ∈ step (source, note)) ↔ node ∈ graph.links.onward source)
    (arranged : ∀ arrivals arrival, arrival ∈ arrange arrivals ↔ arrival ∈ arrivals)
    (source : Nat) (note : Note) (later node : Nat) :
    (∃ layer, (rounds step arrange graph.links.size (graph.links.marksOf source)
        [(source, note)])[later]? = some layer ∧ ∃ further, (node, further) ∈ layer) ↔
      Front graph.links.onward (· = source) (· = source) (later + 1) node := by
  have layers : (∃ layer, (rounds step arrange graph.links.size (graph.links.marksOf source)
        [(source, note)])[later]? = some layer ∧ ∃ further, (node, further) ∈ layer) ↔
      Front graph.links.onward (· = source) (· = source) (0 + later + 1) node :=
    mem_rounds_iff (fun _ same => same) (fun _ _ => lt_of_mem_onward) steps arranged
      graph.links.size (graph.links.waiting_marksOf_le source)
      (by simp [marksOf, Marks.awaits_mark, Marks.awaits_fresh, Seen, and_comm])
      (by simp [Front]) later node
  rwa [Nat.zero_add] at layers

/-! ## Reversed edges -/

/-- The table after the edges of one more place have been entered in it. -/
def enterRow (table : Array (List Nat)) (row : List (ImportClause × Nat)) (source : Nat) :
    Array (List Nat) :=
  row.foldl (fun table edge => table.modify edge.2 (source :: ·)) table

/-- One row enters its place as an importer of the places that it leads to. -/
theorem enterRow_spec (table : Array (List Nat)) (row : List (ImportClause × Nat))
    (source place other : Nat) :
    (enterRow table row source).size = table.size ∧
      (other ∈ (enterRow table row source).getD place [] ↔
        other ∈ table.getD place [] ∨
          place < table.size ∧ other = source ∧ place ∈ row.map Prod.snd) := by
  unfold enterRow
  induction row generalizing table with
  | nil => simp
  | cons edge rest inductionHypothesis =>
      obtain ⟨sizes, members⟩ := inductionHypothesis (table.modify edge.2 (source :: ·))
      rw [List.foldl_cons]
      refine ⟨sizes.trans (Array.size_modify ..), ?_⟩
      rw [members, Array.size_modify]
      have entered : other ∈ (table.modify edge.2 (source :: ·)).getD place [] ↔
          other ∈ table.getD place [] ∨ place < table.size ∧ other = source ∧ place = edge.2 := by
        by_cases below : place < table.size
        · by_cases here : edge.2 = place
          · subst here
            simp [Array.getD_eq_getD_getElem?, below, Array.getElem_modify, or_comm]
          · simp [Array.getD_eq_getD_getElem?, Array.getElem?_modify, here, Ne.symm here]
        · simp [Array.getD_eq_getD_getElem?, below]
      rw [entered, List.map_cons, List.mem_cons]
      constructor
      · rintro ((before | ⟨below, isSource, here⟩) | ⟨below, isSource, inRest⟩)
        · exact .inl before
        · exact .inr ⟨below, isSource, .inl here⟩
        · exact .inr ⟨below, isSource, .inr inRest⟩
      · rintro (before | ⟨below, isSource, here | inRest⟩)
        · exact .inl (.inl before)
        · exact .inl (.inr ⟨below, isSource, here⟩)
        · exact .inr ⟨below, isSource, inRest⟩

theorem mem_foldl_enterRow (rows : List (List (ImportClause × Nat) × Nat))
    (table : Array (List Nat)) (place other : Nat) :
    other ∈ (rows.foldl (fun table entry => enterRow table entry.1 entry.2) table).getD place [] ↔
      other ∈ table.getD place [] ∨
        place < table.size ∧ ∃ row, (row, other) ∈ rows ∧ place ∈ row.map Prod.snd := by
  induction rows generalizing table with
  | nil => simp
  | cons entry rest inductionHypothesis =>
      obtain ⟨sizes, members⟩ := enterRow_spec table entry.1 entry.2 place other
      rw [List.foldl_cons, inductionHypothesis, sizes, members]
      constructor
      · rintro ((before | ⟨below, rfl, edge⟩) | ⟨below, row, member, edge⟩)
        · exact .inl before
        · exact .inr ⟨below, entry.1, List.mem_cons_self, edge⟩
        · exact .inr ⟨below, row, List.mem_cons_of_mem _ member, edge⟩
      · rintro (before | ⟨below, row, member, edge⟩)
        · exact .inl (.inl before)
        · rcases List.mem_cons.mp member with rfl | member
          · exact .inl (.inr ⟨below, rfl, edge⟩)
          · exact .inr ⟨below, row, member, edge⟩

/-- The importers of a place are the places with an edge to it. -/
theorem mem_importersAt_iff {place other : Nat} :
    other ∈ graph.links.importersAt place ↔ place ∈ graph.links.onward other := by
  have sizes : graph.allEdges.length = graph.files.length := by
    simp [Graph.allEdges, Graph.files, File.Map.values, File.Map.files]
  have entered := mem_foldl_enterRow graph.allEdges.zipIdx
    (Array.replicate graph.allEdges.length []) place other
  show other ∈ (reversed graph.allEdges).getD place [] ↔ _
  rw [reversed]
  apply entered.trans
  have fresh : (Array.replicate graph.allEdges.length ([] : List Nat)).getD place [] = [] := by
    by_cases below : place < graph.allEdges.length
    · simp [Array.getD_eq_getD_getElem?, below]
    · simp [Array.getD_eq_getD_getElem?, below]
  have rowOf : graph.links.onward other = (graph.allEdges[other]?.getD []).map Prod.snd := by
    simp [onward, edgesAt, Graph.links]
  rw [fresh, rowOf]
  simp only [Array.size_replicate, List.mem_zipIdx_iff_getElem?, List.not_mem_nil, false_or]
  constructor
  · rintro ⟨_, row, isRow, edge⟩
    simpa [isRow] using edge
  · intro edge
    have below : place < graph.files.length := by
      rw [← rowOf] at edge
      exact (List.getElem?_eq_some_iff.mp (getElem?_of_mem_onward edge)).1
    cases isRow : graph.allEdges[other]? with
    | none => simp [isRow] at edge
    | some row =>
        rw [isRow] at edge
        exact ⟨sizes ▸ below, row, rfl, edge⟩

theorem lt_of_mem_importersAt {source place : Nat}
    (edge : place ∈ graph.links.importersAt source) :
    place < graph.links.size := by
  obtain ⟨entry, member, _⟩ := List.mem_map.mp (mem_importersAt_iff.mp edge)
  exact size_links graph ▸ lt_of_mem_edgesAt member

end Links

/-! ## Dependents -/

/-- The dependents of some files are the files from which imports lead to one of
them. -/
theorem Graph.mem_dependents_iff {graph : Graph} {files : List File.Id} {file : File.Id} :
    file ∈ graph.dependents files ↔
      ∃ target ∈ files, ∃ steps, graph.Trail (steps + 1) file target := by
  have inside : ∀ source, ∀ node ∈ graph.links.importersAt source, node < graph.links.size :=
    fun _ _ => Links.lt_of_mem_importersAt
  unfold Graph.dependents Links.dependents
  simp only [List.mem_map, List.mem_filter, List.mem_range, List.contains_iff_mem,
    mem_reached_iff inside, List.mem_filterMap, Links.place?_eq_some_iff]
  constructor
  · rintro ⟨place, ⟨below, steps, goal, ⟨target, isTarget, atGoal⟩, walk⟩, rfl⟩
    rw [walk_reverse graph.links.onward (fun _ _ => Links.mem_importersAt_iff)] at walk
    have atPlace : graph.files[place]? = some graph.files[place] :=
      List.getElem?_eq_getElem (Links.size_links graph ▸ below)
    rw [Links.fileAt_eq atPlace]
    exact ⟨target, isTarget, steps, (Links.walk_iff atPlace atGoal).mp walk⟩
  · rintro ⟨target, isTarget, steps, trail⟩
    obtain ⟨⟨middle, first, _⟩, _, _, last⟩ :=
      And.intro ((walk_succ_iff _ _ _ _).mp trail) trail
    obtain ⟨place, atPlace⟩ := List.mem_iff_getElem?.mp (Graph.mem_files_of_targets first).1
    obtain ⟨goal, atGoal⟩ := List.mem_iff_getElem?.mp (Graph.mem_files_of_targets last).2
    have walk := (Links.walk_iff atPlace atGoal).mpr trail
    rw [← walk_reverse graph.links.onward (fun _ _ => Links.mem_importersAt_iff)] at walk
    have below := (List.getElem?_eq_some_iff.mp atPlace).1
    exact ⟨place, ⟨Links.size_links graph ▸ below, steps, goal, ⟨target, isTarget, atGoal⟩, walk⟩,
      Links.fileAt_eq atPlace⟩

end GrammarDesk.Import
