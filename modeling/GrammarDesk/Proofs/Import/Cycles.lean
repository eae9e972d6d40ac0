import Mathlib.Data.List.Chain
import Mathlib.Data.List.Nodup
import GrammarDesk.Proofs.Import.Closure
import GrammarDesk.Proofs.Lists

/-!
Contract: the import cycles that a closure reports.

Owns: the ways that the search for a path finds, paths that lead from a file by one of its
imports back to the file, and the proof that a closure reports a shortest one for each such
import, and no other.

Does not own: in which order ways are found, or that they stay the same when files are
renumbered (`Closure`).

The way to a file is found in the round that is the distance of the file, so it is as short
as any. Along it each file is one import nearer to the last one. So the files have different
distances to it, which is why none of them occurs twice.

Main statements: `isLeastWalk_of_mem_waysFrom`, `exists_isNearestPath`,
`cycles_are_shortest_loops`.
-/

namespace GrammarDesk.Import

open GrammarDesk.Graph

/-! ## Ways -/

namespace Links

variable {graph : Graph}

/-- A way of imports from one place to another, its last place first. -/
structure IsWay (links : Links) (source target : Nat) (way : List Nat) : Prop where
  starts : way.getLast? = some source
  ends : way.head? = some target
  imports : way.IsChain fun place before => place ∈ links.onward before

theorem isWay_singleton (links : Links) (source : Nat) : links.IsWay source source [source] :=
  ⟨rfl, rfl, .singleton source⟩

/-- A way, with one import after it. -/
theorem IsWay.onward {links : Links} {source place target : Nat} {way : List Nat}
    (isWay : links.IsWay source place way) (edge : target ∈ links.onward place) :
    links.IsWay source target (target :: way) where
  starts := by
    rw [List.getLast?_cons, isWay.starts]
    rfl
  ends := rfl
  imports := by
    refine List.isChain_cons.mpr ⟨fun before isLast => ?_, isWay.imports⟩
    rw [isWay.ends] at isLast
    exact Option.some.inj isLast ▸ edge

theorem isWay_of_mem_waysFrom {source : Nat} :
    ∀ entry ∈ graph.links.waysFrom source, graph.links.IsWay source entry.1 entry.2 := by
  refine waysFrom_forall _ (isWay_singleton _ source) ?_
  rintro ⟨place, way⟩ isWay further step
  obtain ⟨edge, isEdge, rfl⟩ := List.mem_map.mp step
  exact isWay.onward (List.mem_map_of_mem isEdge)

/-- A way is as long as the least walk to its last file. -/
theorem isLeastWalk_of_mem_waysFrom {source : Nat} {entry : Nat × List Nat}
    (member : entry ∈ graph.links.waysFrom source) :
    ∃ distance, entry.2.length = distance + 1 ∧
      IsLeastWalk graph.links.onward distance source entry.1 := by
  rcases List.mem_cons.mp member with rfl | found
  · exact ⟨0, rfl, rfl, fun fewer below => absurd below (Nat.not_lt_zero fewer)⟩
  · obtain ⟨layer, isLayer, inLayer⟩ := List.mem_flatten.mp found
    obtain ⟨later, atLater⟩ := List.mem_iff_getElem?.mp isLayer
    have onward : ∀ (round : Nat) (entry : Nat × List Nat), entry.2.length = round + 1 →
        ∀ further ∈ graph.links.stepOn entry, further.2.length = round + 1 + 1 := by
      rintro round ⟨place, way⟩ length further step
      obtain ⟨edge, _, rfl⟩ := List.mem_map.mp step
      exact congrArg Nat.succ length
    have counted : entry.2.length = 0 + later + 1 + 1 :=
      rounds_forall (fun _ _ member => member) (fun round entry => entry.2.length = round + 1)
        onward graph.links.size 0 (by simp) later layer atLater entry inLayer
    have front := (mem_rounds_iff_front mem_stepOn_iff (fun _ _ => Iff.rfl) source _ later
      entry.1).mp ⟨layer, atLater, entry.2, inLayer⟩
    refine ⟨later + 1, by omega, isLeastWalk_iff_front.mpr (.inr ⟨later, rfl, front⟩)⟩

/-- There is a way to every file that a walk leads to. -/
theorem exists_mem_waysFrom {steps source place : Nat}
    (walk : Walk graph.links.onward steps source place) :
    ∃ way, (place, way) ∈ graph.links.waysFrom source := by
  obtain ⟨distance, least⟩ := exists_isLeastWalk walk
  rcases isLeastWalk_iff_front.mp least with ⟨rfl, _⟩ | ⟨later, _, front⟩
  · exact ⟨[place], List.mem_cons_self⟩
  · obtain ⟨layer, atLater, way, inLayer⟩ :=
      (mem_rounds_iff_front mem_stepOn_iff (fun _ _ => Iff.rfl) source [source] later
        place).mpr front
    have found := List.mem_flatten.mpr ⟨layer, List.mem_of_getElem? atLater, inLayer⟩
    exact ⟨way, List.mem_cons_of_mem _ found⟩

end Links

/-! ## Loops -/

/-- A path of imports from a file to one that it imports and on, back to the file. -/
structure Graph.IsLoop (graph : Graph) (root target : File.Id) (path : List File.Id) : Prop where
  starts : [root, target] <+: path
  ends : path.getLast? = some root
  imports : path.IsChain fun file next => next ∈ graph.targets file

/-- A loop that is as short as any through the same file. -/
structure Graph.IsShortestLoop (graph : Graph) (root target : File.Id) (path : List File.Id) :
    Prop where
  loop : graph.IsLoop root target path
  /-- No file occurs twice but the root, which is the first file and the last. -/
  once : path.tail.Nodup
  shortest : ∀ other, graph.IsLoop root target other → path.length ≤ other.length

/-- A path of imports from a file to another one on which each file is one import nearer to
the other one than the file before it. -/
structure Graph.IsNearestPath (graph : Graph) (distance : Nat) (source target : File.Id)
    (path : List File.Id) : Prop where
  starts : path.head? = some source
  ends : path.getLast? = some target
  imports : path.IsChain fun file next => next ∈ graph.targets file
  length : path.length = distance + 1
  once : path.Nodup
  near : ∀ file ∈ path, ∃ fewer ≤ distance, IsLeastWalk graph.targets fewer file target

namespace Graph

variable {graph : Graph}

/-- A path of imports is as long as a walk. -/
theorem trail_of_isChain (rest : List File.Id) {source target : File.Id}
    (imports : (source :: rest).IsChain fun file next => next ∈ graph.targets file)
    (ends : (source :: rest).getLast? = some target) :
    graph.Trail rest.length source target := by
  induction rest generalizing source with
  | nil => simpa [Trail, Walk] using ends
  | cons next rest inductionHypothesis =>
      rw [List.isChain_cons_cons] at imports
      rw [List.getLast?_cons_cons] at ends
      exact (walk_succ_iff _ _ _ _).mpr ⟨next, imports.1, inductionHypothesis imports.2 ends⟩

/-- A nearest path, with one import before it. -/
theorem IsNearestPath.cons {distance : Nat} {source next target : File.Id} {path : List File.Id}
    (nearest : graph.IsNearestPath distance next target path)
    (imports : next ∈ graph.targets source)
    (least : IsLeastWalk graph.targets (distance + 1) source target) :
    graph.IsNearestPath (distance + 1) source target (source :: path) where
  starts := rfl
  ends := by
    rw [List.getLast?_cons, nearest.ends]
    rfl
  imports := by
    refine List.isChain_cons.mpr ⟨fun file isNext => ?_, nearest.imports⟩
    rw [nearest.starts] at isNext
    exact Option.some.inj isNext ▸ imports
  length := by rw [List.length_cons, nearest.length]
  once := by
    refine List.nodup_cons.mpr ⟨fun again => ?_, nearest.once⟩
    obtain ⟨fewer, atMost, leastToo⟩ := nearest.near source again
    have same := leastToo.unique least
    omega
  near := by
    intro file onPath
    rcases List.mem_cons.mp onPath with rfl | later
    · exact ⟨distance + 1, Nat.le_refl _, least⟩
    · obtain ⟨fewer, atMost, leastToo⟩ := nearest.near file later
      exact ⟨fewer, Nat.le_succ_of_le atMost, leastToo⟩

/-- A path of imports that is as long as a least walk is a nearest path. -/
theorem isNearestPath_of_isChain (rest : List File.Id) {source target : File.Id}
    (imports : (source :: rest).IsChain fun file next => next ∈ graph.targets file)
    (ends : (source :: rest).getLast? = some target)
    (least : IsLeastWalk graph.targets rest.length source target) :
    graph.IsNearestPath rest.length source target (source :: rest) := by
  induction rest generalizing source with
  | nil =>
      refine ⟨rfl, ends, imports, rfl, List.nodup_singleton _, ?_⟩
      exact List.forall_mem_singleton.mpr ⟨0, Nat.le_refl 0, least⟩
  | cons next rest inductionHypothesis =>
      rw [List.getLast?_cons_cons] at ends
      obtain ⟨first, further⟩ := List.isChain_cons_cons.mp imports
      have leastNext : IsLeastWalk graph.targets rest.length next target :=
        ⟨trail_of_isChain rest further ends, fun fewer below shorter =>
          least.2 (fewer + 1) (Nat.succ_lt_succ below)
            ((walk_succ_iff _ _ _ _).mpr ⟨next, first, shorter⟩)⟩
      exact (inductionHypothesis further ends leastNext).cons first least

/-- A nearest path from an imported file back to the importing one closes a shortest loop. -/
theorem IsNearestPath.isShortestLoop {distance : Nat} {root target : File.Id}
    {path : List File.Id} (nearest : graph.IsNearestPath distance target root path)
    (least : IsLeastWalk graph.targets distance target root)
    (imports : target ∈ graph.targets root) :
    graph.IsShortestLoop root target (root :: path) where
  loop := by
    obtain ⟨rest, rfl⟩ := List.head?_eq_some_iff.mp nearest.starts
    refine ⟨⟨rest, rfl⟩, ?_, List.isChain_cons_cons.mpr ⟨imports, nearest.imports⟩⟩
    rw [List.getLast?_cons_cons]
    exact nearest.ends
  once := nearest.once
  shortest := by
    rintro _ ⟨⟨rest, rfl⟩, ends, chain⟩
    have chain := (List.isChain_cons_cons.mp chain).2
    have trail := trail_of_isChain rest chain (List.getLast?_cons_cons ▸ ends)
    have atLeast : distance ≤ rest.length :=
      Nat.le_of_not_lt fun shorter => least.2 _ shorter trail
    simp only [List.length_cons, nearest.length, List.cons_append, List.nil_append]
    omega

end Graph

/-! ## Cycles -/

namespace Links

variable {graph : Graph}

/-- A way, turned around, is a path of imports. -/
theorem IsWay.isChain_files {source target : Nat} {way : List Nat}
    (isWay : graph.links.IsWay source target way) :
    (way.reverse.map graph.links.fileAt).IsChain fun file next => next ∈ graph.targets file := by
  rw [List.isChain_map, List.isChain_reverse]
  exact isWay.imports.imp fun _ _ edge => mem_targets_of_mem_onward edge

/-- The path between two files is a nearest one. -/
theorem exists_isNearestPath {place goal : Nat} {source target : File.Id} {path : List Nat}
    (atPlace : graph.files[place]? = some source) (atGoal : graph.files[goal]? = some target)
    (found : graph.links.pathBetween place goal = some path) :
    ∃ distance, IsLeastWalk graph.targets distance source target ∧
      graph.IsNearestPath distance source target (path.map graph.links.fileAt) := by
  have inside : place < graph.links.size :=
    size_links graph ▸ (List.getElem?_eq_some_iff.mp atPlace).1
  rw [pathBetween_eq inside] at found
  obtain ⟨⟨_, way⟩, isFirst, rfl⟩ := Option.map_eq_some_iff.mp found
  have member := List.mem_of_find?_eq_some isFirst
  obtain rfl : _ = goal := by simpa using List.find?_some isFirst
  obtain ⟨distance, length, least⟩ := isLeastWalk_of_mem_waysFrom member
  have least := (isLeastWalk_iff atPlace atGoal).mp least
  refine ⟨distance, least, ?_⟩
  have isWay := isWay_of_mem_waysFrom _ member
  have chain := isWay.isChain_files
  have ends : (way.reverse.map graph.links.fileAt).getLast? = some target := by
    rw [List.getLast?_map, List.getLast?_reverse, isWay.ends, Option.map_some, fileAt_eq atGoal]
  have starts : (way.reverse.map graph.links.fileAt).head? = some source := by
    rw [List.head?_map, List.head?_reverse, isWay.starts, Option.map_some, fileAt_eq atPlace]
  have counted : (way.reverse.map graph.links.fileAt).length = distance + 1 := by
    rw [List.length_map, List.length_reverse, length]
  obtain ⟨rest, isPath⟩ := List.head?_eq_some_iff.mp starts
  dsimp only at isPath ⊢
  rw [isPath] at chain ends counted ⊢
  obtain rfl : rest.length = distance := Nat.succ.inj counted
  exact Graph.isNearestPath_of_isChain rest chain ends least

/-- Between files of which one leads to the other there is a path. -/
theorem not_leadsTo_of_pathBetween {place goal : Nat} {source target : File.Id}
    (atPlace : graph.files[place]? = some source) (atGoal : graph.files[goal]? = some target)
    (noPath : graph.links.pathBetween place goal = none) :
    ¬ graph.LeadsTo source target := by
  rintro ⟨steps, trail⟩
  have inside : place < graph.links.size :=
    size_links graph ▸ (List.getElem?_eq_some_iff.mp atPlace).1
  obtain ⟨way, member⟩ := exists_mem_waysFrom ((walk_iff atPlace atGoal).mpr trail)
  rw [pathBetween_eq inside, Option.map_eq_none_iff, List.find?_eq_none] at noPath
  exact noPath _ member (decide_eq_true rfl)

end Links

open Classical in
/-- A closure reports, in the order of the imports, one cycle for each import of the file from
which imports lead back to it, and none for the others. The cycle is a shortest loop through
the imported file. -/
theorem cycles_are_shortest_loops (graph : Graph) (root : File.Id) :
    List.Forall₂ (fun edge cycle =>
        cycle.start = edge.1 ∧ graph.IsShortestLoop root edge.2 cycle.path)
      ((graph.edges root).filter fun edge => graph.LeadsTo edge.2 root)
      (graph.closure root).cycles := by
  by_cases present : root ∈ graph.files
  · obtain ⟨place, atPlace⟩ := List.mem_iff_getElem?.mp present
    rw [Graph.closure_of_place atPlace, ← Links.map_edgesAt atPlace, List.filter_map,
      List.forall₂_map_left_iff]
    refine forall₂_filter_filterMap (fun edge isEdge cycle isCycle => ?_)
      (fun edge isEdge noCycle => ?_)
    · obtain ⟨path, found, rfl⟩ := Option.map_eq_some_iff.mp isCycle
      have atTarget := Links.getElem?_of_mem_edgesAt isEdge
      obtain ⟨distance, least, nearest⟩ := Links.exists_isNearestPath atTarget atPlace found
      have imports := (Links.mem_onward_iff atPlace atTarget).mp (List.mem_map_of_mem isEdge)
      refine ⟨decide_eq_true ⟨distance, least.1⟩, rfl, ?_⟩
      rw [List.map_cons, Links.fileAt_eq atPlace]
      exact nearest.isShortestLoop least imports
    · have atTarget := Links.getElem?_of_mem_edgesAt isEdge
      exact decide_eq_false (Links.not_leadsTo_of_pathBetween atTarget atPlace
        (Option.map_eq_none_iff.mp noCycle))
  · have noEdges : graph.edges root = [] := by
      have unknown : graph.node? root = none :=
        Option.eq_none_iff_forall_ne_some.mpr fun node known =>
          present (Graph.mem_files_iff.mpr ⟨node, known⟩)
      rw [Graph.edges, unknown]
    rw [Graph.closure_of_not_mem present, noEdges]
    exact .nil

end GrammarDesk.Import
