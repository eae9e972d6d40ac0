import Mathlib.Data.List.Find
import GrammarDesk.Proofs.Import.Ways

/-!
Contract: what an import closure shows of its files.

Owns: the proof that a file is seen as the first arrival at it sees it, that this is what
one of its shortest ways lets through, and that when the first import wins it is what its
least way lets through.

Does not own: in which order files arrive (`Precedence`, `Ways`).

A file that both a vocabulary option and an import lead to is seen as whichever of the two
arrives first, not in full because an import leads to it.

Main statements: `find?_arrivals`, `visibility_of_first_arrival`.
-/

namespace GrammarDesk.Import

open GrammarDesk.Graph

/-! ## Sight along a way -/

/-- A way on which every import is a delegate import. -/
def OnlyDelegates (way : List (Nat × ImportClause)) : Prop :=
  ∀ step ∈ way, step.2.kind = .delegate

namespace Graph

theorem sight_tokensOnly (way : List (Nat × ImportClause)) :
    sight .tokensOnly way = .tokensOnly := by
  induction way with
  | nil => rfl
  | cons step rest inductionHypothesis => exact inductionHypothesis

/-- A way shows all of a file if it has only delegate imports. -/
theorem sight_eq_all_iff (way : List (Nat × ImportClause)) :
    sight .all way = .all ↔ OnlyDelegates way := by
  induction way with
  | nil => simp [sight, OnlyDelegates]
  | cons step rest inductionHypothesis =>
      rw [OnlyDelegates, List.forall_mem_cons, ← OnlyDelegates, ← inductionHypothesis]
      cases delegate : step.2.kind with
      | delegate => simp [sight, Visibility.through, delegate]
      | vocabulary =>
          have hidden : sight .all (step :: rest) = sight .tokensOnly rest := by
            simp [sight, Visibility.through, delegate]
          simp [hidden, sight_tokensOnly]

variable {graph : Graph} {root : File.Id}

/-- A file of a closure is seen as one of its shortest ways lets it be seen. -/
theorem exists_way_of_mem_members {member : Member}
    (inClosure : member ∈ (graph.closure root).members) :
    ∃ way, graph.Way way root member.file ∧ way.length = member.depth ∧
      member.visibility = sight .all way := by
  by_cases present : root ∈ graph.files
  · obtain ⟨place, atPlace⟩ := List.mem_iff_getElem?.mp present
    rw [closure_of_place atPlace] at inClosure
    obtain ⟨later, layer, node, depth, atLater, found, isFile⟩ :=
      Links.mem_members_iff_layers.mp inClosure
    have noted : ∃ way, way.length = 0 + later + 1 ∧
        Along graph.stepsFrom way (place, .all) (node, member.visibility) := by
      refine rounds_forall
        (fun arrivals arrival => (graph.links.mem_arrange_iff arrivals arrival).mp)
        (fun round arrival => ∃ way, way.length = round ∧
          Along graph.stepsFrom way (place, .all) arrival)
        ?_ graph.links.size 0 ?_ later layer atLater _ found
      · rintro round arrival ⟨way, length, along⟩ further isFurther
        rw [← map_snd_stepsFrom] at isFurther
        obtain ⟨⟨step, _⟩, isStep, rfl⟩ := List.mem_map.mp isFurther
        refine ⟨way ++ [step], ?_, (along_concat_iff _ _ _ _ _).mpr ⟨arrival, along, isStep⟩⟩
        rw [List.length_append, length, List.length_singleton]
      · intro arrival isStart
        exact ⟨[], rfl, (List.mem_singleton.mp isStart).symm⟩
    obtain ⟨way, length, along⟩ := noted
    obtain ⟨seen, file, atFile, leads⟩ := (along_stepsFrom_iff way atPlace).mp along
    rw [Links.fileAt_eq atFile] at isFile
    exact ⟨way, isFile ▸ leads, by omega, seen⟩
  · rw [closure_of_not_mem present] at inClosure
    exact absurd inClosure List.not_mem_nil

/-- When the first import wins, a file of a closure is seen as its least way lets it be
seen. -/
theorem visibility_eq_sight (first : graph.precedence = .first) {member : Member}
    (inClosure : member ∈ (graph.closure root).members) {way : List (Nat × ImportClause)}
    (least : graph.IsLeastWay way root member.file) :
    member.visibility = sight .all way := by
  by_cases present : root ∈ graph.files
  · obtain ⟨place, atPlace⟩ := List.mem_iff_getElem?.mp present
    rw [members_eq_map_foundFrom first atPlace] at inClosure
    obtain ⟨entry, found, rfl⟩ := List.mem_map.mp inClosure
    obtain ⟨number, _, inRound⟩ := List.mem_flatMap.mp found
    obtain ⟨_, seen, leastToo⟩ := isLeastWay_of_mem_tracedFrom first atPlace inRound
    rw [least.unique leastToo]
    exact seen
  · rw [closure_of_not_mem present] at inClosure
    exact absurd inClosure List.not_mem_nil

/-! ## The first arrival -/

/-- The files of a closure at a depth, as they are seen, in the order of lookup; at depth
zero the file itself. -/
def sightings (graph : Graph) (root : File.Id) : Nat → List (File.Id × Visibility)
  | 0 => [(root, .all)]
  | depth + 1 =>
      ((graph.closure root).members.filter fun member => member.depth = depth + 1).map
        fun member => (member.file, member.visibility)

/-- What arrives one import further than some files, in the order in which it is tried. -/
def arrivals (graph : Graph) (seen : List (File.Id × Visibility)) : List (File.Id × Visibility) :=
  let further := seen.flatMap fun (file, visibility) =>
    (graph.edges file).map fun (clause, target) => (target, visibility.through clause.kind)
  match graph.precedence with
  | .first => further
  | .last => further.reverse

section Search

variable {place : Nat}

theorem sightings_eq_searched (atPlace : graph.files[place]? = some root) (depth : Nat) :
    graph.sightings root depth =
      (graph.searched place depth).1.map (Prod.map graph.links.fileAt id) := by
  cases depth with
  | zero => exact congrArg (fun file => [(file, Visibility.all)]) (Links.fileAt_eq atPlace).symm
  | succ depth =>
      rw [sightings, closure_of_place atPlace, Links.filter_members, getD_layers, List.map_map]
      rfl

/-- Arrivals told by files are the arrivals told by places, in the same order. -/
theorem arrivals_eq (found : List (Nat × Visibility))
    (atPlaces : ∀ arrival ∈ found, graph.files[arrival.1]? = some (graph.links.fileAt arrival.1)) :
    graph.arrivals (found.map (Prod.map graph.links.fileAt id)) =
      (graph.links.arrange (found.flatMap graph.links.stepVisible)).map
        (Prod.map graph.links.fileAt id) := by
  have further : (found.flatMap graph.links.stepVisible).map (Prod.map graph.links.fileAt id) =
      (found.map (Prod.map graph.links.fileAt id)).flatMap fun seen =>
        (graph.edges seen.1).map fun edge => (edge.2, seen.2.through edge.1.kind) := by
    rw [List.map_flatMap, List.flatMap_map]
    refine List.flatMap_congr ?_
    rintro ⟨node, visibility⟩ isFound
    rw [Prod.map_apply, ← Links.map_edgesAt (atPlaces _ isFound), Links.stepVisible, List.map_map,
      List.map_map]
    rfl
  unfold arrivals Links.arrange
  rw [Links.graph_links]
  cases graph.precedence with
  | first => exact further.symm
  | last => rw [List.map_reverse, further]

end Search

/-- A file of a closure is seen as the first arrival from the depth before it sees it. -/
theorem find?_arrivals {member : Member} (inClosure : member ∈ (graph.closure root).members) :
    ∃ depth, member.depth = depth + 1 ∧
      (graph.arrivals (graph.sightings root depth)).find? (fun seen => seen.1 = member.file) =
        some (member.file, member.visibility) := by
  by_cases present : root ∈ graph.files
  · obtain ⟨place, atPlace⟩ := List.mem_iff_getElem?.mp present
    rw [closure_of_place atPlace] at inClosure
    obtain ⟨depth, layer, node, isDepth, atLater, inLayer, isFile⟩ :=
      Links.mem_members_iff_layers.mp inClosure
    have found : (node, member.visibility) ∈ (graph.searched place (depth + 1)).1 := by
      rw [← getD_layers, atLater]
      exact inLayer
    have atNode := getElem?_of_mem_searched atPlace (depth + 1) _ found
    rw [searched_succ] at found
    have firstFound := find?_of_mem_firstArrivals found
    refine ⟨depth, isDepth, ?_⟩
    rw [sightings_eq_searched atPlace, arrivals_eq _ (getElem?_of_mem_searched atPlace depth),
      List.find?_map]
    have sameTest : ∀ arrival ∈ graph.links.arrange
        ((graph.searched place depth).1.flatMap graph.links.stepVisible),
        decide (graph.links.fileAt arrival.1 = member.file) = decide (arrival.1 = node) := by
      intro arrival isArrival
      have atArrival := getElem?_of_mem_arrivals arrival isArrival
      rw [← isFile, decide_eq_decide]
      exact ⟨fun same => place_unique (same ▸ atArrival) atNode, congrArg _⟩
    have firstOfFile := (List.find?_congr sameTest).trans firstFound
    rw [Function.comp_def]
    exact (congrArg (Option.map _) firstOfFile).trans (by rw [← isFile]; rfl)
  · rw [closure_of_not_mem present] at inClosure
    exact absurd inClosure List.not_mem_nil

end Graph

/-- A file of a closure is seen as the first arrival from the depth before it sees it. This is
what one of its shortest ways shows; and when the first import wins, its least way. So a file
is seen in full only if some way to it has only delegate imports, and only its tokens are seen
if no way has. -/
theorem visibility_of_first_arrival (graph : Graph) (root : File.Id) (member : Member)
    (inClosure : member ∈ (graph.closure root).members) :
    (∃ depth, member.depth = depth + 1 ∧
      (graph.arrivals (graph.sightings root depth)).find? (fun seen => seen.1 = member.file) =
        some (member.file, member.visibility)) ∧
    (∃ way, graph.Way way root member.file ∧ way.length = member.depth ∧
      (member.visibility = .all ↔ OnlyDelegates way)) ∧
    (graph.precedence = .first → ∀ way, graph.IsLeastWay way root member.file →
      (member.visibility = .all ↔ OnlyDelegates way)) := by
  refine ⟨Graph.find?_arrivals inClosure, ?_, fun first way least => ?_⟩
  · obtain ⟨way, leads, length, seen⟩ := Graph.exists_way_of_mem_members inClosure
    exact ⟨way, leads, length, seen ▸ Graph.sight_eq_all_iff way⟩
  · rw [Graph.visibility_eq_sight first inClosure least]
    exact Graph.sight_eq_all_iff way

/-- The graph of a parser that takes its vocabulary from a file and then imports the same
file. -/
def parserOfVocabulary : Graph :=
  let clause (kind : ImportKind) : ImportClause := ⟨"L", kind, .emptyAt 0, ⟨⟨0, 0⟩, ⟨0, 0⟩⟩⟩
  ((Graph.empty .first).set 0 ⟨none, some "P", [clause .vocabulary, clause .delegate]⟩).set 1
    ⟨none, some "L", []⟩

/-- The vocabulary option is the first arrival. -/
theorem visibility_of_vocabulary_first :
    (⟨1, .tokensOnly, 1⟩ : Member) ∈ (parserOfVocabulary.closure 0).members ∧
      (∃ way, parserOfVocabulary.Way way 0 1 ∧ way.length = 1 ∧ ¬ OnlyDelegates way) := by
  have inClosure : (⟨1, .tokensOnly, 1⟩ : Member) ∈ (parserOfVocabulary.closure 0).members := by
    decide +kernel
  obtain ⟨_, ⟨way, leads, length, seen⟩, _⟩ :=
    visibility_of_first_arrival parserOfVocabulary 0 _ inClosure
  exact ⟨inClosure, way, leads, length, fun delegates => nomatch seen.mpr delegates⟩

/-- Only the tokens of the imported file are seen, although an import leads to it. -/
theorem tokensOnly_despite_delegates :
    (parserOfVocabulary.closure 0).members = [⟨1, .tokensOnly, 1⟩] ∧
      ∃ way, parserOfVocabulary.Way way 0 1 ∧ OnlyDelegates way := by
  refine ⟨by decide +kernel, [(1, ⟨"L", .delegate, .emptyAt 0, ⟨⟨0, 0⟩, ⟨0, 0⟩⟩⟩)], ?_, ?_⟩
  · exact ⟨1, ⟨_, rfl, rfl, by decide +kernel⟩, rfl⟩
  · exact List.forall_mem_singleton.mpr rfl

end GrammarDesk.Import
