import GrammarDesk.Proofs.Graph.Queue
import GrammarDesk.Proofs.Import.Distance
import GrammarDesk.Proofs.Lists

/-!
Contract: what the import closure of a file depends on.

Owns: the files that a file leads to, the ways that a search for a path finds one after
another, closures with their files renumbered, the correspondence between two graphs that
agree on these files up to their numbers, the proof that the closure of the file is then
the same up to the numbers, its cycles and their order included, and when graphs agree.

Main statements: a path is the first way that ends where it should (`pathBetween_eq`); a
closure stays among the files that the file leads to (`leadsTo_of_mem_members`,
`leadsTo_of_mem_cycles`), and is a function of their
edges, whatever the numbers (`closure_renumber`, `closure_congr`); graphs that differ
only in files to which neither leads agree (`agree_of_avoids`).
-/

namespace GrammarDesk.Import

open GrammarDesk.Graph

namespace Graph

/-- Some number of imports, which may be none, lead from one file to another. -/
def LeadsTo (graph : Graph) (source target : File.Id) : Prop :=
  ∃ steps, graph.Trail steps source target

theorem LeadsTo.refl (graph : Graph) (file : File.Id) : graph.LeadsTo file file :=
  ⟨0, rfl⟩

/-- Files that imports lead to one of some files depend on these, or are among them. -/
theorem mem_or_mem_dependents_of_leadsTo {graph : Graph} {files : List File.Id}
    {file target : File.Id} (leads : graph.LeadsTo file target) (isTarget : target ∈ files) :
    file ∈ files ∨ file ∈ graph.dependents files := by
  obtain ⟨steps, trail⟩ := leads
  cases steps with
  | zero => exact .inl (trail ▸ isTarget)
  | succ steps => exact .inr (Graph.mem_dependents_iff.mpr ⟨target, isTarget, steps, trail⟩)

theorem LeadsTo.onward {graph : Graph} {source middle target : File.Id}
    (leads : graph.LeadsTo source middle) (imports : target ∈ graph.targets middle) :
    graph.LeadsTo source target := by
  obtain ⟨steps, trail⟩ := leads
  exact ⟨steps + 1, middle, trail, imports⟩

end Graph

/-! ## Files of a closure -/

namespace Links

variable {graph : Graph}

/-- Where an edge leads, imports lead. -/
theorem leadsTo_of_mem_edgesAt {file : File.Id} {place : Nat} {edge : ImportClause × Nat}
    (leads : graph.LeadsTo file (graph.links.fileAt place))
    (isEdge : edge ∈ graph.links.edgesAt place) :
    graph.LeadsTo file (graph.links.fileAt edge.2) :=
  leads.onward (mem_targets_of_mem_onward (List.mem_map_of_mem isEdge))

/-- All that the layers below a file hold is led to from the file. -/
theorem leadsTo_of_mem_layers {place : Nat} {file : File.Id}
    (atPlace : graph.files[place]? = some file) {layer : List (Nat × Visibility)}
    (member : layer ∈ graph.links.layers place) {arrival : Nat × Visibility}
    (found : arrival ∈ layer) :
    graph.LeadsTo file (graph.links.fileAt arrival.1) := by
  have arranged : ∀ arrivals arrival,
      arrival ∈ graph.links.arrange arrivals → arrival ∈ arrivals := by
    intro arrivals arrival member
    unfold arrange at member
    split at member
    · exact member
    · exact List.mem_reverse.mp member
  have onward : ∀ (round : Nat) (arrival : Nat × Visibility),
      graph.LeadsTo file (graph.links.fileAt arrival.1) →
      ∀ further ∈ graph.links.stepVisible arrival,
        graph.LeadsTo file (graph.links.fileAt further.1) := by
    rintro _ ⟨source, visibility⟩ leads further step
    obtain ⟨edge, isEdge, rfl⟩ := List.mem_map.mp step
    exact leadsTo_of_mem_edgesAt leads isEdge
  have start : ∀ arrival ∈ [(place, Visibility.all)],
      graph.LeadsTo file (graph.links.fileAt arrival.1) := by
    intro arrival single
    obtain rfl := List.mem_singleton.mp single
    rw [fileAt_eq atPlace]
    exact .refl graph file
  obtain ⟨later, atLater⟩ := List.mem_iff_getElem?.mp member
  exact rounds_forall arranged (fun _ arrival => graph.LeadsTo file (graph.links.fileAt arrival.1))
    onward graph.links.size 0 start later layer atLater arrival found

/-! ## Ways of a search -/

/-- The files that a search from a file finds, each with the way that found it, in the order
in which they are found. -/
def waysFrom (links : Links) (source : Nat) : List (Nat × List Nat) :=
  (source, [source]) ::
    (rounds links.stepOn id links.size (links.marksOf source) [(source, [source])]).flatten

theorem mem_stepOn_iff {links : Links} (source : Nat) (way : List Nat) (place : Nat) :
    (∃ further, (place, further) ∈ links.stepOn (source, way)) ↔ place ∈ links.onward source := by
  simp [stepOn, onward]

/-- The search for a path takes the first way that ends at the goal. -/
theorem pathBetween_eq {links : Links} {source : Nat} (inside : source < links.size)
    (goal : Nat) :
    links.pathBetween source goal =
      ((links.waysFrom source).find? fun entry => entry.1 = goal).map fun entry =>
        entry.2.reverse := by
  unfold pathBetween waysFrom
  by_cases same : source = goal
  · simp [same]
  · have awaited : (Marks.fresh links.size).awaits source = true := by
      rw [Marks.awaits_fresh]
      exact decide_eq_true inside
    -- the source is found at the outset, so the queue and the rest make up all files
    have all : (links.marksOf source).waiting + 1 = links.size :=
      (Marks.waiting_mark awaited).trans (Marks.waiting_fresh _)
    rw [if_neg same, List.find?_cons_of_neg (by simpa using same),
      seek?_eq_find? links.size (links.waiting_marksOf_le source)
        (by rw [List.length_singleton]; omega)]

/-- What holds of the source and is handed on by every import holds of all ways. -/
theorem waysFrom_forall {links : Links} {source : Nat} (Holds : Nat × List Nat → Prop)
    (start : Holds (source, [source]))
    (onward : ∀ entry, Holds entry → ∀ further ∈ links.stepOn entry, Holds further) :
    ∀ entry ∈ links.waysFrom source, Holds entry := by
  intro entry member
  rcases List.mem_cons.mp member with rfl | found
  · exact start
  · obtain ⟨layer, isLayer, inLayer⟩ := List.mem_flatten.mp found
    obtain ⟨later, atLater⟩ := List.mem_iff_getElem?.mp isLayer
    exact rounds_forall (fun _ _ member => member) (fun _ => Holds) (fun _ => onward) links.size 0
      (List.forall_mem_singleton.mpr start) later layer atLater entry inLayer

/-- A way passes only through files that its source leads to. -/
theorem leadsTo_of_mem_way {source : Nat} {file : File.Id}
    (leads : graph.LeadsTo file (graph.links.fileAt source)) :
    ∀ entry ∈ graph.links.waysFrom source,
      ∀ place ∈ entry.2, graph.LeadsTo file (graph.links.fileAt place) := by
  intro entry member
  refine (waysFrom_forall
    (fun entry => graph.LeadsTo file (graph.links.fileAt entry.1) ∧
      ∀ place ∈ entry.2, graph.LeadsTo file (graph.links.fileAt place))
    ⟨leads, List.forall_mem_singleton.mpr leads⟩ ?_ entry member).2
  rintro ⟨place, way⟩ ⟨leadsPlace, leadsWay⟩ further step
  obtain ⟨edge, isEdge, rfl⟩ := List.mem_map.mp step
  have leadsOn := leadsTo_of_mem_edgesAt leadsPlace isEdge
  exact ⟨leadsOn, List.forall_mem_cons.mpr ⟨leadsOn, leadsWay⟩⟩

theorem mem_cycles_iff {links : Links} {place : Nat} {cycle : Cycle} :
    cycle ∈ links.cycles place ↔
      ∃ edge ∈ links.edgesAt place, ∃ path, links.pathBetween edge.2 place = some path ∧
        cycle = ⟨edge.1, (place :: path).map links.fileAt⟩ := by
  simp only [cycles, List.mem_filterMap, Option.map_eq_some_iff, @eq_comm _ cycle]

end Links

namespace Graph

variable {graph : Graph}

theorem closure_of_place {place : Nat} {file : File.Id}
    (atPlace : graph.files[place]? = some file) :
    graph.closure file = ⟨graph.links.members place, graph.links.cycles place⟩ := by
  have found := (Links.place?_eq_some_iff graph file place).mpr atPlace
  simp [closure, Links.closure, found]

theorem closure_of_not_mem {file : File.Id} (absent : file ∉ graph.files) :
    graph.closure file = ⟨[], []⟩ := by
  have notFound : graph.links.place? file = none := by
    refine Option.eq_none_iff_forall_ne_some.mpr fun place found => absent ?_
    exact List.mem_of_getElem? ((Links.place?_eq_some_iff graph file place).mp found)
  simp [closure, Links.closure, notFound]

/-- A closure holds only files that the file leads to. -/
theorem leadsTo_of_mem_members {file : File.Id} {member : Member}
    (inClosure : member ∈ (graph.closure file).members) :
    graph.LeadsTo file member.file := by
  by_cases present : file ∈ graph.files
  · obtain ⟨place, atPlace⟩ := List.mem_iff_getElem?.mp present
    rw [closure_of_place atPlace] at inClosure
    obtain ⟨⟨layer, depth⟩, inLayers, inLayer⟩ := List.mem_flatMap.mp inClosure
    obtain ⟨arrival, found, rfl⟩ := List.mem_map.mp inLayer
    exact Links.leadsTo_of_mem_layers atPlace (List.fst_mem_of_mem_zipIdx inLayers) found
  · rw [closure_of_not_mem present] at inClosure
    exact absurd inClosure List.not_mem_nil

/-- A cycle passes only through files that the file leads to. -/
theorem leadsTo_of_mem_cycles {file other : File.Id} {cycle : Cycle}
    (inClosure : cycle ∈ (graph.closure file).cycles) (onPath : other ∈ cycle.path) :
    graph.LeadsTo file other := by
  by_cases present : file ∈ graph.files
  · obtain ⟨place, atPlace⟩ := List.mem_iff_getElem?.mp present
    rw [closure_of_place atPlace] at inClosure
    obtain ⟨edge, isEdge, path, found, rfl⟩ := Links.mem_cycles_iff.mp inClosure
    have leads : graph.LeadsTo file (graph.links.fileAt place) := by
      rw [Links.fileAt_eq atPlace]
      exact .refl graph file
    obtain ⟨passed, isPassed, rfl⟩ := List.mem_map.mp onPath
    rcases List.mem_cons.mp isPassed with rfl | onWay
    · exact leads
    · rw [Links.pathBetween_eq (Links.lt_of_mem_onward (List.mem_map_of_mem isEdge))] at found
      obtain ⟨entry, isFirst, rfl⟩ := Option.map_eq_some_iff.mp found
      exact Links.leadsTo_of_mem_way (Links.leadsTo_of_mem_edgesAt leads isEdge) entry
        (List.mem_of_find?_eq_some isFirst) passed (List.mem_reverse.mp onWay)
  · rw [closure_of_not_mem present] at inClosure
    exact absurd inClosure List.not_mem_nil

end Graph

/-! ## Two graphs -/

def Member.renumber (rename : File.Id → File.Id) (member : Member) : Member :=
  { member with file := rename member.file }

def Cycle.renumber (rename : File.Id → File.Id) (cycle : Cycle) : Cycle :=
  { cycle with path := cycle.path.map rename }

def Closure.renumber (rename : File.Id → File.Id) (closure : Closure) : Closure :=
  { members := closure.members.map (Member.renumber rename)
    cycles := closure.cycles.map (Cycle.renumber rename) }

theorem Closure.renumber_id (closure : Closure) : closure.renumber id = closure := by
  have members : Member.renumber id = id := rfl
  have cycles : Cycle.renumber id = id := by
    funext cycle
    rw [Cycle.renumber, List.map_id]
    rfl
  rw [renumber, members, cycles, List.map_id, List.map_id]

section Agreement

variable {rename : File.Id → File.Id} {before after : Graph} {root : File.Id}

/-- Two graphs that hold a file, each at its number, and agree on the imports of all
files that it leads to. -/
structure Agree (rename : File.Id → File.Id) (before after : Graph) (root : File.Id) :
    Prop where
  injective : Function.Injective rename
  precedence : before.precedence = after.precedence
  inBefore : root ∈ before.files
  inAfter : rename root ∈ after.files
  edges : ∀ file, before.LeadsTo root file →
    (before.edges file).map (Prod.map id rename) = after.edges (rename file)

/-- The places at which two graphs hold a file that the root leads to. -/
def SamePlace (rename : File.Id → File.Id) (before after : Graph) (root : File.Id)
    (left right : Nat) : Prop :=
  ∃ file, before.LeadsTo root file ∧
    before.files[left]? = some file ∧ after.files[right]? = some (rename file)

theorem SamePlace.unique (injective : Function.Injective rename) {node other node' other' : Nat}
    (same : SamePlace rename before after root node other)
    (same' : SamePlace rename before after root node' other') :
    node = node' ↔ other = other' := by
  obtain ⟨file, _, atNode, atOther⟩ := same
  obtain ⟨file', _, atNode', atOther'⟩ := same'
  constructor
  · rintro rfl
    obtain rfl := Option.some.inj (atNode.symm.trans atNode')
    exact Graph.place_unique atOther atOther'
  · rintro rfl
    obtain rfl := injective (Option.some.inj (atOther.symm.trans atOther'))
    exact Graph.place_unique atNode atNode'

theorem SamePlace.fileAt {left right : Nat}
    (same : SamePlace rename before after root left right) :
    rename (before.links.fileAt left) = after.links.fileAt right := by
  obtain ⟨file, _, atLeft, atRight⟩ := same
  rw [Links.fileAt_eq atLeft, Links.fileAt_eq atRight]

/-- The same files have the same numbers but for the renumbering. -/
theorem SamePlace.map_fileAt {places places' : List Nat}
    (same : List.Forall₂ (SamePlace rename before after root) places places') :
    (places.map before.links.fileAt).map rename = places'.map after.links.fileAt := by
  rw [List.map_map, ← List.forall₂_eq_eq_eq, List.forall₂_map_left_iff,
    List.forall₂_map_right_iff]
  exact same.imp fun _ _ same => same.fileAt

theorem SamePlace.lt_left {left right : Nat}
    (same : SamePlace rename before after root left right) :
    left < before.links.size := by
  obtain ⟨file, _, atLeft, _⟩ := same
  exact Links.size_links before ▸ (List.getElem?_eq_some_iff.mp atLeft).1

theorem SamePlace.lt_right {left right : Nat}
    (same : SamePlace rename before after root left right) :
    right < after.links.size := by
  obtain ⟨file, _, _, atRight⟩ := same
  exact Links.size_links after ▸ (List.getElem?_eq_some_iff.mp atRight).1

namespace Agree

variable (agree : Agree rename before after root)

include agree

/-- Edges of the same file lead to the same places. -/
theorem forall₂_edgesAt {left right : Nat}
    (same : SamePlace rename before after root left right) :
    List.Forall₂ (fun edge edge' => edge.1 = edge'.1 ∧
        SamePlace rename before after root edge.2 edge'.2)
      (before.links.edgesAt left) (after.links.edgesAt right) := by
  obtain ⟨file, leads, atLeft, atRight⟩ := same
  have sameEdges :
      List.Forall₂ (fun edge edge' : ImportClause × Nat =>
          (edge.1, rename (before.links.fileAt edge.2)) = (edge'.1, after.links.fileAt edge'.2))
        (before.links.edgesAt left) (after.links.edgesAt right) := by
    have mapped := (congrArg (List.map (Prod.map id rename)) (Links.map_edgesAt atLeft)).trans
      ((agree.edges file leads).trans (Links.map_edgesAt atRight).symm)
    rw [List.map_map] at mapped
    rwa [← List.forall₂_eq_eq_eq, List.forall₂_map_left_iff, List.forall₂_map_right_iff] at mapped
  refine List.forall₂_iff_zip.mpr ⟨sameEdges.length_eq, fun {edge edge'} paired => ?_⟩
  obtain ⟨sameClause, sameFile⟩ := Prod.mk.inj (List.forall₂_zip sameEdges paired)
  obtain ⟨inLeft, inRight⟩ := List.of_mem_zip paired
  have imports := (Links.mem_onward_iff atLeft (Links.getElem?_of_mem_edgesAt inLeft)).mp
    (List.mem_map_of_mem inLeft)
  refine ⟨sameClause, before.links.fileAt edge.2, leads.onward imports,
    Links.getElem?_of_mem_edgesAt inLeft, ?_⟩
  rw [sameFile]
  exact Links.getElem?_of_mem_edgesAt inRight

/-! ### Members -/

theorem marksOf {left right : Nat} (same : SamePlace rename before after root left right) :
    Marks.Agree (SamePlace rename before after root)
      (before.links.marksOf left) (after.links.marksOf right) := by
  intro node other same'
  simp only [Links.marksOf, Marks.awaits_mark, Marks.awaits_fresh, same'.lt_left, same'.lt_right,
    ne_eq, same'.unique agree.injective same]

/-- Searches from the same file whose steps and orders correspond find corresponding files,
although the graphs may differ in size. -/
theorem forall₂_rounds {Note : Type} {noted : Note → Note → Prop}
    {step step' : Nat × Note → List (Nat × Note)}
    {arrange arrange' : List (Nat × Note) → List (Nat × Note)}
    (steps : ∀ arrival arrival', Alike (SamePlace rename before after root) noted arrival arrival' →
      List.Forall₂ (Alike (SamePlace rename before after root) noted)
        (step arrival) (step' arrival'))
    (arranged : ∀ arrivals arrivals',
      List.Forall₂ (Alike (SamePlace rename before after root) noted) arrivals arrivals' →
      List.Forall₂ (Alike (SamePlace rename before after root) noted)
        (arrange arrivals) (arrange' arrivals'))
    {left right : Nat} (same : SamePlace rename before after root left right)
    {note note' : Note} (sameNote : noted note note') :
    List.Forall₂ (List.Forall₂ (Alike (SamePlace rename before after root) noted))
      (rounds step arrange before.links.size (before.links.marksOf left) [(left, note)])
      (rounds step' arrange' after.links.size (after.links.marksOf right) [(right, note')]) := by
  -- both searches get the fuel of the larger one
  rw [← rounds_of_enough _ _ (before.links.waiting_marksOf_le left)
      (Nat.le_max_left _ after.links.size),
    ← rounds_of_enough _ _ (after.links.waiting_marksOf_le right)
      (Nat.le_max_right before.links.size _)]
  exact rounds_forall₂ (SamePlace.unique agree.injective) steps arranged _ (agree.marksOf same)
    (.cons ⟨same, sameNote⟩ .nil)

theorem forall₂_arrange {left right : List (Nat × Visibility)}
    (alike : List.Forall₂ (Alike (SamePlace rename before after root) Eq) left right) :
    List.Forall₂ (Alike (SamePlace rename before after root) Eq)
      (before.links.arrange left) (after.links.arrange right) := by
  have precedence : before.links.graph.precedence = after.links.graph.precedence :=
    agree.precedence
  unfold Links.arrange
  rw [precedence]
  cases after.links.graph.precedence with
  | first => exact alike
  | last => exact List.rel_reverse alike

theorem forall₂_layers {left right : Nat} (same : SamePlace rename before after root left right) :
    List.Forall₂ (List.Forall₂ (Alike (SamePlace rename before after root) Eq))
      (before.links.layers left) (after.links.layers right) := by
  refine agree.forall₂_rounds ?_ (fun _ _ => agree.forall₂_arrange) same rfl
  rintro ⟨place, visibility⟩ ⟨place', visibility'⟩ ⟨samePlace, rfl⟩
  unfold Links.stepVisible
  rw [List.forall₂_map_left_iff, List.forall₂_map_right_iff]
  apply (agree.forall₂_edgesAt samePlace).imp
  rintro ⟨clause, target⟩ ⟨clause', target'⟩ ⟨rfl, sameTarget⟩
  exact ⟨sameTarget, rfl⟩

/-- Closures of the same file have the same members, under their new numbers and at the same
depths. -/
theorem members_eq {left right : Nat} (same : SamePlace rename before after root left right) :
    (before.links.members left).map (Member.renumber rename) = after.links.members right := by
  have layers := agree.forall₂_layers same
  unfold Links.members
  rw [List.map_flatMap]
  generalize 1 = depth
  generalize before.links.layers left = found at layers
  generalize after.links.layers right = found' at layers
  induction layers generalizing depth with
  | nil => rfl
  | cons sameLayer _ inductionHypothesis =>
      rw [List.zipIdx_cons, List.zipIdx_cons, List.flatMap_cons, List.flatMap_cons,
        inductionHypothesis]
      congr 1
      rw [List.map_map, ← List.forall₂_eq_eq_eq, List.forall₂_map_left_iff,
        List.forall₂_map_right_iff]
      apply sameLayer.imp
      rintro ⟨member, visibility⟩ ⟨member', visibility'⟩ ⟨samePlace, rfl⟩
      show Member.mk (rename (before.links.fileAt member)) visibility depth = _
      rw [samePlace.fileAt]

/-! ### Cycles -/

/-- The ways below the same file are found in the same order and pass through the same files.
-/
theorem forall₂_waysFrom {left right : Nat}
    (same : SamePlace rename before after root left right) :
    List.Forall₂ (Alike (SamePlace rename before after root)
        (List.Forall₂ (SamePlace rename before after root)))
      (before.links.waysFrom left) (after.links.waysFrom right) := by
  have sameWay : List.Forall₂ (SamePlace rename before after root) [left] [right] :=
    .cons same .nil
  refine .cons ⟨same, sameWay⟩ (List.rel_flatten ?_)
  refine agree.forall₂_rounds ?_ (fun _ _ alike => alike) same sameWay
  rintro ⟨place, way⟩ ⟨place', way'⟩ ⟨samePlace, sameWay⟩
  unfold Links.stepOn
  rw [List.forall₂_map_left_iff, List.forall₂_map_right_iff]
  apply (agree.forall₂_edgesAt samePlace).imp
  rintro ⟨clause, target⟩ ⟨clause', target'⟩ ⟨rfl, sameTarget⟩
  exact ⟨sameTarget, .cons sameTarget sameWay⟩

/-- Paths between the same files are the same. -/
theorem rel_pathBetween {left right goal goal' : Nat}
    (same : SamePlace rename before after root left right)
    (sameGoal : SamePlace rename before after root goal goal') :
    Option.Rel (List.Forall₂ (SamePlace rename before after root))
      (before.links.pathBetween left goal) (after.links.pathBetween right goal') := by
  have ends : ∀ entry entry', Alike (SamePlace rename before after root)
      (List.Forall₂ (SamePlace rename before after root)) entry entry' →
      decide (entry.1 = goal) = decide (entry'.1 = goal') := by
    rintro entry entry' ⟨sameEnd, _⟩
    exact decide_eq_decide.mpr (SamePlace.unique agree.injective sameEnd sameGoal)
  rw [Links.pathBetween_eq same.lt_left, Links.pathBetween_eq same.lt_right]
  have firsts := rel_find? ends (agree.forall₂_waysFrom same)
  generalize (before.links.waysFrom left).find? _ = first at firsts
  generalize (after.links.waysFrom right).find? _ = first' at firsts
  cases firsts with
  | none => exact .none
  | some alike => exact .some (List.rel_reverse alike.2)

/-- The same cycles are found, through the same files and in the same order. -/
theorem cycles_eq {left right : Nat} (same : SamePlace rename before after root left right) :
    (before.links.cycles left).map (Cycle.renumber rename) = after.links.cycles right := by
  unfold Links.cycles
  rw [List.map_filterMap, ← List.forall₂_eq_eq_eq]
  refine List.rel_filterMap ?_ (agree.forall₂_edgesAt same)
  rintro ⟨clause, target⟩ ⟨clause', target'⟩ ⟨rfl, sameTarget⟩
  have paths := agree.rel_pathBetween sameTarget same
  dsimp only
  generalize before.links.pathBetween target left = path at paths
  generalize after.links.pathBetween target' right = path' at paths
  cases paths with
  | none => exact .none
  | some samePath =>
      refine .some ?_
      have sameFiles := SamePlace.map_fileAt (.cons same samePath)
      rw [Cycle.renumber, sameFiles]

end Agree

/-- The closure of a file is a function of the edges of the files it leads to: if these
files get other numbers, so do the files of the closure, and nothing else happens to
it. -/
theorem closure_renumber (agree : Agree rename before after root) :
    after.closure (rename root) = (before.closure root).renumber rename := by
  obtain ⟨left, atLeft⟩ := List.mem_iff_getElem?.mp agree.inBefore
  obtain ⟨right, atRight⟩ := List.mem_iff_getElem?.mp agree.inAfter
  have same : SamePlace rename before after root left right :=
    ⟨root, .refl before root, atLeft, atRight⟩
  rw [Graph.closure_of_place atLeft, Graph.closure_of_place atRight, Closure.renumber,
    agree.members_eq same, agree.cycles_eq same]

theorem closure_congr (agree : Agree id before after root) :
    before.closure root = after.closure root := by
  rw [← (before.closure root).renumber_id]
  exact (closure_renumber agree).symm

/-! ### Avoiding what changed -/

variable {changed : File.Id → Prop}

/-- A file to which both graphs lead has the same edges in both, if neither leads to what
changed. -/
theorem edges_eq_of_avoids
    (same : ∀ file, ¬ changed file → before.node? file = after.node? file)
    (avoidsBefore : ∀ file, before.LeadsTo root file → ¬ changed file)
    (avoidsAfter : ∀ file, after.LeadsTo root file → ¬ changed file)
    {file : File.Id} (leadsBefore : before.LeadsTo root file)
    (leadsAfter : after.LeadsTo root file) :
    before.edges file = after.edges file := by
  have sameNode := same file (avoidsBefore file leadsBefore)
  unfold Graph.edges
  rw [← sameNode]
  cases known : before.node? file with
  | none => rfl
  | some node =>
      apply List.filterMap_congr
      intro clause imported
      have keepsBefore : ∀ target, before.resolve clause.name = some target → ¬ changed target := by
        intro target found
        have edge := Graph.mem_edges_iff.mpr ⟨node, known, imported, found⟩
        exact avoidsBefore target (leadsBefore.onward (List.mem_map_of_mem edge))
      have keepsAfter : ∀ target, after.resolve clause.name = some target → ¬ changed target := by
        intro target found
        have edge := Graph.mem_edges_iff.mpr ⟨node, sameNode ▸ known, imported, found⟩
        exact avoidsAfter target (leadsAfter.onward (List.mem_map_of_mem edge))
      rw [Graph.resolve_stable same keepsBefore keepsAfter]

/-- Graphs that disagree only about files to which neither leads agree on all that
either leads to: a name that one of them led elsewhere would be led there because of
a file that both know. -/
theorem agree_of_avoids (precedence : before.precedence = after.precedence)
    (same : ∀ file, ¬ changed file → before.node? file = after.node? file)
    (inBefore : root ∈ before.files) (inAfter : root ∈ after.files)
    (avoidsBefore : ∀ file, before.LeadsTo root file → ¬ changed file)
    (avoidsAfter : ∀ file, after.LeadsTo root file → ¬ changed file) :
    Agree id before after root := by
  refine ⟨Function.injective_id, precedence, inBefore, inAfter, ?_⟩
  have leads : ∀ steps file, before.Trail steps root file → after.LeadsTo root file := by
    intro steps
    induction steps with
    | zero =>
        rintro file rfl
        exact .refl after root
    | succ steps inductionHypothesis =>
        rintro file ⟨middle, trail, imports⟩
        have leadsMiddle := inductionHypothesis middle trail
        have sameEdges :=
          edges_eq_of_avoids same avoidsBefore avoidsAfter ⟨steps, trail⟩ leadsMiddle
        apply leadsMiddle.onward
        rwa [Graph.targets, ← sameEdges]
  rintro file ⟨steps, trail⟩
  rw [Prod.map_id, List.map_id]
  exact edges_eq_of_avoids same avoidsBefore avoidsAfter ⟨steps, trail⟩ (leads steps file trail)

end Agreement

end GrammarDesk.Import
