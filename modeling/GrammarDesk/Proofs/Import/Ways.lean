import GrammarDesk.Proofs.Graph.Ways
import GrammarDesk.Proofs.Import.Precedence

/-!
Contract: the order of an import closure, told by the ways of imports.

Owns: ways of imports from one file to another, which import after import name the position
of the import in its file; least ways; and the proof that a closure lists its files by their
least ways, if the first import wins.

Does not own: which files a closure holds, and how deep (`Members`), or its order as a
matter of levels (`Precedence`).

A way is less than another one if it is shorter, or as long and ahead at the first position
in which the two differ.

Main statements: `isLeastWay_of_mem_traced`, `closure_lists_least_ways`.
-/

namespace GrammarDesk.Import

open GrammarDesk.Graph

namespace Graph

/-! ## Ways -/

/-- The import at a position of a file leads to a file. -/
def Imports (graph : Graph) (file : File.Id) (step : Nat × ImportClause) (target : File.Id) :
    Prop :=
  ∃ node, graph.node? file = some node ∧ node.imports[step.1]? = some step.2 ∧
    graph.resolve step.2.name = some target

/-- Imports, each at its position, lead one after another from one file to another. -/
def Way (graph : Graph) : List (Nat × ImportClause) → File.Id → File.Id → Prop
  | [], source, target => source = target
  | step :: way, source, target =>
      ∃ middle, graph.Imports source step middle ∧ graph.Way way middle target

/-- A way to which no other one between the same files is less. -/
structure IsLeastWay (graph : Graph) (way : List (Nat × ImportClause)) (source target : File.Id) :
    Prop where
  leads : graph.Way way source target
  least : ∀ other, graph.Way other source target →
    ¬ List.Shortlex (· < ·) (other.map Prod.fst) (way.map Prod.fst)

variable {graph : Graph}

theorem mem_targets_iff {source target : File.Id} :
    target ∈ graph.targets source ↔ ∃ step, graph.Imports source step target := by
  constructor
  · intro imports
    obtain ⟨⟨clause, _⟩, edge, rfl⟩ := List.mem_map.mp imports
    obtain ⟨node, known, isClause, found⟩ := mem_edges_iff.mp edge
    obtain ⟨position, atPosition⟩ := List.mem_iff_getElem?.mp isClause
    exact ⟨(position, clause), node, known, atPosition, found⟩
  · rintro ⟨step, node, known, atPosition, found⟩
    have edge := mem_edges_iff.mpr ⟨node, known, List.mem_of_getElem? atPosition, found⟩
    exact List.mem_map_of_mem edge

theorem trail_of_way (way : List (Nat × ImportClause)) {source target : File.Id}
    (leads : graph.Way way source target) :
    graph.Trail way.length source target := by
  induction way generalizing source with
  | nil => exact leads
  | cons step rest inductionHypothesis =>
      obtain ⟨middle, imports, leads⟩ := leads
      exact (walk_succ_iff _ _ _ _).mpr
        ⟨middle, mem_targets_iff.mpr ⟨step, imports⟩, inductionHypothesis leads⟩

theorem exists_way_of_trail (steps : Nat) {source target : File.Id}
    (trail : graph.Trail steps source target) :
    ∃ way, way.length = steps ∧ graph.Way way source target := by
  induction steps generalizing source with
  | zero => exact ⟨[], rfl, trail⟩
  | succ steps inductionHypothesis =>
      obtain ⟨middle, imports, trail⟩ := (walk_succ_iff _ _ _ _).mp trail
      obtain ⟨step, imports⟩ := mem_targets_iff.mp imports
      obtain ⟨way, rfl, leads⟩ := inductionHypothesis trail
      exact ⟨step :: way, rfl, middle, imports, leads⟩

/-- The positions of its imports tell a way, and with it the file it leads to. -/
theorem way_unique (way : List (Nat × ImportClause)) {other : List (Nat × ImportClause)}
    {source target target' : File.Id} (leads : graph.Way way source target)
    (leads' : graph.Way other source target') (same : way.map Prod.fst = other.map Prod.fst) :
    way = other ∧ target = target' := by
  induction way generalizing other source with
  | nil =>
      obtain rfl := List.map_eq_nil_iff.mp same.symm
      exact ⟨rfl, leads.symm.trans leads'⟩
  | cons step rest inductionHypothesis =>
      cases other with
      | nil => simp at same
      | cons step' rest' =>
          obtain ⟨samePosition, sameRest⟩ := List.cons.inj same
          obtain ⟨middle, ⟨node, known, atPosition, found⟩, leads⟩ := leads
          obtain ⟨middle', ⟨node', known', atPosition', found'⟩, leads'⟩ := leads'
          obtain rfl := Option.some.inj (known.symm.trans known')
          rw [samePosition, atPosition'] at atPosition
          obtain rfl : step = step' := Prod.ext samePosition (Option.some.inj atPosition).symm
          obtain rfl := Option.some.inj (found.symm.trans found')
          obtain ⟨rfl, sameTarget⟩ := inductionHypothesis leads leads' sameRest
          exact ⟨rfl, sameTarget⟩

theorem IsLeastWay.unique {way other : List (Nat × ImportClause)} {source target : File.Id}
    (left : graph.IsLeastWay way source target) (right : graph.IsLeastWay other source target) :
    way = other := by
  have same : way.map Prod.fst = other.map Prod.fst :=
    Std.Trichotomous.trichotomous (r := List.Shortlex (· < ·)) _ _
      (right.least way left.leads) (left.least other right.leads)
  exact (way_unique way left.leads right.leads same).1

/-! ## Steps of the search -/

theorem placeOf?_eq_some_iff {name : String} {place : Nat} :
    graph.placeOf? name = some place ↔
      ∃ file, graph.files[place]? = some file ∧ graph.resolve name = some file := by
  unfold resolve
  constructor
  · intro found
    have atPlace := Links.getElem?_of_placeOf? found
    exact ⟨_, atPlace, by rw [found, Option.bind_some, atPlace]⟩
  · rintro ⟨file, atPlace, leads⟩
    obtain ⟨other, found, atOther⟩ := Option.bind_eq_some_iff.mp leads
    rw [found, place_unique atOther atPlace]

/-- Imports that lead somewhere, each at its position, with the places of the files they
lead to. -/
def numbered (graph : Graph) (imports : List ImportClause) : List ((Nat × ImportClause) × Nat) :=
  imports.zipIdx.filterMap fun entry =>
    (graph.placeOf? entry.1.name).map fun place => (entry.swap, place)

theorem mem_numbered_iff {imports : List ImportClause} {step : Nat × ImportClause} {place : Nat} :
    (step, place) ∈ graph.numbered imports ↔
      imports[step.1]? = some step.2 ∧ graph.placeOf? step.2.name = some place := by
  simp only [numbered, List.mem_filterMap, Option.map_eq_some_iff, Prod.mk.injEq]
  constructor
  · rintro ⟨entry, atPosition, _, found, rfl, rfl⟩
    exact ⟨List.mem_zipIdx_iff_getElem?.mp atPosition, found⟩
  · rintro ⟨atPosition, found⟩
    exact ⟨step.swap, List.mem_zipIdx_iff_getElem?.mpr atPosition, place, found, rfl, rfl⟩

theorem map_numbered (graph : Graph) (imports : List ImportClause) :
    (graph.numbered imports).map (fun entry => (entry.1.2, entry.2)) = graph.placesOf imports := by
  have forget : graph.placesOf imports = graph.placesOf (imports.zipIdx.map Prod.fst) := by
    rw [List.zipIdx_map_fst]
  rw [forget, numbered, placesOf, List.map_filterMap, List.filterMap_map]
  refine List.filterMap_congr fun entry _ => ?_
  rw [Option.map_map]
  rfl

theorem pairwise_numbered (graph : Graph) (imports : List ImportClause) :
    (graph.numbered imports).Pairwise fun entry other => entry.1.1 < other.1.1 := by
  have positions : imports.zipIdx.Pairwise fun entry other => entry.2 < other.2 := by
    rw [← List.pairwise_map, List.zipIdx_map_snd]
    exact List.pairwise_lt_range'
  refine List.pairwise_filterMap.mpr (positions.imp ?_)
  intro entry other before found isFound found' isFound'
  obtain ⟨_, _, rfl⟩ := Option.map_eq_some_iff.mp isFound
  obtain ⟨_, _, rfl⟩ := Option.map_eq_some_iff.mp isFound'
  exact before

/-- The files one import further than a file that is seen in a certain way, each
with the import that leads to it. -/
def stepsFrom (graph : Graph) :
    Nat × Visibility → List ((Nat × ImportClause) × (Nat × Visibility))
  | (place, visibility) =>
      (graph.numbered ((graph.nodes.values[place]?.map Node.imports).getD [])).map fun entry =>
        (entry.1, entry.2, visibility.through entry.1.2.kind)

theorem map_snd_stepsFrom (graph : Graph) (arrival : Nat × Visibility) :
    (graph.stepsFrom arrival).map Prod.snd = graph.links.stepVisible arrival := by
  obtain ⟨place, visibility⟩ := arrival
  have edges : graph.links.edgesAt place =
      graph.placesOf ((graph.nodes.values[place]?.map Node.imports).getD []) := by
    simp only [Links.edgesAt, links, allEdges, Array.getD_eq_getD_getElem?,
      List.getElem?_toArray, List.getElem?_map]
    cases graph.nodes.values[place]? <;> rfl
  rw [Links.stepVisible, edges, ← map_numbered, stepsFrom, List.map_map, List.map_map]
  rfl

theorem pairwise_stepsFrom (graph : Graph) (arrival : Nat × Visibility) :
    (graph.stepsFrom arrival).Pairwise fun step other => step.1.1 < other.1.1 :=
  List.pairwise_map.mpr (graph.pairwise_numbered _)

theorem mem_onward_of_mem_stepsFrom (graph : Graph) (source : Nat × Visibility)
    (step : Nat × ImportClause) (target : Nat × Visibility)
    (isStep : (step, target) ∈ graph.stepsFrom source) :
    target.1 ∈ graph.links.onward source.1 := by
  have edge : target ∈ (graph.stepsFrom source).map Prod.snd := List.mem_map.mpr ⟨_, isStep, rfl⟩
  rw [map_snd_stepsFrom] at edge
  exact (graph.links.mem_stepVisible_iff source.1 target.1 source.2).mp ⟨_, edge⟩

/-- Where a step leads does not depend on how its file is seen. -/
theorem exists_mem_stepsFrom (graph : Graph) (place : Nat) (visibility other : Visibility)
    (step : Nat × ImportClause) (target : Nat) (further : Visibility)
    (isStep : (step, target, further) ∈ graph.stepsFrom (place, visibility)) :
    ∃ further', (step, target, further') ∈ graph.stepsFrom (place, other) := by
  obtain ⟨⟨_, _⟩, isNumbered, same⟩ := List.mem_map.mp isStep
  obtain ⟨rfl, rfl, _⟩ : _ ∧ _ ∧ _ := by simpa using same
  exact ⟨_, List.mem_map.mpr ⟨_, isNumbered, rfl⟩⟩

/-- A step from a place goes along an import of its file, and its number is that of the import.
-/
theorem mem_stepsFrom_iff {place target : Nat} {visibility further : Visibility}
    {step : Nat × ImportClause} {file : File.Id} (atPlace : graph.files[place]? = some file) :
    (step, target, further) ∈ graph.stepsFrom (place, visibility) ↔
      further = visibility.through step.2.kind ∧
        ∃ other, graph.files[target]? = some other ∧ graph.Imports file step other := by
  have atEntry := atPlace
  simp only [files, File.Map.files, List.getElem?_map, Option.map_eq_some_iff] at atEntry
  obtain ⟨⟨other, node⟩, atEntry, rfl⟩ := atEntry
  have known : graph.node? other = some node :=
    (graph.nodes.get?_eq_some_iff _ _).mpr (List.mem_of_getElem? atEntry)
  have atValue : graph.nodes.values[place]? = some node := by
    simp [File.Map.values, atEntry]
  simp only [stepsFrom, atValue, Option.map_some, Option.getD_some, List.mem_map, Prod.mk.injEq]
  constructor
  · rintro ⟨⟨_, _⟩, isEntry, rfl, rfl, rfl⟩
    obtain ⟨atPosition, found⟩ := mem_numbered_iff.mp isEntry
    obtain ⟨other, atTarget, leads⟩ := placeOf?_eq_some_iff.mp found
    exact ⟨rfl, other, atTarget, node, known, atPosition, leads⟩
  · rintro ⟨rfl, other, atTarget, node', known', atPosition, leads⟩
    obtain rfl := Option.some.inj (known.symm.trans known')
    exact ⟨(step, target), mem_numbered_iff.mpr
      ⟨atPosition, placeOf?_eq_some_iff.mpr ⟨other, atTarget, leads⟩⟩, rfl, rfl, rfl⟩

/-- What is seen of a file at the end of a way. -/
def sight (visibility : Visibility) (way : List (Nat × ImportClause)) : Visibility :=
  way.foldl (fun visibility step => visibility.through step.2.kind) visibility

/-- The ways of the search are the ways of imports. -/
theorem along_stepsFrom_iff (way : List (Nat × ImportClause)) {place target : Nat}
    {visibility further : Visibility} {file : File.Id}
    (atPlace : graph.files[place]? = some file) :
    Along graph.stepsFrom way (place, visibility) (target, further) ↔
      further = sight visibility way ∧
        ∃ other, graph.files[target]? = some other ∧ graph.Way way file other := by
  induction way generalizing place visibility file with
  | nil =>
      simp only [Along, Way, sight, List.foldl_nil, Prod.mk.injEq]
      constructor
      · rintro ⟨rfl, rfl⟩
        exact ⟨rfl, file, atPlace, rfl⟩
      · rintro ⟨rfl, _, atTarget, rfl⟩
        exact ⟨place_unique atPlace atTarget, rfl⟩
  | cons step rest inductionHypothesis =>
      simp only [Along, Way, sight, List.foldl_cons]
      constructor
      · rintro ⟨⟨middle, seen⟩, isStep, along⟩
        obtain ⟨rfl, between, atMiddle, imports⟩ := (mem_stepsFrom_iff atPlace).mp isStep
        obtain ⟨same, other, atTarget, leads⟩ := (inductionHypothesis atMiddle).mp along
        exact ⟨same, other, atTarget, between, imports, leads⟩
      · rintro ⟨same, other, atTarget, between, imports, leads⟩
        have inGraph := (mem_files_of_targets (mem_targets_iff.mpr ⟨step, imports⟩)).2
        obtain ⟨middle, atMiddle⟩ := List.mem_iff_getElem?.mp inGraph
        exact ⟨(middle, _), (mem_stepsFrom_iff atPlace).mpr ⟨rfl, between, atMiddle, imports⟩,
          (inductionHypothesis atMiddle).mpr ⟨same, other, atTarget, leads⟩⟩

/-! ## The search -/

section Search

variable {root : File.Id} {place : Nat}

/-- The search of a closure ends: after as many rounds as there are files it finds nothing. -/
theorem searched_files (atPlace : graph.files[place]? = some root) :
    (graph.searched place graph.files.length).1 = [] := by
  have isPlace := (List.getElem?_eq_some_iff.mp atPlace).1
  obtain ⟨less, size⟩ : ∃ less, graph.files.length = less + 1 :=
    ⟨graph.files.length - 1, by omega⟩
  have waits : (Marks.fresh graph.links.size).awaits place = true := by
    rw [Marks.awaits_fresh, Links.size_links]
    exact decide_eq_true isPlace
  have fewer := Marks.waiting_mark waits
  rw [Marks.waiting_fresh, Links.size_links, size] at fewer
  have enough : (graph.links.marksOf place).waiting ≤ less := by
    rw [Links.marksOf, Links.size_links, size]
    exact Nat.le_of_eq (Nat.succ.inj fewer)
  rw [size]
  refine (getD_rounds (Links.arrange_nil _) less enough less).symm.trans ?_
  rw [List.getElem?_eq_none (length_rounds_le _ _ _ _ _)]
  rfl

/-- The search finds each file in the round that is its distance. -/
theorem exists_mem_searched_iff (graph : Graph) (place rounds node : Nat) :
    (∃ arrival ∈ (graph.searched place rounds).1, arrival.1 = node) ↔
      IsLeastWalk graph.links.onward rounds place node := by
  rw [isLeastWalk_iff_front]
  cases rounds with
  | zero => simp [searched, eq_comm]
  | succ rounds =>
      simp only [Nat.succ_ne_zero, and_false, false_or, Nat.add_right_cancel_iff,
        exists_eq_left', ← Links.mem_layers_iff, ← getD_layers]
      cases (graph.links.layers place)[rounds]? with
      | none => simp
      | some layer => simp

/-- The search of a closure, with the way to each place. -/
def tracedFrom (graph : Graph) (place rounds : Nat) :
    List (Nat × (Visibility × List (Nat × ImportClause))) :=
  (traced graph.stepsFrom (graph.links.marksOf place) (place, .all) rounds).1

theorem map_tracedFrom (first : graph.precedence = .first) (place rounds : Nat) :
    (graph.tracedFrom place rounds).map (Prod.map id Prod.fst) =
      (graph.searched place rounds).1 := by
  have arranged : graph.links.arrange = id := by
    funext arrivals
    unfold Links.arrange
    rw [Links.graph_links, first]
    rfl
  unfold searched tracedFrom
  rw [arranged, forget_traced graph.map_snd_stepsFrom]
  rfl

theorem exists_mem_tracedFrom_iff (first : graph.precedence = .first) (place rounds node : Nat) :
    (∃ entry ∈ graph.tracedFrom place rounds, entry.1 = node) ↔
      IsLeastWalk graph.links.onward rounds place node := by
  rw [← exists_mem_searched_iff, ← map_tracedFrom first]
  simp

/-- When the first import wins, the search finds each file along its least way, with what is
seen of it along this way. -/
theorem isLeastWay_of_mem_tracedFrom (first : graph.precedence = .first)
    (atPlace : graph.files[place]? = some root) {rounds : Nat}
    {entry : Nat × (Visibility × List (Nat × ImportClause))}
    (found : entry ∈ graph.tracedFrom place rounds) :
    entry.2.2.length = rounds ∧ entry.2.1 = sight .all entry.2.2 ∧
      graph.IsLeastWay entry.2.2 root (graph.links.fileAt entry.1) := by
  obtain ⟨along, length⟩ := along_of_mem_traced rounds entry found
  obtain ⟨seen, file, atFile, leads⟩ := (along_stepsFrom_iff _ atPlace).mp along
  have isFile := Links.fileAt_eq atFile
  refine ⟨length, seen, isFile ▸ leads, fun other leadsToo less => ?_⟩
  rw [isFile] at leadsToo
  rw [List.shortlex_def, List.length_map, List.length_map, length] at less
  have least := (exists_mem_tracedFrom_iff first place rounds entry.1).mp ⟨entry, found, rfl⟩
  rcases less with shorter | ⟨sameLength, earlier⟩
  · have trail := trail_of_way other leadsToo
    exact least.2 _ shorter ((Links.walk_iff atPlace atFile).mpr trail)
  · have alongToo : Along graph.stepsFrom other (place, .all) (entry.1, sight .all other) :=
      (along_stepsFrom_iff other atPlace).mpr ⟨rfl, file, atFile, leadsToo⟩
    exact traced_least graph.pairwise_stepsFrom graph.exists_mem_stepsFrom
      graph.mem_onward_of_mem_stepsFrom (exists_mem_tracedFrom_iff first place) rounds entry found
      other _ sameLength alongToo earlier

/-- All that the search finds, round after round. -/
def foundFrom (graph : Graph) (place : Nat) :
    List (Nat × (Visibility × List (Nat × ImportClause))) :=
  (List.range graph.files.length).flatMap fun number => graph.tracedFrom place (number + 1)

theorem members_eq_map_foundFrom (first : graph.precedence = .first)
    (atPlace : graph.files[place]? = some root) :
    (graph.closure root).members = (graph.foundFrom place).map fun entry =>
      ⟨graph.links.fileAt entry.1, entry.2.1, entry.2.2.length⟩ := by
  rw [closure_of_place atPlace, Links.members_eq, Links.size_links, foundFrom, List.map_flatMap]
  refine List.flatMap_congr fun number _ => ?_
  rw [getD_layers, ← map_tracedFrom first, List.map_map]
  refine List.map_congr_left fun entry found => ?_
  rw [(isLeastWay_of_mem_tracedFrom first atPlace found).1]
  rfl

theorem pairwise_foundFrom (first : graph.precedence = .first)
    (atPlace : graph.files[place]? = some root) :
    (graph.foundFrom place).Pairwise fun entry other =>
      List.Shortlex (· < ·) (entry.2.2.map Prod.fst) (other.2.2.map Prod.fst) := by
  have length : ∀ number, ∀ entry ∈ graph.tracedFrom place number,
      (entry.2.2.map Prod.fst).length = number := fun number entry found =>
    (List.length_map _).trans (isLeastWay_of_mem_tracedFrom first atPlace found).1
  refine List.pairwise_flatMap.mpr ⟨fun number _ => ?_, ?_⟩
  · refine (pairwise_traced graph.pairwise_stepsFrom (number + 1)).imp_of_mem ?_
    intro entry other found found' earlier
    exact .of_lex ((length _ entry found).trans (length _ other found').symm) earlier
  · refine List.pairwise_lt_range.imp fun {number other} before entry found entry' found' => ?_
    exact .of_length_lt (length _ entry found ▸ length _ entry' found' ▸ Nat.succ_lt_succ before)

end Search

end Graph

open Import.Graph in
/-- When the first import wins, the search of a closure ends by itself. What it finds are the
files, other than the one it starts from, that one or more imports lead to, each once, at the
length of its shortest way, and in the order of the least ways: nearer files first, and equally
near ones as the positions of the imports on their least ways compare. -/
theorem closure_lists_least_ways (nodes : File.Map Node) (root : File.Id) :
    let graph : Graph := ⟨.first, nodes⟩
    let members := (graph.closure root).members
    (∀ place, graph.files[place]? = some root → (graph.searched place nodes.size).1 = []) ∧
    (∀ file, (∃ member ∈ members, member.file = file) ↔
      file ≠ root ∧ ∃ way, way ≠ [] ∧ graph.Way way root file) ∧
    (members.map Member.file).Nodup ∧
    ∃ ways, List.Forall₂ (fun member way =>
        graph.IsLeastWay way root member.file ∧ way.length = member.depth) members ways ∧
      (ways.map (List.map Prod.fst)).Pairwise (List.Shortlex (· < ·)) := by
  intro graph members
  have isMember : ∀ file, (∃ member ∈ members, member.file = file) ↔
      file ≠ root ∧ ∃ way, way ≠ [] ∧ graph.Way way root file := by
    intro file
    refine brings_iff.trans (and_congr_right fun _ => ⟨?_, ?_⟩)
    · rintro ⟨steps, trail⟩
      obtain ⟨way, length, leads⟩ := exists_way_of_trail _ trail
      exact ⟨way, List.ne_nil_of_length_eq_add_one length, leads⟩
    · rintro ⟨way, notEmpty, leads⟩
      obtain ⟨steps, length⟩ := Nat.exists_eq_add_one.mpr (List.length_pos_iff.mpr notEmpty)
      exact ⟨steps, length ▸ trail_of_way way leads⟩
  have size : graph.files.length = nodes.size := List.length_map _
  refine ⟨fun place atPlace => size ▸ searched_files atPlace, isMember, ?_⟩
  by_cases present : root ∈ graph.files
  · obtain ⟨place, atPlace⟩ := List.mem_iff_getElem?.mp present
    have listed : members = (graph.foundFrom place).map fun entry =>
        ⟨graph.links.fileAt entry.1, entry.2.1, entry.2.2.length⟩ :=
      members_eq_map_foundFrom rfl atPlace
    have least : ∀ entry ∈ graph.foundFrom place,
        graph.IsLeastWay entry.2.2 root (graph.links.fileAt entry.1) := by
      intro entry found
      obtain ⟨number, _, inRound⟩ := List.mem_flatMap.mp found
      exact (isLeastWay_of_mem_tracedFrom rfl atPlace inRound).2.2
    have ordered := pairwise_foundFrom rfl atPlace
    refine ⟨?_, (graph.foundFrom place).map fun entry => entry.2.2, ?_, ?_⟩
    · -- the same file twice would have two least ways, one less than the other
      rw [listed, List.map_map]
      refine List.pairwise_map.mpr (ordered.imp_of_mem ?_)
      intro entry other found found' less same
      have sameFile : graph.links.fileAt entry.1 = graph.links.fileAt other.1 := same
      exact (least other found').least _ (sameFile ▸ (least entry found).leads) less
    · rw [listed, List.forall₂_map_left_iff, List.forall₂_map_right_iff, List.forall₂_same]
      exact fun entry found => ⟨least entry found, rfl⟩
    · rw [List.map_map]
      exact List.pairwise_map.mpr ordered
  · have none : members = [] := congrArg Closure.members (closure_of_not_mem present)
    rw [none]
    exact ⟨.nil, [], .nil, .nil⟩

end GrammarDesk.Import
