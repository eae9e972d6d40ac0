import Mathlib.Data.List.Forall2
import GrammarDesk.Proofs.Graph.Search
import GrammarDesk.Import.Closure

/-!
Contract: import names and import edges, told by files and told by places.

Owns: which file a name stands for, said without a search; the relation of a file
to the files it imports; and the correspondence between the edges of a graph and
the edges of its links, where files are told by their place.

Does not own: closures (`Closure`).

Main statements: `resolve_eq_some_iff`, `map_edgesAt`, and that a name whose file
did not change before or after keeps its file (`resolve_stable`).
-/

namespace GrammarDesk.Import

open GrammarDesk.Graph (Walk)

namespace Graph

/-! ## Names -/

/-- The file is the first whose node satisfies a test. -/
def IsLeast (graph : Graph) (test : Node → Bool) (file : File.Id) : Prop :=
  (∃ node, graph.node? file = some node ∧ test node = true) ∧
    ∀ other node, graph.node? other = some node → test node = true → file ≤ other

def HasNone (graph : Graph) (test : Node → Bool) : Prop :=
  ∀ other node, graph.node? other = some node → test node = false

theorem firstPlace_eq_none_iff (graph : Graph) (test : Node → Bool) :
    graph.firstPlace test = none ↔ graph.HasNone test := by
  simp only [firstPlace, HasNone, node?, List.findIdx?_eq_none_iff, File.Map.get?_eq_some_iff,
    Prod.forall]

theorem IsLeast.unique {graph : Graph} {test : Node → Bool} {left right : File.Id}
    (first : graph.IsLeast test left) (second : graph.IsLeast test right) :
    left = right := by
  obtain ⟨node, known, passes⟩ := first.1
  obtain ⟨node', known', passes'⟩ := second.1
  exact Nat.le_antisymm (first.2 right node' known' passes') (second.2 left node known passes)

/-- The first place that passes a test holds the least file that does, because files ascend. -/
theorem isLeast_of_firstPlace {graph : Graph} {test : Node → Bool} {place : Nat}
    (first : graph.firstPlace test = some place) :
    ∃ file, graph.files[place]? = some file ∧ graph.IsLeast test file := by
  obtain ⟨below, passes, before⟩ := List.findIdx?_eq_some_iff_getElem.mp first
  have sorted := List.pairwise_iff_getElem.mp graph.nodes.ascending
  refine ⟨graph.nodes.entries[place].1, by simp [files, File.Map.files, below], ?_, ?_⟩
  · refine ⟨graph.nodes.entries[place].2, ?_, passes⟩
    exact (graph.nodes.get?_eq_some_iff _ _).mpr (List.getElem_mem below)
  · intro other node known passes'
    have listed := (graph.nodes.get?_eq_some_iff _ _).mp known
    obtain ⟨index, indexBelow, entry⟩ := List.getElem_of_mem listed
    rcases Nat.lt_trichotomy index place with earlier | same | later
    · have fails := before index earlier
      simp [entry, passes'] at fails
    · subst same
      rw [entry]
    · have smaller := sorted place index below indexBelow later
      rw [entry] at smaller
      exact Nat.le_of_lt smaller

theorem exists_isLeast (graph : Graph) (test : Node → Bool) :
    graph.HasNone test ∨ ∃ file, graph.IsLeast test file := by
  cases first : graph.firstPlace test with
  | none => exact .inl ((graph.firstPlace_eq_none_iff test).mp first)
  | some place =>
      obtain ⟨file, _, least⟩ := isLeast_of_firstPlace first
      exact .inr ⟨file, least⟩

theorem bind_firstPlace_eq_some_iff (graph : Graph) (test : Node → Bool) (file : File.Id) :
    ((graph.firstPlace test).bind fun place => graph.files[place]?) = some file ↔
      graph.IsLeast test file := by
  cases first : graph.firstPlace test with
  | none =>
      have fails := (graph.firstPlace_eq_none_iff test).mp first
      simp only [Option.bind_none, reduceCtorEq, false_iff]
      rintro ⟨⟨node, known, passes⟩, _⟩
      simp [fails file node known] at passes
  | some place =>
      obtain ⟨least, atPlace, isLeast⟩ := isLeast_of_firstPlace first
      simp only [Option.bind_some, atPlace, Option.some.injEq]
      exact ⟨fun same => same ▸ isLeast, isLeast.unique⟩

def declares (name : String) (node : Node) : Bool :=
  node.grammar = some name

def isNamed (name : String) (node : Node) : Bool :=
  node.stem = some name

theorem placeOf?_eq_or (graph : Graph) (name : String) :
    graph.placeOf? name =
      (graph.firstPlace (declares name)).or (graph.firstPlace (isNamed name)) := by
  unfold placeOf?
  split
  · rename_i place found
    exact (congrArg (Option.or · _) found).symm
  · rename_i none
    exact (congrArg (Option.or · (graph.firstPlace (isNamed name))) none).symm

/-- A name stands for the first file that declares it, or else for the first file
with that stem. -/
theorem resolve_eq_some_iff (graph : Graph) (name : String) (file : File.Id) :
    graph.resolve name = some file ↔
      graph.IsLeast (declares name) file ∨
        graph.HasNone (declares name) ∧ graph.IsLeast (isNamed name) file := by
  rw [resolve, placeOf?_eq_or, ← bind_firstPlace_eq_some_iff, ← bind_firstPlace_eq_some_iff,
    ← firstPlace_eq_none_iff]
  cases first : graph.firstPlace (declares name) with
  | none => simp
  | some place => simp

/-- A name stands for no file if no file declares it or has it as its stem. -/
theorem resolve_eq_none_iff (graph : Graph) (name : String) :
    graph.resolve name = none ↔
      graph.HasNone (declares name) ∧ graph.HasNone (isNamed name) := by
  have noFile : graph.resolve name = none ↔ graph.placeOf? name = none := by
    refine ⟨fun unresolved => ?_, fun noPlace => by rw [resolve, noPlace]; rfl⟩
    rw [resolve, placeOf?_eq_or] at unresolved
    rw [placeOf?_eq_or]
    cases found : (graph.firstPlace (declares name)).or (graph.firstPlace (isNamed name)) with
    | none => rfl
    | some place =>
        rcases Option.or_eq_some_iff.mp found with first | ⟨_, first⟩ <;>
        · obtain ⟨file, atPlace, _⟩ := isLeast_of_firstPlace first
          simp [found, atPlace] at unresolved
  rw [noFile, placeOf?_eq_or, Option.or_eq_none_iff, firstPlace_eq_none_iff,
    firstPlace_eq_none_iff]

/-! ## Names in two graphs -/

section Stable

variable {before after : Graph} {changed : File.Id → Prop}

theorem IsLeast.eq_of_unchanged
    (same : ∀ file, ¬ changed file → before.node? file = after.node? file)
    {test : Node → Bool} {left right : File.Id}
    (first : before.IsLeast test left) (keptLeft : ¬ changed left)
    (second : after.IsLeast test right) (keptRight : ¬ changed right) :
    left = right := by
  obtain ⟨node, known, passes⟩ := first.1
  obtain ⟨node', known', passes'⟩ := second.1
  rw [same left keptLeft] at known
  rw [← same right keptRight] at known'
  exact Nat.le_antisymm (first.2 right node' known' passes') (second.2 left node known passes)

/-- A name that stood for an unchanged file still does, unless it now stands for one that
changed. -/
theorem resolve_of_unchanged
    (same : ∀ file, ¬ changed file → before.node? file = after.node? file)
    {name : String} {file : File.Id}
    (found : before.resolve name = some file) (kept : ¬ changed file)
    (keepsAfter : ∀ file, after.resolve name = some file → ¬ changed file) :
    after.resolve name = some file := by
  rcases (before.resolve_eq_some_iff name file).mp found with least | ⟨none, least⟩
  · obtain ⟨node, known, passes⟩ := least.1
    rw [same file kept] at known
    rcases after.exists_isLeast (declares name) with none | ⟨other, otherLeast⟩
    · simp [none file node known] at passes
    · have leads := (after.resolve_eq_some_iff name other).mpr (.inl otherLeast)
      rw [least.eq_of_unchanged same kept otherLeast (keepsAfter other leads)]
      exact leads
  · rcases after.exists_isLeast (declares name) with noneAfter | ⟨other, otherLeast⟩
    · obtain ⟨node, known, passes⟩ := least.1
      rw [same file kept] at known
      rcases after.exists_isLeast (isNamed name) with unnamed | ⟨other, otherLeast⟩
      · simp [unnamed file node known] at passes
      · have leads := (after.resolve_eq_some_iff name other).mpr (.inr ⟨noneAfter, otherLeast⟩)
        rw [least.eq_of_unchanged same kept otherLeast (keepsAfter other leads)]
        exact leads
    · have leads := (after.resolve_eq_some_iff name other).mpr (.inl otherLeast)
      obtain ⟨node, known, passes⟩ := otherLeast.1
      rw [← same other (keepsAfter other leads)] at known
      simp [none other node known] at passes

/-- A name stands for the same file in two graphs if neither graph leads it to a
file that they disagree about. -/
theorem resolve_stable
    (same : ∀ file, ¬ changed file → before.node? file = after.node? file)
    {name : String}
    (keepsBefore : ∀ file, before.resolve name = some file → ¬ changed file)
    (keepsAfter : ∀ file, after.resolve name = some file → ¬ changed file) :
    before.resolve name = after.resolve name := by
  refine Option.ext fun file => ⟨fun found => ?_, fun found => ?_⟩
  · exact resolve_of_unchanged same found (keepsBefore file found) keepsAfter
  · have sameBack : ∀ file, ¬ changed file → after.node? file = before.node? file :=
      fun file kept => (same file kept).symm
    exact resolve_of_unchanged sameBack found (keepsAfter file found) keepsBefore

end Stable

/-! ## Imports of a file -/

def targets (graph : Graph) (file : File.Id) : List File.Id :=
  (graph.edges file).map Prod.snd

theorem mem_edges_iff {graph : Graph} {file target : File.Id} {clause : ImportClause} :
    (clause, target) ∈ graph.edges file ↔
      ∃ node, graph.node? file = some node ∧ clause ∈ node.imports ∧
        graph.resolve clause.name = some target := by
  unfold edges
  cases known : graph.node? file with
  | none => simp
  | some node => simp [List.mem_filterMap, and_comm]

theorem mem_files_iff {graph : Graph} {file : File.Id} :
    file ∈ graph.files ↔ ∃ node, graph.node? file = some node :=
  graph.nodes.mem_files_iff file

theorem mem_files_of_resolve {graph : Graph} {name : String} {file : File.Id}
    (found : graph.resolve name = some file) :
    file ∈ graph.files := by
  unfold resolve at found
  obtain ⟨place, _, atPlace⟩ := Option.bind_eq_some_iff.mp found
  exact List.mem_of_getElem? atPlace

/-- Imports lead to files of the graph, from files of the graph. -/
theorem mem_files_of_targets {graph : Graph} {file target : File.Id}
    (imports : target ∈ graph.targets file) :
    file ∈ graph.files ∧ target ∈ graph.files := by
  obtain ⟨⟨clause, other⟩, edge, rfl⟩ := List.mem_map.mp imports
  obtain ⟨node, known, _, found⟩ := mem_edges_iff.mp edge
  exact ⟨mem_files_iff.mpr ⟨node, known⟩, mem_files_of_resolve found⟩

/-! ## Places -/

theorem place_unique {graph : Graph} {left right : Nat} {file : File.Id}
    (atLeft : graph.files[left]? = some file) (atRight : graph.files[right]? = some file) :
    left = right := by
  have nodup : graph.files.Nodup := graph.nodes.files_ascending.imp Nat.ne_of_lt
  exact (List.getElem?_inj (List.getElem?_eq_some_iff.mp atLeft).1 nodup).mp
    (atLeft.trans atRight.symm)

theorem idxOf?_files_eq_some_iff (graph : Graph) (file : File.Id) (place : Nat) :
    graph.files.idxOf? file = some place ↔ graph.files[place]? = some file := by
  rw [List.idxOf?_eq_some_iff, List.getElem?_eq_some_iff]
  refine exists_congr fun below => and_iff_left_of_imp fun isFile earlier before alsoFile => ?_
  have together := place_unique (List.getElem?_eq_some_iff.mpr ⟨_, alsoFile⟩)
    (List.getElem?_eq_some_iff.mpr ⟨below, isFile⟩)
  exact absurd together (Nat.ne_of_lt before)

end Graph

namespace Links

variable {graph : Graph}

@[simp] theorem graph_links (graph : Graph) : graph.links.graph = graph := rfl

theorem size_links (graph : Graph) : graph.links.size = graph.files.length := by
  simp [Graph.links, size]

theorem fileAt_eq {place : Nat} {file : File.Id} (atPlace : graph.files[place]? = some file) :
    graph.links.fileAt place = file := by
  simp [fileAt, Graph.links, atPlace]

theorem place?_eq_some_iff (graph : Graph) (file : File.Id) (place : Nat) :
    graph.links.place? file = some place ↔ graph.files[place]? = some file := by
  rw [← Graph.idxOf?_files_eq_some_iff, place?, Graph.links, List.findIdx?_toArray, List.idxOf?]
  rfl

theorem edgesAt_eq {place : Nat} {file : File.Id} {node : Node}
    (atPlace : graph.files[place]? = some file) (known : graph.node? file = some node) :
    graph.links.edgesAt place = graph.placesOf node.imports := by
  have atEntry := atPlace
  simp only [Graph.files, File.Map.files, List.getElem?_map, Option.map_eq_some_iff] at atEntry
  obtain ⟨⟨other, node'⟩, atEntry, rfl⟩ := atEntry
  have listed := (graph.nodes.get?_eq_some_iff _ _).mpr (List.mem_of_getElem? atEntry)
  obtain rfl : node' = node := Option.some.inj (listed.symm.trans known)
  simp [edgesAt, Graph.links, Graph.allEdges, File.Map.values, atEntry]

theorem getElem?_of_placeOf? {name : String} {place : Nat}
    (found : graph.placeOf? name = some place) :
    graph.files[place]? = some (graph.links.fileAt place) := by
  have listed : ∃ file, graph.files[place]? = some file := by
    unfold Graph.placeOf? at found
    split at found
    · rename_i first isFirst
      obtain rfl : first = place := Option.some.inj found
      obtain ⟨file, atPlace, _⟩ := Graph.isLeast_of_firstPlace isFirst
      exact ⟨file, atPlace⟩
    · obtain ⟨file, atPlace, _⟩ := Graph.isLeast_of_firstPlace found
      exact ⟨file, atPlace⟩
  obtain ⟨file, atPlace⟩ := listed
  rw [atPlace, fileAt_eq atPlace]

/-- The edges of a place are the edges of its file. -/
theorem map_edgesAt {place : Nat} {file : File.Id} (atPlace : graph.files[place]? = some file) :
    (graph.links.edgesAt place).map (fun edge => (edge.1, graph.links.fileAt edge.2)) =
      graph.edges file := by
  obtain ⟨node, known⟩ := Graph.mem_files_iff.mp (List.mem_of_getElem? atPlace)
  rw [edgesAt_eq atPlace known]
  simp only [Graph.placesOf, Graph.edges, known, List.map_filterMap]
  apply List.filterMap_congr
  intro clause _
  cases found : graph.placeOf? clause.name with
  | none => simp [Graph.resolve, found]
  | some target => simp [Graph.resolve, found, getElem?_of_placeOf? found]

/-- Only places of files have edges. -/
theorem lt_of_mem_edgesAt {place : Nat} {edge : ImportClause × Nat}
    (member : edge ∈ graph.links.edgesAt place) :
    place < graph.files.length := by
  by_contra outside
  have beyond : graph.allEdges.length ≤ place := by
    simp only [Graph.allEdges, List.length_map, File.Map.values]
    simpa [Graph.files, File.Map.files] using outside
  simp [edgesAt, Graph.links, List.getElem?_eq_none beyond] at member

theorem getElem?_of_source {place : Nat} {edge : ImportClause × Nat}
    (member : edge ∈ graph.links.edgesAt place) :
    graph.files[place]? = some (graph.links.fileAt place) := by
  have atPlace := List.getElem?_eq_getElem (lt_of_mem_edgesAt member)
  rw [atPlace, fileAt_eq atPlace]

/-- Edges lead to places of files. -/
theorem getElem?_of_mem_edgesAt {place : Nat} {edge : ImportClause × Nat}
    (member : edge ∈ graph.links.edgesAt place) :
    graph.files[edge.2]? = some (graph.links.fileAt edge.2) := by
  have below := lt_of_mem_edgesAt member
  have atPlace : graph.files[place]? = some graph.files[place] := List.getElem?_eq_getElem below
  obtain ⟨node, known⟩ := Graph.mem_files_iff.mp (List.mem_of_getElem? atPlace)
  rw [edgesAt_eq atPlace known, Graph.placesOf, List.mem_filterMap] at member
  obtain ⟨clause, _, found⟩ := member
  obtain ⟨target, isTarget, rfl⟩ := Option.map_eq_some_iff.mp found
  exact getElem?_of_placeOf? isTarget

end Links

end GrammarDesk.Import
