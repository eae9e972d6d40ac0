import GrammarDesk.Proofs.Import.Closure

/-!
Contract: which files an import closure holds, and at which depth.

Owns: the proof that the search of a closure finds every file that imports lead to, in
the round that is its distance.

Does not own: in which order the files of one depth are found (`Precedence`), or where
the search along reversed edges leads (`Distance`).

Main statements: `mem_closure_iff`, `mem_dependents_iff_brings`.
-/

namespace GrammarDesk.Import

open GrammarDesk.Graph

namespace Links

variable {graph : Graph}

theorem mem_arrange_iff (links : Links) (arrivals : List (Nat × Visibility))
    (arrival : Nat × Visibility) :
    arrival ∈ links.arrange arrivals ↔ arrival ∈ arrivals := by
  unfold arrange
  cases links.graph.precedence with
  | first => exact Iff.rfl
  | last => exact List.mem_reverse

@[simp] theorem arrange_nil (links : Links) : links.arrange [] = [] := by
  unfold arrange
  cases links.graph.precedence <;> rfl

theorem mem_stepVisible_iff (links : Links) (source node : Nat) (visibility : Visibility) :
    (∃ further, (node, further) ∈ links.stepVisible (source, visibility)) ↔
      node ∈ links.onward source := by
  simp [stepVisible, onward]

/-- The layers below a file are the rounds in which a search from it finds others. -/
theorem mem_layers_iff (place later node : Nat) :
    (∃ layer, (graph.links.layers place)[later]? = some layer ∧
        ∃ visibility, (node, visibility) ∈ layer) ↔
      Front graph.links.onward (· = place) (· = place) (later + 1) node :=
  mem_rounds_iff_front
    (fun source visibility node => graph.links.mem_stepVisible_iff source node visibility)
    graph.links.mem_arrange_iff place Visibility.all later node

/-- The members are the files of the layers, each at the depth of its layer. -/
theorem mem_members_iff_layers {links : Links} {place : Nat} {file : File.Id}
    {visibility : Visibility} {depth : Nat} :
    ⟨file, visibility, depth⟩ ∈ links.members place ↔
      ∃ later layer node, depth = later + 1 ∧ (links.layers place)[later]? = some layer ∧
        (node, visibility) ∈ layer ∧ links.fileAt node = file := by
  unfold members
  rw [List.mem_flatMap]
  constructor
  · rintro ⟨⟨layer, number⟩, inLayers, inLayer⟩
    obtain ⟨⟨node, seen⟩, found, isMember⟩ := List.mem_map.mp inLayer
    obtain ⟨isFile, rfl, rfl⟩ := Member.mk.inj isMember
    obtain ⟨after, atPlace⟩ := List.mem_zipIdx_iff_le_and_getElem?_sub.mp inLayers
    dsimp only at after atPlace found
    exact ⟨number - 1, layer, node, by omega, atPlace, found, isFile⟩
  · rintro ⟨later, layer, node, rfl, atPlace, found, isFile⟩
    refine ⟨(layer, later + 1), List.mem_zipIdx_iff_le_and_getElem?_sub.mpr ?_, ?_⟩
    · exact ⟨Nat.le_add_left 1 later, by simpa using atPlace⟩
    · exact List.mem_map.mpr ⟨(node, visibility), found, isFile ▸ rfl⟩

end Links

namespace Graph

variable {graph : Graph} {root file : File.Id}

/-- A closure holds the files that one or more imports lead to and that are not the file
itself, each at the least number of imports that lead to it. -/
theorem mem_closure_iff (depth : Nat) :
    (∃ visibility, ⟨file, visibility, depth⟩ ∈ (graph.closure root).members) ↔
      0 < depth ∧ IsLeastWalk graph.targets depth root file := by
  by_cases present : root ∈ graph.files
  · obtain ⟨place, atPlace⟩ := List.mem_iff_getElem?.mp present
    rw [closure_of_place atPlace]
    simp only [Links.mem_members_iff_layers]
    constructor
    · rintro ⟨visibility, later, layer, node, rfl, atLater, found, rfl⟩
      have front := (Links.mem_layers_iff place later node).mp ⟨layer, atLater, visibility, found⟩
      have least := isLeastWalk_iff_front.mpr (.inr ⟨later, rfl, front⟩)
      obtain ⟨_, _, edge⟩ := least.1
      have atNode := Links.getElem?_of_mem_onward edge
      exact ⟨Nat.succ_pos later, (Links.isLeastWalk_iff atPlace atNode).mp least⟩
    · rintro ⟨positive, least⟩
      obtain ⟨later, rfl⟩ : ∃ later, depth = later + 1 := ⟨depth - 1, by omega⟩
      obtain ⟨_, _, imports⟩ := least.1
      obtain ⟨node, atNode⟩ := List.mem_iff_getElem?.mp (mem_files_of_targets imports).2
      rcases isLeastWalk_iff_front.mp ((Links.isLeastWalk_iff atPlace atNode).mpr least) with
        ⟨_, isZero⟩ | ⟨_, same, front⟩
      · exact absurd isZero (Nat.succ_ne_zero later)
      · obtain rfl := Nat.succ.inj same
        obtain ⟨layer, atLater, visibility, found⟩ :=
          (Links.mem_layers_iff place later node).mpr front
        exact ⟨visibility, later, layer, node, rfl, atLater, found, Links.fileAt_eq atNode⟩
  · rw [closure_of_not_mem present]
    refine ⟨fun ⟨_, member⟩ => absurd member List.not_mem_nil, fun ⟨positive, trail, _⟩ => ?_⟩
    obtain ⟨later, rfl⟩ : ∃ later, depth = later + 1 := ⟨depth - 1, by omega⟩
    obtain ⟨_, imports, _⟩ := (walk_succ_iff _ _ _ _).mp trail
    exact absurd (mem_files_of_targets imports).1 present

def Brings (graph : Graph) (root file : File.Id) : Prop :=
  ∃ member ∈ (graph.closure root).members, member.file = file

instance (graph : Graph) (root file : File.Id) : Decidable (graph.Brings root file) :=
  inferInstanceAs (Decidable (∃ member ∈ (graph.closure root).members, member.file = file))

/-- A closure holds the files that one or more imports lead to, but for the file
itself. -/
theorem brings_iff :
    graph.Brings root file ↔ file ≠ root ∧ ∃ steps, graph.Trail (steps + 1) root file := by
  constructor
  · rintro ⟨⟨_, visibility, depth⟩, member, rfl⟩
    obtain ⟨positive, trail, least⟩ := (mem_closure_iff depth).mp ⟨visibility, member⟩
    obtain ⟨steps, rfl⟩ : ∃ steps, depth = steps + 1 := ⟨depth - 1, by omega⟩
    exact ⟨fun same => least 0 positive same.symm, steps, trail⟩
  · rintro ⟨different, steps, trail⟩
    obtain ⟨distance, least⟩ := exists_isLeastWalk trail
    have positive : 0 < distance := by
      refine Nat.pos_of_ne_zero fun isZero => different ?_
      subst isZero
      exact Eq.symm least.1
    obtain ⟨visibility, member⟩ := (mem_closure_iff _).mpr ⟨positive, least⟩
    exact ⟨_, member, rfl⟩

/-- The dependents of some files, other than these, are the files whose closure holds one
of them. -/
theorem mem_dependents_iff_brings {files : List File.Id} (different : root ∉ files) :
    root ∈ graph.dependents files ↔ ∃ file ∈ files, graph.Brings root file := by
  rw [mem_dependents_iff]
  simp only [brings_iff]
  constructor
  · rintro ⟨file, among, trail⟩
    exact ⟨file, among, fun same => different (same ▸ among), trail⟩
  · rintro ⟨file, among, _, trail⟩
    exact ⟨file, among, trail⟩

end Graph

end GrammarDesk.Import
