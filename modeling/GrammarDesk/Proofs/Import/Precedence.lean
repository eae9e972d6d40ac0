import GrammarDesk.Proofs.Import.Members

/-!
Contract: the order of the files in an import closure.

Owns: the levels of a closure told by files, the rule by which each level follows from
the one before it, and what becomes of the levels when every file writes its imports in
reverse.

Does not own: which files a closure holds, and how deep (`Members`).

When the last import wins, the arrivals at a level are turned round as a whole, and these
come from a level that was itself turned round. So the files of a level are found from
those of the level before it taken from last to first, each with its imports in reverse.

Main statements: `members_eq_levels`, `level_succ`, `closure_last_of_mirror`.
-/

namespace GrammarDesk.Import

open GrammarDesk.Graph

/-! ## Lists in levels -/

section Levels

variable {Item Entry : Type}

/-- A numbered list of lists, long enough, can be read off number by number. -/
theorem flatMap_zipIdx_eq {place : List Item → Nat → List Entry}
    (nothing : ∀ number, place [] number = []) (lists : List (List Item)) (start : Nat)
    {size : Nat} (enough : lists.length ≤ size) :
    ((lists.zipIdx start).flatMap fun entry => place entry.1 entry.2) =
      (List.range size).flatMap fun number => place (lists[number]?.getD []) (start + number) := by
  induction lists generalizing start size with
  | nil => simp [nothing]
  | cons first rest inductionHypothesis =>
      obtain ⟨less, rfl⟩ : ∃ less, size = less + 1 :=
        ⟨size - 1, by have := List.length_cons ▸ enough; omega⟩
      rw [List.zipIdx_cons, List.flatMap_cons, List.range_succ_eq_map, List.flatMap_cons,
        List.flatMap_map, inductionHypothesis (start + 1) (Nat.le_of_succ_le_succ enough)]
      simp only [List.getElem?_cons_zero, Option.getD_some, Nat.add_zero, Nat.succ_eq_add_one,
        List.getElem?_cons_succ, Nat.add_assoc, Nat.add_comm 1]

/-- Of a list in numbered parts a test picks out one part if it tells the numbers. -/
theorem filter_flatMap_range {entries : Nat → List Entry} {wanted : Nat} {test : Entry → Bool}
    (tells : ∀ number, ∀ entry ∈ entries number, test entry = decide (number = wanted))
    (size : Nat) :
    ((List.range size).flatMap entries).filter test =
      if wanted < size then entries wanted else [] := by
  induction size with
  | zero => rfl
  | succ size inductionHypothesis =>
      rw [List.range_succ, List.flatMap_append, List.flatMap_singleton, List.filter_append,
        inductionHypothesis]
      by_cases here : size = wanted
      · subst here
        rw [if_neg (Nat.lt_irrefl _), if_pos (Nat.lt_succ_self _), List.nil_append]
        refine List.filter_eq_self.mpr fun entry member => ?_
        rw [tells size entry member, decide_eq_true rfl]
      · have others : (entries size).filter test = [] := by
          refine List.filter_eq_nil_iff.mpr fun entry member picked => here ?_
          exact of_decide_eq_true ((tells size entry member).symm.trans picked)
        have below : wanted < size + 1 ↔ wanted < size := by omega
        rw [others, List.append_nil]
        simp only [below]

end Levels

namespace Links

/-- The members of a closure are the layers of its search, one after another. -/
theorem members_eq (links : Links) (place : Nat) :
    links.members place =
      (List.range links.size).flatMap fun number =>
        ((links.layers place)[number]?.getD []).map fun arrival =>
          ⟨links.fileAt arrival.1, arrival.2, number + 1⟩ := by
  have few : (links.layers place).length ≤ links.size := length_rounds_le _ _ _ _ _
  simp only [Nat.add_comm _ 1]
  exact @flatMap_zipIdx_eq (Nat × Visibility) Member
    (fun layer depth => layer.map fun arrival => ⟨links.fileAt arrival.1, arrival.2, depth⟩)
    (fun _ => rfl) (links.layers place) 1 _ few

/-- The members at a depth are the layer of this number. -/
theorem filter_members (links : Links) (place number : Nat) :
    ((links.members place).filter fun member => member.depth = number + 1) =
      ((links.layers place)[number]?.getD []).map fun arrival =>
        ⟨links.fileAt arrival.1, arrival.2, number + 1⟩ := by
  have tells : ∀ other, ∀ member ∈ ((links.layers place)[other]?.getD []).map
      (fun arrival => (⟨links.fileAt arrival.1, arrival.2, other + 1⟩ : Member)),
      decide (member.depth = number + 1) = decide (other = number) := by
    intro other member inLayer
    obtain ⟨arrival, _, rfl⟩ := List.mem_map.mp inLayer
    simp only [Nat.add_right_cancel_iff]
  rw [members_eq, filter_flatMap_range tells]
  by_cases below : number < links.size
  · rw [if_pos below]
  · have few : (links.layers place).length ≤ links.size := length_rounds_le _ _ _ _ _
    have beyond : (links.layers place)[number]? = none :=
      List.getElem?_eq_none (Nat.le_trans few (Nat.le_of_not_lt below))
    rw [if_neg below, beyond]
    rfl

theorem map_filter_members (links : Links) (place number : Nat) :
    ((links.members place).filter fun member => member.depth = number + 1).map Member.file =
      ((links.layers place)[number]?.getD []).map fun arrival => links.fileAt arrival.1 := by
  rw [filter_members, List.map_map]
  rfl

end Links

namespace Graph

/-- The files of a closure at a depth, in the order of lookup; at depth zero the file
itself. -/
def level (graph : Graph) (root : File.Id) : Nat → List File.Id
  | 0 => [root]
  | depth + 1 =>
      ((graph.closure root).members.filter fun member => member.depth = depth + 1).map Member.file

def within (graph : Graph) (root : File.Id) (depth : Nat) : List File.Id :=
  (List.range (depth + 1)).flatMap (graph.level root)

/-- The order in which the files of one depth are tried. -/
def arrange (graph : Graph) (files : List File.Id) : List File.Id :=
  match graph.precedence with
  | .first => files
  | .last => files.reverse

section Search

variable {graph : Graph} {root : File.Id} {place : Nat}

/-- What the search of a closure has found last, and its marks, after some rounds. -/
def searched (graph : Graph) (place rounds : Nat) : List (Nat × Visibility) × Marks :=
  (advance graph.links.stepVisible graph.links.arrange)^[rounds]
    ([(place, .all)], graph.links.marksOf place)

theorem searched_succ (graph : Graph) (place rounds : Nat) :
    graph.searched place (rounds + 1) =
      firstArrivals (graph.searched place rounds).2
        (graph.links.arrange ((graph.searched place rounds).1.flatMap graph.links.stepVisible)) :=
  Function.iterate_succ_apply' _ _ _

/-- The layers of a search are what it finds in the rounds after the first. -/
theorem getD_layers (graph : Graph) (place depth : Nat) :
    (graph.links.layers place)[depth]?.getD [] = (graph.searched place (depth + 1)).1 :=
  getD_rounds (Links.arrange_nil _) _ (Links.waiting_marksOf_le _ place) depth

/-- A level is a layer of the search. -/
theorem level_eq_layer (atPlace : graph.files[place]? = some root) (depth : Nat) :
    graph.level root (depth + 1) =
      ((graph.links.layers place)[depth]?.getD []).map fun arrival =>
        graph.links.fileAt arrival.1 := by
  unfold level
  rw [closure_of_place atPlace]
  exact Links.map_filter_members graph.links place depth

/-- A level is what the search finds in the round of its number. -/
theorem level_eq_searched (atPlace : graph.files[place]? = some root) (depth : Nat) :
    graph.level root depth =
      (graph.searched place depth).1.map fun arrival => graph.links.fileAt arrival.1 := by
  cases depth with
  | zero => exact congrArg ([·]) (Links.fileAt_eq atPlace).symm
  | succ depth => rw [level_eq_layer atPlace, getD_layers]

/-- What arrives in a round, told by files. -/
theorem map_arrivals {frontier : List (Nat × Visibility)}
    (atPlaces : ∀ arrival ∈ frontier,
      graph.files[arrival.1]? = some (graph.links.fileAt arrival.1)) :
    (graph.links.arrange (frontier.flatMap graph.links.stepVisible)).map
        (fun arrival => graph.links.fileAt arrival.1) =
      graph.arrange
        ((frontier.map fun arrival => graph.links.fileAt arrival.1).flatMap graph.targets) := by
  have steps : (frontier.flatMap graph.links.stepVisible).map
      (fun arrival => graph.links.fileAt arrival.1) =
        (frontier.map fun arrival => graph.links.fileAt arrival.1).flatMap graph.targets := by
    rw [List.map_flatMap, List.flatMap_map]
    refine List.flatMap_congr fun arrival isFound => ?_
    rw [← Links.map_onward (atPlaces arrival isFound)]
    simp [Links.stepVisible, Links.onward]
  unfold Links.arrange arrange
  rw [Links.graph_links]
  cases graph.precedence with
  | first => exact steps
  | last => rw [List.map_reverse, steps]

theorem getElem?_of_mem_arrivals {frontier : List (Nat × Visibility)} :
    ∀ arrival ∈ graph.links.arrange (frontier.flatMap graph.links.stepVisible),
      graph.files[arrival.1]? = some (graph.links.fileAt arrival.1) := by
  intro arrival isArrival
  rw [Links.mem_arrange_iff] at isArrival
  obtain ⟨origin, _, further⟩ := List.mem_flatMap.mp isArrival
  obtain ⟨edge, isEdge, rfl⟩ := List.mem_map.mp further
  exact Links.getElem?_of_mem_edgesAt isEdge

theorem getElem?_of_mem_searched (atPlace : graph.files[place]? = some root) (depth : Nat) :
    ∀ arrival ∈ (graph.searched place depth).1,
      graph.files[arrival.1]? = some (graph.links.fileAt arrival.1) := by
  intro arrival isFound
  cases depth with
  | zero =>
      rw [List.mem_singleton.mp isFound, Links.fileAt_eq atPlace]
      exact atPlace
  | succ depth =>
      rw [searched_succ] at isFound
      exact getElem?_of_mem_arrivals arrival (mem_of_mem_firstArrivals isFound)

theorem mem_within_succ_iff (graph : Graph) (root file : File.Id) (depth : Nat) :
    file ∈ graph.within root (depth + 1) ↔
      file ∈ graph.within root depth ∨ file ∈ graph.level root (depth + 1) := by
  unfold within
  rw [List.range_succ, List.flatMap_append, List.mem_append, List.flatMap_singleton]

/-- After some rounds the files are awaited that stand in no level so far. -/
theorem awaits_searched_iff (atPlace : graph.files[place]? = some root) (depth : Nat)
    {node : Nat} (atNode : graph.files[node]? = some (graph.links.fileAt node)) :
    (graph.searched place depth).2.awaits node = true ↔
      graph.links.fileAt node ∉ graph.within root depth := by
  induction depth with
  | zero =>
      have below : node < graph.links.size :=
        Links.size_links graph ▸ (List.getElem?_eq_some_iff.mp atNode).1
      have same : node = place ↔ graph.links.fileAt node = root := by
        constructor
        · rintro rfl
          exact Links.fileAt_eq atPlace
        · exact fun same => place_unique (same ▸ atNode) atPlace
      show (graph.links.marksOf place).awaits node = true ↔ _
      simp [Links.marksOf, Marks.awaits_mark, Marks.awaits_fresh, below, within, level, same]
  | succ depth inductionHypothesis =>
      have found : graph.links.fileAt node ∈ graph.level root (depth + 1) ↔
          ∃ visibility, (node, visibility) ∈ (graph.searched place (depth + 1)).1 := by
        rw [level_eq_searched atPlace, List.mem_map]
        constructor
        · rintro ⟨⟨other, visibility⟩, isFound, same⟩
          have atOther := getElem?_of_mem_searched atPlace (depth + 1) _ isFound
          obtain rfl : other = node := place_unique (same ▸ atOther) atNode
          exact ⟨visibility, isFound⟩
        · rintro ⟨visibility, isFound⟩
          exact ⟨_, isFound, rfl⟩
      rw [mem_within_succ_iff, not_or, found, ← inductionHypothesis, searched_succ,
        awaits_firstArrivals, found_iff, not_and]
      exact and_congr_right fun awaited => ⟨fun absent _ => absent, fun absent => absent awaited⟩

/-- Each level holds the first occurrences of the files that stand in no level yet and that
those of the level before import. -/
theorem level_succ (graph : Graph) (root : File.Id) (depth : Nat) :
    graph.level root (depth + 1) =
      ((graph.arrange ((graph.level root depth).flatMap graph.targets)).filter
        fun file => file ∉ graph.within root depth).eraseDups := by
  by_cases present : root ∈ graph.files
  · obtain ⟨place, atPlace⟩ := List.mem_iff_getElem?.mp present
    have atPlaces := @getElem?_of_mem_arrivals graph (graph.searched place depth).1
    have arrived := map_arrivals (getElem?_of_mem_searched atPlace depth)
    rw [← level_eq_searched atPlace] at arrived
    rw [level_eq_searched atPlace, searched_succ, ← arrived]
    apply map_firstArrivals
    · intro arrival isArrival other isOther same
      exact place_unique (same ▸ atPlaces arrival isArrival) (atPlaces other isOther)
    · exact fun arrival isArrival => awaits_searched_iff atPlace depth (atPlaces arrival isArrival)
  · -- a file that is not loaded imports nothing
    have noTargets : graph.targets root = [] :=
      List.eq_nil_iff_forall_not_mem.mpr fun _ imports => present (mem_files_of_targets imports).1
    have noLevel : ∀ depth, graph.level root (depth + 1) = [] := by
      intro depth
      unfold level
      rw [closure_of_not_mem present]
      rfl
    have noArrivals : (graph.level root depth).flatMap graph.targets = [] := by
      cases depth with
      | zero => exact (List.flatMap_singleton _ _).trans noTargets
      | succ depth =>
          rw [noLevel]
          rfl
    rw [noLevel, noArrivals]
    unfold arrange
    cases graph.precedence <;> rfl

end Search

/-- A closure lists its levels one after another. -/
theorem members_eq_levels (graph : Graph) (root : File.Id) :
    (graph.closure root).members.map (fun member => (member.file, member.depth)) =
      (List.range graph.files.length).flatMap fun depth =>
        (graph.level root (depth + 1)).map fun file => (file, depth + 1) := by
  by_cases present : root ∈ graph.files
  · obtain ⟨place, atPlace⟩ := List.mem_iff_getElem?.mp present
    rw [closure_of_place atPlace, Links.members_eq, Links.size_links, List.map_flatMap]
    refine List.flatMap_congr fun depth _ => ?_
    rw [level_eq_layer atPlace, List.map_map, List.map_map]
    rfl
  · unfold level
    rw [closure_of_not_mem present]
    exact (List.flatMap_eq_nil_iff.mpr fun _ _ => rfl).symm

/-- The files at a depth are those at this distance. -/
theorem mem_level_iff (graph : Graph) (root file : File.Id) (depth : Nat) :
    file ∈ graph.level root depth ↔ IsLeastWalk graph.targets depth root file := by
  cases depth with
  | zero => simp [level, IsLeastWalk, Walk, eq_comm]
  | succ depth =>
      have atDepth := @mem_closure_iff graph root file (depth + 1)
      rw [and_iff_right (Nat.succ_pos depth)] at atDepth
      rw [← atDepth]
      simp only [level, List.mem_map, List.mem_filter, decide_eq_true_iff]
      constructor
      · rintro ⟨⟨_, visibility, _⟩, ⟨member, rfl⟩, rfl⟩
        exact ⟨visibility, member⟩
      · rintro ⟨visibility, member⟩
        exact ⟨_, ⟨member, rfl⟩, rfl⟩

theorem nodup_level (graph : Graph) (root : File.Id) (depth : Nat) :
    (graph.level root depth).Nodup := by
  cases depth with
  | zero => exact List.nodup_cons.mpr ⟨List.not_mem_nil, .nil⟩
  | succ depth =>
      rw [level_succ]
      exact nodup_eraseDups _

end Graph

/-! ## Reversed imports -/

/-- What a file says, with its imports in reverse. -/
def Node.mirror (node : Node) : Node :=
  { node with imports := node.imports.reverse }

namespace Graph

/-- The graph in which every file has its imports in reverse and the first import wins. -/
def mirror (graph : Graph) : Graph :=
  ⟨.first, graph.nodes.map Node.mirror⟩

theorem firstPlace_mirror (graph : Graph) {test : Node → Bool}
    (same : ∀ node, test node.mirror = test node) :
    graph.mirror.firstPlace test = graph.firstPlace test := by
  unfold firstPlace mirror File.Map.map
  rw [List.findIdx?_map]
  refine congrArg (List.findIdx? · graph.nodes.entries) (funext fun entry => ?_)
  exact same entry.2

/-- Names stand for the same files. -/
theorem resolve_mirror (graph : Graph) (name : String) :
    graph.mirror.resolve name = graph.resolve name := by
  have sameFiles : graph.mirror.files = graph.files := File.Map.files_map _ _
  unfold resolve placeOf?
  rw [sameFiles, graph.firstPlace_mirror fun _ => rfl, graph.firstPlace_mirror fun _ => rfl]

theorem targets_mirror (graph : Graph) (file : File.Id) :
    graph.mirror.targets file = (graph.targets file).reverse := by
  have known : graph.mirror.node? file = (graph.node? file).map Node.mirror :=
    File.Map.get?_map _ _ _
  unfold targets edges
  rw [known]
  cases graph.node? file with
  | none => rfl
  | some node =>
      simp only [Option.map_some, Node.mirror, resolve_mirror, List.filterMap_reverse,
        List.map_reverse]

/-- Files are as far from each other as before. -/
theorem level_mirror_perm (graph : Graph) (root : File.Id) (depth : Nat) :
    (graph.level root depth).Perm (graph.mirror.level root depth) := by
  refine (List.perm_ext_iff_of_nodup (nodup_level _ _ _) (nodup_level _ _ _)).mpr fun file => ?_
  have sameTargets : ∀ source target,
      target ∈ graph.targets source ↔ target ∈ graph.mirror.targets source := by
    intro source target
    rw [targets_mirror, List.mem_reverse]
  rw [mem_level_iff, mem_level_iff]
  unfold IsLeastWalk
  simp only [walk_congr sameTargets]

end Graph

/-- The order of lookup when the last import wins, against the order when every file has
its imports in reverse and the first import wins. Both list the same files level by level
and begin with the same files in the same order. From there on each level is found from
the level before it, with all imports in reverse: the one takes that level from last to
first, the other from first to last. -/
theorem closure_last_of_mirror (nodes : File.Map Node) (root : File.Id) :
    let last : Graph := ⟨.last, nodes⟩
    let mirror := last.mirror
    let listed (graph : Graph) : List (File.Id × Nat) :=
      (graph.closure root).members.map fun member => (member.file, member.depth)
    let levels (graph : Graph) : List (File.Id × Nat) :=
      (List.range nodes.size).flatMap fun depth =>
        (graph.level root (depth + 1)).map fun file => (file, depth + 1)
    listed last = levels last ∧ listed mirror = levels mirror ∧
    last.level root 1 = mirror.level root 1 ∧
    ∀ depth,
      (last.level root depth).Perm (mirror.level root depth) ∧
      last.level root (depth + 1) =
        (((last.level root depth).reverse.flatMap mirror.targets).filter
          fun file => file ∉ last.within root depth).eraseDups ∧
      mirror.level root (depth + 1) =
        (((mirror.level root depth).flatMap mirror.targets).filter
          fun file => file ∉ mirror.within root depth).eraseDups := by
  intro last mirror listed levels
  have lastSucc : ∀ depth, last.level root (depth + 1) =
      (((last.level root depth).reverse.flatMap mirror.targets).filter
        fun file => file ∉ last.within root depth).eraseDups := by
    intro depth
    have turned : last.arrange ((last.level root depth).flatMap last.targets) =
        (last.level root depth).reverse.flatMap mirror.targets := by
      show ((last.level root depth).flatMap last.targets).reverse = _
      rw [List.reverse_flatMap]
      exact List.flatMap_congr fun file _ => (last.targets_mirror file).symm
    rw [Graph.level_succ, turned]
  have mirrorSucc : ∀ depth, mirror.level root (depth + 1) =
      (((mirror.level root depth).flatMap mirror.targets).filter
        fun file => file ∉ mirror.within root depth).eraseDups :=
    fun depth => mirror.level_succ root depth
  have lastSize : last.files.length = nodes.size := List.length_map _
  have mirrorSize : mirror.files.length = nodes.size := by
    rw [show mirror.files = last.files from File.Map.files_map _ _]
    exact lastSize
  refine ⟨?_, ?_, (lastSucc 0).trans (mirrorSucc 0).symm, fun depth =>
    ⟨last.level_mirror_perm root depth, lastSucc depth, mirrorSucc depth⟩⟩
  · show (last.closure root).members.map _ = _
    rw [Graph.members_eq_levels, lastSize]
  · show (mirror.closure root).members.map _ = _
    rw [Graph.members_eq_levels, mirrorSize]

/-- A file imports B and C, B imports D and C imports E. When the last import wins, C comes
before B, and yet what B imports comes before what C imports. -/
theorem closure_last_ne_mirror :
    let file (name : String) (imports : List String) : Node :=
      ⟨none, some name, imports.map fun name => ⟨name, .delegate, .emptyAt 0, ⟨⟨0, 0⟩, ⟨0, 0⟩⟩⟩⟩
    let last : Graph :=
      ((((Graph.empty .last).set 0 (file "A" ["B", "C"])).set 1 (file "B" ["D"])).set 2
        (file "C" ["E"])).set 3 (file "D" []) |>.set 4 (file "E" [])
    (last.closure 0).members.map (fun member => (member.file, member.depth)) =
        [(2, 1), (1, 1), (3, 2), (4, 2)] ∧
      (last.mirror.closure 0).members.map (fun member => (member.file, member.depth)) =
        [(2, 1), (1, 1), (4, 2), (3, 2)] := by
  decide +kernel

end GrammarDesk.Import
