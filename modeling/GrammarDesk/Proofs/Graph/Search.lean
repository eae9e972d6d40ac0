import Mathlib.Data.List.Forall2
import Mathlib.Data.Nat.Find
import Mathlib.Logic.Function.Iterate
import GrammarDesk.Graph.Search

/-!
Contract: what the rounds of a search find.

Owns: the walks of a graph, the nodes that a search has seen after some rounds, and
the proof that round after round exactly the nodes are found that the least number
of steps leads to. The fuel of a search never runs out: a round that finds a node
leaves fewer to be found.

Does not own: which graph is searched.

Main statements: the layers of a search are the nodes by their distance
(`mem_rounds_iff`, `front_iff`); two searches that go in step find the same
(`rounds_forall₂`).
-/

namespace GrammarDesk.Graph

universe u

variable {Note : Type u}

/-! ## One round -/

theorem mem_of_mem_firstArrivals {marks : Marks} {arrivals : List (Nat × Note)}
    {arrival : Nat × Note}
    (found : arrival ∈ (firstArrivals marks arrivals).1) :
    arrival ∈ arrivals := by
  fun_induction firstArrivals marks arrivals with
  | case1 => simp at found
  | case2 marks node note rest awaited later last read inductionHypothesis =>
      rcases List.mem_cons.mp found with rfl | found
      · exact List.mem_cons_self
      · exact List.mem_cons_of_mem _ (inductionHypothesis (by rw [read]; exact found))
  | case3 marks node note rest _ inductionHypothesis =>
      exact List.mem_cons_of_mem _ (inductionHypothesis found)

/-- A round finds the nodes that something arrives at and that were awaited. -/
theorem found_iff (marks : Marks) (arrivals : List (Nat × Note)) (node : Nat) :
    (∃ note, (node, note) ∈ (firstArrivals marks arrivals).1) ↔
      marks.awaits node = true ∧ ∃ note, (node, note) ∈ arrivals := by
  constructor
  · rintro ⟨note, found⟩
    exact ⟨awaits_of_mem_firstArrivals found, note, mem_of_mem_firstArrivals found⟩
  · rintro ⟨awaited, note, arrived⟩
    fun_induction firstArrivals marks arrivals generalizing note with
    | case1 => simp at arrived
    | case2 marks first firstNote rest _ later last read inductionHypothesis =>
        by_cases same : node = first
        · exact ⟨firstNote, by simp [same]⟩
        · have stillAwaited : (marks.mark first).awaits node = true := by
            simp [Marks.awaits_mark, same, awaited]
          have inRest : (node, note) ∈ rest := by
            simpa [same] using arrived
          obtain ⟨kept, found⟩ := inductionHypothesis stillAwaited note inRest
          rw [read] at found
          exact ⟨kept, List.mem_cons_of_mem _ found⟩
    | case3 marks first firstNote rest notAwaited inductionHypothesis =>
        have different : node ≠ first := fun same => notAwaited (same ▸ awaited)
        have inRest : (node, note) ∈ rest := by
          simpa [different] using arrived
        exact inductionHypothesis awaited note inRest

/-- After a round those nodes are awaited that were and that nothing arrived at. -/
theorem awaits_firstArrivals (marks : Marks) (arrivals : List (Nat × Note)) (node : Nat) :
    (firstArrivals marks arrivals).2.awaits node = true ↔
      marks.awaits node = true ∧ ¬ ∃ note, (node, note) ∈ arrivals := by
  fun_induction firstArrivals marks arrivals with
  | case1 => simp
  | case2 marks first firstNote rest _ later last read inductionHypothesis =>
      rw [read] at inductionHypothesis
      rw [inductionHypothesis, Marks.awaits_mark]
      by_cases same : node = first
      · simp [same]
      · simp [same]
  | case3 marks first firstNote rest notAwaited inductionHypothesis =>
      rw [inductionHypothesis]
      by_cases same : node = first
      · simp [same, notAwaited]
      · simp [same]

namespace Marks

/-- How many nodes are yet to be found. -/
def waiting (marks : Marks) : Nat :=
  marks.toList.count false

theorem waiting_mark {marks : Marks} {node : Nat} (awaited : marks.awaits node = true) :
    (marks.mark node).waiting + 1 = marks.waiting := by
  have isFalse : marks[node]? = some false := by simpa [awaits] using awaited
  obtain ⟨below, value⟩ := Array.getElem?_eq_some_iff.mp isFalse
  have inList : node < marks.toList.length := by simpa using below
  have listed : marks.toList[node] = false := by simpa using value
  have positive : 0 < marks.toList.count false :=
    List.count_pos_iff.mpr (listed ▸ List.getElem_mem _)
  unfold waiting mark
  rw [Array.toList_setIfInBounds, List.count_set inList, listed]
  show marks.toList.count false - 1 + 0 + 1 = marks.toList.count false
  omega

theorem not_awaits_of_waiting_eq_zero {marks : Marks} (none : marks.waiting = 0) (node : Nat) :
    marks.awaits node = false := by
  cases awaited : marks.awaits node with
  | false => rfl
  | true =>
      have fewer := waiting_mark awaited
      omega

theorem awaits_fresh (size node : Nat) : (fresh size).awaits node = decide (node < size) := by
  by_cases below : node < size
  · simp [awaits, fresh, below]
  · simp [awaits, fresh, below]

theorem waiting_fresh (size : Nat) : (fresh size).waiting = size := by
  simp [waiting, fresh]

/-- Marking a node leaves no more to be found. -/
theorem waiting_mark_le (marks : Marks) (node : Nat) :
    (marks.mark node).waiting ≤ marks.waiting := by
  cases awaited : marks.awaits node with
  | true =>
      have fewer := waiting_mark awaited
      omega
  | false =>
      unfold waiting mark
      by_cases below : node < marks.size
      · have inList : node < marks.toList.length := by simpa using below
        have listed : marks.toList[node] = true := by simpa [awaits, below] using awaited
        rw [Array.toList_setIfInBounds, List.count_set inList, listed]
        simp
      · rw [Array.setIfInBounds_eq_of_size_le (Nat.le_of_not_lt below)]

end Marks

theorem waiting_firstArrivals (marks : Marks) (arrivals : List (Nat × Note)) :
    (firstArrivals marks arrivals).2.waiting + (firstArrivals marks arrivals).1.length =
      marks.waiting := by
  fun_induction firstArrivals marks arrivals with
  | case1 => simp
  | case2 marks first firstNote rest awaited later last read inductionHypothesis =>
      rw [read] at inductionHypothesis
      have fewer := Marks.waiting_mark awaited
      simp only [List.length_cons] at inductionHypothesis ⊢
      omega
  | case3 marks first firstNote rest _ inductionHypothesis => exact inductionHypothesis

/-! ## Distances -/

/-- A walk of some number of steps from one node to another. -/
def Walk (next : Nat → List Nat) : Nat → Nat → Nat → Prop
  | 0, source, target => source = target
  | steps + 1, source, target => ∃ middle, Walk next steps source middle ∧ target ∈ next middle

theorem walk_succ_iff (next : Nat → List Nat) (steps source target : Nat) :
    Walk next (steps + 1) source target ↔
      ∃ middle ∈ next source, Walk next steps middle target := by
  induction steps generalizing target with
  | zero => simp [Walk]
  | succ steps inductionHypothesis =>
      constructor
      · rintro ⟨last, walk, edge⟩
        obtain ⟨middle, first, onward⟩ := (inductionHypothesis last).mp walk
        exact ⟨middle, first, last, onward, edge⟩
      · rintro ⟨middle, first, last, onward, edge⟩
        exact ⟨last, (inductionHypothesis last).mpr ⟨middle, first, onward⟩, edge⟩

/-- Walks do not depend on the order of the edges. -/
theorem walk_congr {next next' : Nat → List Nat}
    (same : ∀ source target, target ∈ next source ↔ target ∈ next' source)
    (steps source target : Nat) :
    Walk next steps source target ↔ Walk next' steps source target := by
  induction steps generalizing target with
  | zero => exact Iff.rfl
  | succ steps inductionHypothesis => simp only [Walk, inductionHypothesis, same]

/-- A walk along reversed edges is a walk back. -/
theorem walk_reverse (next : Nat → List Nat) {back : Nat → List Nat}
    (reversed : ∀ source target, source ∈ back target ↔ target ∈ next source)
    (steps source target : Nat) :
    Walk back steps source target ↔ Walk next steps target source := by
  induction steps generalizing target with
  | zero => exact eq_comm
  | succ steps inductionHypothesis =>
      rw [walk_succ_iff next]
      simp only [Walk, inductionHypothesis, reversed]
      exact ⟨fun ⟨middle, walk, edge⟩ => ⟨middle, edge, walk⟩,
        fun ⟨middle, edge, walk⟩ => ⟨middle, walk, edge⟩⟩

/-- The distance between two nodes: the least number of steps of a walk. -/
def IsLeastWalk (next : Nat → List Nat) (steps source target : Nat) : Prop :=
  Walk next steps source target ∧ ∀ fewer < steps, ¬ Walk next fewer source target

theorem IsLeastWalk.unique {next : Nat → List Nat} {left right source target : Nat}
    (first : IsLeastWalk next left source target)
    (second : IsLeastWalk next right source target) :
    left = right := by
  rcases Nat.lt_trichotomy left right with shorter | same | longer
  · exact absurd first.1 (second.2 left shorter)
  · exact same
  · exact absurd second.1 (first.2 right longer)

/-- Of the walks from one node to another one is least. -/
theorem exists_isLeastWalk {next : Nat → List Nat} {steps source target : Nat}
    (walk : Walk next steps source target) :
    ∃ distance, IsLeastWalk next distance source target := by
  have walks : ∃ steps, Walk next steps source target := ⟨steps, walk⟩
  classical
  exact ⟨Nat.find walks, Nat.find_spec walks, fun _ below => Nat.find_min walks below⟩

/-- The nodes seen after some rounds of a search from `start`, when those in
`marked` were seen before it. -/
def Seen (next : Nat → List Nat) (marked start : Nat → Prop) : Nat → Nat → Prop
  | 0, node => marked node
  | round + 1, node =>
      Seen next marked start round node ∨
        ∃ source, (start source ∨ Seen next marked start round source) ∧ node ∈ next source

/-- The nodes that are new after some rounds of a search. -/
def Front (next : Nat → List Nat) (marked start : Nat → Prop) : Nat → Nat → Prop
  | 0, node => start node
  | round + 1, node =>
      Seen next marked start (round + 1) node ∧ ¬ Seen next marked start round node

section Distances

variable {next : Nat → List Nat} {marked start : Nat → Prop}

theorem seen_of_le {early late : Nat} (before : early ≤ late) {node : Nat}
    (seen : Seen next marked start early node) :
    Seen next marked start late node := by
  induction before with
  | refl => exact seen
  | step _ inductionHypothesis => exact .inl inductionHypothesis

/-- Only a node that was new in the last round leads to a new one. -/
theorem seen_succ_iff (inner : ∀ node, marked node → start node) (round node : Nat) :
    Seen next marked start (round + 1) node ↔
      Seen next marked start round node ∨
        ∃ source, Front next marked start round source ∧ node ∈ next source := by
  constructor
  · rintro (before | ⟨source, origin, edge⟩)
    · exact .inl before
    · cases round with
      | zero => exact .inr ⟨source, origin.elim id (inner source), edge⟩
      | succ round =>
          rcases origin with starts | seen
          · have early : Seen next marked start 1 node := .inr ⟨source, .inl starts, edge⟩
            exact .inl (seen_of_le (Nat.succ_le_succ (Nat.zero_le round)) early)
          · by_cases old : Seen next marked start round source
            · exact .inl (.inr ⟨source, .inr old, edge⟩)
            · exact .inr ⟨source, ⟨seen, old⟩, edge⟩
  · rintro (before | ⟨source, front, edge⟩)
    · exact .inl before
    · cases round with
      | zero => exact .inr ⟨source, .inl front, edge⟩
      | succ round => exact .inr ⟨source, .inr front.1, edge⟩

/-- What is seen is what was marked and what a walk of few enough steps leads
to. -/
theorem seen_iff (inner : ∀ node, marked node → start node) (round node : Nat) :
    Seen next marked start round node ↔
      marked node ∨
        ∃ steps < round, ∃ source, start source ∧ Walk next (steps + 1) source node := by
  induction round generalizing node with
  | zero => simp [Seen]
  | succ round inductionHypothesis =>
      constructor
      · rintro (before | ⟨middle, origin, edge⟩)
        · rcases (inductionHypothesis node).mp before with isMarked | ⟨steps, few, walk⟩
          · exact .inl isMarked
          · exact .inr ⟨steps, Nat.lt_succ_of_lt few, walk⟩
        · have starts : start middle ∨ ∃ steps < round, ∃ source, start source ∧
              Walk next (steps + 1) source middle := by
            rcases origin with starts | seen
            · exact .inl starts
            · exact ((inductionHypothesis middle).mp seen).imp (inner middle) id
          rcases starts with starts | ⟨steps, few, source, starts, walk⟩
          · exact .inr ⟨0, Nat.succ_pos round, middle, starts, middle, rfl, edge⟩
          · exact .inr ⟨steps + 1, Nat.succ_lt_succ few, source, starts, middle, walk, edge⟩
      · rintro (isMarked | ⟨steps, few, source, starts, middle, walk, edge⟩)
        · exact .inl ((inductionHypothesis node).mpr (.inl isMarked))
        · cases steps with
          | zero =>
              cases walk
              exact .inr ⟨source, .inl starts, edge⟩
          | succ steps =>
              have seen := (inductionHypothesis middle).mpr
                (.inr ⟨steps, Nat.lt_of_succ_lt_succ few, source, starts, walk⟩)
              exact .inr ⟨middle, .inr seen, edge⟩

/-- A node is new in the round that is its distance from the start. -/
theorem front_succ_iff (inner : ∀ node, marked node → start node) (round node : Nat) :
    Front next marked start (round + 1) node ↔
      ¬ marked node ∧ (∃ source, start source ∧ Walk next (round + 1) source node) ∧
        ∀ steps < round, ¬ ∃ source, start source ∧ Walk next (steps + 1) source node := by
  simp only [Front, seen_iff inner]
  constructor
  · rintro ⟨isMarked | ⟨steps, few, walk⟩, notBefore⟩
    · exact absurd (.inl isMarked) notBefore
    · have exact_ : steps = round := by
        by_contra different
        exact notBefore (.inr ⟨steps, by omega, walk⟩)
      subst exact_
      exact ⟨fun isMarked => notBefore (.inl isMarked), walk,
        fun fewer below shorter => notBefore (.inr ⟨fewer, below, shorter⟩)⟩
  · rintro ⟨notMarked, walk, least⟩
    refine ⟨.inr ⟨round, Nat.lt_succ_self round, walk⟩, ?_⟩
    rintro (isMarked | ⟨steps, few, shorter⟩)
    · exact notMarked isMarked
    · exact least steps few shorter

/-- Once a round finds nothing, no later one does. -/
theorem not_front_of_not_front (inner : ∀ node, marked node → start node) {round : Nat}
    (nothing : ∀ node, ¬ Front next marked start (round + 1) node) (later node : Nat) :
    ¬ Front next marked start (round + later + 1) node := by
  induction later generalizing node with
  | zero => exact nothing node
  | succ later inductionHypothesis =>
      rintro ⟨seen, new⟩
      rcases (seen_succ_iff inner _ _).mp seen with before | ⟨source, front, _⟩
      · exact new before
      · exact inductionHypothesis source front

/-- A node that some walk leads to is new in one round. -/
theorem exists_front (inner : ∀ node, marked node → start node) {steps source node : Nat}
    (notMarked : ¬ marked node) (starts : start source) (walk : Walk next (steps + 1) source node) :
    ∃ round, Front next marked start (round + 1) node := by
  have some_ : ∃ steps, ∃ source, start source ∧ Walk next (steps + 1) source node :=
    ⟨steps, source, starts, walk⟩
  classical
  exact ⟨Nat.find some_, (front_succ_iff inner _ _).mpr
    ⟨notMarked, Nat.find_spec some_, fun fewer below => Nat.find_min some_ below⟩⟩

/-- The least walks from a node are the rounds in which a search from it finds others. -/
theorem isLeastWalk_iff_front {goal place distance : Nat} :
    IsLeastWalk next distance goal place ↔
      place = goal ∧ distance = 0 ∨
        ∃ later, distance = later + 1 ∧ Front next (· = goal) (· = goal) (later + 1) place := by
  have inner : ∀ node : Nat, node = goal → node = goal := fun _ same => same
  simp only [front_succ_iff inner, exists_eq_left]
  cases distance with
  | zero =>
      simp only [IsLeastWalk, Walk]
      simp [eq_comm]
  | succ steps =>
      constructor
      · rintro ⟨walk, least⟩
        refine .inr ⟨steps, rfl, fun same => least 0 (Nat.succ_pos steps) same.symm, walk, ?_⟩
        exact fun fewer below => least (fewer + 1) (Nat.succ_lt_succ below)
      · rintro (⟨_, impossible⟩ | ⟨later, same, notGoal, walk, least⟩)
        · exact absurd impossible (Nat.succ_ne_zero steps)
        · obtain rfl := Nat.succ.inj same
          refine ⟨walk, ?_⟩
          intro fewer below shorter
          cases fewer with
          | zero => exact notGoal shorter.symm
          | succ fewer => exact least fewer (Nat.lt_of_succ_lt_succ below) shorter

end Distances

/-! ## All rounds -/

/-- What holds of the start and is handed on by every step holds of all that is
found; `Holds` may speak of the number of steps. -/
theorem rounds_forall
    {step : Nat × Note → List (Nat × Note)}
    {arrange : List (Nat × Note) → List (Nat × Note)}
    (arranged : ∀ arrivals arrival, arrival ∈ arrange arrivals → arrival ∈ arrivals)
    (Holds : Nat → Nat × Note → Prop)
    (onward : ∀ round arrival, Holds round arrival → ∀ further ∈ step arrival,
      Holds (round + 1) further)
    (fuel round : Nat) {marks : Marks} {frontier : List (Nat × Note)}
    (holds : ∀ arrival ∈ frontier, Holds round arrival) :
    ∀ later layer, (rounds step arrange fuel marks frontier)[later]? = some layer →
      ∀ arrival ∈ layer, Holds (round + later + 1) arrival := by
  induction fuel generalizing marks frontier round with
  | zero => simp [rounds]
  | succ fuel inductionHypothesis =>
      intro later layer found arrival member
      unfold rounds at found
      split at found
      · simp at found
      · rename_i nextFrontier nextMarks _ read
        have nextHolds : ∀ arrival ∈ nextFrontier, Holds (round + 1) arrival := by
          intro arrival member
          have arrived : arrival ∈ frontier.flatMap step := by
            have found : arrival ∈ (firstArrivals marks (arrange (frontier.flatMap step))).1 := by
              rw [read]
              exact member
            exact arranged _ _ (mem_of_mem_firstArrivals found)
          obtain ⟨origin, known, further⟩ := List.mem_flatMap.mp arrived
          exact onward round origin (holds origin known) arrival further
        cases later with
        | zero =>
            obtain rfl : nextFrontier = layer := by simpa using found
            exact nextHolds arrival member
        | succ later =>
            have holds := inductionHypothesis _ nextHolds later layer (by simpa using found)
              arrival member
            simpa [Nat.add_assoc, Nat.add_comm, Nat.add_left_comm] using holds

section Layers

variable {next : Nat → List Nat} {marked start : Nat → Prop}
  {step : Nat × Note → List (Nat × Note)}
  {arrange : List (Nat × Note) → List (Nat × Note)}

/-- One round finds the nodes that are new in it, and leaves awaited what is not
seen yet. -/
theorem firstArrivals_front {size : Nat}
    (inner : ∀ node, marked node → start node)
    (inside : ∀ source, ∀ node ∈ next source, node < size)
    (steps : ∀ source note node,
      (∃ further, (node, further) ∈ step (source, note)) ↔ node ∈ next source)
    (arranged : ∀ arrivals arrival, arrival ∈ arrange arrivals ↔ arrival ∈ arrivals)
    {marks : Marks} {frontier : List (Nat × Note)} {round : Nat}
    (awaited : ∀ node, marks.awaits node = true ↔
      node < size ∧ ¬ Seen next marked start round node)
    (front : ∀ node, (∃ note, (node, note) ∈ frontier) ↔ Front next marked start round node) :
    (∀ node, (∃ note, (node, note) ∈
        (firstArrivals marks (arrange (frontier.flatMap step))).1) ↔
      Front next marked start (round + 1) node) ∧
    ∀ node, (firstArrivals marks (arrange (frontier.flatMap step))).2.awaits node = true ↔
      node < size ∧ ¬ Seen next marked start (round + 1) node := by
  have arrives : ∀ node, (∃ note, (node, note) ∈ arrange (frontier.flatMap step)) ↔
      ∃ source, Front next marked start round source ∧ node ∈ next source := by
    intro node
    simp only [arranged, List.mem_flatMap, ← front]
    constructor
    · rintro ⟨note, ⟨source, sourceNote⟩, known, further⟩
      exact ⟨source, ⟨sourceNote, known⟩, (steps source sourceNote node).mp ⟨note, further⟩⟩
    · rintro ⟨source, ⟨sourceNote, known⟩, edge⟩
      obtain ⟨note, further⟩ := (steps source sourceNote node).mpr edge
      exact ⟨note, (source, sourceNote), known, further⟩
  refine ⟨fun node => ?_, fun node => ?_⟩
  · rw [found_iff, awaited, arrives, Front, seen_succ_iff inner]
    constructor
    · rintro ⟨⟨_, new⟩, arrival⟩
      exact ⟨.inr arrival, new⟩
    · rintro ⟨before | ⟨source, known, edge⟩, new⟩
      · exact absurd before new
      · exact ⟨⟨inside source node edge, new⟩, source, known, edge⟩
  · rw [awaits_firstArrivals, awaited, arrives, seen_succ_iff inner, not_or, and_assoc]

/-- The nodes of every layer of a search are those that are new in its round. -/
theorem mem_rounds_iff {size : Nat}
    (inner : ∀ node, marked node → start node)
    (inside : ∀ source, ∀ node ∈ next source, node < size)
    (steps : ∀ source note node,
      (∃ further, (node, further) ∈ step (source, note)) ↔ node ∈ next source)
    (arranged : ∀ arrivals arrival, arrival ∈ arrange arrivals ↔ arrival ∈ arrivals)
    (fuel : Nat) {marks : Marks} {frontier : List (Nat × Note)} {round : Nat}
    (enough : marks.waiting ≤ fuel)
    (awaited : ∀ node, marks.awaits node = true ↔
      node < size ∧ ¬ Seen next marked start round node)
    (front : ∀ node, (∃ note, (node, note) ∈ frontier) ↔ Front next marked start round node)
    (later node : Nat) :
    (∃ layer, (rounds step arrange fuel marks frontier)[later]? = some layer ∧
        ∃ note, (node, note) ∈ layer) ↔
      Front next marked start (round + later + 1) node := by
  induction fuel generalizing marks frontier round later with
  | zero =>
      have nothing : ∀ node, ¬ Front next marked start (round + 1) node := by
        rintro node ⟨seen, new⟩
        rcases (seen_succ_iff inner round node).mp seen with before | ⟨source, _, edge⟩
        · exact new before
        · have waits := (awaited node).mpr ⟨inside source node edge, new⟩
          simp [Marks.not_awaits_of_waiting_eq_zero (Nat.le_zero.mp enough) node] at waits
      simp [rounds, not_front_of_not_front inner nothing later node]
  | succ fuel inductionHypothesis =>
      obtain ⟨newFront, newAwaited⟩ :=
        firstArrivals_front inner inside steps arranged awaited front
      have fewer := waiting_firstArrivals marks (arrange (frontier.flatMap step))
      unfold rounds
      generalize firstArrivals marks (arrange (frontier.flatMap step)) = result at *
      obtain ⟨found, left⟩ := result
      cases found with
      | nil =>
          have nothing : ∀ node, ¬ Front next marked start (round + 1) node := by
            intro node new
            obtain ⟨note, member⟩ := (newFront node).mpr new
            exact List.not_mem_nil member
          simp [not_front_of_not_front inner nothing later node]
      | cons first others =>
          simp only [List.length_cons] at fewer
          cases later with
          | zero => simpa using newFront node
          | succ later =>
              have enoughLeft : left.waiting ≤ fuel := by omega
              have below := inductionHypothesis enoughLeft newAwaited newFront later
              simpa [Nat.add_assoc, Nat.add_comm, Nat.add_left_comm] using below

/-- What a search without notes reaches are the ends of the walks from its
start. -/
theorem mem_reached_iff {next : Nat → List Nat} {size : Nat}
    (inside : ∀ source, ∀ node ∈ next source, node < size)
    (start : List Nat) (node : Nat) :
    node ∈ reached next size start ↔
      ∃ steps, ∃ source ∈ start, Walk next (steps + 1) source node := by
  have inner : ∀ node, (fun _ => False) node → node ∈ start := fun _ => False.elim
  have layers : ∀ later node, (∃ layer,
      (rounds (fun arrival : Nat × Unit => (next arrival.1).map (·, ())) id size (.fresh size)
        (start.map (·, ())))[later]? = some layer ∧ ∃ note, (node, note) ∈ layer) ↔
      Front next (fun _ => False) (· ∈ start) (0 + later + 1) node :=
    mem_rounds_iff inner inside (by simp) (fun _ _ => Iff.rfl) size
      (by rw [Marks.waiting_fresh]) (by simp [Marks.awaits_fresh, Seen]) (by simp [Front])
  have listed : node ∈ reached next size start ↔
      ∃ later, Front next (fun _ => False) (· ∈ start) (later + 1) node := by
    simp only [reached, List.mem_map, List.mem_flatten]
    constructor
    · rintro ⟨⟨node', note⟩, ⟨layer, member, found⟩, rfl⟩
      obtain ⟨later, atLater⟩ := List.mem_iff_getElem?.mp member
      refine ⟨later, ?_⟩
      simpa using (layers later node').mp ⟨layer, atLater, note, found⟩
    · rintro ⟨later, front⟩
      obtain ⟨layer, atLater, note, found⟩ := (layers later node).mpr (by simpa using front)
      exact ⟨(node, note), ⟨layer, List.mem_of_getElem? atLater, found⟩, rfl⟩
  rw [listed]
  constructor
  · rintro ⟨later, front⟩
    obtain ⟨_, walk, _⟩ := (front_succ_iff inner later node).mp front
    exact ⟨later, walk⟩
  · rintro ⟨steps, source, starts, walk⟩
    exact exists_front inner id starts walk

end Layers

/-! ## Searches in step -/

section InStep

/-- Two nodes that stand for each other, with notes that do. -/
def Alike (related : Nat → Nat → Prop) (noted : Note → Note → Prop) (left right : Nat × Note) :
    Prop :=
  related left.1 right.1 ∧ noted left.2 right.2

variable {related : Nat → Nat → Prop} {noted : Note → Note → Prop}

/-- Marks that agree on nodes that stand for each other. -/
def Marks.Agree (related : Nat → Nat → Prop) (left right : Marks) : Prop :=
  ∀ node other, related node other → left.awaits node = right.awaits other

theorem Marks.Agree.mark {left right : Marks} (agree : Marks.Agree related left right)
    (unique : ∀ {node other node' other'}, related node other → related node' other' →
      (node = node' ↔ other = other'))
    {node other : Nat} (same : related node other) :
    Marks.Agree related (left.mark node) (right.mark other) := by
  intro node' other' same'
  rw [Marks.awaits_mark, Marks.awaits_mark, agree node' other' same']
  simp only [ne_eq, unique same' same]

/-- Corresponding arrivals are accepted or dropped alike, and leave marks that agree. -/
theorem firstArrivals_forall₂
    (unique : ∀ {node other node' other'}, related node other → related node' other' →
      (node = node' ↔ other = other'))
    {arrivals others : List (Nat × Note)}
    (alike : List.Forall₂ (Alike related noted) arrivals others) :
    ∀ {left right : Marks}, Marks.Agree related left right →
      List.Forall₂ (Alike related noted)
          (firstArrivals left arrivals).1 (firstArrivals right others).1 ∧
        Marks.Agree related (firstArrivals left arrivals).2 (firstArrivals right others).2 := by
  induction alike with
  | nil => exact fun agree => ⟨.nil, agree⟩
  | @cons arrival other rest others same _ inductionHypothesis =>
      intro left right agree
      obtain ⟨node, note⟩ := arrival
      obtain ⟨other, otherNote⟩ := other
      have awaits := agree node other same.1
      unfold firstArrivals
      rw [← awaits]
      by_cases awaited : left.awaits node = true
      · rw [if_pos awaited, if_pos awaited]
        obtain ⟨later, marks⟩ := inductionHypothesis (agree.mark unique same.1)
        exact ⟨.cons same later, marks⟩
      · rw [if_neg awaited, if_neg awaited]
        exact inductionHypothesis agree

/-- Searches whose steps and orders correspond find corresponding nodes, layer by
layer and in the same order. -/
theorem rounds_forall₂
    {step step' : Nat × Note → List (Nat × Note)}
    {arrange arrange' : List (Nat × Note) → List (Nat × Note)}
    (unique : ∀ {node other node' other'}, related node other → related node' other' →
      (node = node' ↔ other = other'))
    (steps : ∀ left right, Alike related noted left right →
      List.Forall₂ (Alike related noted) (step left) (step' right))
    (arranged : ∀ left right, List.Forall₂ (Alike related noted) left right →
      List.Forall₂ (Alike related noted) (arrange left) (arrange' right))
    (fuel : Nat) {left right : Marks} {frontier frontier' : List (Nat × Note)}
    (agree : Marks.Agree related left right)
    (alike : List.Forall₂ (Alike related noted) frontier frontier') :
    List.Forall₂ (List.Forall₂ (Alike related noted))
      (rounds step arrange fuel left frontier) (rounds step' arrange' fuel right frontier') := by
  induction fuel generalizing left right frontier frontier' with
  | zero => exact .nil
  | succ fuel inductionHypothesis =>
      have further := arranged _ _ (List.rel_flatMap alike steps)
      obtain ⟨found, marks⟩ := firstArrivals_forall₂ unique further agree
      unfold rounds
      generalize firstArrivals left _ = result at *
      generalize firstArrivals right _ = result' at *
      obtain ⟨layer, leftMarks⟩ := result
      obtain ⟨layer', rightMarks⟩ := result'
      cases found with
      | nil => exact .nil
      | cons same rest =>
          exact .cons (.cons same rest) (inductionHypothesis marks (.cons same rest))

end InStep

/-- More fuel than nodes to be found changes nothing. -/
theorem rounds_of_enough
    (step : Nat × Note → List (Nat × Note))
    (arrange : List (Nat × Note) → List (Nat × Note))
    {fuel more : Nat} {marks : Marks} (enough : marks.waiting ≤ fuel) (larger : fuel ≤ more)
    (frontier : List (Nat × Note)) :
    rounds step arrange more marks frontier = rounds step arrange fuel marks frontier := by
  induction fuel generalizing more marks frontier with
  | zero =>
      cases more with
      | zero => rfl
      | succ more =>
          unfold rounds
          have none : (firstArrivals marks (arrange (frontier.flatMap step))).1 = [] := by
            apply List.eq_nil_iff_forall_not_mem.mpr
            intro arrival member
            have waits := awaits_of_mem_firstArrivals member
            simp [Marks.not_awaits_of_waiting_eq_zero (Nat.le_zero.mp enough)] at waits
          generalize firstArrivals marks _ = result at *
          obtain ⟨found, left⟩ := result
          cases none
          rfl
  | succ fuel inductionHypothesis =>
      obtain ⟨more, rfl⟩ : ∃ less, more = less + 1 := ⟨more - 1, by omega⟩
      have fewer := waiting_firstArrivals marks (arrange (frontier.flatMap step))
      unfold rounds
      generalize firstArrivals marks _ = result at *
      obtain ⟨found, left⟩ := result
      cases found with
      | nil => rfl
      | cons first others =>
          simp only [List.length_cons] at fewer
          have enoughLeft : left.waiting ≤ fuel := by omega
          show _ :: _ = _ :: _
          rw [inductionHypothesis enoughLeft (Nat.le_of_succ_le_succ larger)]

/-! ## Rounds in order -/

/-- What a search has found last, and its marks, after one more round. -/
def advance (step : Nat × Note → List (Nat × Note))
    (arrange : List (Nat × Note) → List (Nat × Note)) :
    List (Nat × Note) × Marks → List (Nat × Note) × Marks
  | (frontier, marks) => firstArrivals marks (arrange (frontier.flatMap step))

section Advance

variable {step : Nat × Note → List (Nat × Note)}
  {arrange : List (Nat × Note) → List (Nat × Note)}

theorem advance_eq (frontier : List (Nat × Note)) (marks : Marks) :
    advance step arrange (frontier, marks) =
      firstArrivals marks (arrange (frontier.flatMap step)) := rfl

theorem fst_iterate_advance_nil (nothing : arrange [] = []) (marks : Marks) (later : Nat) :
    ((advance step arrange)^[later] ([], marks)).1 = [] := by
  induction later with
  | zero => rfl
  | succ later inductionHypothesis =>
      rw [Function.iterate_succ_apply, advance_eq, List.flatMap_nil, nothing]
      exact inductionHypothesis

/-- Each layer of a search is what the round of its number finds; after the last layer
nothing is found. -/
theorem getD_rounds (nothing : arrange [] = []) (fuel : Nat) {marks : Marks}
    {frontier : List (Nat × Note)} (enough : marks.waiting ≤ fuel) (later : Nat) :
    (rounds step arrange fuel marks frontier)[later]?.getD [] =
      ((advance step arrange)^[later + 1] (frontier, marks)).1 := by
  induction fuel generalizing marks frontier later with
  | zero =>
      have fewer := waiting_firstArrivals marks (arrange (frontier.flatMap step))
      have none : (firstArrivals marks (arrange (frontier.flatMap step))).1 = [] :=
        List.eq_nil_of_length_eq_zero (by omega)
      rw [Function.iterate_succ_apply, advance_eq]
      generalize firstArrivals marks _ = result at *
      obtain ⟨found, left⟩ := result
      cases none
      exact (fst_iterate_advance_nil nothing left later).symm
  | succ fuel inductionHypothesis =>
      have fewer := waiting_firstArrivals marks (arrange (frontier.flatMap step))
      rw [Function.iterate_succ_apply, advance_eq]
      unfold rounds
      generalize firstArrivals marks (arrange (frontier.flatMap step)) = result at *
      obtain ⟨found, left⟩ := result
      cases found with
      | nil => exact (fst_iterate_advance_nil nothing left later).symm
      | cons first others =>
          simp only [List.length_cons] at fewer
          cases later with
          | zero => rfl
          | succ later => exact inductionHypothesis (by omega) later

end Advance

theorem length_rounds_le (step : Nat × Note → List (Nat × Note))
    (arrange : List (Nat × Note) → List (Nat × Note)) (fuel : Nat) (marks : Marks)
    (frontier : List (Nat × Note)) :
    (rounds step arrange fuel marks frontier).length ≤ fuel := by
  induction fuel generalizing marks frontier with
  | zero => exact Nat.le_refl 0
  | succ fuel inductionHypothesis =>
      unfold rounds
      split
      · exact Nat.zero_le _
      · exact Nat.succ_le_succ (inductionHypothesis _ _)

/-! ## First occurrences -/

theorem nodup_eraseDups {Item : Type u} [DecidableEq Item] (items : List Item) :
    items.eraseDups.Nodup := by
  induction size : items.length using Nat.strongRecOn generalizing items with
  | ind _ inductionHypothesis =>
      cases items with
      | nil => exact .nil
      | cons first rest =>
          rw [List.eraseDups_cons]
          have shorter :
              (rest.filter fun other => !other == first).length < (first :: rest).length :=
            Nat.lt_succ_of_le (List.length_filter_le _ _)
          refine List.nodup_cons.mpr
            ⟨fun again => ?_, inductionHypothesis _ (size ▸ shorter) _ rfl⟩
          rw [List.mem_eraseDups, List.mem_filter] at again
          simp at again

/-- When nodes stand for items, a round finds the first occurrences of the items that were
not met before. -/
theorem map_firstArrivals {Item : Type u} [DecidableEq Item] (item : Nat → Item)
    {marks : Marks} {met : List Item} {arrivals : List (Nat × Note)}
    (unique : ∀ arrival ∈ arrivals, ∀ other ∈ arrivals,
      item arrival.1 = item other.1 → arrival.1 = other.1)
    (awaited : ∀ arrival ∈ arrivals, marks.awaits arrival.1 = true ↔ item arrival.1 ∉ met) :
    (firstArrivals marks arrivals).1.map (fun arrival => item arrival.1) =
      ((arrivals.map fun arrival => item arrival.1).filter fun item => item ∉ met).eraseDups := by
  induction arrivals generalizing marks met with
  | nil => rfl
  | cons arrival rest inductionHypothesis =>
      obtain ⟨node, note⟩ := arrival
      obtain ⟨firstAwaited, restAwaited⟩ := List.forall_mem_cons.mp awaited
      have restUnique : ∀ arrival ∈ rest, ∀ other ∈ rest,
          item arrival.1 = item other.1 → arrival.1 = other.1 :=
        fun arrival isArrival other isOther =>
          unique arrival (List.mem_cons_of_mem _ isArrival) other (List.mem_cons_of_mem _ isOther)
      unfold firstArrivals
      rw [List.map_cons]
      by_cases isAwaited : marks.awaits node = true
      · have new : item node ∉ met := firstAwaited.mp isAwaited
        -- from here on the item of the node counts as met
        have later : ∀ arrival ∈ rest,
            (marks.mark node).awaits arrival.1 = true ↔ item arrival.1 ∉ item node :: met := by
          intro arrival isArrival
          have same : item arrival.1 = item node ↔ arrival.1 = node :=
            ⟨unique arrival (List.mem_cons_of_mem _ isArrival) _ List.mem_cons_self,
              congrArg item⟩
          rw [Marks.awaits_mark, Bool.and_eq_true, decide_eq_true_iff,
            restAwaited arrival isArrival, List.mem_cons, not_or, same]
        rw [if_pos isAwaited, List.filter_cons_of_pos (by simpa using new), List.eraseDups_cons,
          List.filter_filter, List.map_cons, inductionHypothesis restUnique later]
        simp only [List.mem_cons, not_or, Bool.decide_and, decide_not, beq_eq_decide]
      · have old : item node ∈ met := not_not.mp fun new => isAwaited (firstAwaited.mpr new)
        rw [if_neg isAwaited, List.filter_cons_of_neg (by simpa using old)]
        exact inductionHypothesis restUnique restAwaited

end GrammarDesk.Graph
