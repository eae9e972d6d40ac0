import Mathlib.Data.List.Shortlex
import GrammarDesk.Proofs.Graph.Search

/-!
Contract: the ways along which a search finds its nodes.

Owns: ways, which are the labels of steps one after another; the search that notes beside
every node the way to it; and the proof that a search that takes arrivals as they come
finds each node along its least way, and the nodes of one round in the order of these ways.

Does not own: which nodes a search finds, and in which round (`Search`), or what the steps
and their labels are.

Labels have positions. The steps from a node come by ascending position, and ways of the
same length are compared by the positions of their labels, from the first one on.

Main statements: `find?_of_mem_firstArrivals`, `pairwise_traced`, `traced_least`.
-/

namespace GrammarDesk.Graph

universe u v

variable {Note : Type u} {Label : Type v}

/-! ## The first arrival -/

/-- What a round finds at a node is what arrives there first. -/
theorem find?_of_mem_firstArrivals {marks : Marks} {arrivals : List (Nat × Note)}
    {arrival : Nat × Note} (found : arrival ∈ (firstArrivals marks arrivals).1) :
    arrivals.find? (fun other => other.1 = arrival.1) = some arrival := by
  fun_induction firstArrivals marks arrivals with
  | case1 => exact absurd found List.not_mem_nil
  | case2 marks node note rest awaited later last read inductionHypothesis =>
      rcases List.mem_cons.mp found with rfl | inLater
      · exact List.find?_cons_of_pos (decide_eq_true rfl)
      · rw [read] at inductionHypothesis
        have among : arrival ∈ (firstArrivals (marks.mark node) rest).1 := by
          rw [read]
          exact inLater
        have stillAwaited := awaits_of_mem_firstArrivals among
        rw [Marks.awaits_mark, Bool.and_eq_true, decide_eq_true_iff] at stillAwaited
        rw [List.find?_cons_of_neg (by simpa using Ne.symm stillAwaited.1)]
        exact inductionHypothesis inLater
  | case3 marks node note rest notAwaited inductionHypothesis =>
      have different : node ≠ arrival.1 := by
        rintro rfl
        exact notAwaited (awaits_of_mem_firstArrivals found)
      rw [List.find?_cons_of_neg (by simpa using different)]
      exact inductionHypothesis found

/-- Of arrivals that come in some order, what a round finds at a node comes before all else
that arrives there. -/
theorem eq_or_before_of_mem_firstArrivals {Before : Nat × Note → Nat × Note → Prop}
    {marks : Marks} {arrivals : List (Nat × Note)} (ordered : arrivals.Pairwise Before)
    {arrival other : Nat × Note} (found : arrival ∈ (firstArrivals marks arrivals).1)
    (arrives : other ∈ arrivals) (sameNode : other.1 = arrival.1) :
    arrival = other ∨ Before arrival other := by
  obtain ⟨_, earlier, later, split, none⟩ :=
    List.find?_eq_some_iff_append.mp (find?_of_mem_firstArrivals found)
  rw [split] at arrives ordered
  rcases List.mem_append.mp arrives with inEarlier | inRest
  · have differs := none other inEarlier
    simp [sameNode] at differs
  · rcases List.mem_cons.mp inRest with same | inLater
    · exact .inl same.symm
    · have ordered := (List.pairwise_append.mp ordered).2.1
      exact .inr (List.rel_of_pairwise_cons ordered inLater)

theorem firstArrivals_sublist (marks : Marks) (arrivals : List (Nat × Note)) :
    (firstArrivals marks arrivals).1.Sublist arrivals := by
  fun_induction firstArrivals marks arrivals with
  | case1 => exact .slnil
  | case2 marks node note rest awaited later last read inductionHypothesis =>
      rw [read] at inductionHypothesis
      exact inductionHypothesis.cons_cons _
  | case3 marks node note rest notAwaited inductionHypothesis => exact inductionHypothesis.cons _

/-- Which nodes a round finds does not depend on what is noted of them. -/
theorem firstArrivals_map {Other : Type v} (change : Note → Other) (marks : Marks)
    (arrivals : List (Nat × Note)) :
    firstArrivals marks (arrivals.map (Prod.map id change)) =
      Prod.map (List.map (Prod.map id change)) id (firstArrivals marks arrivals) := by
  fun_induction firstArrivals marks arrivals with
  | case1 => rfl
  | case2 marks node note rest awaited later last read inductionHypothesis =>
      rw [List.map_cons, Prod.map_apply, id_eq, firstArrivals, if_pos awaited,
        inductionHypothesis, read]
      rfl
  | case3 marks node note rest notAwaited inductionHypothesis =>
      rw [List.map_cons, Prod.map_apply, id_eq, firstArrivals, if_neg notAwaited]
      exact inductionHypothesis

/-! ## Ways -/

/-- Lists of the same length are compared by their last numbers where the rest is equal. -/
theorem lex_concat_iff {left right : List Nat} (sameLength : left.length = right.length)
    (first second : Nat) :
    List.Lex (· < ·) (left ++ [first]) (right ++ [second]) ↔
      List.Lex (· < ·) left right ∨ left = right ∧ first < second := by
  induction left generalizing right with
  | nil =>
      obtain rfl := List.eq_nil_of_length_eq_zero sameLength.symm
      simp [List.cons_lex_cons_iff]
  | cons head rest inductionHypothesis =>
      cases right with
      | nil => simp at sameLength
      | cons other others =>
          have restLength : rest.length = others.length := Nat.succ.inj sameLength
          rw [List.cons_append, List.cons_append, List.cons_lex_cons_iff,
            List.cons_lex_cons_iff, inductionHypothesis restLength, List.cons.injEq, and_or_left,
            or_assoc, and_assoc]

/-- Where a least walk passes before its last step, it is least so far. -/
theorem IsLeastWalk.before {next : Nat → List Nat} {count source middle target : Nat}
    (least : IsLeastWalk next (count + 1) source target) (walk : Walk next count source middle)
    (edge : target ∈ next middle) :
    IsLeastWalk next count source middle :=
  ⟨walk, fun fewer below shorter =>
    least.2 (fewer + 1) (Nat.succ_lt_succ below) ⟨middle, shorter, edge⟩⟩

section Ways

variable (steps : Nat × Note → List (Label × (Nat × Note)))

/-- Steps with some labels, one after another, lead from one arrival to another. -/
def Along : List Label → Nat × Note → Nat × Note → Prop
  | [], source, target => source = target
  | label :: way, source, target =>
      ∃ middle, (label, middle) ∈ steps source ∧ Along way middle target

theorem along_concat_iff (way : List Label) (label : Label) (source target : Nat × Note) :
    Along steps (way ++ [label]) source target ↔
      ∃ middle, Along steps way source middle ∧ (label, target) ∈ steps middle := by
  induction way generalizing source with
  | nil => simp [Along]
  | cons first rest inductionHypothesis =>
      simp only [List.cons_append, Along, inductionHypothesis]
      constructor
      · rintro ⟨next, step, middle, along, last⟩
        exact ⟨middle, ⟨next, step, along⟩, last⟩
      · rintro ⟨middle, ⟨next, step, along⟩, last⟩
        exact ⟨next, step, middle, along, last⟩

theorem walk_of_along {next : Nat → List Nat}
    (onward : ∀ source label target, (label, target) ∈ steps source → target.1 ∈ next source.1)
    (way : List Label) (source target : Nat × Note) (along : Along steps way source target) :
    Walk next way.length source.1 target.1 := by
  induction way generalizing source with
  | nil => exact congrArg Prod.fst along
  | cons label rest inductionHypothesis =>
      obtain ⟨middle, step, along⟩ := along
      exact (walk_succ_iff _ _ _ _).mpr
        ⟨middle.1, onward source label middle step, inductionHypothesis middle along⟩

/-- What arrives from a node one step further, with the way that led to the node carried
on. -/
def extend : Nat × (Note × List Label) → List (Nat × (Note × List Label))
  | (node, note, way) =>
      (steps (node, note)).map fun (label, target, further) => (target, further, way ++ [label])

/-- What a search that notes the ways has found last, and its marks, after some rounds. -/
def traced (marks : Marks) (start : Nat × Note) (rounds : Nat) :
    List (Nat × (Note × List Label)) × Marks :=
  (advance (extend steps) id)^[rounds] ([(start.1, start.2, [])], marks)

variable {steps} {marks : Marks} {start : Nat × Note}

theorem traced_succ (rounds : Nat) :
    traced steps marks start (rounds + 1) =
      firstArrivals (traced steps marks start rounds).2
        ((traced steps marks start rounds).1.flatMap (extend steps)) :=
  Function.iterate_succ_apply' _ _ _

theorem mem_extend_iff {entry further : Nat × (Note × List Label)} :
    further ∈ extend steps entry ↔
      ∃ label target, (label, target) ∈ steps (entry.1, entry.2.1) ∧
        further = (target.1, target.2, entry.2.2 ++ [label]) := by
  simp [extend, eq_comm]

/-- The ways are noted beside what the search finds without them. -/
theorem forget_traced {step : Nat × Note → List (Nat × Note)}
    (same : ∀ arrival, (steps arrival).map Prod.snd = step arrival) (rounds : Nat) :
    (advance step id)^[rounds] ([start], marks) =
      Prod.map (List.map (Prod.map id Prod.fst)) id (traced steps marks start rounds) := by
  induction rounds with
  | zero => rfl
  | succ rounds inductionHypothesis =>
      have arrivals :
          ((traced steps marks start rounds).1.map (Prod.map id Prod.fst)).flatMap step =
          ((traced steps marks start rounds).1.flatMap (extend steps)).map
            (Prod.map id Prod.fst) := by
        rw [List.map_flatMap, List.flatMap_map]
        refine List.flatMap_congr ?_
        rintro ⟨node, note, way⟩ _
        rw [← same, extend, List.map_map]
        rfl
      rw [Function.iterate_succ_apply', inductionHypothesis, traced_succ, ← firstArrivals_map,
        ← arrivals]
      rfl

/-- A noted way leads to its node, with one step for every round. -/
theorem along_of_mem_traced (rounds : Nat) :
    ∀ entry ∈ (traced steps marks start rounds).1,
      Along steps entry.2.2 start (entry.1, entry.2.1) ∧ entry.2.2.length = rounds := by
  induction rounds with
  | zero =>
      intro entry isStart
      obtain rfl := List.mem_singleton.mp isStart
      exact ⟨rfl, rfl⟩
  | succ rounds inductionHypothesis =>
      intro entry found
      rw [traced_succ] at found
      obtain ⟨origin, known, further⟩ := List.mem_flatMap.mp (mem_of_mem_firstArrivals found)
      obtain ⟨label, target, step, rfl⟩ := mem_extend_iff.mp further
      obtain ⟨along, length⟩ := inductionHypothesis origin known
      refine ⟨(along_concat_iff _ _ _ _ _).mpr ⟨_, along, step⟩, ?_⟩
      rw [List.length_append, length]
      rfl

/-! ## Least ways -/

section Ordered

variable {position : Label → Nat}

/-- Ways in the order of their positions. -/
def Earlier (position : Label → Nat) (way other : List Label) : Prop :=
  List.Lex (· < ·) (way.map position) (other.map position)

theorem earlier_concat_iff {way other : List Label} (sameLength : way.length = other.length)
    (first second : Label) :
    Earlier position (way ++ [first]) (other ++ [second]) ↔
      Earlier position way other ∨
        way.map position = other.map position ∧ position first < position second := by
  unfold Earlier
  rw [List.map_append, List.map_append]
  exact lex_concat_iff (by rw [List.length_map, List.length_map, sameLength]) _ _

theorem Earlier.trans {way middle other : List Label} (first : Earlier position way middle)
    (second : Earlier position middle other) :
    Earlier position way other :=
  List.lex_trans Nat.lt_trans first second

/-- Nodes found one after another carry on to arrivals in the order of the ways. -/
theorem pairwise_arrivals
    (ascending : ∀ arrival, (steps arrival).Pairwise fun step other =>
      position step.1 < position other.1)
    {rounds : Nat} {found : List (Nat × (Note × List Label))}
    (lengths : ∀ entry ∈ found, entry.2.2.length = rounds)
    (ordered : found.Pairwise fun entry other => Earlier position entry.2.2 other.2.2) :
    (found.flatMap (extend steps)).Pairwise fun entry other =>
      Earlier position entry.2.2 other.2.2 := by
  refine List.pairwise_flatMap.mpr ⟨fun entry known => ?_, ?_⟩
  · -- one node: the ways differ in their last labels
    refine List.pairwise_map.mpr ((ascending _).imp fun {step other} before => ?_)
    exact (earlier_concat_iff rfl _ _).mpr (.inr ⟨rfl, before⟩)
  · -- two nodes: the ways differ before their last labels
    refine ordered.imp_of_mem ?_
    intro entry other known known' before further member further' member'
    obtain ⟨label, target, _, rfl⟩ := mem_extend_iff.mp member
    obtain ⟨label', target', _, rfl⟩ := mem_extend_iff.mp member'
    have sameLength := (lengths entry known).trans (lengths other known').symm
    exact (earlier_concat_iff sameLength _ _).mpr (.inl before)

/-- The nodes of a round stand in the order of their ways. -/
theorem pairwise_traced
    (ascending : ∀ arrival, (steps arrival).Pairwise fun step other =>
      position step.1 < position other.1)
    (rounds : Nat) :
    (traced steps marks start rounds).1.Pairwise fun entry other =>
      Earlier position entry.2.2 other.2.2 := by
  induction rounds with
  | zero => exact List.pairwise_singleton _ _
  | succ rounds inductionHypothesis =>
      rw [traced_succ]
      have lengths : ∀ entry ∈ (traced steps marks start rounds).1, entry.2.2.length = rounds :=
        fun entry known => (along_of_mem_traced rounds entry known).2
      exact (pairwise_arrivals ascending lengths inductionHypothesis).sublist
        (firstArrivals_sublist _ _)

/-- A search notes the least way to every node: no way with as few steps is earlier. The
steps from a node may not depend on what is noted of it, and the rounds have to be the
distances of the nodes they find. -/
theorem traced_least {next : Nat → List Nat}
    (ascending : ∀ arrival, (steps arrival).Pairwise fun step other =>
      position step.1 < position other.1)
    (constant : ∀ node note other label target further,
      (label, target, further) ∈ steps (node, note) →
      ∃ further', (label, target, further') ∈ steps (node, other))
    (onward : ∀ source label target, (label, target) ∈ steps source → target.1 ∈ next source.1)
    (distances : ∀ rounds node, (∃ entry ∈ (traced steps marks start rounds).1, entry.1 = node) ↔
      IsLeastWalk next rounds start.1 node)
    (rounds : Nat) :
    ∀ entry ∈ (traced steps marks start rounds).1, ∀ other further, other.length = rounds →
      Along steps other start (entry.1, further) → ¬ Earlier position other entry.2.2 := by
  induction rounds with
  | zero =>
      intro entry isStart other further length _ earlier
      obtain rfl := List.mem_singleton.mp isStart
      obtain rfl := List.eq_nil_of_length_eq_zero length
      exact List.not_lex_nil earlier
  | succ rounds inductionHypothesis =>
      intro entry found other further length along earlier
      obtain rfl | ⟨begun, label, rfl⟩ := List.eq_nil_or_concat other
      · exact absurd length (Nat.succ_ne_zero rounds).symm
      rw [List.concat_eq_append] at along earlier length
      have begunLength : begun.length = rounds := by simpa using length
      obtain ⟨⟨middle, note⟩, alongBegun, step⟩ := (along_concat_iff _ _ _ _ _).mp along
      -- the last node but one was found in the round before
      have leastMiddle : IsLeastWalk next rounds start.1 middle :=
        ((distances _ _).mp ⟨entry, found, rfl⟩).before
          (begunLength ▸ walk_of_along steps onward begun _ _ alongBegun) (onward _ _ _ step)
      obtain ⟨origin, known, rfl⟩ := (distances _ _).mpr leastMiddle
      have notEarlier := inductionHypothesis origin known begun note begunLength alongBegun
      -- from there the same label leads to the entry
      obtain ⟨further', step'⟩ := constant _ _ origin.2.1 _ _ _ step
      have arrives : (entry.1, further', origin.2.2 ++ [label]) ∈
          (traced steps marks start rounds).1.flatMap (extend steps) :=
        List.mem_flatMap.mpr ⟨origin, known, mem_extend_iff.mpr ⟨label, _, step', rfl⟩⟩
      have lengths : ∀ entry ∈ (traced steps marks start rounds).1, entry.2.2.length = rounds :=
        fun entry known => (along_of_mem_traced rounds entry known).2
      have ordered := pairwise_arrivals ascending lengths (pairwise_traced ascending rounds)
      rw [traced_succ] at found
      have sooner : Earlier position (begun ++ [label]) (origin.2.2 ++ [label]) := by
        rcases eq_or_before_of_mem_firstArrivals ordered found arrives rfl with same | before
        · rwa [same] at earlier
        · exact earlier.trans before
      have sameLength := begunLength.trans (lengths origin known).symm
      rcases (earlier_concat_iff sameLength _ _).mp sooner with before | ⟨_, less⟩
      · exact notEarlier before
      · exact Nat.lt_irrefl _ less

end Ordered

end Ways

end GrammarDesk.Graph
