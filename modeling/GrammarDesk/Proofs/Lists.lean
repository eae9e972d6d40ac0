import Mathlib.Data.List.Forall2

/-!
Contract: what is made of the items of a list, and where a list can be taken apart.

Owns: facts about lists that say, item by item, which items something is made of, at which item
a list that grew at its end is taken apart, and that one item at most passes a test.

Does not own: what is made of them.
-/

namespace GrammarDesk

/-- Of items that pass a test just if something is made of them, what is made corresponds to
the items that pass. -/
theorem forall₂_filter_filterMap {Item Made : Type} {Related : Item → Made → Prop}
    {test : Item → Bool} {make : Item → Option Made} {items : List Item}
    (passes : ∀ item ∈ items, ∀ made, make item = some made →
      test item = true ∧ Related item made)
    (fails : ∀ item ∈ items, make item = none → test item = false) :
    List.Forall₂ Related (items.filter test) (items.filterMap make) := by
  induction items with
  | nil => exact .nil
  | cons first rest inductionHypothesis =>
      obtain ⟨passesFirst, passesRest⟩ := List.forall_mem_cons.mp passes
      obtain ⟨failsFirst, failsRest⟩ := List.forall_mem_cons.mp fails
      have restRelated := inductionHypothesis passesRest failsRest
      rw [List.filterMap_cons]
      cases isMade : make first with
      | some made =>
          obtain ⟨isTrue, related⟩ := passesFirst made isMade
          rw [List.filter_cons_of_pos isTrue]
          exact .cons related restRelated
      | none =>
          rw [List.filter_cons_of_neg (by simp [failsFirst isMade])]
          exact restRelated

/-- What is made of the items that pass a test, and of nothing else. -/
theorem filterMap_if {Item Made : Type} (test : Item → Bool) (make : Item → Made)
    (items : List Item) :
    (items.filterMap fun item => if test item then some (make item) else none) =
      (items.filter test).map make := by
  induction items with
  | nil => rfl
  | cons first rest inductionHypothesis =>
      rw [List.filterMap_cons, inductionHypothesis, List.filter_cons]
      cases test first <;> rfl

/-- What fails the test can be left out if nothing is made of it. -/
theorem flatMap_filter {Item Made : Type} {test : Item → Bool} {make : Item → List Made}
    {items : List Item} (fails : ∀ item ∈ items, test item = false → make item = []) :
    (items.filter test).flatMap make = items.flatMap make := by
  induction items with
  | nil => rfl
  | cons first rest inductionHypothesis =>
      obtain ⟨failsFirst, failsRest⟩ := List.forall_mem_cons.mp fails
      rw [List.flatMap_cons, ← inductionHypothesis failsRest]
      by_cases passes : test first = true
      · rw [List.filter_cons_of_pos passes, List.flatMap_cons]
      · rw [List.filter_cons_of_neg passes, failsFirst (Bool.eq_false_iff.mpr passes),
          List.nil_append]

/-- If one thing is made of each item that passes a test and nothing of the others, then the
things correspond to the items that pass. -/
theorem forall₂_filter_flatMap {Item Made : Type} {Related : Item → Made → Prop}
    {test : Item → Bool} {make : Item → List Made} {items : List Item}
    (makes : ∀ item ∈ items,
      if test item then ∃ made, make item = [made] ∧ Related item made else make item = []) :
    List.Forall₂ Related (items.filter test) (items.flatMap make) := by
  induction items with
  | nil => exact .nil
  | cons first rest inductionHypothesis =>
      obtain ⟨makesFirst, makesRest⟩ := List.forall_mem_cons.mp makes
      have restRelated := inductionHypothesis makesRest
      rw [List.flatMap_cons]
      by_cases passes : test first = true
      · obtain ⟨made, isMade, related⟩ := (if_pos passes).mp makesFirst
        rw [List.filter_cons_of_pos passes, isMade]
        exact .cons related restRelated
      · rw [List.filter_cons_of_neg passes, (if_neg passes).mp makesFirst]
        exact restRelated

theorem exists_mem_of_forall₂ {Item Made : Type} {Related : Item → Made → Prop}
    {items : List Item} {all : List Made} (related : List.Forall₂ Related items all)
    {item : Item} (isItem : item ∈ items) : ∃ made ∈ all, Related item made := by
  induction related with
  | nil => cases isItem
  | @cons first firstMade rest restMade relatedFirst _ inductionHypothesis =>
      rcases List.mem_cons.mp isItem with rfl | isItem
      · exact ⟨firstMade, List.mem_cons_self, relatedFirst⟩
      · obtain ⟨made, isMade, relatedItem⟩ := inductionHypothesis isItem
        exact ⟨made, List.mem_cons_of_mem _ isMade, relatedItem⟩

/-- What corresponds to a list in two pieces comes in two pieces. -/
theorem exists_append_of_forall₂ {Item Made : Type} {Related : Item → Made → Prop}
    {left right : List Item} {all : List Made}
    (related : List.Forall₂ Related (left ++ right) all) :
    ∃ first second, all = first ++ second ∧ List.Forall₂ Related left first ∧
      List.Forall₂ Related right second := by
  induction left generalizing all with
  | nil => exact ⟨[], all, rfl, .nil, related⟩
  | cons item left inductionHypothesis =>
      obtain ⟨made, others, relatedItem, relatedOthers, rfl⟩ :=
        List.forall₂_cons_left_iff.mp related
      obtain ⟨first, second, rfl, relatedLeft, relatedRight⟩ := inductionHypothesis relatedOthers
      exact ⟨made :: first, second, rfl, .cons relatedItem relatedLeft, relatedRight⟩

/-- Of several lists one after another, the first that is not empty begins the whole. -/
theorem exists_first_of_flatMap {Item Made : Type} {make : Item → List Made} {items : List Item}
    {first : Made} {others : List Made} (all : items.flatMap make = first :: others) :
    ∃ before item after rest, items = before ++ item :: after ∧
      (∀ earlier ∈ before, make earlier = []) ∧ make item = first :: rest := by
  induction items with
  | nil => cases all
  | cons item items inductionHypothesis =>
      rw [List.flatMap_cons] at all
      cases made : make item with
      | nil =>
          rw [made] at all
          obtain ⟨before, found, after, rest, rfl, none, isFirst⟩ := inductionHypothesis all
          exact ⟨item :: before, found, after, rest, rfl,
            List.forall_mem_cons.mpr ⟨made, none⟩, isFirst⟩
      | cons head rest =>
          rw [made] at all
          obtain rfl := (List.cons.inj all).1
          exact ⟨[], item, items, rest, rfl, List.forall_mem_nil _, made⟩

/-- A list that goes on after one of its items ends there or goes on to its last item. -/
theorem concat_eq_append_cons_iff {Item : Type} (items : List Item) (last : Item)
    (before : List Item) (item : Item) (after : List Item) :
    items ++ [last] = before ++ item :: after ↔
      (before = items ∧ item = last ∧ after = []) ∨
        ∃ middle, after = middle ++ [last] ∧ items = before ++ item :: middle := by
  constructor
  · intro split
    rcases List.eq_nil_or_concat' after with rfl | ⟨middle, other, rfl⟩
    · obtain ⟨rfl, same⟩ := List.append_inj' split rfl
      exact .inl ⟨rfl, (List.cons.inj same).1.symm, rfl⟩
    · rw [← List.cons_append, ← List.append_assoc] at split
      obtain ⟨same, lastSame⟩ := List.append_inj' split rfl
      cases lastSame
      exact .inr ⟨middle, rfl, same⟩
  · rintro (⟨rfl, rfl, rfl⟩ | ⟨middle, rfl, rfl⟩)
    · rfl
    · simp

/-- Where the things made of each item correspond, so do the things made of all items. -/
theorem forall₂_flatMap {Item Former Latter : Type} {Related : Former → Latter → Prop}
    {makeFormer : Item → List Former} {makeLatter : Item → List Latter} {items : List Item}
    (makes : ∀ item ∈ items, List.Forall₂ Related (makeFormer item) (makeLatter item)) :
    List.Forall₂ Related (items.flatMap makeFormer) (items.flatMap makeLatter) := by
  induction items with
  | nil => exact .nil
  | cons first rest inductionHypothesis =>
      obtain ⟨makesFirst, makesRest⟩ := List.forall_mem_cons.mp makes
      exact List.rel_append makesFirst (inductionHypothesis makesRest)

/-- Of corresponding items the first that pass correspond, where the tests agree. -/
theorem rel_find? {Former Latter : Type} {Related : Former → Latter → Prop}
    {testFormer : Former → Bool} {testLatter : Latter → Bool}
    (agree : ∀ former latter, Related former latter → testFormer former = testLatter latter)
    {formers : List Former} {latters : List Latter}
    (related : List.Forall₂ Related formers latters) :
    Option.Rel Related (formers.find? testFormer) (latters.find? testLatter) := by
  induction related with
  | nil => exact .none
  | @cons former latter _ _ relatedFirst _ inductionHypothesis =>
      rw [List.find?_cons, List.find?_cons, agree former latter relatedFirst]
      cases testLatter latter with
      | true => exact .some relatedFirst
      | false => exact inductionHypothesis

/-- Of items no two of which pass a test one at most passes it. -/
theorem length_filter_le_one {Item : Type} {test : Item → Bool} {items : List Item}
    (apart : items.Pairwise fun left right => test left = true → test right = true → False) :
    (items.filter test).length ≤ 1 := by
  have passing : ∀ item ∈ items.filter test, test item = true :=
    fun item isItem => (List.mem_filter.mp isItem).2
  have apartPassing := apart.filter test
  cases found : items.filter test with
  | nil => exact Nat.zero_le _
  | cons first rest =>
      rw [found] at passing apartPassing
      cases rest with
      | nil => exact Nat.le_refl _
      | cons second others =>
          have different := (List.pairwise_cons.mp apartPassing).1 second List.mem_cons_self
          exact (different (passing _ List.mem_cons_self)
            (passing _ (List.mem_cons_of_mem _ List.mem_cons_self))).elim

end GrammarDesk
