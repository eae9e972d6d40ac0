import Mathlib.Data.List.Sort
import GrammarDesk.File.Path

/-!
Contract: paths in order.

Owns: the proof that the order of paths is total and transitive, and what a sorted list
of different files is.

Does not own: which paths name the same file (`Path`).

Main statement: the files of a sorted list ascend (`Path.pairwise_mergeSort_of_distinct`).
-/

namespace GrammarDesk.File

namespace Component

def name : Component → String
  | .entry name => name
  | _ => ""

/-- Steps are ordered by kind and then by name. -/
theorem compare_eq : compare = compareLex (compareOn rank) (compareOn name) := by
  funext left right
  cases left <;> cases right <;> rfl

instance : Std.TransCmp compare := by
  rw [compare_eq]
  infer_instance

end Component

namespace Path

/-- Lists of steps are ordered like words. -/
theorem compareComponents_eq : compareComponents = List.compareLex Component.compare := by
  funext left right
  induction left generalizing right with
  | nil =>
      cases right with
      | nil => rfl
      | cons other others => rfl
  | cons first rest inductionHypothesis =>
      cases right with
      | nil => rfl
      | cons other others =>
          rw [compareComponents, List.compareLex_cons_cons, inductionHypothesis]

theorem atMost_iff (left right : Path) :
    left.atMost right = true ↔
      (List.compareLex Component.compare left.components right.components).isLE = true := by
  unfold atMost
  rw [compareComponents_eq, decide_eq_true_iff, Ordering.isLE_iff_ne_gt]

theorem atMost_trans {left middle right : Path} (first : left.atMost middle = true)
    (second : middle.atMost right = true) :
    left.atMost right = true := by
  rw [atMost_iff] at *
  exact Std.TransCmp.isLE_trans first second

theorem atMost_total (left right : Path) : (left.atMost right || right.atMost left) = true := by
  have swapped : List.compareLex Component.compare right.components left.components =
      (List.compareLex Component.compare left.components right.components).swap :=
    Std.OrientedCmp.eq_swap
  rw [Bool.or_eq_true, atMost_iff, atMost_iff, swapped]
  cases List.compareLex Component.compare left.components right.components <;> decide

/-- Sorted paths of different files ascend, and no two of them name the same file. -/
theorem pairwise_mergeSort_of_distinct {paths : List Path}
    (distinct : paths.Pairwise fun left right => left.same right = false) :
    (paths.mergeSort atMost).Pairwise fun left right =>
      left.atMost right = true ∧ left.same right = false := by
  have sorted : (paths.mergeSort atMost).Pairwise fun left right => left.atMost right = true :=
    @List.pairwise_mergeSort Path atMost (fun _ _ _ => atMost_trans) atMost_total paths
  have symmetric : ∀ {left right : Path}, left.same right = false → right.same left = false :=
    fun {left right} different => (same_comm right left).trans different
  exact sorted.and ((List.mergeSort_perm paths atMost).symm.pairwise distinct symmetric)

end Path

end GrammarDesk.File
