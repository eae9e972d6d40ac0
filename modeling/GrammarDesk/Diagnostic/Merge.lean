import GrammarDesk.Diagnostic.Basic

/-!
Contract: the order in which a file shows its diagnostics, and a collector that
counts them.

Owns: merging the lists of several stages into one, by start, then by severity,
then by the order in which they were reported.

Main statements: a merged list is a rearrangement of all that was reported, and
it is in order.
-/

namespace GrammarDesk

namespace Diagnostic

/-- A diagnostic may stand before another: it starts earlier, or at the same
offset and is no less serious. -/
def atMost (left right : Diagnostic) : Bool :=
  left.range.start < right.range.start ||
    (left.range.start = right.range.start && left.severity.number ≤ right.severity.number)

/-- The diagnostics of several stages in the order a file shows them. -/
def merge (stages : List (List Diagnostic)) : List Diagnostic :=
  stages.flatten.mergeSort atMost

theorem merge_perm (stages : List (List Diagnostic)) :
    (merge stages).Perm stages.flatten :=
  List.mergeSort_perm _ _

theorem merge_pairwise (stages : List (List Diagnostic)) :
    (merge stages).Pairwise fun left right => left.atMost right = true := by
  refine List.pairwise_mergeSort ?_ ?_ _
  · intro first second third
    simp only [atMost, Bool.or_eq_true, Bool.and_eq_true, decide_eq_true_eq]
    omega
  · intro first second
    simp only [atMost, Bool.or_eq_true, Bool.and_eq_true, decide_eq_true_eq]
    omega

end Diagnostic

/-- Diagnostics gathered in the order they were added. -/
structure Collector where
  diagnostics : List Diagnostic
deriving Repr

namespace Collector

def empty : Collector := ⟨[]⟩

def add (collector : Collector) (diagnostic : Diagnostic) : Collector :=
  ⟨collector.diagnostics ++ [diagnostic]⟩

def count (collector : Collector) (severity : Severity) : Nat :=
  collector.diagnostics.countP fun diagnostic => diagnostic.severity = severity

def hasErrors (collector : Collector) : Bool :=
  collector.diagnostics.any fun diagnostic => diagnostic.severity = .error

def isEmpty (collector : Collector) : Bool :=
  collector.diagnostics.isEmpty

def take (collector : Collector) : List Diagnostic × Collector :=
  (collector.diagnostics, empty)

end Collector

end GrammarDesk
