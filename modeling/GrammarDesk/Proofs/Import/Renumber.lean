import GrammarDesk.Proofs.Import.Closure

/-!
Contract: import graphs that hold the same files under different numbers.

Owns: when one graph is another one with its files renumbered, when the names of a graph
are distinct, and the proof that distinct names lead to the same files whatever the
numbers are.

Does not own: closures of graphs that agree on edges (`Closure`).

Where names are not distinct, the file with the least number wins, and it is another
file under other numbers.

Main statement: `Renumbers.agree`.
-/

namespace GrammarDesk.Import

namespace Graph

/-- Of the files of a graph no two declare the same grammar, and no two have the same
stem. -/
structure Distinct (graph : Graph) : Prop where
  grammars : ∀ {left right node node' name}, graph.node? left = some node →
    graph.node? right = some node' → node.grammar = some name → node'.grammar = some name →
    left = right
  stems : ∀ {left right node node' name}, graph.node? left = some node →
    graph.node? right = some node' → node.stem = some name → node'.stem = some name →
    left = right

end Graph

/-- A graph holds the files of another one, each under another number. -/
structure Renumbers (rename : File.Id → File.Id) (before after : Graph) : Prop where
  injective : Function.Injective rename
  precedence : before.precedence = after.precedence
  node? : ∀ file, after.node? (rename file) = before.node? file
  onto : ∀ {file node}, after.node? file = some node → ∃ earlier, rename earlier = file

namespace Renumbers

variable {rename : File.Id → File.Id} {before after : Graph}
  (renumbers : Renumbers rename before after)

include renumbers

/-- The least file that satisfies a test is the least one under other numbers too, if
no other file satisfies the test. -/
theorem isLeast_iff {test : Node → Bool}
    (alone : ∀ {left right node node'}, before.node? left = some node →
      before.node? right = some node' → test node = true → test node' = true → left = right)
    (file : File.Id) :
    after.IsLeast test (rename file) ↔ before.IsLeast test file := by
  constructor
  · rintro ⟨⟨node, known, passes⟩, _⟩
    rw [renumbers.node?] at known
    refine ⟨⟨node, known, passes⟩, fun other node' isOther passes' => ?_⟩
    exact Nat.le_of_eq (alone known isOther passes passes')
  · rintro ⟨⟨node, known, passes⟩, _⟩
    refine ⟨⟨node, (renumbers.node? file).trans known, passes⟩, ?_⟩
    intro other node' isOther passes'
    obtain ⟨earlier, rfl⟩ := renumbers.onto isOther
    rw [renumbers.node?] at isOther
    exact Nat.le_of_eq (congrArg rename (alone known isOther passes passes'))

theorem hasNone_iff (test : Node → Bool) : after.HasNone test ↔ before.HasNone test := by
  constructor
  · intro none file node known
    exact none (rename file) node ((renumbers.node? file).trans known)
  · intro none file node known
    obtain ⟨earlier, rfl⟩ := renumbers.onto known
    exact none earlier node ((renumbers.node? earlier).symm.trans known)

/-- A name leads to the same file, whatever its number. -/
theorem resolve_eq (distinct : before.Distinct) (name : String) :
    after.resolve name = (before.resolve name).map rename := by
  have declared : ∀ file, after.IsLeast (Graph.declares name) (rename file) ↔
      before.IsLeast (Graph.declares name) file := by
    apply renumbers.isLeast_iff
    intro left right node node' known known' declares declares'
    exact distinct.grammars known known' (of_decide_eq_true declares) (of_decide_eq_true declares')
  have named : ∀ file, after.IsLeast (Graph.isNamed name) (rename file) ↔
      before.IsLeast (Graph.isNamed name) file := by
    apply renumbers.isLeast_iff
    intro left right node node' known known' isNamed isNamed'
    exact distinct.stems known known' (of_decide_eq_true isNamed) (of_decide_eq_true isNamed')
  have leads : ∀ file, after.resolve name = some (rename file) ↔
      before.resolve name = some file := by
    intro file
    rw [Graph.resolve_eq_some_iff, Graph.resolve_eq_some_iff, declared, named,
      renumbers.hasNone_iff]
  apply Option.ext
  intro target
  rw [Option.map_eq_some_iff]
  constructor
  · intro found
    obtain ⟨node, known⟩ := Graph.mem_files_iff.mp (Graph.mem_files_of_resolve found)
    obtain ⟨earlier, rfl⟩ := renumbers.onto known
    exact ⟨earlier, (leads earlier).mp found, rfl⟩
  · rintro ⟨file, found, rfl⟩
    exact (leads file).mpr found

theorem edges_eq (distinct : before.Distinct) (file : File.Id) :
    after.edges (rename file) = (before.edges file).map (Prod.map id rename) := by
  unfold Graph.edges
  rw [renumbers.node?]
  cases before.node? file with
  | none => rfl
  | some node =>
      dsimp only
      rw [List.map_filterMap]
      refine List.filterMap_congr fun clause _ => ?_
      rw [renumbers.resolve_eq distinct, Option.map_map, Option.map_map]
      rfl

/-- Graphs of the same files under different numbers agree on every file. -/
theorem agree (distinct : before.Distinct) {root : File.Id} (inBefore : root ∈ before.files) :
    Agree rename before after root where
  injective := renumbers.injective
  precedence := renumbers.precedence
  inBefore := inBefore
  inAfter := by
    obtain ⟨node, known⟩ := Graph.mem_files_iff.mp inBefore
    exact Graph.mem_files_iff.mpr ⟨node, (renumbers.node? root).trans known⟩
  edges file _ := (renumbers.edges_eq distinct file).symm

theorem display_eq (file : File.Id) : after.display (rename file) = before.display file := by
  unfold Graph.display
  rw [renumbers.node?]

end Renumbers

end GrammarDesk.Import
