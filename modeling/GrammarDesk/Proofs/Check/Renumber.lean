import Mathlib.Data.List.Basic
import GrammarDesk.Check.Basic
import GrammarDesk.Proofs.Symbol.Renumber

/-!
Contract: the checks of a file when it gets another number.

Owns: the proof that every check of a file reports the same about it under another
number.

Does not own: declarations and their order (`Symbol`).

Main statement: `Check.grammar_renumber`.
-/

namespace GrammarDesk.Check

open Text Grammar

variable (rename : File.Id → File.Id)

/-! ## Left recursion -/

theorem entries_ofRules_renumber (file : File.Id) (index : LineIndex) (rules : List Rule) :
    (Loops.ofRules (rename file) index rules).entries =
      (Loops.ofRules file index rules).entries.map
        (Prod.map id (RelatedPlace.renumber rename)) := by
  unfold Loops.ofRules
  rw [List.map_map]
  rfl

/-- What is reported of a loop names the same file as before, under its new number. -/
theorem reports_renumber (file : File.Id) (index : LineIndex) (rules : List Rule)
    (entry : LoopNode) :
    (Loops.ofRules (rename file) index rules).reports entry =
      ((Loops.ofRules file index rules).reports entry).map (Diagnostic.renumber rename) := by
  unfold Loops.reports
  rw [entries_ofRules_renumber, List.filter_map]
  have sameTest : (fun other : LoopNode × RelatedPlace => entry.meets other.1) ∘
      Prod.map id (RelatedPlace.renumber rename) = fun other => entry.meets other.1 := rfl
  rw [sameTest]
  cases (Loops.ofRules file index rules).entries.filter fun other => entry.meets other.1 with
  | nil =>
      show (if entry.node.isLexer then _ else _) = List.map _ (if entry.node.isLexer then _ else _)
      split
      · rfl
      · rfl
  | cons partner rest =>
      simp only [List.map_cons, List.map_map, List.map_nil, Diagnostic.renumber_relatedTo]
      rfl

theorem leftRecursion_renumber (file : File.Id) (index : LineIndex) (rules : List Rule) :
    leftRecursion (rename file) index rules =
      (leftRecursion file index rules).map (Diagnostic.renumber rename) := by
  unfold leftRecursion
  dsimp only
  rw [entries_ofRules_renumber, List.flatMap_map, List.map_flatMap]
  exact List.flatMap_congr fun entry _ => reports_renumber rename file index rules entry.1

/-! ## All checks -/

def Subject.renumber (subject : Subject) : Subject :=
  { subject with
    file := rename subject.file
    table := subject.table.renumber rename }

variable (subject : Subject)

theorem Subject.header_renumber :
    (subject.renumber rename).table.header = subject.table.header := rfl

theorem Subject.grammarKind_renumber :
    (subject.renumber rename).table.grammarKind = subject.table.grammarKind := rfl

theorem ruleClass_renumber (rule : Rule) :
    ruleClass (subject.renumber rename) rule =
      (ruleClass subject rule).map (Diagnostic.renumber rename) := by
  unfold ruleClass
  cases rule.name with
  | none => rfl
  | some name =>
      dsimp only
      rw [Subject.grammarKind_renumber]
      split
      · rfl
      · split
        · rfl
        · rfl

theorem placement_renumber (member : Member) :
    placement (subject.renumber rename) member =
      (placement subject member).map (Diagnostic.renumber rename) := by
  cases member with
  | rule entry => exact ruleClass_renumber rename subject entry.rule
  | mode mode =>
      unfold placement
      dsimp only
      rw [List.map_append, List.map_flatMap, Subject.grammarKind_renumber]
      congr 1
      · split
        · rfl
        · rfl
      · exact List.flatMap_congr fun entry _ => ruleClass_renumber rename subject entry.rule
  | header header => rfl
  | options range settings => rfl
  | imports range items => rfl
  | tokens range entries => rfl
  | channels range entries => rfl
  | namedAction range name => rfl

theorem grammarName_renumber (stem : Option String) :
    grammarName (subject.renumber rename) stem =
      (grammarName subject stem).map (Diagnostic.renumber rename) := by
  unfold grammarName
  rw [Subject.header_renumber]
  cases subject.table.header with
  | none => rfl
  | some header =>
      cases stem with
      | none => rfl
      | some stem =>
          dsimp only
          split
          · rfl
          · rfl

theorem emptyGrammar_renumber :
    emptyGrammar (subject.renumber rename) =
      (emptyGrammar subject).map (Diagnostic.renumber rename) := by
  have sameCount : (subject.renumber rename).table.ruleCount = subject.table.ruleCount :=
    List.countP_map
  unfold emptyGrammar
  rw [Subject.header_renumber, sameCount]
  cases subject.table.header with
  | none => rfl
  | some header =>
      dsimp only
      split
      · rfl
      · rfl

/-- A file of another number is reported the same, at that number. -/
theorem grammar_renumber (members : List Member) (rules : List Rule) (stem : Option String) :
    grammar (subject.renumber rename) members rules stem =
      (grammar subject members rules stem).map (Diagnostic.renumber rename) := by
  have placements : members.flatMap (placement (subject.renumber rename)) =
      (members.flatMap (placement subject)).map (Diagnostic.renumber rename) := by
    rw [List.map_flatMap]
    exact congrArg (members.flatMap ·) (funext (placement_renumber rename subject))
  unfold grammar
  rw [List.map_append, List.map_append, List.map_append, placements, grammarName_renumber,
    emptyGrammar_renumber, ← leftRecursion_renumber]
  rfl

end GrammarDesk.Check
