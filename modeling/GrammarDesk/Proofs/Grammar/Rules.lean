import GrammarDesk.Proofs.Grammar.Heads
import GrammarDesk.Proofs.Lists
import GrammarDesk.Proofs.Syntax.RuleNodes
import GrammarDesk.Proofs.Syntax.Rows

/-!
Contract: the rules of a file, found by going down into every node and found through its members.

Owns: the rules that a member is or holds, the proof that both ways find the same rules in the
same order, and the row that the rules of a text form.

Does not own: what rules declare (`Symbol`).

Main statements: `rulesOf_eq_flatMap`, `row_rules`.
-/

namespace GrammarDesk.Grammar

open Syntax Text ParseTree Range

/-! ## Rules of members -/

def Member.rules : Member → List Rule
  | .rule entry => [entry.rule]
  | .mode written => written.rules.map DocumentedRule.rule
  | .header _ | .options _ _ | .imports _ _ | .tokens _ _ | .channels _ _ | .namedAction _ _ => []

theorem map_rule_modeRulesOf (parts : List ParseTree) :
    (Member.modeRulesOf parts).map DocumentedRule.rule =
      (parts.filter Rule.isRule).map Rule.ofTree := by
  unfold Member.modeRulesOf
  rw [List.map_map, ← DocComment.map_fst_documented Rule.isRule [] parts, List.map_map]
  rfl

/-- The member that a tree is has the rules that stand in the tree. -/
theorem rules_of_ofTree? (tree : ParseTree) (doc : Option String) :
    (Member.ofTree? tree doc).toList.flatMap Member.rules = (rulesIn tree).map Rule.ofTree := by
  cases tree with
  | leaf token => rfl
  | node kind range parts =>
      unfold Member.ofTree?
      dsimp only
      split
      case h_9 =>
        rw [Option.toList_some, List.flatMap_singleton]
        exact map_rule_modeRulesOf parts
      case h_10 => cases kind <;> first | rfl | simp_all
      all_goals rfl

theorem rulesIn_of_not_isMember {tree : ParseTree} (noMember : Member.isMember tree = false) :
    rulesIn tree = [] := by
  cases tree with
  | leaf token => rfl
  | node kind range parts => cases kind <;> first | rfl | cases noMember

/-- The rules of a file are those of its members. -/
theorem rulesOf_eq_flatMap {root : ParseTree} (nested : root.Nested)
    (isFile : root.isNode .sourceFile = true) :
    rulesOf root = (membersOf root).flatMap Member.rules := by
  have others : ∀ child ∈ root.children, Member.isMember child = false →
      (rulesIn child).map Rule.ofTree = [] :=
    fun child _ noMember => List.map_eq_nil_iff.mpr (rulesIn_of_not_isMember noMember)
  unfold membersOf
  rw [rulesOf_eq_map nested isFile, List.map_flatMap, ← flatMap_filter others,
    ← DocComment.map_fst_documented Member.isMember [] root.children, List.flatMap_map,
    List.filterMap_eq_flatMap_toList, List.flatMap_assoc]
  exact List.flatMap_congr fun entry _ => (rules_of_ofTree? entry.1 entry.2).symm

/-! ## Rules in a row -/

theorem row_self {tree : ParseTree} (solid : tree.Solid) (some : tree.tokens ≠ []) :
    Row tree.range.start [tree.range] tree.range.stop :=
  ⟨Nat.le_refl _, solid.start_lt_stop some, Nat.le_refl _⟩

section Text

variable {text : String} {parse : Parse} (read : Parse.ofText? text = some parse)

include read

/-- The rules in a part of a file are in a row. -/
theorem row_rulesIn {child : ParseTree} (isChild : child ∈ parse.tree.children)
    (solid : child.Solid) :
    Row child.range.start ((rulesIn child).map ParseTree.range) child.range.stop := by
  cases child with
  | leaf token => exact solid.start_le_stop
  | node kind range parts =>
      by_cases isMode : kind = .modeSection
      · subst isMode
        show Row range.start ((parts.filter Rule.isRule).map ParseTree.range) range.stop
        rw [List.map_eq_flatMap]
        refine solid.parts.row_filter Rule.isRule fun part isPart isSolid isRule => ?_
        cases part with
        | leaf token => cases isRule
        | node own place children =>
            exact row_self isSolid (Parse.tokens_ne_nil_of_rule read isRule
              (.inr ⟨range, parts, isChild, isPart⟩))
      · rw [rulesIn, if_neg (by simp [isNode, isMode])]
        by_cases isRule : Rule.isRule (.node kind range parts) = true
        · rw [List.filter_cons_of_pos isRule]
          exact row_self solid (Parse.tokens_ne_nil_of_rule read isRule (.inl isChild))
        · rw [List.filter_cons_of_neg isRule]
          exact solid.start_le_stop

/-- The rules of a text are in a row. -/
theorem row_rules :
    Row parse.tree.range.start ((rulesOf parse.tree).map Rule.range) parse.tree.range.stop := by
  have solid := Parse.solid_of_text read
  have isFile := Parse.isNode_of_text read
  have inFile : ∀ child ∈ parse.tree.children, child.Solid →
      Row child.range.start ((rulesIn child).map ParseTree.range) child.range.stop :=
    fun child isChild isSolid => row_rulesIn read isChild isSolid
  rw [rulesOf_eq_map solid.nested isFile, List.map_map]
  show Row _ ((parse.tree.children.flatMap rulesIn).map ParseTree.range) _
  rw [List.map_flatMap]
  generalize parse.tree = root at solid isFile inFile
  cases root with
  | leaf token => cases isFile
  | node kind range parts => exact solid.parts.row_flatMap inFile

theorem pairwise_rules :
    (rulesOf parse.tree).Pairwise fun left right => left.range.Precedes right.range :=
  List.pairwise_map.mp (row_rules read).pairwise

theorem start_lt_stop_of_rule {rule : Rule} (isRule : rule ∈ rulesOf parse.tree) :
    rule.range.start < rule.range.stop :=
  ((row_rules read).forall_mem _ (List.mem_map_of_mem isRule)).2

/-! ## Names of rules -/

/-- Every rule of a file is read off a part of the file or of one of its modes. -/
theorem exists_of_mem_rules {rule : Rule} (isRule : rule ∈ rulesOf parse.tree) :
    ∃ node, rule = Rule.ofTree node ∧ Rule.isRule node = true ∧
      (node ∈ parse.tree.children ∨ ∃ mode ∈ parse.tree.children,
        mode.isNode .modeSection = true ∧ node ∈ mode.children) := by
  rw [rulesOf_eq_map (Parse.nested_of_text read) (Parse.isNode_of_text read)] at isRule
  obtain ⟨node, isNode, rfl⟩ := List.mem_map.mp isRule
  obtain ⟨child, isChild, isNode⟩ := List.mem_flatMap.mp isNode
  refine ⟨node, rfl, ?_⟩
  unfold rulesIn at isNode
  split at isNode
  · obtain ⟨inMode, isRule⟩ := List.mem_filter.mp isNode
    exact ⟨isRule, .inr ⟨child, isChild, ‹_›, inMode⟩⟩
  · obtain ⟨isOnly, isRule⟩ := List.mem_filter.mp isNode
    obtain rfl := List.mem_singleton.mp isOnly
    exact ⟨isRule, .inl isChild⟩

/-- No rule of a text has an empty name. -/
theorem text_ne_empty_of_rule {rule : Rule} (isRule : rule ∈ rulesOf parse.tree) {name : Name}
    (named : rule.name = some name) : name.text ≠ "" := by
  obtain ⟨node, rfl, isNode, stands⟩ := exists_of_mem_rules read isRule
  obtain ⟨tree, isPart, isName, rfl⟩ := exists_of_nameOf? named
  have near : node ∈ parse.tree.children ∨
      ∃ member ∈ parse.tree.children, node ∈ member.children := by
    rcases stands with inFile | ⟨mode, isMode, _, inMode⟩
    · exact .inl inFile
    · exact .inr ⟨mode, isMode, inMode⟩
  obtain ⟨token, isToken, significant⟩ :=
    Parse.token_of_declared_name read near (declares_of_isRule isNode) isPart (.inl isName)
  have below : parse.tree.Below tree := by
    rcases near with inFile | ⟨member, isMember, inMember⟩
    · exact (Below.self.child inFile).child isPart
    · exact ((Below.self.child isMember).child inMember).child isPart
  obtain ⟨before, after, tokens, _⟩ := Parse.holds_of_below read below
  have isOfText : token ∈ Scan.tokenize text := by simp [tokens, isToken]
  have filled := Scan.size_pos_of_mem_tokenize isOfText
  intro empty
  have spelled : token.text = "" := by
    have isText : tree.significantText = token.text := by
      simp [significantText, significantTokens, isToken, significant]
    exact isText.symm.trans empty
  have noSize : token.size = 0 := by
    show token.text.utf8ByteSize = 0
    rw [spelled]
    rfl
  omega

end Text

end GrammarDesk.Grammar
