import GrammarDesk.Proofs.Grammar.Layout
import GrammarDesk.Proofs.Syntax.Names
import GrammarDesk.Proofs.Syntax.Nesting
import GrammarDesk.Proofs.Syntax.Tiling

/-!
Contract: where the names that are read off a tree are written.

Owns: names that are written at their range, the proof that every name read off the tree of a
text is one of them, and the trees that members and rules are read off.

Does not own: what the names declare (`Symbol`) or use (`Reference`).

Main statements: `Name.writtenIn_ofTree`, `Name.writtenIn_ofToken`.
-/

namespace GrammarDesk.Grammar

open Syntax Text

variable {text : String} {parse : Parse}

/-! ## Names -/

namespace Name

/-- The name is written in a text at its range: it is what the tokens there spell, once the
trivia among them are left out. -/
def WrittenIn (name : Name) (text : String) : Prop :=
  ∃ own, Holds name.range text own ∧
    name.text = Token.spell (own.filter fun token => !token.kind.isTrivia)

theorem WrittenIn.liesIn {name : Name} (written : name.WrittenIn text) :
    name.range.LiesIn text := by
  obtain ⟨own, holds, _⟩ := written
  exact holds.liesIn

theorem writtenIn_ofTree (read : Parse.ofText? text = some parse) {tree : ParseTree}
    (below : parse.tree.Below tree) : (ofTree tree).WrittenIn text :=
  ⟨tree.tokens, Parse.holds_of_below read below, rfl⟩

theorem writtenIn_ofToken (read : Parse.ofText? text = some parse) {token : Token}
    (below : parse.tree.Below (.leaf token)) (significant : token.kind.isTrivia = false) :
    (ofToken token).WrittenIn text := by
  refine ⟨[token], Parse.holds_of_below read below, ?_⟩
  rw [List.filter_cons_of_pos (by simp [significant]), List.filter_nil, Token.spell_singleton]
  rfl

end Name

/-- A name found among the parts of a node is the name of one of them. -/
theorem exists_of_nameOf? {kind : Kind} {parts : List ParseTree} {name : Name}
    (found : nameOf? kind parts = some name) :
    ∃ tree ∈ parts, tree.isNode kind = true ∧ name = .ofTree tree := by
  obtain ⟨tree, isFirst, rfl⟩ := Option.map_eq_some_iff.mp found
  exact ⟨tree, List.mem_of_find?_eq_some isFirst, List.find?_some isFirst, rfl⟩

/-- Rules declare their names. -/
theorem declares_of_isRule {node : ParseTree} (isRule : Rule.isRule node = true) :
    ∃ kind, node.isNode kind = true ∧ kind.declares = true := by
  cases node with
  | leaf token => cases isRule
  | node kind range children =>
      refine ⟨kind, decide_eq_true rfl, ?_⟩
      rcases Kind.eq_of_isRule isRule with rfl | rfl <;> rfl

theorem exists_of_tokenOf? {kind : Kind} {parts : List ParseTree} {token : Token}
    (found : tokenOf? kind parts = some token) : .leaf token ∈ parts ∧ token.kind = kind := by
  unfold tokenOf? at found
  obtain ⟨tree, isPart, isToken⟩ := List.mem_filterMap.mp (List.mem_of_find?_eq_some found)
  have isKind := List.find?_some found
  cases tree with
  | node own range children => cases isToken
  | leaf other =>
      obtain rfl := Option.some.inj isToken
      exact ⟨isPart, of_decide_eq_true isKind⟩

section Parts

variable (read : Parse.ofText? text = some parse) {node : ParseTree}
variable (below : parse.tree.Below node)

include read below

theorem writtenIn_of_nameOf? {kind : Kind} {name : Name}
    (found : nameOf? kind node.children = some name) : name.WrittenIn text := by
  obtain ⟨tree, isPart, _, rfl⟩ := exists_of_nameOf? found
  exact Name.writtenIn_ofTree read (below.child isPart)

theorem writtenIn_of_tokenOf? {kind : Kind} {token : Token}
    (found : tokenOf? kind node.children = some token) (significant : kind.isTrivia = false) :
    (Name.ofToken token).WrittenIn text := by
  obtain ⟨isPart, rfl⟩ := exists_of_tokenOf? found
  exact Name.writtenIn_ofToken read (below.child isPart) significant

end Parts

/-! ## The trees of members and rules -/

/-- A member is read off a child of the file. -/
theorem exists_of_mem_membersOf {root : ParseTree} {member : Member}
    (isMember : member ∈ membersOf root) :
    ∃ tree ∈ root.children, ∃ doc, Member.ofTree? tree doc = some member := by
  obtain ⟨documented, isDocumented, isRead⟩ := List.mem_filterMap.mp isMember
  have isPart : documented.1 ∈ root.children.filter Member.isMember := by
    rw [← DocComment.map_fst_documented Member.isMember []]
    exact List.mem_map_of_mem isDocumented
  exact ⟨documented.1, List.mem_of_mem_filter isPart, documented.2, isRead⟩

/-- A rule of a mode is read off a part of the mode. -/
theorem exists_of_mem_modeRulesOf {parts : List ParseTree} {entry : DocumentedRule}
    (isEntry : entry ∈ Member.modeRulesOf parts) :
    ∃ tree ∈ parts, Rule.isRule tree = true ∧ entry.rule = Rule.ofTree tree := by
  obtain ⟨documented, isDocumented, rfl⟩ := List.mem_map.mp isEntry
  have isPart : documented.1 ∈ parts.filter Rule.isRule := by
    rw [← DocComment.map_fst_documented Rule.isRule []]
    exact List.mem_map_of_mem isDocumented
  obtain ⟨isPart, isRule⟩ := List.mem_filter.mp isPart
  exact ⟨documented.1, isPart, isRule, rfl⟩

theorem rulesOfParts_eq_flatMap (trees : List ParseTree) :
    rulesOfParts trees = trees.flatMap rulesOf := by
  induction trees with
  | nil => rfl
  | cons tree rest inductionHypothesis =>
      rw [rulesOfParts, inductionHypothesis, List.flatMap_cons]

/-- A rule of a file is read off a tree in it. -/
theorem exists_of_mem_rulesOf {root tree : ParseTree} (below : root.Below tree) {rule : Rule}
    (isRule : rule ∈ rulesOf tree) : ∃ node, root.Below node ∧ rule = Rule.ofTree node := by
  induction tree using ParseTree.induction with
  | leaf token => cases isRule
  | node kind range parts inductionHypothesis =>
      have deeper : rule ∈ rulesOfParts parts →
          ∃ node, root.Below node ∧ rule = Rule.ofTree node := by
        intro isRule
        rw [rulesOfParts_eq_flatMap] at isRule
        obtain ⟨part, isPart, isRule⟩ := List.mem_flatMap.mp isRule
        exact inductionHypothesis part isPart (below.child isPart) isRule
      rw [rulesOf] at isRule
      split at isRule
      · rcases List.mem_cons.mp isRule with rfl | isRule
        · exact ⟨_, below, rfl⟩
        · exact deeper isRule
      · exact deeper isRule

end GrammarDesk.Grammar
