import GrammarDesk.Proofs.Grammar.Places
import GrammarDesk.Proofs.Syntax.Words

/-!
Contract: the rules of a file, and the class and name of each.

Owns: which trees of a file are rules, and the proof that the classes and names of the rules
follow from the words that the members are read from.

Does not own: which words a text has (`Syntax`).

Main statements: the rules of a file are those directly in it and in its modes
(`rulesOf_eq_map`); shapes that are read from words have the heads that the words spell
(`heads_of_shows`).
-/

namespace GrammarDesk.Grammar

open Syntax Text ParseTree

/-! ## Where rules stand -/

/-- Whether a part of this sort is no rule, and rules are not directly under it. -/
def isRuleless : Part → Bool
  | .token _ => true
  | .node kind => !kind.isRule && kind ≠ .modeSection && kind ≠ .sourceFile

/-- Whether a part of this sort holds rules only if it is one. -/
def isMember : Part → Bool
  | .token _ => true
  | .node kind => kind ≠ .modeSection && kind ≠ .sourceFile

/-- Only in a file and in its modes stand rules. -/
theorem contents_ruleless {kind : Kind} (noMode : kind ≠ .modeSection)
    (noFile : kind ≠ .sourceFile) :
    kind.contents.all (fun slot => slot.parts.all isRuleless) = true := by
  cases kind
  case modeSection => exact absurd rfl noMode
  case sourceFile => exact absurd rfl noFile
  all_goals decide

def rulesIn (tree : ParseTree) : List ParseTree :=
  if tree.isNode .modeSection then tree.children.filter Rule.isRule
  else [tree].filter Rule.isRule

section Nested

variable {tree : ParseTree} {kind : Kind} {range : Range} {children : List ParseTree}

/-- What the slots of a node say of its parts holds of each child. -/
theorem forall_child {test : Part → Bool} (nested : (ParseTree.node kind range children).Nested)
    (each : kind.contents.all (fun slot => slot.parts.all test) = true) :
    ∀ child ∈ children, child.Nested ∧ ∀ part ∈ Part.ofTree? child, test part = true := by
  intro child isChild
  refine ⟨allNested_iff.mp nested.2 child isChild, fun part isPart => ?_⟩
  exact nested.1.forall_mem each part (List.mem_filterMap.mpr ⟨child, isChild, isPart⟩)

theorem rulesOf_of_ruleless (nested : tree.Nested)
    (ruleless : ∀ part ∈ Part.ofTree? tree, isRuleless part = true) : rulesOf tree = [] := by
  induction tree using ParseTree.induction with
  | leaf token => rfl
  | node kind range children inductionHypothesis =>
      have own := ruleless (.node kind) rfl
      simp only [isRuleless, Bool.and_eq_true, Bool.not_eq_true', decide_eq_true_eq] at own
      obtain ⟨⟨noRule, noMode⟩, noFile⟩ := own
      have each := forall_child nested (contents_ruleless noMode noFile)
      rw [rulesOf, if_neg (by simp [noRule]), rulesOfParts_eq_flatMap, List.flatMap_eq_nil_iff]
      exact fun child isChild => inductionHypothesis child isChild (each child isChild).1
        (each child isChild).2

/-- There are no rules in what is neither a file nor a mode. -/
theorem rulesOf_of_isMember (nested : tree.Nested)
    (member : ∀ part ∈ Part.ofTree? tree, isMember part = true) :
    rulesOf tree = ([tree].filter Rule.isRule).map Rule.ofTree := by
  cases tree with
  | leaf token => rfl
  | node kind range children =>
      have own := member (.node kind) rfl
      simp only [isMember, Bool.and_eq_true, decide_eq_true_eq] at own
      have each := forall_child nested (contents_ruleless own.1 own.2)
      have nothing : rulesOfParts children = [] := by
        rw [rulesOfParts_eq_flatMap, List.flatMap_eq_nil_iff]
        exact fun child isChild => rulesOf_of_ruleless (each child isChild).1 (each child isChild).2
      rw [rulesOf, nothing]
      cases isRule : kind.isRule with
      | true => simp [Rule.isRule, isRule]
      | false => simp [Rule.isRule, isRule]

theorem rulesOf_mode (nested : (ParseTree.node .modeSection range children).Nested) :
    rulesOf (.node .modeSection range children) =
      (children.filter Rule.isRule).map Rule.ofTree := by
  have each := @forall_child .modeSection range children isMember nested (by decide)
  rw [rulesOf, if_neg (by decide), rulesOfParts_eq_flatMap]
  clear nested
  induction children with
  | nil => rfl
  | cons child rest inductionHypothesis =>
      obtain ⟨first, others⟩ := List.forall_mem_cons.mp each
      rw [List.flatMap_cons, rulesOf_of_isMember first.1 first.2, inductionHypothesis others,
        ← List.map_append, ← List.filter_append]
      rfl

end Nested

/-- The rules of a file are those directly in it and those in its modes. -/
theorem rulesOf_eq_map {root : ParseTree} (nested : root.Nested)
    (isFile : root.isNode .sourceFile = true) :
    rulesOf root = (root.children.flatMap rulesIn).map Rule.ofTree := by
  cases root with
  | leaf token => cases isFile
  | node kind range children =>
      obtain rfl : kind = .sourceFile := of_decide_eq_true isFile
      have each :=
        @forall_child .sourceFile range children (· ≠ .node .sourceFile) nested (by decide)
      rw [rulesOf, if_neg (by decide), rulesOfParts_eq_flatMap, List.map_flatMap]
      refine List.flatMap_congr fun child isChild => ?_
      obtain ⟨nestedChild, noFile⟩ := each child isChild
      cases child with
      | leaf token => rfl
      | node own place parts =>
          by_cases isMode : own = .modeSection
          · subst isMode
            exact rulesOf_mode nestedChild
          · have member : ∀ part ∈ Part.ofTree? (.node own place parts), isMember part = true := by
              intro part isPart
              obtain rfl := Option.some.inj isPart
              have ownFile := noFile _ rfl
              simpa [isMember, isMode] using ownFile
            rw [rulesOf_of_isMember nestedChild member, rulesIn, if_neg (by simp [isNode, isMode])]

/-! ## Heads -/

/-- The class and the name of a rule. -/
def Rule.head (rule : Rule) : Bool × Option String :=
  (rule.isLexer, rule.nameText)

theorem Rule.head_unplaced (rule : Rule) : rule.unplaced.head = rule.head := by
  unfold head nameText unplaced
  rw [Option.map_map]
  rfl

theorem Rule.head_ofTree_bare (tree : ParseTree) :
    (ofTree tree.bare).head = (ofTree tree).head := by
  rw [← head_unplaced, unplaced_ofTree_bare, head_unplaced]

/-- The class and the name of the rule that a shape is. -/
def headOf? (shape : Shape) : Option (Bool × Option String) :=
  if shape.isRule then some (Rule.ofTree shape.bare).head else none

/-- The class and the name of the rule that a word begins, if it begins one. -/
def spelledHead? (word : List Lexeme) : Option (Bool × Option String) :=
  match word.dropWhile fun lexeme => lexeme.kind.isRuleModifier with
  | [] => none
  | name :: _ =>
      if name.kind = .identifier then some (isTokenName name.text, some name.text) else none

/-- The head of the rule that a tree is can be read off its shape, without layout. -/
theorem heads_tree (tree : ParseTree) :
    ([tree].filter Rule.isRule).map (fun rule => (Rule.ofTree rule).head) =
      tree.shape?.toList.filterMap headOf? := by
  cases tree with
  | leaf token =>
      rw [shape?]
      split <;> rfl
  | node kind range children =>
      have bare := Rule.head_ofTree_bare (.node kind range children)
      have isShape : (ParseTree.node kind range children).bare =
        (Shape.node kind (shapesOf children)).bare := rfl
      rw [isShape] at bare
      cases isRule : kind.isRule with
      | true => simp [Rule.isRule, headOf?, Shape.isRule, shape?, isRule, bare]
      | false => simp [Rule.isRule, headOf?, Shape.isRule, shape?, isRule]

/-- Rules have the heads of their shapes. -/
theorem heads_filter (trees : List ParseTree) :
    (trees.filter Rule.isRule).map (fun rule => (Rule.ofTree rule).head) =
      (shapesOf trees).filterMap headOf? := by
  induction trees with
  | nil => rfl
  | cons tree rest inductionHypothesis =>
      rw [shapesOf_cons, List.filterMap_append, ← heads_tree, ← inductionHypothesis,
        ← List.map_append, ← List.filter_append]
      rfl

theorem filterMap_headOf?_dropWhile (shapes : List Shape) :
    (shapes.dropWhile fun child => !child.isRule).filterMap headOf? = shapes.filterMap headOf? := by
  induction shapes with
  | nil => rfl
  | cons shape rest inductionHypothesis =>
      cases isRule : shape.isRule with
      | true => rw [List.dropWhile_cons_of_neg (by simp [isRule])]
      | false =>
          have none : headOf? shape = none := if_neg (by simp [isRule])
          rw [List.dropWhile_cons_of_pos (by simp [isRule]), inductionHypothesis,
            List.filterMap_cons_none none]

/-- The rules of a member have the heads of the shapes that it stands for. -/
theorem heads_rulesIn (tree : ParseTree) :
    (rulesIn tree).map (fun rule => (Rule.ofTree rule).head) =
      (tree.shape?.toList.flatMap Shape.membersIn).filterMap headOf? := by
  by_cases isMode : tree.isNode .modeSection = true
  · cases tree with
    | leaf token => cases isMode
    | node kind range children =>
        obtain rfl : kind = .modeSection := of_decide_eq_true isMode
        rw [rulesIn, if_pos isMode, shape?, Option.toList_some, List.flatMap_singleton]
        show (children.filter Rule.isRule).map _ =
          ((shapesOf children).dropWhile fun child => !child.isRule).filterMap headOf?
        rw [heads_filter, filterMap_headOf?_dropWhile]
  · rw [rulesIn, if_neg isMode, heads_tree]
    cases tree with
    | leaf token =>
        rw [shape?]
        split <;> rfl
    | node kind range children =>
        have noMode : (Shape.node kind (shapesOf children)).isNode .modeSection = false :=
          Bool.eq_false_iff.mpr isMode
        rw [shape?, Option.toList_some, List.flatMap_singleton, Shape.membersIn_of_noMode noMode]

/-- The rules of some members have the heads of the shapes of the members. -/
theorem heads_flatMap (trees : List ParseTree) :
    (trees.flatMap rulesIn).map (fun rule => (Rule.ofTree rule).head) =
      ((shapesOf trees).flatMap Shape.membersIn).filterMap headOf? := by
  induction trees with
  | nil => rfl
  | cons tree rest inductionHypothesis =>
      rw [shapesOf_cons, List.flatMap_cons, List.map_append, heads_rulesIn, inductionHypothesis,
        List.flatMap_append, List.filterMap_append]

/-! ## Words -/

theorem nameOf?_modified {modified : List Lexeme} {name : Lexeme} (named : name.kind = .identifier)
    (more : List Shape) :
    nameOf? .name (Shape.bareOf (modified.map .leaf ++ .node .name [.leaf name] :: more)) =
      some ⟨name.text, .emptyAt 0⟩ := by
  induction modified with
  | nil =>
      simp [nameOf?, Shape.bareOf, Shape.bare, isNode, Name.ofTree, significantText,
        significantTokens, named, Kind.isTrivia, ParseTree.range]
  | cons modifier modified inductionHypothesis => exact inductionHypothesis

theorem spelledHead?_named {modified : List Lexeme} {name : Lexeme}
    (areModifiers : ∀ lexeme ∈ modified, lexeme.kind.isRuleModifier = true)
    (named : name.kind = .identifier) (later : List Lexeme) :
    spelledHead? (modified ++ name :: later) = some (isTokenName name.text, some name.text) := by
  have noModifier : name.kind.isRuleModifier = false := by
    rw [named]
    rfl
  rw [spelledHead?, List.dropWhile_append_of_pos areModifiers,
    List.dropWhile_cons_of_neg (by simp [noModifier])]
  exact if_pos named

/-- The shape of a rule has the class and the name that its word spells. -/
theorem headOf?_of_names {word : List Lexeme} {shape : Shape}
    (names : Production.Names word shape) : headOf? shape = spelledHead? word := by
  have isRule := names.isRule
  cases names with
  | @rule modified later name more areModifiers named =>
      rw [headOf?, if_pos isRule, spelledHead?_named areModifiers named]
      have isLexer : (if isTokenName name.text then Kind.lexerRule else .parserRule) = .lexerRule ↔
          isTokenName name.text = true := by
        split
        · simp [*]
        · simp [*]
      have isName := @nameOf?_modified modified name named more
      refine congrArg some (Prod.ext ?_ (congrArg (Option.map Name.text) isName))
      exact Bool.eq_iff_iff.mpr (decide_eq_true_iff.trans isLexer)

theorem spelledHead?_of_section {word : List Lexeme}
    (starts : Ahead.oneOf Production.sectionStarts word = true) : spelledHead? word = none := by
  obtain ⟨head, tail, rfl, isStart⟩ := Ahead.exists_of_oneOf starts
  have noRule : ∀ kind ∈ Production.sectionStarts,
      kind.isRuleModifier = false ∧ kind ≠ .identifier := by decide
  obtain ⟨noModifier, noName⟩ := noRule _ isStart
  unfold spelledHead?
  rw [List.dropWhile_cons_of_neg (by simp [noModifier])]
  exact if_neg noName

theorem heads_of_shows {shapes : List Shape} {words : List (List Lexeme)}
    (shown : List.Forall₂ Production.Shows shapes words) :
    shapes.filterMap headOf? = words.filterMap spelledHead? := by
  induction shown with
  | nil => rfl
  | @cons shape word shapes words shows others inductionHypothesis =>
      have same : headOf? shape = spelledHead? word := by
        cases isRule : shape.isRule with
        | true => exact headOf?_of_names (shows.names isRule)
        | false =>
          rw [spelledHead?_of_section (shows.starts isRule)]
          simp [headOf?, isRule]
      rw [List.filterMap_cons, List.filterMap_cons, same, inductionHypothesis]

end GrammarDesk.Grammar
