import GrammarDesk.Proofs.Syntax.Acceptance

/-!
Contract: what the reading of a text keeps when its layout changes.

Owns: the shape of a woven tree, the bare tree of a shape, at no place and without trivia,
and the proof that shape and messages of a reading follow from the significant lexemes
alone.

Does not own: what a tree says (`Grammar`), or that the reader over tokens with trivia comes to
this reading (`Reader`).

A tree and its bare tree have the same shape, and trees of one shape have one bare tree. So
whatever is read off a tree in the same way as off its bare tree is a function of the shape.

Main statements: `Parse.shape_of_lexemes`, `ParseTree.bareOf_congr`.
-/

namespace GrammarDesk.Syntax

open Text

def significantOf (tokens : List Token) : List Lexeme :=
  (tokens.filter fun token => !token.kind.isTrivia).map Token.toLexeme

theorem significantOf_append (left right : List Token) :
    significantOf (left ++ right) = significantOf left ++ significantOf right := by
  unfold significantOf
  rw [List.filter_append, List.map_append]

/-! ## Shapes of woven trees -/

namespace ParseTree

theorem shapesOf_cons (tree : ParseTree) (rest : List ParseTree) :
    shapesOf (tree :: rest) = tree.shape?.toList ++ shapesOf rest := by
  rw [shapesOf]
  cases tree.shape? with
  | none => rfl
  | some shape => rfl

theorem shapesOf_append (left right : List ParseTree) :
    shapesOf (left ++ right) = shapesOf left ++ shapesOf right := by
  induction left with
  | nil => rfl
  | cons tree rest inductionHypothesis =>
      rw [List.cons_append, shapesOf_cons, shapesOf_cons, inductionHypothesis, List.append_assoc]

theorem shapesOf_map_leaf (tokens : List Token) :
    shapesOf (tokens.map .leaf) = (significantOf tokens).map .leaf := by
  induction tokens with
  | nil => rfl
  | cons token rest inductionHypothesis =>
      rw [List.map_cons, shapesOf, shape?, inductionHypothesis]
      unfold significantOf
      cases isTrivia : token.kind.isTrivia with
      | true => rw [List.filter_cons_of_neg (by simp [isTrivia])]; rfl
      | false => rw [List.filter_cons_of_pos (by simp [isTrivia])]; rfl

mutual

theorem leavesOf_shape? (tree : ParseTree) :
    Shape.leavesOf tree.shape?.toList = significantOf tree.tokens := by
  match tree with
  | .leaf token =>
      rw [shape?]
      cases isTrivia : token.kind.isTrivia with
      | true => simp [significantOf, isTrivia]
      | false => simp [significantOf, isTrivia]
  | .node kind range children =>
      have below := leavesOf_shapesOf children
      simpa [shape?] using below

/-- The leaves of shapes are the significant tokens of the trees. -/
theorem leavesOf_shapesOf (trees : List ParseTree) :
    Shape.leavesOf (shapesOf trees) = significantOf (tokensOf trees) := by
  match trees with
  | [] => rfl
  | tree :: rest =>
      rw [shapesOf_cons, Shape.leavesOf_append, leavesOf_shape? tree, leavesOf_shapesOf rest,
        tokensOf_cons, significantOf_append]

end

/-- Trees of one shape have children of the same shapes. -/
theorem shapesOf_children_congr {left right : ParseTree} (same : left.shape? = right.shape?) :
    shapesOf left.children = shapesOf right.children := by
  have ofToken : ∀ token kind shapes, (leaf token).shape? ≠ some (.node kind shapes) := by
    intro token kind shapes isNode
    rw [shape?] at isNode
    split at isNode
    · cases isNode
    · cases isNode
  cases left with
  | leaf token =>
      cases right with
      | leaf other => rfl
      | node kind range children => exact absurd same (ofToken token kind _)
  | node kind range children =>
      cases right with
      | leaf other => exact absurd same.symm (ofToken other kind _)
      | node own place others =>
          rw [shape?, shape?] at same
          exact (Shape.node.inj (Option.some.inj same)).2

end ParseTree

namespace Weave

open ParseTree

/-- What is split off is trivia, and what is left starts with none. -/
theorem splitTrivia_spec (tokens : List Token) :
    significantOf (splitTrivia tokens).1 = [] ∧
      significantOf (splitTrivia tokens).2 = significantOf tokens ∧
      ∀ token rest, (splitTrivia tokens).2 = token :: rest → token.kind.isTrivia = false := by
  unfold splitTrivia significantOf
  rw [List.span_eq_takeWhile_dropWhile]
  dsimp only
  induction tokens with
  | nil => simp
  | cons token rest inductionHypothesis =>
      cases isTrivia : token.kind.isTrivia with
      | true => simpa [isTrivia] using inductionHypothesis
      | false =>
          refine ⟨by simp [isTrivia], by simp [isTrivia], ?_⟩
          rw [List.dropWhile_cons_of_neg (by simp [isTrivia])]
          rintro _ _ ⟨⟩
          exact isTrivia

mutual

/-- A shape that spells the next significant tokens is the shape of the tree they are
woven into. -/
theorem shapesOf_tree (length : Nat) (tokens : List Token) (shape : Shape) (rest : List Lexeme)
    (spells : significantOf tokens = shape.leaves ++ rest) :
    shapesOf (tree length tokens shape).1 = [shape] ∧
      significantOf (tree length tokens shape).2 = rest := by
  obtain ⟨isTrivia, same, starts⟩ := splitTrivia_spec tokens
  rw [← same] at spells
  match shape with
  | .leaf lexeme =>
      unfold tree
      generalize splitTrivia tokens = parts at isTrivia spells starts
      obtain ⟨trivia, own⟩ := parts
      cases own with
      | nil => cases spells
      | cons token later =>
          have significant : token.kind.isTrivia = false := starts token later rfl
          have read : significantOf (token :: later) = token.toLexeme :: significantOf later := by
            unfold significantOf
            rw [List.filter_cons_of_pos (by simp [significant]), List.map_cons]
          dsimp only at isTrivia spells ⊢
          rw [read] at spells
          obtain ⟨rfl, isRest⟩ := List.cons.inj spells
          refine ⟨?_, isRest⟩
          rw [shapesOf_append, shapesOf_map_leaf, isTrivia]
          simp [shapesOf, shape?, significant]
  | .node kind children =>
      unfold tree
      generalize splitTrivia tokens = parts at isTrivia spells
      obtain ⟨trivia, own⟩ := parts
      dsimp only at isTrivia spells ⊢
      obtain ⟨inner, later⟩ := shapesOf_trees length own children rest spells
      refine ⟨?_, later⟩
      rw [shapesOf_append, shapesOf_map_leaf, isTrivia]
      simp [shapesOf, shape?, inner]

/-- Weaving trivia between shapes adds no shape and loses no significant lexeme. -/
theorem shapesOf_trees (length : Nat) (tokens : List Token) (shapes : List Shape)
    (rest : List Lexeme) (spells : significantOf tokens = Shape.leavesOf shapes ++ rest) :
    shapesOf (trees length tokens shapes).1 = shapes ∧
      significantOf (trees length tokens shapes).2 = rest := by
  match shapes with
  | [] => exact ⟨rfl, spells⟩
  | shape :: others =>
      rw [Shape.leavesOf_cons, List.append_assoc] at spells
      obtain ⟨first, between⟩ := shapesOf_tree length tokens shape _ spells
      obtain ⟨later, left⟩ := shapesOf_trees length _ others rest between
      unfold trees
      dsimp only
      refine ⟨?_, left⟩
      rw [shapesOf_append, first, later]
      rfl

end

/-- The shape of a whole tree is a node over the shapes it was woven from. -/
theorem shape?_root (length : Nat) (tokens : List Token) (kind : Kind) (members : List Shape)
    (spells : significantOf tokens = Shape.leavesOf members) :
    (root length tokens kind members).shape? = some (.node kind members) := by
  rw [← List.append_nil (Shape.leavesOf members)] at spells
  obtain ⟨inner, left⟩ := shapesOf_trees length tokens members [] spells
  unfold root
  dsimp only
  rw [shape?, shapesOf_append, shapesOf_map_leaf, inner, left, List.map_nil, List.append_nil]

end Weave

theorem Production.leavesOf_file (input : List Lexeme) :
    Shape.leavesOf (Production.file input).1 = input := by
  rw [Production.shapes_file, Production.leavesOf_members]

/-- The shape of the tree and the messages of the errors follow from the significant
lexemes. -/
theorem Parse.shape_of_lexemes (length : Nat) (tokens : List Token) :
    (ofTokens length tokens).tree.shape? =
        some (.node .sourceFile (Production.file (significantOf tokens)).1) ∧
      (ofTokens length tokens).errors.map SyntaxError.message =
        (Production.file (significantOf tokens)).2.map fun problem => problem.cause.message := by
  constructor
  · exact Weave.shape?_root length tokens .sourceFile _ (Production.leavesOf_file _).symm
  · exact List.map_map

/-! ## Bare trees -/

namespace Shape

mutual

def bare : Shape → ParseTree
  | .leaf lexeme => .leaf ⟨lexeme, 0⟩
  | .node kind children => .node kind (.emptyAt 0) (bareOf children)

def bareOf : List Shape → List ParseTree
  | [] => []
  | shape :: rest => bare shape :: bareOf rest

end

end Shape

def Token.unplaced (token : Token) : Token :=
  ⟨token.toLexeme, 0⟩

@[simp] theorem Token.kind_unplaced (token : Token) : token.unplaced.kind = token.kind := rfl

@[simp] theorem Token.text_unplaced (token : Token) : token.unplaced.text = token.text := rfl

namespace ParseTree

def bareOf (trees : List ParseTree) : List ParseTree :=
  Shape.bareOf (shapesOf trees)

/-- A tree at no place, without the trivia in it. -/
def bare : ParseTree → ParseTree
  | .leaf token => .leaf token.unplaced
  | .node kind _ children => .node kind (.emptyAt 0) (bareOf children)

@[simp] theorem bare_node (kind : Kind) (range : Range) (children : List ParseTree) :
    bare (.node kind range children) = .node kind (.emptyAt 0) (bareOf children) := rfl

/-- Trees of the same shapes are the same bare trees. -/
theorem bareOf_congr {left right : List ParseTree} (same : shapesOf left = shapesOf right) :
    bareOf left = bareOf right :=
  congrArg Shape.bareOf same

theorem bareOf_trivia {token : Token} (isTrivia : token.kind.isTrivia = true)
    (rest : List ParseTree) : bareOf (.leaf token :: rest) = bareOf rest := by
  unfold bareOf
  rw [shapesOf, shape?, if_pos isTrivia]

theorem bareOf_leaf {token : Token} (significant : token.kind.isTrivia = false)
    (rest : List ParseTree) :
    bareOf (.leaf token :: rest) = .leaf token.unplaced :: bareOf rest := by
  unfold bareOf
  rw [shapesOf, shape?, if_neg (by simp [significant])]
  rfl

/-- What skips tokens reads the same behind the token of a bare list. -/
theorem read_bareOf_leaf {Value : Type} (read : List ParseTree → Value)
    (skips : ∀ token rest, read (.leaf token :: rest) = read rest) (token : Token)
    (rest : List ParseTree) : read (bareOf (.leaf token :: rest)) = read (bareOf rest) := by
  cases isTrivia : token.kind.isTrivia with
  | true => rw [bareOf_trivia isTrivia]
  | false => rw [bareOf_leaf isTrivia, skips]

@[simp] theorem bareOf_node (kind : Kind) (range : Range) (children rest : List ParseTree) :
    bareOf (.node kind range children :: rest) =
      .node kind (.emptyAt 0) (bareOf children) :: bareOf rest := rfl

@[simp] theorem children_bare (tree : ParseTree) : tree.bare.children = bareOf tree.children := by
  cases tree with
  | leaf token => rfl
  | node kind range children => rfl

@[simp] theorem isNode_bare (kind : Kind) (tree : ParseTree) :
    tree.bare.isNode kind = tree.isNode kind := by
  cases tree with
  | leaf token => rfl
  | node own range children => rfl

/-! ### What is found among bare trees -/

section Nodes

variable {test : ParseTree → Bool} (same : ∀ tree, test tree.bare = test tree)
  (onNodes : ∀ token, test (.leaf token) = false)

include same onNodes

/-- A test of nodes picks the same nodes. -/
theorem filter_bareOf (trees : List ParseTree) :
    (bareOf trees).filter test = (trees.filter test).map bare := by
  induction trees with
  | nil => rfl
  | cons tree rest inductionHypothesis =>
      cases tree with
      | leaf token =>
          rw [List.filter_cons_of_neg (by simp [onNodes]), ← inductionHypothesis]
          cases isTrivia : token.kind.isTrivia with
          | true => rw [bareOf_trivia isTrivia]
          | false => rw [bareOf_leaf isTrivia, List.filter_cons_of_neg (by simp [onNodes])]
      | node kind range children =>
          show (bare (.node kind range children) :: bareOf rest).filter test = _
          rw [List.filter_cons, List.filter_cons, same, inductionHypothesis]
          split
          · rfl
          · rfl

/-- A test of nodes finds the same node first. -/
theorem find?_bareOf (trees : List ParseTree) :
    (bareOf trees).find? test = (trees.find? test).map bare := by
  rw [← List.head?_filter, filter_bareOf same onNodes, List.head?_map, List.head?_filter]

end Nodes

/-- A test that no trivia passes picks the same tokens. -/
theorem filter_tokens_bareOf {test : Kind → Bool}
    (significant : ∀ kind, test kind = true → kind.isTrivia = false) (trees : List ParseTree) :
    ((bareOf trees).filterMap token?).filter (fun token => test token.kind) =
      ((trees.filterMap token?).filter fun token => test token.kind).map Token.unplaced := by
  induction trees with
  | nil => rfl
  | cons tree rest inductionHypothesis =>
      cases tree with
      | leaf token =>
          show _ = ((token :: rest.filterMap token?).filter _).map _
          cases isTrivia : token.kind.isTrivia with
          | true =>
              have fails : test token.kind = false := by
                by_contra passes
                rw [significant _ (Bool.of_not_eq_false passes)] at isTrivia
                cases isTrivia
              rw [bareOf_trivia isTrivia, List.filter_cons_of_neg (by simp [fails]),
                inductionHypothesis]
          | false =>
              rw [bareOf_leaf isTrivia]
              show (token.unplaced :: (bareOf rest).filterMap token?).filter _ = _
              rw [List.filter_cons, List.filter_cons, inductionHypothesis, Token.kind_unplaced]
              split
              · rfl
              · rfl
      | node kind range children => exact inductionHypothesis

/-- The tokens of bare trees are the significant ones. -/
theorem tokensOf_bareOf (trees : List ParseTree) :
    tokensOf (bareOf trees) =
      ((tokensOf trees).filter fun token => !token.kind.isTrivia).map Token.unplaced := by
  match trees with
  | [] => rfl
  | .leaf token :: rest =>
      have later := tokensOf_bareOf rest
      cases isTrivia : token.kind.isTrivia with
      | true => simp [bareOf_trivia, isTrivia, later]
      | false => simp [bareOf_leaf, isTrivia, later]
  | .node kind range children :: rest =>
      have inner := tokensOf_bareOf children
      have later := tokensOf_bareOf rest
      simp [inner, later]

/-- Baring a tree keeps its significant tokens, but for their places. -/
theorem significantTokens_bare (tree : ParseTree) :
    tree.bare.significantTokens = tree.significantTokens.map Token.unplaced := by
  unfold significantTokens
  cases tree with
  | leaf token =>
      show [token.unplaced].filter _ = ([token].filter _).map _
      cases isTrivia : token.kind.isTrivia with
      | true => simp [isTrivia]
      | false => simp [isTrivia]
  | node kind range children =>
      show (tokensOf (bareOf children)).filter _ = ((tokensOf children).filter _).map _
      rw [tokensOf_bareOf, List.filter_eq_self]
      simp only [List.mem_map, List.mem_filter]
      rintro _ ⟨token, ⟨_, significant⟩, rfl⟩
      exact significant

@[simp] theorem significantText_bare (tree : ParseTree) :
    tree.bare.significantText = tree.significantText := by
  unfold significantText
  rw [significantTokens_bare, List.map_map]
  rfl

end ParseTree

end GrammarDesk.Syntax
