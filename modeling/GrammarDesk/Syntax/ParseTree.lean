import GrammarDesk.Syntax.Shape
import GrammarDesk.Text.Range

/-!
Contract: the tree of a grammar file, with every token of the text in it and the
byte range of every node.

Owns: trees, their tokens, and the shape that remains without trivia and
ranges.

Does not own: how a tree comes about (`Weave`).
-/

namespace GrammarDesk.Syntax

open Text

/-- A token, or a node over the trees it spans. -/
inductive ParseTree where
  | leaf (token : Token)
  | node (kind : Kind) (range : Range) (children : List ParseTree)
deriving Repr, Inhabited

namespace ParseTree

def range : ParseTree → Range
  | .leaf token => ⟨token.offset, token.stop⟩
  | .node _ range _ => range

def children : ParseTree → List ParseTree
  | .leaf _ => []
  | .node _ _ children => children

def isNode (kind : Kind) : ParseTree → Bool
  | .leaf _ => false
  | .node own _ _ => own = kind

def token? : ParseTree → Option Token
  | .leaf token => some token
  | .node _ _ _ => none

mutual

def prependTokens (others : List Token) : ParseTree → List Token
  | .leaf token => token :: others
  | .node _ _ children => prependTokensOf others children

/-- The tokens of several trees, trivia included, in front of others. -/
def prependTokensOf (others : List Token) : List ParseTree → List Token
  | [] => others
  | tree :: rest => prependTokens (prependTokensOf others rest) tree

end

/-- The tokens of a tree from left to right, trivia included. -/
def tokens (tree : ParseTree) : List Token :=
  prependTokens [] tree

def tokensOf (trees : List ParseTree) : List Token :=
  prependTokensOf [] trees

mutual

theorem prependTokens_eq (others : List Token) (tree : ParseTree) :
    prependTokens others tree = tree.tokens ++ others := by
  match tree with
  | .leaf token => simp [tokens, prependTokens]
  | .node kind range children =>
      have below := prependTokensOf_eq others children
      simpa [tokens, tokensOf, prependTokens] using below

theorem prependTokensOf_eq (others : List Token) (trees : List ParseTree) :
    prependTokensOf others trees = tokensOf trees ++ others := by
  match trees with
  | [] => simp [tokensOf, prependTokensOf]
  | tree :: rest =>
      simp only [tokensOf, prependTokensOf]
      rw [prependTokensOf_eq others rest, prependTokens_eq _ tree,
        prependTokens_eq (prependTokensOf [] rest) tree, List.append_assoc]
      rfl

end

@[simp] theorem tokens_leaf (token : Token) : (leaf token).tokens = [token] := rfl

@[simp] theorem tokens_node (kind : Kind) (range : Range) (children : List ParseTree) :
    (node kind range children).tokens = tokensOf children := rfl

@[simp] theorem tokensOf_nil : tokensOf [] = [] := rfl

@[simp] theorem tokensOf_cons (tree : ParseTree) (rest : List ParseTree) :
    tokensOf (tree :: rest) = tree.tokens ++ tokensOf rest :=
  prependTokens_eq _ tree

def text (tree : ParseTree) : String :=
  String.join (tree.tokens.map fun token => token.text)

def significantTokens (tree : ParseTree) : List Token :=
  tree.tokens.filter fun token => !token.kind.isTrivia

def significantText (tree : ParseTree) : String :=
  String.join (tree.significantTokens.map fun token => token.text)

mutual

/-- The shape of a tree; a trivia token has none. -/
def shape? : ParseTree → Option Shape
  | .leaf token => if token.kind.isTrivia then none else some (.leaf token.toLexeme)
  | .node kind _ children => some (.node kind (shapesOf children))

def shapesOf : List ParseTree → List Shape
  | [] => []
  | tree :: rest =>
      match shape? tree with
      | none => shapesOf rest
      | some shape => shape :: shapesOf rest

end

end ParseTree

end GrammarDesk.Syntax
