import GrammarDesk.Syntax.Lexeme

/-!
Contract: the structure a reader gives to significant lexemes, with no trivia
and no offsets in it.

Owns: shapes and the lexemes at their leaves.

Does not own: where trivia stands in the full tree (`Weave`).
-/

namespace GrammarDesk.Syntax

/-- A significant lexeme, or a node over the shapes it spans. -/
inductive Shape where
  | leaf (lexeme : Lexeme)
  | node (kind : Kind) (children : List Shape)
deriving Repr, Inhabited

namespace Shape

mutual

def leaves : Shape → List Lexeme
  | .leaf lexeme => [lexeme]
  | .node _ children => leavesOf children

def leavesOf : List Shape → List Lexeme
  | [] => []
  | shape :: rest => leaves shape ++ leavesOf rest

end

@[simp] theorem leavesOf_nil : leavesOf [] = [] := rfl

@[simp] theorem leavesOf_cons (shape : Shape) (rest : List Shape) :
    leavesOf (shape :: rest) = shape.leaves ++ leavesOf rest := rfl

@[simp] theorem leaves_leaf (lexeme : Lexeme) : (leaf lexeme).leaves = [lexeme] := rfl

@[simp] theorem leaves_node (kind : Kind) (children : List Shape) :
    (node kind children).leaves = leavesOf children := rfl

@[simp] theorem leavesOf_append (left right : List Shape) :
    leavesOf (left ++ right) = leavesOf left ++ leavesOf right := by
  induction left with
  | nil => rfl
  | cons shape rest inductionHypothesis => simp [inductionHypothesis]

def isNode (kind : Kind) : Shape → Bool
  | .leaf _ => false
  | .node own _ => own = kind

end Shape

end GrammarDesk.Syntax
