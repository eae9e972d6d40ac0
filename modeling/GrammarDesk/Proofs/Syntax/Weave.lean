import Mathlib.Data.List.TakeDrop
import GrammarDesk.Syntax.Weave

/-!
Contract: the tokens of a woven tree.

Owns: the proof that weaving takes every token over once and in order, whatever the
shapes are.

Does not own: which shapes a reading builds (`Reading`).

Main statement: the tokens of the root are the tokens of the text (`tokens_root`).
-/

namespace GrammarDesk.Syntax.Weave

open ParseTree

theorem tokensOf_append (left right : List ParseTree) :
    tokensOf (left ++ right) = tokensOf left ++ tokensOf right := by
  induction left with
  | nil => rfl
  | cons tree rest inductionHypothesis =>
      rw [List.cons_append, tokensOf_cons, tokensOf_cons, inductionHypothesis, List.append_assoc]

theorem tokensOf_map_leaf (tokens : List Token) :
    tokensOf (tokens.map .leaf) = tokens := by
  induction tokens with
  | nil => rfl
  | cons token rest inductionHypothesis =>
      rw [List.map_cons, tokensOf_cons, inductionHypothesis]
      rfl

theorem splitTrivia_append (tokens : List Token) :
    (splitTrivia tokens).1 ++ (splitTrivia tokens).2 = tokens := by
  unfold splitTrivia
  rw [List.span_eq_takeWhile_dropWhile]
  exact List.takeWhile_append_dropWhile

mutual

/-- A shape is filled with the next tokens, and what it leaves are the others. -/
theorem tokens_tree (length : Nat) (tokens : List Token) (shape : Shape) :
    tokensOf (tree length tokens shape).1 ++ (tree length tokens shape).2 = tokens := by
  have split := splitTrivia_append tokens
  match shape with
  | .leaf _ =>
      unfold tree
      generalize splitTrivia tokens = parts at split
      obtain ⟨trivia, own⟩ := parts
      cases own with
      | nil => simpa [tokensOf_map_leaf] using split
      | cons token rest =>
          dsimp only
          rw [tokensOf_append, tokensOf_map_leaf, List.append_assoc]
          exact split
  | .node kind children =>
      unfold tree
      generalize splitTrivia tokens = parts at split
      obtain ⟨trivia, own⟩ := parts
      have inner := tokens_trees length own children
      dsimp only
      rw [tokensOf_append, tokensOf_map_leaf, tokensOf_cons, tokens_node, tokensOf_nil,
        List.append_nil, List.append_assoc, inner]
      exact split

theorem tokens_trees (length : Nat) (tokens : List Token) (shapes : List Shape) :
    tokensOf (trees length tokens shapes).1 ++ (trees length tokens shapes).2 = tokens := by
  match shapes with
  | [] => rfl
  | shape :: rest =>
      have first := tokens_tree length tokens shape
      have later := tokens_trees length (tree length tokens shape).2 rest
      unfold trees
      dsimp only
      rw [tokensOf_append, List.append_assoc, later]
      exact first

end

/-- The leaves of a whole tree are the tokens of its text, once each and in order. -/
theorem tokens_root (length : Nat) (tokens : List Token) (kind : Kind) (members : List Shape) :
    (root length tokens kind members).tokens = tokens := by
  unfold root
  dsimp only
  rw [tokens_node, tokensOf_append, tokensOf_map_leaf]
  exact tokens_trees length tokens members

end GrammarDesk.Syntax.Weave
