import GrammarDesk.Syntax.ParseTree

/-!
Contract: putting trivia back between the significant lexemes of a shape.

Owns: the place of trivia in the tree. Trivia stands just before the token or
node that follows it, outside that node, so a node starts at a significant token;
an empty node stands just before the next significant token. What is left at the
end belongs to the root.

Does not own: shapes, or the tokens themselves.
-/

namespace GrammarDesk.Syntax.Weave

open Text

/-- The offset at which the rest of the tokens starts, in a text of this
length. -/
def offsetOf (length : Nat) : List Token → Nat
  | [] => length
  | token :: _ => token.offset

/-- The trivia in front, and the tokens from the first significant one on. -/
def splitTrivia (tokens : List Token) : List Token × List Token :=
  tokens.span fun token => token.kind.isTrivia

mutual

/-- A shape filled with the tokens it spans: the trivia before it, its tree, and
the tokens after it. -/
def tree (length : Nat) (tokens : List Token) : Shape → List ParseTree × List Token
  | .leaf _ =>
      match splitTrivia tokens with
      | (trivia, []) => (trivia.map .leaf, [])
      | (trivia, token :: rest) => (trivia.map .leaf ++ [.leaf token], rest)
  | .node kind children =>
      let (trivia, own) := splitTrivia tokens
      let (inner, rest) := trees length own children
      let range := ⟨offsetOf length own, offsetOf length rest⟩
      (trivia.map .leaf ++ [.node kind range inner], rest)

def trees (length : Nat) (tokens : List Token) : List Shape → List ParseTree × List Token
  | [] => ([], tokens)
  | shape :: shapes =>
      let (first, between) := tree length tokens shape
      let (others, rest) := trees length between shapes
      (first ++ others, rest)

end

/-- The shapes of all members under one root, which also takes the trivia at the end. -/
def root (length : Nat) (tokens : List Token) (kind : Kind) (members : List Shape) : ParseTree :=
  let (inner, rest) := trees length tokens members
  .node kind ⟨offsetOf length tokens, length⟩ (inner ++ rest.map .leaf)

end GrammarDesk.Syntax.Weave
