import GrammarDesk.Grammar.Element

/-!
Contract: rules as values.

Owns: what the node of a rule says: its class, name, signature and body.

Does not own: what the surroundings of a rule say, its mode and its
documentation (`Member`).
-/

namespace GrammarDesk.Grammar

open Syntax Text

structure Rule where
  range : Range
  isLexer : Bool
  isFragment : Bool
  name : Option Name
  /-- Arguments, return values and local variables, as written. -/
  signatureParts : List String
  alternatives : List Alternative
deriving Repr

namespace Rule

def isRule : ParseTree → Bool
  | .leaf _ => false
  | .node kind _ _ => kind.isRule

def isSignaturePart : ParseTree → Bool
  | .node .argSpec _ _ | .node .returnsSpec _ _ | .node .localsSpec _ _ => true
  | _ => false

def ofTree (tree : ParseTree) : Rule :=
  let parts := tree.children
  { range := tree.range
    isLexer := tree.isNode .lexerRule
    isFragment := hasToken .fragmentKeyword parts
    name := nameOf? .name parts
    signatureParts :=
      (parts.filter isSignaturePart).map fun part =>
        " ".intercalate (part.significantTokens.map fun token => token.text)
    alternatives := firstAlternativesOf parts }

/-- The literal that makes up the whole body of the rule, if one does. -/
def singleLiteral (rule : Rule) : Option String :=
  match rule.alternatives with
  | [alternative] =>
      match alternative.elements with
      | [.literal _ literal] => some literal.text
      | _ => none
  | _ => none

def nameText (rule : Rule) : Option String :=
  rule.name.map fun name => name.text

end Rule

mutual

def rulesOf : ParseTree → List Rule
  | .leaf _ => []
  | .node kind range parts =>
      let below := rulesOfParts parts
      if kind.isRule then Rule.ofTree (.node kind range parts) :: below else below

def rulesOfParts : List ParseTree → List Rule
  | [] => []
  | tree :: rest => rulesOf tree ++ rulesOfParts rest

end

end GrammarDesk.Grammar
