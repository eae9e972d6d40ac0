import GrammarDesk.Grammar.Element

/-!
Contract: what the elements of a rule body can start with.

Owns: the rules of one class that a body can start with, and whether an element
by itself can match nothing, both found in one walk over the body.

Does not own: whether a referenced rule can match nothing; only what an element
shows by itself counts.
-/

namespace GrammarDesk.Check

open Grammar

/-- How a part of a rule body can begin: with one of some rules, or with nothing
at all. -/
structure Opening where
  rules : List String
  canBeEmpty : Bool
deriving DecidableEq, Repr

namespace Opening

/-- The opening of a part that starts with no rule and matches something. -/
def solid : Opening := ⟨[], false⟩

/-- The opening of a part that matches nothing. -/
def void : Opening := ⟨[], true⟩

/-- The opening of two parts in a row: the second counts only if the first can
match nothing. -/
def before (first second : Opening) : Opening :=
  if first.canBeEmpty then
    ⟨first.rules ++ second.rules, second.canBeEmpty⟩
  else
    first

/-- The opening of a choice between two parts. -/
def either (left right : Opening) : Opening :=
  ⟨left.rules ++ right.rules, left.canBeEmpty || right.canBeEmpty⟩

mutual

/-- The opening of an element, by the rules of one class. -/
def ofElement (lexer : Bool) : Element → Opening
  | .labeled _ _ _ inner => ofInner lexer inner
  | .repeated _ suffix _ inner =>
      let once := ofInner lexer inner
      { once with canBeEmpty := once.canBeEmpty || suffix.allowsNone }
  | .block _ alternatives => ofAlternatives lexer alternatives
  | .ruleRef _ name => if lexer then solid else ⟨[name.text], false⟩
  | .tokenRef _ name => if lexer then ⟨[name.text], false⟩ else solid
  | .action _ _ | .predicate _ _ => void
  | .negated _ _ | .literal _ _ | .charRange _ _ | .charSet _ _ | .wildcard _ => solid

/-- The opening of an element that may be missing; a missing one cannot match
nothing. -/
def ofInner (lexer : Bool) : Option Element → Opening
  | none => solid
  | some element => ofElement lexer element

def ofElements (lexer : Bool) : List Element → Opening
  | [] => void
  | element :: rest => (ofElement lexer element).before (ofElements lexer rest)

def ofAlternative (lexer : Bool) : Alternative → Opening
  | .mk _ elements _ => ofElements lexer elements

/-- The opening of a choice of alternatives; one without any is solid. -/
def ofAlternatives (lexer : Bool) : List Alternative → Opening
  | [] => solid
  | alternative :: rest =>
      (ofAlternative lexer alternative).either (ofAlternatives lexer rest)

end

end Opening

end GrammarDesk.Check
