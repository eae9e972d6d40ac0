import GrammarDesk.Syntax.Production.Element

/-!
Contract: the productions of a rule.

Owns: which kind of rule starts here, what may stand between a rule's name and
its colon, how a rule ends, and the handlers after it.

Does not own: the body (`Element`).
-/

namespace GrammarDesk.Syntax.Production

open Reading

/-- Whether the rule that starts here is a lexer rule: its name is a token name,
or it has no name and starts as a fragment. -/
def ruleKind (input : List Lexeme) : Kind :=
  match input.dropWhile fun lexeme => lexeme.kind.isRuleModifier with
  | head :: _ =>
      if head.kind = .identifier then
        if Text.isTokenName head.text then .lexerRule else .parserRule
      else if Ahead.next .fragmentKeyword input then
        .lexerRule
      else
        .parserRule
  | [] => if Ahead.next .fragmentKeyword input then .lexerRule else .parserRule

def modifiers : (input : List Lexeme) → Attempt input
  | [] => nothing []
  | head :: tail =>
      if head.kind.isRuleModifier then
        (take head tail).attempt.andThen (modifiers tail)
      else
        nothing (head :: tail)

/-! ## Between the name and the colon -/

/-- The further exception names of a rule, each after a comma. -/
def moreThrown : (input : List Lexeme) → Attempt input
  | [] => nothing []
  | head :: tail =>
      if head.kind = .comma then
        let named := (take head tail).expect .identifier
        named.attempt.andThen (moreThrown named.rest)
      else
        nothing (head :: tail)
termination_by input => input.length
decreasing_by exact Nat.lt_succ_of_le named.within

/-- One specification of a rule, none if these lexemes start none. -/
def ruleSpec? (head : Lexeme) (tail : List Lexeme) : Option (Advance head tail) :=
  let first := take head tail
  match head.kind with
  | .bracketBlock => some (first.node .argSpec)
  | .returnsKeyword => some ((first.expect .bracketBlock).node .returnsSpec)
  | .localsKeyword => some ((first.expect .bracketBlock).node .localsSpec)
  | .throwsKeyword =>
      let named := first.expect .identifier
      some ((named.andThen (moreThrown named.rest)).node .throwsSpec)
  | .optionsKeyword => some (optionsSpec head tail)
  | .atSign => some (((first.expect .identifier).expect .action).node .ruleAction)
  | _ => none

def ruleSpecs : (input : List Lexeme) → Attempt input
  | [] => nothing []
  | head :: tail =>
      match ruleSpec? head tail with
      | none => nothing (head :: tail)
      | some first => first.attempt.andThen (ruleSpecs first.rest)
termination_by input => input.length
decreasing_by exact Nat.lt_succ_of_le first.within

/-! ## After the body -/

/-- The end of a rule. A rule without its semicolon ends before the next member;
anything else before the semicolon is skipped. -/
def ruleEnd : (input : List Lexeme) → Attempt input
  | [] => (nothing []).reportAfter .missingRuleEnd
  | head :: tail =>
      if head.kind = .semicolon then
        (take head tail).attempt
      else if Ahead.memberStart (head :: tail) then
        (nothing (head :: tail)).reportAfter .missingRuleEnd
      else
        ((recover (.notInRuleBody head.kind) [.semicolon] head tail).eat .semicolon).attempt

def handlers : (input : List Lexeme) → Attempt input
  | [] => nothing []
  | head :: tail =>
      if head.kind = .catchKeyword then
        let handler :=
          (((take head tail).expect .bracketBlock).expect .action).node .exceptionHandler
        handler.attempt.andThen (handlers handler.rest)
      else
        nothing (head :: tail)
termination_by input => input.length
decreasing_by exact Nat.lt_succ_of_le handler.within

def finallyClause? : (input : List Lexeme) → Attempt input
  | [] => nothing []
  | head :: tail =>
      if head.kind = .finallyKeyword then
        (((take head tail).expect .action).node .finallyClause).attempt
      else
        nothing (head :: tail)

/-! ## Rules -/

/-- The body of a rule after its colon, its end and its handlers. -/
def ruleBody (input : List Lexeme) : Attempt input :=
  let body := alternativeList input
  let ended := body.andThen (ruleEnd body.rest)
  let handled := ended.andThen (handlers ended.rest)
  handled.andThen (finallyClause? handled.rest)

def ruleName (head : Lexeme) (tail : List Lexeme) : Advance head tail :=
  if head.kind.isRuleModifier then
    let modified := (take head tail).andThen (modifiers tail)
    modified.andThen (name .missingRuleName modified.rest)
  else
    (take head tail).node .name

/-- A rule, from its first modifier or its name on. Without a colon, a body is
read only if an element starts in its place. -/
def rule (head : Lexeme) (tail : List Lexeme) : Advance head tail :=
  let named := ruleName head tail
  let declared := named.andThen (ruleSpecs named.rest)
  let read :=
    if Ahead.next .colon declared.rest then
      let opened := declared.bump
      opened.andThen (ruleBody opened.rest)
    else
      let reported := declared.report .missingColon
      if Ahead.elementStart reported.rest then
        reported.andThen (ruleBody reported.rest)
      else
        reported
  read.node (ruleKind (head :: tail))

end GrammarDesk.Syntax.Production
