import GrammarDesk.Syntax.Lexeme
import GrammarDesk.Text.Range

/-!
Contract: what can be wrong with the syntax of a grammar file.

Owns: the causes of syntax problems and their wording, where a problem stands
among the significant lexemes, the byte range that this place has in a text, and
the problems that a list of lexemes has whatever is read from it.

Does not own: when a problem arises (`Reading` and the productions).
-/

namespace GrammarDesk.Syntax

open GrammarDesk.Text

/-- How a file departs from the grammar. -/
inductive Fault where
  /-- No header occurs anywhere in the file. -/
  | missingHeader
  /-- A token of this kind had to come next. -/
  | missingToken (kind : Kind)
  | missingGrammarName
  | missingRuleName
  | missingModeName
  | missingLabelName
  | missingOptionName
  | missingOptionValue
  | missingListEntry
  | missingActionName
  | missingColon
  | missingLabeledElement
  | missingRangeEnd
  | missingNegatedElement
  | missingCommand
  | missingCommandArgument
  /-- A rule runs into the next member without its semicolon. -/
  | missingRuleEnd
  /-- No member starts with this token. -/
  | notAMember (found : Kind)
  /-- No lexer rule starts with this token. -/
  | notALexerRule (found : Kind)
  /-- A rule body cannot go on with this token. -/
  | notInRuleBody (found : Kind)
deriving DecidableEq, Repr

namespace Fault

def message : Fault → String
  | .missingHeader => "missing grammar declaration"
  | .missingToken kind => "expected " ++ kind.describe
  | .missingGrammarName => "expected grammar name"
  | .missingRuleName => "expected rule name"
  | .missingModeName => "expected mode name"
  | .missingLabelName => "expected alternative label"
  | .missingOptionName => "expected option name"
  | .missingOptionValue => "expected option value"
  | .missingListEntry => "expected identifier"
  | .missingActionName => "expected action name"
  | .missingColon => "expected ':' after rule name"
  | .missingLabeledElement => "expected element after label"
  | .missingRangeEnd => "expected literal after '..'"
  | .missingNegatedElement => "expected set element after '~'"
  | .missingCommand => "expected lexer command"
  | .missingCommandArgument => "expected lexer command argument"
  | .missingRuleEnd => "missing ';' at end of rule"
  | .notAMember found => "expected grammar member, found " ++ found.describe
  | .notALexerRule found => "expected lexer rule, found " ++ found.describe
  | .notInRuleBody found => "unexpected " ++ found.describe ++ " in rule body"

end Fault

/-- Why a file is not well formed. -/
inductive Cause where
  /-- A lexeme that no class of tokens accepts. -/
  | unreadable (text : String)
  /-- Readable lexemes that do not follow the grammar. -/
  | malformed (fault : Fault)
deriving DecidableEq, Repr

namespace Cause

def beginsWith (start text : String) : Bool :=
  start.toList.isPrefixOf text.toList

/-- What is wrong with a lexeme that no class accepts: an unclosed string,
block or comment, told by how it starts, or a stray character. -/
def unreadableMessage (text : String) : String :=
  if beginsWith "'" text then "unterminated string literal"
  else if beginsWith "\x7b" text then "unterminated action block"
  else if beginsWith "/*" text then "unterminated comment"
  else if beginsWith "[" text then "unterminated bracket block"
  else "unrecognized input `" ++ text ++ "`"

def message : Cause → String
  | .unreadable text => unreadableMessage text
  | .malformed fault => fault.message

end Cause

/-- Where a problem stands among the significant lexemes. A lexeme is told by
the number of lexemes after it, so a place does not depend on what came
before. -/
inductive Place where
  | fileStart
  | fileEnd
  /-- At the lexeme that `later` lexemes follow. -/
  | lexeme (later : Nat)
  /-- Just after the lexeme that `later` lexemes follow. -/
  | after (later : Nat)
deriving DecidableEq, Repr

namespace Place

/-- The place of the first of these lexemes, which are the last of a file. -/
def next : List Lexeme → Place
  | [] => .fileEnd
  | _ :: tail => .lexeme tail.length

/-- The byte range of a place in a text of this length whose significant tokens
are these, last first. -/
def range (backward : Array Token) (length : Nat) : Place → Range
  | .fileStart => .emptyAt 0
  | .fileEnd => .emptyAt length
  | .lexeme later =>
      match backward[later]? with
      | some token => ⟨token.offset, token.stop⟩
      | none => .emptyAt 0
  | .after later =>
      match backward[later]? with
      | some token => .emptyAt token.stop
      | none => .emptyAt 0

end Place

structure Problem where
  place : Place
  cause : Cause
deriving DecidableEq, Repr

namespace Problem

def isUnreadable (problem : Problem) : Bool :=
  match problem.cause with
  | .unreadable _ => true
  | .malformed _ => false

/-- The problem of a lexeme that `later` lexemes follow: none if it is
readable. -/
def ofLexeme (later : Nat) (lexeme : Lexeme) : List Problem :=
  if lexeme.kind = .error then [⟨.lexeme later, .unreadable lexeme.text⟩] else []

/-- The unreadable ones of some lexemes that `later` others follow. -/
def ofLexemes (later : Nat) : List Lexeme → List Problem
  | [] => []
  | head :: tail => ofLexeme (tail.length + later) head ++ ofLexemes later tail

@[simp] theorem ofLexemes_nil (later : Nat) : ofLexemes later [] = [] := rfl

theorem ofLexemes_append (later : Nat) (left right : List Lexeme) :
    ofLexemes later (left ++ right) =
      ofLexemes (right.length + later) left ++ ofLexemes later right := by
  induction left with
  | nil => rfl
  | cons head tail inductionHypothesis =>
      simp only [List.cons_append, ofLexemes, inductionHypothesis, List.length_append,
        List.append_assoc, Nat.add_assoc]

theorem filter_ofLexeme (later : Nat) (lexeme : Lexeme) :
    (ofLexeme later lexeme).filter isUnreadable = ofLexeme later lexeme := by
  by_cases unreadable : lexeme.kind = .error
  · simp [ofLexeme, unreadable, isUnreadable]
  · simp [ofLexeme, unreadable]

end Problem

structure SyntaxError where
  range : Range
  cause : Cause
deriving DecidableEq, Repr

namespace SyntaxError

def message (error : SyntaxError) : String :=
  error.cause.message

end SyntaxError

end GrammarDesk.Syntax
