import GrammarDesk.Check.LeftRecursion
import GrammarDesk.Symbol.Table

/-!
Contract: checks of one file that need no other file.

Owns: where rules and modes may stand, the agreement of a grammar's name with
its file, grammars without rules, and the sequence of all checks.

Does not own: left recursion (`LeftRecursion`).
-/

namespace GrammarDesk.Check

open Text Grammar

structure Subject where
  file : File.Id
  index : LineIndex
  table : SymbolTable
deriving Repr

namespace Subject

def report (subject : Subject) (kind : DiagnosticKind) (range : Range) (message : String) :
    Diagnostic :=
  .ofKind kind subject.file range (subject.index.cutSpan range) message

end Subject

def describe : GrammarKind → String
  | .combined => "combined"
  | .lexer => "lexer"
  | .parser => "parser"

def ruleClass (subject : Subject) (rule : Rule) : List Diagnostic :=
  let kind := subject.table.grammarKind
  match rule.name with
  | none => []
  | some name =>
      if rule.isLexer && !kind.allowsLexerRules then
        [subject.report .ruleNotAllowed name.range
          ("lexer rule '" ++ name.text ++ "' not allowed in a parser grammar")]
      else if !rule.isLexer && !kind.allowsParserRules then
        [subject.report .ruleNotAllowed name.range
          ("parser rule '" ++ name.text ++ "' not allowed in a lexer grammar")]
      else
        []

/-- The reports about where a member stands. Only lexer grammars have modes. -/
def placement (subject : Subject) : Member → List Diagnostic
  | .rule entry => ruleClass subject entry.rule
  | .mode mode =>
      let kind := subject.table.grammarKind
      let modes :=
        if kind = .lexer then
          []
        else
          let range :=
            match mode.name with
            | some name => name.range
            | none => mode.range
          [subject.report .ruleNotAllowed range
            ("lexer modes are not allowed in a " ++ describe kind ++ " grammar")]
      modes ++ mode.rules.flatMap fun entry => ruleClass subject entry.rule
  | _ => []

/-- The report of a grammar that is not named like its file. -/
def grammarName (subject : Subject) (stem : Option String) : List Diagnostic :=
  match subject.table.header, stem with
  | some header, some stem =>
      if header.name = stem then
        []
      else
        [subject.report .grammarNameMismatch header.range
          ("grammar name '" ++ header.name ++ "' does not match file name '" ++ stem ++ "'")]
  | _, _ => []

def emptyGrammar (subject : Subject) : List Diagnostic :=
  match subject.table.header with
  | some header =>
      if subject.table.ruleCount = 0 then
        [subject.report .emptyGrammar header.range
          ("grammar '" ++ header.name ++ "' declares no rules")]
      else
        []
  | none => []

/-- All checks of a file. `stem` is the name of the file, if it is known. -/
def grammar (subject : Subject) (members : List Member) (rules : List Rule)
    (stem : Option String) : List Diagnostic :=
  members.flatMap (placement subject) ++
    leftRecursion subject.file subject.index rules ++
    grammarName subject stem ++
    emptyGrammar subject

end GrammarDesk.Check
