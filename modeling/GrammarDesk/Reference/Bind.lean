import GrammarDesk.Reference.Lookup

/-!
Contract: the references of a file and what is wrong with them.

Owns: references, binding every use to what it means, and the reports about
uses: unresolved and ambiguous names, literals that a parser grammar cannot
define, and rules of the wrong class.
-/

namespace GrammarDesk

open Text

/-- A use of a name and what it is bound to. -/
structure Reference where
  file : File.Id
  range : Range
  span : Span
  name : String
  kind : ReferenceKind
  /-- The name of the rule it is in. -/
  rule : Option String
  resolution : Resolution
deriving DecidableEq, Repr

/-- What binding the uses of a file needs to know. -/
structure Binder where
  file : File.Id
  index : LineIndex
  scope : Scope
  /-- Whether an import of a grammar that is not loaded is reported. -/
  reportImports : Bool
deriving Repr

namespace Binder

/-- The binding of a use. An unknown literal defines its own token, except in a
parser grammar. -/
def resolutionOf (binder : Binder) (use : Use) : Resolution :=
  let found := binder.scope.lookup use.kind use.name.text
  if use.kind = .literal ∧ found = .unresolved ∧ binder.scope.table.grammarKind ≠ .parser then
    .builtIn
  else
    found

def reference (binder : Binder) (use : Use) : Reference :=
  { file := binder.file
    range := use.name.range
    span := binder.index.cutSpan use.name.range
    name := use.name.text
    kind := use.kind
    rule := use.rule
    resolution := binder.resolutionOf use }

def report (binder : Binder) (use : Use) (kind : DiagnosticKind) (message : String) :
    Diagnostic :=
  .ofKind kind binder.file use.name.range (binder.index.cutSpan use.name.range) message

def quoted (name : String) : String :=
  "'" ++ name ++ "'"

/-- The report of a use that nothing declares. A missing import may be silent;
a missing literal is one that a parser grammar cannot define. -/
def unresolvedReports (binder : Binder) (use : Use) : List Diagnostic :=
  match use.kind with
  | .grammar =>
      if binder.reportImports then
        [binder.report use .unresolvedImport
          ("imported grammar " ++ quoted use.name.text ++ " is not loaded")]
      else
        []
  | .literal =>
      [binder.report use .implicitTokenInParser
        ("cannot create implicit token for literal " ++ use.name.text ++
          " in a parser grammar")]
  | kind =>
      [binder.report use .unresolvedReference
        ("unresolved reference: " ++ kind.display ++ " " ++ quoted use.name.text ++
          " is not declared")]

/-- The report of a use that several files declare. -/
def ambiguityReports (binder : Binder) (use : Use) (resolution : Resolution) :
    List Diagnostic :=
  if resolution.isAmbiguous then
    let report := binder.report use .ambiguousReference
      ("ambiguous reference: " ++ quoted use.name.text ++ " is declared in " ++
        toString resolution.files.length ++ " imported grammars")
    [report.relatedTo
      (resolution.targets.map fun symbol =>
        ⟨symbol.file, symbol.range, symbol.span,
          "candidate " ++ symbol.kind.display ++ " " ++ quoted symbol.name⟩)]
  else
    []

/-- The reports of a use whose definition cannot stand where it is used: a
fragment in a parser rule, or a parser rule in a lexer rule. -/
def misuseReports (binder : Binder) (use : Use) (resolution : Resolution) :
    List Diagnostic :=
  let rule := quoted (use.rule.getD "?")
  match use.kind, resolution.definition with
  | .grammar, _ | .literal, _ | _, none => []
  | kind, some target =>
      if !use.inLexerRule && kind = .token && target.isFragment then
        [binder.report use .fragmentInParserRule
          ("parser rule " ++ rule ++ " cannot reference fragment token " ++
            quoted use.name.text)]
      else if use.inLexerRule && target.kind = .parserRule then
        [binder.report use .parserRuleInLexerRule
          ("lexer rule " ++ rule ++ " cannot reference parser rule " ++
            quoted use.name.text)]
      else
        []

def reports (binder : Binder) (use : Use) : List Diagnostic :=
  match binder.resolutionOf use with
  | .unresolved => binder.unresolvedReports use
  | .builtIn => []
  | .resolved targets =>
      if use.kind = .grammar then
        []
      else
        binder.ambiguityReports use (.resolved targets) ++
          binder.misuseReports use (.resolved targets)

/-- The references of a file and the reports about them, in the order of the
text. -/
def bind (binder : Binder) (uses : List Use) : List Reference × List Diagnostic :=
  (uses.map binder.reference, uses.flatMap binder.reports)

end Binder

end GrammarDesk
