import GrammarDesk.File.Table
import GrammarDesk.Syntax.Problem
import GrammarDesk.Text.LineIndex

/-!
Contract: what a file's analysis reports to its author.

Owns: severities, the kinds of diagnostics with their stable codes and usual
severities, and diagnostics with their related places.

Does not own: when something is reported, or in which order a file shows its
diagnostics (`Merge`).
-/

namespace GrammarDesk

open Text

inductive Severity where
  | error
  | warning
  | info
  | hint
deriving DecidableEq, Repr

namespace Severity

/-- The number editors use, from one for errors. -/
def number : Severity → Nat
  | .error => 1
  | .warning => 2
  | .info => 3
  | .hint => 4

end Severity

inductive DiagnosticKind where
  | syntaxError
  | duplicateDeclaration
  | unresolvedReference
  | ambiguousReference
  | cyclicImport
  | unresolvedImport
  | leftRecursion
  | fragmentInParserRule
  | parserRuleInLexerRule
  | implicitTokenInParser
  | ruleNotAllowed
  | grammarNameMismatch
  | emptyGrammar
deriving DecidableEq, Repr

namespace DiagnosticKind

/-- The stable code: below ten for syntax and declarations, below thirty for
references and imports, and above for the structure of a grammar. -/
def code : DiagnosticKind → String
  | .syntaxError => "G0001"
  | .duplicateDeclaration => "G0002"
  | .unresolvedReference => "G0010"
  | .ambiguousReference => "G0011"
  | .cyclicImport => "G0012"
  | .unresolvedImport => "G0013"
  | .fragmentInParserRule => "G0014"
  | .parserRuleInLexerRule => "G0015"
  | .implicitTokenInParser => "G0016"
  | .leftRecursion => "G0030"
  | .ruleNotAllowed => "G0031"
  | .grammarNameMismatch => "G0032"
  | .emptyGrammar => "G0033"

/-- The severity a diagnostic of the kind has unless it is given another. -/
def severity : DiagnosticKind → Severity
  | .ambiguousReference | .unresolvedImport | .grammarNameMismatch => .warning
  | .cyclicImport | .emptyGrammar => .info
  | _ => .error

end DiagnosticKind

/-- A place that a diagnostic points to besides its own. -/
structure RelatedPlace where
  file : File.Id
  range : Range
  span : Span
  message : String
deriving DecidableEq, Repr

/-- Something to report about a place in a file. -/
structure Diagnostic where
  file : File.Id
  range : Range
  span : Span
  severity : Severity
  kind : DiagnosticKind
  message : String
  related : List RelatedPlace
deriving DecidableEq, Repr

namespace Diagnostic

/-- A diagnostic with its kind's usual severity and no related places. -/
def ofKind (kind : DiagnosticKind) (file : File.Id) (range : Range) (span : Span)
    (message : String) : Diagnostic :=
  { file, range, span, severity := kind.severity, kind, message, related := [] }

def withSeverity (diagnostic : Diagnostic) (severity : Severity) : Diagnostic :=
  { diagnostic with severity }

def relatedTo (diagnostic : Diagnostic) (places : List RelatedPlace) : Diagnostic :=
  { diagnostic with related := diagnostic.related ++ places }

def ofSyntaxError (file : File.Id) (index : LineIndex) (error : Syntax.SyntaxError) :
    Diagnostic :=
  ofKind .syntaxError file error.range (index.cutSpan error.range) error.message

end Diagnostic

end GrammarDesk
