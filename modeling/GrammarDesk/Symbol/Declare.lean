import GrammarDesk.Symbol.Table

/-!
Contract: which symbols the members of a file declare.

Owns: the symbols and imports of each member, the table of a file, and the report
of duplicate declarations.

Does not own: uses of names.
-/

namespace GrammarDesk.Declare

open Text Grammar

/-- What declarations need to know about their file. -/
structure Scope where
  file : File.Id
  index : LineIndex
  /-- The kind of grammar that the first header says. -/
  kind : GrammarKind

namespace Scope

def symbol (scope : Scope) (kind : SymbolKind) (name : Name) (declaration : Range) : Symbol :=
  .plain name.text kind scope.file name.range (scope.index.cutSpan name.range) declaration

/-- The symbol of a name that may be missing or empty. -/
def named (scope : Scope) (kind : SymbolKind) (name : Option Name) (declaration : Range) :
    List Symbol :=
  match name with
  | some name => if name.text = "" then [] else [scope.symbol kind name declaration]
  | none => []

/-- The scope of a named action that writes none. -/
def actionScope (scope : Scope) : String :=
  match scope.kind with
  | .lexer => "lexer"
  | .combined | .parser => "parser"

end Scope

/-! ## Symbols of a member -/

def detailOf (rule : Rule) : Option String :=
  if rule.signatureParts.isEmpty then none else some (" ".intercalate rule.signatureParts)

def ruleSymbols (scope : Scope) (mode : Option Name) (entry : DocumentedRule) : List Symbol :=
  let rule := entry.rule
  let kind : SymbolKind := if rule.isLexer then .lexerRule else .parserRule
  (scope.named kind rule.name rule.range).map fun symbol =>
    { symbol with
      isFragment := rule.isFragment
      mode := mode.map fun name => name.text
      literal := if rule.isLexer && !rule.isFragment then rule.singleLiteral else none
      detail := detailOf rule
      doc := entry.doc }

/-- The symbol of an import: the name it is given, or else the name of the
grammar. -/
def importSymbols (scope : Scope) (item : ImportItem) : List Symbol :=
  match item.target with
  | none => []
  | some target =>
      match item.alternateName with
      | some name => scope.named .importedGrammar (some name) item.range
      | none => [scope.symbol .importedGrammar target item.range]

/-- The symbols that a member declares, in order. -/
def symbolsOf (scope : Scope) : Member → List Symbol
  | .header header =>
      (scope.named .grammar header.name header.range).map fun symbol =>
        { symbol with doc := header.doc }
  | .options _ _ => []
  | .imports _ items => items.flatMap (importSymbols scope)
  | .tokens _ entries =>
      entries.flatMap fun entry => scope.named .virtualToken entry.name entry.range
  | .channels _ entries =>
      entries.flatMap fun entry => scope.named .channel entry.name entry.range
  | .namedAction range name =>
      match name with
      | none => []
      | some name =>
          let (written, action) := scopeAndName name
          let full := written.getD scope.actionScope ++ "::" ++ action
          [scope.symbol .namedAction ⟨full, name.range⟩ range]
  | .rule rule => ruleSymbols scope none rule
  | .mode mode =>
      ((scope.named .mode mode.name mode.range).map fun symbol =>
          { symbol with doc := mode.doc }) ++
        mode.rules.flatMap (ruleSymbols scope mode.name)

def importsOf (index : LineIndex) : Member → List ImportClause
  | .options _ settings =>
      match vocabularyOf settings with
      | some name => [⟨name.text, .vocabulary, name.range, index.cutSpan name.range⟩]
      | none => []
  | .imports _ items =>
      items.filterMap fun item =>
        item.target.map fun name =>
          ⟨name.text, .delegate, name.range, index.cutSpan name.range⟩
  | _ => []

/-! ## Duplicates -/

/-- The report of a symbol that an earlier one is in the way of. The report is
only a warning between a lexer rule and a listed token. -/
def duplicate (symbol first : Symbol) : Diagnostic :=
  let report := Diagnostic.ofKind .duplicateDeclaration symbol.file symbol.range symbol.span
    ("duplicate declaration: " ++ symbol.kind.display ++ " '" ++ symbol.name ++
      "' is already declared")
  let severity : Severity := if symbol.kind = first.kind then .error else .warning
  (report.withSeverity severity).relatedTo
    [⟨first.file, first.range, first.span, "first declaration of '" ++ first.name ++ "'"⟩]

/-- The reports of duplicate declarations among symbols declared after those in
`firsts`, of which no two are in each other's way; each report points to the
first symbol that is in the way. -/
def duplicates (firsts : List Symbol) : List Symbol → List Diagnostic
  | [] => []
  | symbol :: rest =>
      match firsts.find? symbol.clashes with
      | some first => duplicate symbol first :: duplicates firsts rest
      | none => duplicates (symbol :: firsts) rest

/-! ## The table of a file -/

def headerOf (index : LineIndex) (members : List Member) : Option GrammarHeader :=
  (headerOf? members).bind fun header =>
    header.name.map fun name =>
      ⟨name.text, header.kind, name.range, index.cutSpan name.range⟩

def table (file : File.Id) (index : LineIndex) (members : List Member) :
    SymbolTable × List Diagnostic :=
  let header := headerOf index members
  let kind :=
    match header with
    | some header => header.kind
    | none => .combined
  let symbols := members.flatMap (symbolsOf ⟨file, index, kind⟩)
  (⟨symbols, header, members.flatMap (importsOf index)⟩, duplicates [] symbols)

end GrammarDesk.Declare
