import GrammarDesk.Reference.Lookup
import GrammarDesk.Symbol.Declare
import GrammarDesk.Syntax.Parse

/-!
Contract: symbol tables that find their symbols by index.

Owns: indexes of places by text, tables with an index of names and one of literals, how a table
is filled while the members of a file are read, and lookups that go through the indexes.

Does not own: which symbols match a name (`Table`), or what a member declares (`Declare`).

A symbol is put into the index of names when it is declared. What is read off the rest of its
declaration is filled in afterwards, where the symbol stands; only then is a rule that is one
literal put into the index of literals. A lookup fails where an index leads past the symbols.
-/

namespace GrammarDesk

open Grammar Text

/-! ## Indexes -/

/-- Places by a text, the texts in the order in which they came up. -/
abbrev Index := List (String × List Nat)

namespace Index

def places (index : Index) (key : String) : List Nat :=
  (index.lookup key).getD []

/-- The index with one more place of a text, behind the others that it has. -/
def push (key : String) (place : Nat) : Index → Index
  | [] => [(key, [place])]
  | (other, places) :: rest =>
      if other = key then
        (other, places ++ [place]) :: rest
      else
        (other, places) :: push key place rest

end Index

/-! ## Tables -/

/-- The declarations of a file in their order, with the places at which each name and each literal
stands, its header and its imports. -/
structure IndexedTable where
  symbols : List Symbol
  byName : Index
  byLiteral : Index
  header : Option GrammarHeader
  imports : List ImportClause
deriving DecidableEq, Repr

namespace IndexedTable

def empty : IndexedTable :=
  ⟨[], [], [], none, []⟩

def plain (table : IndexedTable) : SymbolTable :=
  ⟨table.symbols, table.header, table.imports⟩

def insert (table : IndexedTable) (symbol : Symbol) : IndexedTable :=
  let place := table.symbols.length
  { table with
    symbols := table.symbols ++ [symbol]
    byName := table.byName.push symbol.name place
    byLiteral :=
      match symbol.literal with
      | some literal => table.byLiteral.push literal place
      | none => table.byLiteral }

/-- The table in which the symbol at a place is another one. The indexes stay as they are. -/
def revise (table : IndexedTable) (place : Nat) (change : Symbol → Symbol) : IndexedTable :=
  { table with symbols := table.symbols.modify place change }

/-- The table in which the symbol at a place is known to be a literal. -/
def setLiteral (table : IndexedTable) (place : Nat) (literal : String) : IndexedTable :=
  { table.revise place fun symbol => { symbol with literal := some literal } with
    byLiteral := table.byLiteral.push literal place }

def addImport (table : IndexedTable) (clause : ImportClause) : IndexedTable :=
  { table with imports := table.imports ++ [clause] }

/-! ## Lookups -/

/-- The symbols at some places, if all of them are places of symbols. -/
def at? (table : IndexedTable) (places : List Nat) : Option (List Symbol) :=
  places.mapM fun place => table.symbols[place]?

def lookup? (table : IndexedTable) (name : String) : Option (List Symbol) :=
  table.at? (table.byName.places name)

def lookupLiteral? (table : IndexedTable) (literal : String) : Option (List Symbol) :=
  table.at? (table.byLiteral.places literal)

def candidates? (table : IndexedTable) (visibility : Visibility) (kind : ReferenceKind)
    (name : String) : Option (List Symbol) :=
  let named :=
    match kind with
    | .literal => table.lookupLiteral? name
    | _ => table.lookup? name
  named.map fun symbols =>
    symbols.filter fun symbol => kind.accepts symbol && visibility.shows symbol

/-! ## Filling a table -/

/-- The table in which a name that may be missing or empty is declared, and the place of its
symbol. -/
def declare? (table : IndexedTable) (scope : Declare.Scope) (kind : SymbolKind)
    (name : Option Name) (declaration : Range) : Option (IndexedTable × Nat) :=
  match name with
  | none => none
  | some name =>
      if name.text = "" then
        none
      else
        some (table.insert (scope.symbol kind name declaration), table.symbols.length)

def declare (table : IndexedTable) (scope : Declare.Scope) (kind : SymbolKind)
    (name : Option Name) (declaration : Range) : IndexedTable :=
  match table.declare? scope kind name declaration with
  | none => table
  | some (declared, _) => declared

def declareDocumented (table : IndexedTable) (scope : Declare.Scope) (kind : SymbolKind)
    (name : Option Name) (declaration : Range) (doc : Option String) : IndexedTable :=
  match table.declare? scope kind name declaration with
  | none => table
  | some (declared, place) => declared.revise place fun symbol => { symbol with doc }

/-- The table in which a rule is declared, in a mode if one is given. The literal of the rule comes
last, after all else is filled in. -/
def declareRule (scope : Declare.Scope) (mode : Option Name) (table : IndexedTable)
    (entry : DocumentedRule) : IndexedTable :=
  let rule := entry.rule
  let kind : SymbolKind := if rule.isLexer then .lexerRule else .parserRule
  match table.declare? scope kind rule.name rule.range with
  | none => table
  | some (declared, place) =>
      let revised := declared.revise place fun symbol =>
        { symbol with
          isFragment := rule.isFragment
          mode := mode.map fun name => name.text
          doc := entry.doc
          detail :=
            if rule.signatureParts.isEmpty then symbol.detail
            else some (" ".intercalate rule.signatureParts) }
      if kind = .lexerRule && !rule.isFragment then
        match rule.singleLiteral with
        | some literal => revised.setLiteral place literal
        | none => revised
      else
        revised

def declareImport (scope : Declare.Scope) (table : IndexedTable) (item : ImportItem) :
    IndexedTable :=
  match item.target with
  | none => table
  | some target =>
      let imported := table.addImport
        ⟨target.text, .delegate, target.range, scope.index.cutSpan target.range⟩
      match item.alternateName with
      | some name => imported.declare scope .importedGrammar (some name) item.range
      | none => imported.insert (scope.symbol .importedGrammar target item.range)

def declareEntries (scope : Declare.Scope) (kind : SymbolKind) (table : IndexedTable)
    (entries : List ListEntry) : IndexedTable :=
  entries.foldl (fun table entry => table.declare scope kind entry.name entry.range) table

def declareMember (scope : Declare.Scope) (table : IndexedTable) : Member → IndexedTable
  | .header header => table.declareDocumented scope .grammar header.name header.range header.doc
  | .options _ settings =>
      match vocabularyOf settings with
      | some name =>
          table.addImport ⟨name.text, .vocabulary, name.range, scope.index.cutSpan name.range⟩
      | none => table
  | .imports _ items => items.foldl (declareImport scope) table
  | .tokens _ entries => table.declareEntries scope .virtualToken entries
  | .channels _ entries => table.declareEntries scope .channel entries
  | .namedAction range name =>
      match name with
      | none => table
      | some name =>
          let (written, action) := scopeAndName name
          let full := written.getD scope.actionScope ++ "::" ++ action
          table.insert (scope.symbol .namedAction ⟨full, name.range⟩ range)
  | .rule rule => declareRule scope none table rule
  | .mode mode =>
      mode.rules.foldl (declareRule scope mode.name)
        (table.declareDocumented scope .mode mode.name mode.range mode.doc)

/-- The table of a file. The header is read first, since it decides the scope of named actions. -/
def ofMembers (file : File.Id) (index : LineIndex) (members : List Member) : IndexedTable :=
  let filled := { empty with header := Declare.headerOf index members }
  members.foldl (declareMember ⟨file, index, filled.plain.grammarKind⟩) filled

/-- The table of a text; none for a text that begins with trivia. -/
def ofText? (file : File.Id) (text : String) : Option IndexedTable :=
  (Syntax.Parse.ofText? text).map fun parse =>
    ofMembers file (.ofText text) (membersOf parse.tree)

end IndexedTable

/-! ## Scopes -/

structure ImportedIndex where
  file : File.Id
  table : IndexedTable
  visibility : Visibility
  /-- The least number of imports that lead there. -/
  depth : Nat
deriving Repr

/-- All that the references of a file can be bound to, found by index. -/
structure IndexedScope where
  table : IndexedTable
  /-- The import closure, in the order of lookup. -/
  closure : List ImportedIndex
  /-- The symbols that names of imported grammars stand for. -/
  grammars : List (String × Symbol)
deriving Repr

def ImportedIndex.plain (entry : ImportedIndex) : ImportedTable :=
  ⟨entry.file, entry.table.plain, entry.visibility, entry.depth⟩

namespace IndexedScope

def plain (scope : IndexedScope) : Scope :=
  ⟨scope.table.plain, scope.closure.map ImportedIndex.plain, scope.grammars⟩

/-- What a name is bound to in a scope. -/
def lookup? (scope : IndexedScope) (kind : ReferenceKind) (name : String) : Option Resolution :=
  if kind.isBuiltIn name then
    some .builtIn
  else if kind = .grammar then
    some (Scope.resolvedTo (scope.grammars.lookup name).toList)
  else
    match scope.table.candidates? .all kind name with
    | none => none
    | some [] =>
        let imported (entry : ImportedIndex) := entry.table.candidates? entry.visibility kind name
        (scope.closure.mapM imported).map fun found => Scope.resolvedTo found.flatten
    | some own => some (.resolved own)

end IndexedScope

end GrammarDesk
