import GrammarDesk.Workspace.Basic

/-!
Contract: the outline of a file.

Owns: the entries an editor lists, one for every declaration, duplicates
included.
-/

namespace GrammarDesk

open Text

structure OutlineEntry where
  name : String
  kind : SymbolKind
  file : File.Id
  range : Range
  span : Span
  /-- Where the whole declaration is written. -/
  declaration : Range
  /-- The mode that groups the rules of a lexer. -/
  container : Option String
  /-- The declaration in one line. -/
  detail : String
deriving DecidableEq, Repr

namespace OutlineEntry

def ofSymbol (symbol : Symbol) : OutlineEntry :=
  { name := symbol.name
    kind := symbol.kind
    file := symbol.file
    range := symbol.range
    span := symbol.span
    declaration := symbol.declaration
    container := symbol.mode
    detail := symbol.signature }

end OutlineEntry

def Snapshot.outline (snapshot : Snapshot) (path : File.Path) : List OutlineEntry :=
  match snapshot.fileAt? path with
  | none => []
  | some source => source.symbols.map OutlineEntry.ofSymbol

end GrammarDesk
