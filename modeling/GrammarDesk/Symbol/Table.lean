import GrammarDesk.Symbol.Basic

/-!
Contract: all that one file declares.

Owns: symbol tables and finding symbols in them by name, by literal, and by rule
name.

Main statement: a lookup yields exactly the symbols that match, in the order of
their declarations, because it filters the one list of symbols.
-/

namespace GrammarDesk

/-- The declarations of a file in their order, its header and its imports. -/
structure SymbolTable where
  symbols : List Symbol
  header : Option GrammarHeader
  imports : List ImportClause
deriving DecidableEq, Repr

namespace SymbolTable

def lookup (table : SymbolTable) (name : String) : List Symbol :=
  table.symbols.filter fun symbol => symbol.name = name

/-- The lexer rules whose body is a literal. -/
def lookupLiteral (table : SymbolTable) (literal : String) : List Symbol :=
  table.symbols.filter fun symbol => symbol.literal = some literal

def rule? (table : SymbolTable) (name : String) : Option Symbol :=
  (table.lookup name).find? fun symbol => symbol.kind.isRule

def grammarName (table : SymbolTable) : Option String :=
  table.header.map fun header => header.name

/-- The kind of the grammar; without a named header it is a combined one. -/
def grammarKind (table : SymbolTable) : Grammar.GrammarKind :=
  match table.header with
  | some header => header.kind
  | none => .combined

def ruleCount (table : SymbolTable) : Nat :=
  table.symbols.countP fun symbol => symbol.kind.isRule

/-- Whether importing files see the same in two tables. -/
def sameExports (left right : SymbolTable) : Bool :=
  left.header = right.header && left.symbols = right.symbols

end SymbolTable

end GrammarDesk
