import GrammarDesk.Reference.Use
import GrammarDesk.Symbol.Table

/-!
Contract: what a name is bound to.

Owns: built-in names, visibility of imported declarations, and the order of
lookup: built-in names, then the file's own table, then the tables of its import
closure in their order.

Does not own: the closure itself; a lookup follows no imports.
-/

namespace GrammarDesk

def ReferenceKind.accepts (kind : ReferenceKind) (symbol : Symbol) : Bool :=
  match kind with
  | .rule => symbol.kind = .parserRule
  | .token => symbol.kind.isToken
  | .literal => symbol.kind = .lexerRule
  | .mode => symbol.kind = .mode
  | .channel => symbol.kind = .channel
  | .grammar => symbol.kind = .grammar

/-- Names that every grammar can use without declaring them. -/
def ReferenceKind.isBuiltIn (kind : ReferenceKind) (name : String) : Bool :=
  match kind with
  | .token => name = "EOF"
  | .channel => name = "HIDDEN" || name = "DEFAULT_TOKEN_CHANNEL"
  | .mode => name = "DEFAULT_MODE"
  | .rule | .literal | .grammar => false

/-- What a reference is bound to. -/
inductive Resolution where
  /-- The declarations found; the first is the definition. -/
  | resolved (targets : List Symbol)
  /-- A predefined name, or a literal that defines its own token. -/
  | builtIn
  | unresolved
deriving DecidableEq, Repr

namespace Resolution

def targets : Resolution → List Symbol
  | .resolved targets => targets
  | .builtIn | .unresolved => []

/-- The declaration that counts as the definition. -/
def definition (resolution : Resolution) : Option Symbol :=
  resolution.targets.head?

def isResolved : Resolution → Bool
  | .resolved _ => true
  | .builtIn | .unresolved => false

/-- The files that declare what was found, each once. -/
def files (resolution : Resolution) : List File.Id :=
  (resolution.targets.map fun symbol => symbol.file).eraseDups

/-- Whether several files declare what was found. -/
def isAmbiguous (resolution : Resolution) : Bool :=
  1 < resolution.files.length

end Resolution

/-- What an importing file sees of an imported table. -/
inductive Visibility where
  /-- Everything: only imports lead there. -/
  | all
  /-- Tokens: a vocabulary option is on the way. -/
  | tokensOnly
deriving DecidableEq, Repr

namespace Visibility

def shows : Visibility → Symbol → Bool
  | .all, _ => true
  | .tokensOnly, symbol => symbol.kind.isToken

/-- What is seen through one more import. -/
def through (visibility : Visibility) (kind : ImportKind) : Visibility :=
  match visibility, kind with
  | .all, .delegate => .all
  | _, _ => .tokensOnly

end Visibility

structure ImportedTable where
  file : File.Id
  table : SymbolTable
  visibility : Visibility
  /-- The least number of imports that lead there. -/
  depth : Nat
deriving Repr

/-- All that the references of a file can be bound to. -/
structure Scope where
  table : SymbolTable
  /-- The import closure, in the order of lookup. -/
  closure : List ImportedTable
  /-- The symbols that names of imported grammars stand for. -/
  grammars : List (String × Symbol)
deriving Repr

namespace Scope

def candidates (table : SymbolTable) (visibility : Visibility) (kind : ReferenceKind)
    (name : String) : List Symbol :=
  let named :=
    match kind with
    | .literal => table.lookupLiteral name
    | _ => table.lookup name
  named.filter fun symbol => kind.accepts symbol && visibility.shows symbol

def resolvedTo : List Symbol → Resolution
  | [] => .unresolved
  | targets => .resolved targets

def lookup (scope : Scope) (kind : ReferenceKind) (name : String) : Resolution :=
  if kind.isBuiltIn name then
    .builtIn
  else if kind = .grammar then
    resolvedTo (scope.grammars.lookup name).toList
  else
    match candidates scope.table .all kind name with
    | [] =>
        resolvedTo
          (scope.closure.flatMap fun entry =>
            candidates entry.table entry.visibility kind name)
    | own => .resolved own

end Scope

end GrammarDesk
