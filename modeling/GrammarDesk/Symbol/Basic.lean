import GrammarDesk.Diagnostic.Basic
import GrammarDesk.Grammar.Member

/-!
Contract: declared names.

Owns: the kinds of symbols and what they share a namespace with, symbols and
their signatures, and imports as a file writes them.

Does not own: which members declare which symbols (`Declare`).
-/

namespace GrammarDesk

open Text

inductive SymbolKind where
  | grammar
  | parserRule
  | lexerRule
  /-- A name in a list of tokens. -/
  | virtualToken
  /-- A name in a list of channels. -/
  | channel
  | mode
  | namedAction
  | importedGrammar
deriving DecidableEq, Repr

/-- Where two symbols of one name are in each other's way. -/
inductive Namespace where
  | grammar
  | parserRule
  | token
  | channel
  | mode
  | action
  | imported
deriving DecidableEq, Repr

namespace SymbolKind

def display : SymbolKind → String
  | .grammar => "grammar"
  | .parserRule => "parser rule"
  | .lexerRule => "lexer rule"
  | .virtualToken => "token"
  | .channel => "channel"
  | .mode => "mode"
  | .namedAction => "action"
  | .importedGrammar => "imported grammar"

def isToken : SymbolKind → Bool
  | .lexerRule | .virtualToken => true
  | _ => false

def isRule : SymbolKind → Bool
  | .parserRule | .lexerRule => true
  | _ => false

/-- The namespace of the kind; lexer rules and listed tokens share one. -/
def namespace_ : SymbolKind → Namespace
  | .lexerRule | .virtualToken => .token
  | .grammar => .grammar
  | .parserRule => .parserRule
  | .channel => .channel
  | .mode => .mode
  | .namedAction => .action
  | .importedGrammar => .imported

end SymbolKind

structure Symbol where
  name : String
  kind : SymbolKind
  file : File.Id
  /-- Where the name is written. -/
  range : Range
  span : Span
  /-- Where the whole declaration is written. -/
  declaration : Range
  isFragment : Bool
  /-- The mode a lexer rule is declared in. -/
  mode : Option String
  /-- The literal that makes up the body of a lexer rule. -/
  literal : Option String
  /-- Arguments, return values and local variables of a rule, as written. -/
  detail : Option String
  doc : Option String
deriving DecidableEq, Repr

namespace Symbol

/-- A symbol of which only the name, kind and places are known. -/
def plain (name : String) (kind : SymbolKind) (file : File.Id) (range : Range) (span : Span)
    (declaration : Range) : Symbol :=
  { name, kind, file, range, span, declaration
    isFragment := false
    mode := none
    literal := none
    detail := none
    doc := none }

/-- The symbol's name in the words of its declaration. -/
def heading (symbol : Symbol) : String :=
  match symbol.kind with
  | .lexerRule => if symbol.isFragment then "fragment " ++ symbol.name else symbol.name
  | .grammar | .parserRule => symbol.name
  | .virtualToken => "tokens \x7b " ++ symbol.name ++ " \x7d"
  | .channel => "channels \x7b " ++ symbol.name ++ " \x7d"
  | .mode => "mode " ++ symbol.name
  | .namedAction => "@" ++ symbol.name
  | .importedGrammar => "import " ++ symbol.name

/-- The symbol in one line: its heading, its detail and its literal. -/
def signature (symbol : Symbol) : String :=
  let detail :=
    match symbol.detail with
    | some detail => " " ++ detail
    | none => ""
  let literal :=
    match symbol.literal with
    | some literal => " : " ++ literal
    | none => ""
  symbol.heading ++ detail ++ literal

/-- Whether two symbols of one name are in each other's way. -/
def clashes (left right : Symbol) : Bool :=
  left.name = right.name && left.kind.namespace_ = right.kind.namespace_

end Symbol

inductive ImportKind where
  /-- An import, which makes every declaration visible. -/
  | delegate
  /-- A vocabulary option, which makes tokens visible only. -/
  | vocabulary
deriving DecidableEq, Repr

/-- An import as a file writes it. -/
structure ImportClause where
  name : String
  kind : ImportKind
  range : Range
  span : Span
deriving DecidableEq, Repr

/-- The header of a file, for a file that has a named one. -/
structure GrammarHeader where
  name : String
  kind : Grammar.GrammarKind
  range : Range
  span : Span
deriving DecidableEq, Repr

end GrammarDesk
