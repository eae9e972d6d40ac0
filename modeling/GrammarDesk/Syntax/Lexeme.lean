import GrammarDesk.Syntax.Kind

/-!
Contract: tokens with and without their place in the text.

Owns: lexemes (a kind and the text it covers), tokens (a lexeme and where it
starts), and placing a sequence of lexemes one after another.
-/

namespace GrammarDesk.Syntax

/-- A kind and the text it covers. -/
structure Lexeme where
  kind : Kind
  text : String
deriving DecidableEq, Repr, Inhabited

namespace Lexeme

def size (lexeme : Lexeme) : Nat :=
  lexeme.text.utf8ByteSize

def isTrivia (lexeme : Lexeme) : Bool :=
  lexeme.kind.isTrivia

end Lexeme

/-- A lexeme and the byte offset it starts at. -/
structure Token extends Lexeme where
  offset : Nat
deriving DecidableEq, Repr, Inhabited

namespace Token

def stop (token : Token) : Nat :=
  token.offset + token.size

/-- Lexemes placed one after another from an offset on. -/
def place (offset : Nat) : List Lexeme → List Token
  | [] => []
  | lexeme :: rest => ⟨lexeme, offset⟩ :: place (offset + lexeme.size) rest

end Token

end GrammarDesk.Syntax
