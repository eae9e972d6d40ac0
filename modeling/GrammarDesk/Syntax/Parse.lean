import GrammarDesk.Syntax.Builder
import GrammarDesk.Syntax.Production.File
import GrammarDesk.Syntax.Scan
import GrammarDesk.Syntax.Weave

/-!
Contract: reading a text as a grammar file.

Owns: the result of a reading, a tree and the syntax errors, and which texts
have one. The root of a tree starts at a significant token, so trivia at the
beginning of a text stands beside the root, and the builder panics over more than
one tree; every other text has a reading, however malformed.

Does not own: tokens (`Scan`), productions (`Production`), trivia (`Weave`), or the reader that
goes from token to token and calls the builder (`Control`), which comes to the same.
-/

namespace GrammarDesk.Syntax

/-- The tree of a text and its syntax errors in order. -/
structure Parse where
  tree : ParseTree
  errors : List SyntaxError
deriving Repr

namespace Parse

def ok (parse : Parse) : Bool :=
  parse.errors.isEmpty

/-- The reading of a text given by its tokens. -/
def ofTokens (length : Nat) (tokens : List Token) : Parse :=
  let significant := tokens.filter fun token => !token.kind.isTrivia
  let (members, problems) := Production.file (significant.map Token.toLexeme)
  let backward := significant.toArray.reverse
  { tree := Weave.root length tokens .sourceFile members
    errors := problems.map fun problem =>
      ⟨problem.place.range backward length, problem.cause⟩ }

/-- Whether a text begins with whitespace or a comment. -/
def beginsWithTrivia (tokens : List Token) : Bool :=
  match tokens with
  | [] => false
  | token :: _ => token.kind.isTrivia

/-- The reading of a text, none where the builder panics: the trivia in front is put before the
root is opened, and the tree is handed over only if the root stands alone. -/
def ofText? (text : String) : Option Parse :=
  let (trivia, own) := Weave.splitTrivia (Scan.tokenize text)
  let parse := ofTokens text.utf8ByteSize own
  let standing := trivia.map .leaf ++ [parse.tree]
  (Builder.handOver standing).map fun tree => { parse with tree }

end Parse

end GrammarDesk.Syntax
