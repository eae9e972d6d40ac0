import GrammarDesk.Text.IdentifierContinue
import GrammarDesk.Text.Uppercase
import GrammarDesk.Text.Range

/-!
Contract: identifiers and the word under a cursor.

Owns: what an identifier is, which names are token names, and the range of the
word that touches an offset.

Does not own: the character properties, which are tables of their own.
-/

namespace GrammarDesk.Text

def isWordCharacter (character : Char) : Bool :=
  isIdentifierContinue character

/-- Whether a name is one identifier: an underscore or a starting character,
then word characters. -/
def isIdentifier (name : String) : Bool :=
  match name.toList with
  | [] => false
  | first :: rest => (first = '_' || isIdentifierStart first) && rest.all isWordCharacter

/-- A name is a token name when its first character is uppercase. -/
def isTokenName (name : String) : Bool :=
  match name.toList with
  | [] => false
  | first :: _ => isUppercase first

def byteLength (characters : List Char) : Nat :=
  characters.foldr (fun character length => character.utf8Size + length) 0

/-- The characters before an offset, nearest first, and those after it; none
when the offset is past the end or inside a character. -/
def splitAtOffset (before : List Char) (offset : Nat) :
    List Char → Option (List Char × List Char)
  | [] => if offset = 0 then some (before, []) else none
  | character :: rest =>
      if offset = 0 then
        some (before, character :: rest)
      else if character.utf8Size ≤ offset then
        splitAtOffset (character :: before) (offset - character.utf8Size) rest
      else
        none

def wordRangeAt (text : String) (offset : Nat) : Option Range :=
  match splitAtOffset [] offset text.toList with
  | none => none
  | some (before, after) =>
      let start := offset - byteLength (before.takeWhile isWordCharacter)
      let stop := offset + byteLength (after.takeWhile isWordCharacter)
      if start < stop then some ⟨start, stop⟩ else none

def slice (text : String) (range : Range) : String :=
  match splitAtOffset [] range.start text.toList with
  | none => ""
  | some (_, after) =>
      match splitAtOffset [] (range.stop - range.start) after with
      | none => ""
      | some (inside, _) => String.ofList inside.reverse

end GrammarDesk.Text
