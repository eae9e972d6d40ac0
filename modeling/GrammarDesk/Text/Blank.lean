/-!
Contract: blank characters, by the Unicode property White_Space, and trimming of
character lists.

Owns: the property and the three trims.
-/

namespace GrammarDesk.Text

def isBlank (character : Char) : Bool :=
  let code := character.toNat
  (0x9 ≤ code && code ≤ 0xD) || code = 0x20 || code = 0x85 || code = 0xA0 || code = 0x1680 ||
    (0x2000 ≤ code && code ≤ 0x200A) || code = 0x2028 || code = 0x2029 || code = 0x202F ||
    code = 0x205F || code = 0x3000

def trimStart (characters : List Char) : List Char :=
  characters.dropWhile isBlank

def trimEnd (characters : List Char) : List Char :=
  (characters.reverse.dropWhile isBlank).reverse

def trim (characters : List Char) : List Char :=
  trimEnd (trimStart characters)

end GrammarDesk.Text
