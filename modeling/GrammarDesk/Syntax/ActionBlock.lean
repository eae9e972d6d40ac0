/-!
Contract: where a block of target code ends.

Owns: skipping quoted text and comments inside a block, and matching its braces.
Braces in quoted text and comments do not count. Quoted text ends at its closing
quote or at the end of its line, and a backslash in it takes the next character
along.

Main statements: every skip leaves a shorter or equally long remainder, so the
search for the closing brace ends.
-/

namespace GrammarDesk.Syntax.ActionBlock

/-- What follows quoted text, through its closing quote or line break. -/
def afterQuoted (quote : Char) : List Char → List Char
  | [] => []
  | '\\' :: _ :: rest => afterQuoted quote rest
  | character :: rest =>
      if character = quote ∨ character = '\n' then rest else afterQuoted quote rest

/-- What follows a line comment, through its line break. -/
def afterLine : List Char → List Char
  | [] => []
  | character :: rest => if character = '\n' then rest else afterLine rest

/-- What follows the first close of a block comment, if there is one. -/
def afterComment? : List Char → Option (List Char)
  | [] => none
  | '*' :: '/' :: rest => some rest
  | _ :: rest => afterComment? rest

theorem afterQuoted_length_le (quote : Char) (characters : List Char) :
    (afterQuoted quote characters).length ≤ characters.length := by
  fun_induction afterQuoted quote characters <;> grind

theorem afterLine_length_le (characters : List Char) :
    (afterLine characters).length ≤ characters.length := by
  fun_induction afterLine characters <;> grind

/-- A closed comment has passed at least one character. -/
theorem afterComment?_length_lt
    {characters rest : List Char}
    (found : afterComment? characters = some rest) :
    rest.length < characters.length := by
  fun_induction afterComment? characters with
  | case1 => simp at found
  | case2 tail =>
      cases found
      simp only [List.length_cons]
      omega
  | case3 head tail _ inductionHypothesis =>
      have shorter := inductionHypothesis found
      simp only [List.length_cons]
      omega

/-- What follows the brace that closes the block, when `depth` braces are open
before these characters; none when the block is never closed. -/
def afterBlock? (depth : Nat) : List Char → Option (List Char)
  | [] => none
  | '{' :: rest => afterBlock? (depth + 1) rest
  | '}' :: rest => if depth ≤ 1 then some rest else afterBlock? (depth - 1) rest
  | '"' :: rest => afterBlock? depth (afterQuoted '"' rest)
  | '\'' :: rest => afterBlock? depth (afterQuoted '\'' rest)
  | '/' :: '/' :: rest => afterBlock? depth (afterLine rest)
  | '/' :: '*' :: rest =>
      match _found : afterComment? rest with
      | none => none
      | some after => afterBlock? depth after
  | _ :: rest => afterBlock? depth rest
termination_by characters => characters.length
decreasing_by
  all_goals simp only [List.length_cons]
  · omega
  · omega
  · have := afterQuoted_length_le '"' rest
    omega
  · have := afterQuoted_length_le '\'' rest
    omega
  · have := afterLine_length_le rest
    omega
  · have := afterComment?_length_lt _found
    omega
  · omega

/-- The number of characters from just after the opening brace through the
closing one, when the block is closed. -/
def length? (characters : List Char) : Option Nat :=
  (afterBlock? 1 characters).map fun rest => characters.length - rest.length

end GrammarDesk.Syntax.ActionBlock
