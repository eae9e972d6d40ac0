import GrammarDesk.Syntax.ActionBlock
import GrammarDesk.Syntax.Lexeme

/-!
Contract: cutting a text into lexemes.

Owns: the classes of tokens. Of several classes the longest match wins; a
character no class accepts is an error lexeme of its own, and a string, a
bracket block, a comment or an action block that is not closed is one error
lexeme.

Does not own: which tokens may follow each other.

Main statement: the texts of the lexemes, one after another, are the text
(`join_lexemes`).
-/

namespace GrammarDesk.Syntax.Scan

/-! ## Character classes -/

def isGap (character : Char) : Bool :=
  character = ' ' || character = '\t' || character = '\r' || character = '\n' ||
    character = '\x0c'

def isNameStart (character : Char) : Bool :=
  ('a' ≤ character && character ≤ 'z') || ('A' ≤ character && character ≤ 'Z') || character = '_'

def isDigit (character : Char) : Bool :=
  '0' ≤ character && character ≤ '9'

def isNameContinue (character : Char) : Bool :=
  isNameStart character || isDigit character

/-! ## Runs of characters -/

/-- How many characters at the front satisfy a class. -/
def runLength (class_ : Char → Bool) (characters : List Char) : Nat :=
  (characters.takeWhile class_).length

/-- The length of a delimited body after its opening character, and whether it
was closed; the closing character counts. A backslash takes the next character
along unless that is a line break, where the body stops as it does at every
character of `stops`. -/
def delimited (closing : Char) (stops : Char → Bool) : List Char → Nat × Bool
  | [] => (0, false)
  | '\\' :: rest =>
      match rest with
      | [] => (0, false)
      | escaped :: rest =>
          if escaped = '\n' then
            (0, false)
          else
            let (length, closed) := delimited closing stops rest
            (length + 2, closed)
  | character :: rest =>
      if character = closing then
        (1, true)
      else if stops character then
        (0, false)
      else
        let (length, closed) := delimited closing stops rest
        (length + 1, closed)

/-- The kind of an identifier: a keyword if the word is one. -/
def wordKind (word : String) : Kind :=
  match Kind.all.find? fun kind => kind.keyword? = some word with
  | some kind => kind
  | none => .identifier

/-- Whether an opening brace after a token of this kind opens a list rather than
a block of target code. -/
def opensList : Option Kind → Bool
  | some .optionsKeyword | some .tokensKeyword | some .channelsKeyword => true
  | _ => false

/-! ## One lexeme -/

/-- The kind of the lexeme that starts with `first`, and how many of the
following characters belong to it. `previous` is the kind of the last lexeme
that was not trivia. -/
def classify (previous : Option Kind) (first : Char) (rest : List Char) : Kind × Nat :=
  match first, rest with
  | '/', '/' :: comment => (.lineComment, 1 + runLength (· ≠ '\n') comment)
  | '/', '*' :: comment =>
      match ActionBlock.afterComment? comment with
      | none => (.error, rest.length)
      | some after =>
          let length := rest.length - after.length
          match comment with
          | '*' :: _ => (if length = 3 then .blockComment else .docComment, length)
          | _ => (.blockComment, length)
  | ':', ':' :: _ => (.doubleColon, 1)
  | '+', '=' :: _ => (.plusEquals, 1)
  | '.', '.' :: _ => (.doubleDot, 1)
  | '-', '>' :: _ => (.arrow, 1)
  | '\'', _ =>
      let (length, closed) := delimited '\'' (fun stop => stop = '\r' || stop = '\n') rest
      (if closed then .string else .error, length)
  | '[', _ =>
      let (length, closed) := delimited ']' (fun _ => false) rest
      (if closed then .bracketBlock else .error, length)
  | '{', _ =>
      if opensList previous then
        (.leftBrace, 0)
      else
        match ActionBlock.length? rest with
        | some length => (.action, length)
        | none => (.error, rest.length)
  | ':', _ => (.colon, 0)
  | ';', _ => (.semicolon, 0)
  | '|', _ => (.pipe, 0)
  | '(', _ => (.leftParen, 0)
  | ')', _ => (.rightParen, 0)
  | '}', _ => (.rightBrace, 0)
  | '?', _ => (.question, 0)
  | '*', _ => (.star, 0)
  | '+', _ => (.plus, 0)
  | '=', _ => (.equals, 0)
  | '~', _ => (.tilde, 0)
  | '.', _ => (.dot, 0)
  | ',', _ => (.comma, 0)
  | '#', _ => (.hash, 0)
  | '@', _ => (.atSign, 0)
  | '<', _ => (.less, 0)
  | '>', _ => (.greater, 0)
  | _, _ =>
      if isGap first then
        (.whitespace, runLength isGap rest)
      else if isNameStart first then
        let length := runLength isNameContinue rest
        (wordKind (String.ofList (first :: rest.take length)), length)
      else if isDigit first then
        (.integer, runLength isDigit rest)
      else
        (.error, 0)

/-! ## All lexemes -/

/-- The lexemes of a list of characters, read after a significant lexeme of kind
`previous`. -/
def lexemes (previous : Option Kind) : List Char → List Lexeme
  | [] => []
  | first :: rest =>
      let (kind, length) := classify previous first rest
      let following := if kind.isTrivia then previous else some kind
      ⟨kind, String.ofList (first :: rest.take length)⟩ :: lexemes following (rest.drop length)
termination_by characters => characters.length
decreasing_by
  simp only [List.length_drop, List.length_cons]
  omega

/-- Nothing is lost or added: the lexemes spell the characters they were cut
from. -/
theorem join_lexemes (previous : Option Kind) (characters : List Char) :
    (lexemes previous characters).flatMap (fun lexeme => lexeme.text.toList) = characters := by
  fun_induction lexemes previous characters with
  | case1 => rfl
  | case2 previous first rest kind length _ following inductionHypothesis =>
      simp [inductionHypothesis]

def tokenize (text : String) : List Token :=
  Token.place 0 (lexemes none text.toList)

end GrammarDesk.Syntax.Scan
