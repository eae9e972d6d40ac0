import GrammarDesk.Syntax.Reading
import GrammarDesk.Text.Word

/-!
Contract: the productions that several parts of a grammar file share.

Owns: names, skipping what cannot be read, options and the options of an
element.

Every reader here takes either any list of lexemes and may consume none of it
(`Attempt`), or a first lexeme that its caller has looked at and consumes at
least that one (`Advance`).
-/

namespace GrammarDesk.Syntax.Production

open Reading

/-! ## Names -/

def name (missing : Fault) : (input : List Lexeme) → Attempt input
  | [] => (nothing []).report missing
  | head :: tail =>
      if head.kind = .identifier then
        ((take head tail).node .name).attempt
      else
        (nothing (head :: tail)).report missing

def nameRef (head : Lexeme) (tail : List Lexeme) : Advance head tail :=
  (take head tail).node .nameRef

/-! ## Skipping -/

/-- The lexemes up to one at which a condition on what follows holds. -/
def skipUntil (stop : List Lexeme → Bool) : (input : List Lexeme) → Attempt input
  | [] => nothing []
  | head :: tail =>
      if stop (head :: tail) then
        nothing (head :: tail)
      else
        (take head tail).attempt.andThen (skipUntil stop tail)

/-- A fault at the first lexeme, and a node over it and what is skipped with
it: everything up to a kind in `resume`, or the start of a member. The first
lexeme is skipped in any case, and alone if it is of a kind in `resume`. -/
def recover (fault : Fault) (resume : List Kind) (head : Lexeme) (tail : List Lexeme) :
    Advance head tail :=
  let first := take head tail
  let skipped :=
    if head.kind ∈ resume then
      first
    else
      first.andThen
        (skipUntil (fun input => Ahead.oneOf resume input || Ahead.memberStart input) tail)
  (skipped.node .error).preface fault

/-- An unreadable lexeme under a node of its own. -/
def unreadable (head : Lexeme) (tail : List Lexeme) : Advance head tail :=
  (take head tail).node .error

/-! ## Options -/

def dottedParts : (input : List Lexeme) → Attempt input
  | dot :: part :: tail =>
      if dot.kind = .dot ∧ part.kind = .identifier then
        let both := (take dot (part :: tail)).bump
        both.attempt.andThen (dottedParts both.rest)
      else
        nothing (dot :: part :: tail)
  | input => nothing input
termination_by input => input.length
decreasing_by exact Nat.lt_succ_of_le both.within

/-- The value of an option: a dotted name, a literal, a number or a block. -/
def optionValue : (input : List Lexeme) → Attempt input
  | [] => (nothing []).report .missingOptionValue
  | head :: tail =>
      match head.kind with
      | .identifier => (((take head tail).andThen (dottedParts tail)).node .nameRef).attempt
      | .string | .integer | .action => (take head tail).attempt
      | _ => (nothing (head :: tail)).report .missingOptionValue

/-- One option, from its name through its semicolon. -/
def option (head : Lexeme) (tail : List Lexeme) : Advance head tail :=
  let named := take head tail
  let valued :=
    if Ahead.next .equals named.rest then
      let signed := named.bump
      signed.andThen (optionValue signed.rest)
    else
      named.report (.missingToken .equals)
  (valued.expect .semicolon).node .option

/-- The options up to the closing brace, or up to a member that must have
started before it. -/
def options : (input : List Lexeme) → Attempt input
  | [] => nothing []
  | head :: tail =>
      if head.kind = .rightBrace then
        nothing (head :: tail)
      else if head.kind = .identifier ∧ ¬ Ahead.ruleStart (head :: tail) then
        let first := option head tail
        first.attempt.andThen (options first.rest)
      else if Ahead.memberStart (head :: tail) then
        nothing (head :: tail)
      else
        let skipped :=
          (recover .missingOptionName [.rightBrace, .semicolon] head tail).eat .semicolon
        skipped.attempt.andThen (options skipped.rest)
termination_by input => input.length
decreasing_by
  · exact Nat.lt_succ_of_le first.within
  · exact Nat.lt_succ_of_le skipped.within

def optionsSpec (head : Lexeme) (tail : List Lexeme) : Advance head tail :=
  let opened := take head tail
  let listed :=
    if Ahead.next .leftBrace opened.rest then
      let braced := opened.bump
      (braced.andThen (options braced.rest)).expect .rightBrace
    else
      opened.report (.missingToken .leftBrace)
  listed.node .optionsSpec

/-! ## Options of an element -/

/-- The options of an element between angle brackets, from the opening one
on. -/
def elementOptions (head : Lexeme) (tail : List Lexeme) : Advance head tail :=
  let opened := take head tail
  let skipped :=
    opened.andThen
      (skipUntil (Ahead.oneOf [.greater, .semicolon, .pipe, .rightParen]) opened.rest)
  (skipped.expect .greater).node .elementOptions

def elementOptions? : (input : List Lexeme) → Attempt input
  | [] => nothing []
  | head :: tail =>
      if head.kind = .less then
        (elementOptions head tail).attempt
      else
        nothing (head :: tail)

def arguments? : (input : List Lexeme) → Attempt input
  | [] => nothing []
  | head :: tail =>
      if head.kind = .bracketBlock then
        ((take head tail).node .argSpec).attempt
      else
        nothing (head :: tail)

end GrammarDesk.Syntax.Production
