import GrammarDesk.Syntax.Production.Basic

/-!
Contract: the productions of a rule body: alternatives, elements and lexer
commands.

Owns: which elements there are, how labels and suffixes attach to them, and what
may follow the elements of an alternative.

An element is read in two layers: an atom, and the label before it or the suffix
after it. Blocks and negations lead from an atom back to bodies and atoms, so the
readers of elements are defined together; each of them either consumes a lexeme
before it calls another or calls one of lower rank on the same lexemes.
-/

namespace GrammarDesk.Syntax.Production

open Reading

/-! ## Lexer commands -/

/-- The argument of a lexer command, from its opening parenthesis on, if there
is one. -/
def commandArgument : (input : List Lexeme) → Attempt input
  | [] => nothing []
  | head :: tail =>
      if head.kind = .leftParen then
        let filled : Advance head tail :=
          match tail with
          | [] => (take head []).report .missingCommandArgument
          | argument :: rest =>
              if argument.kind = .identifier then
                (take head (argument :: rest)).andThen (nameRef argument rest).attempt
              else if argument.kind = .integer then
                (take head (argument :: rest)).bump
              else
                (take head (argument :: rest)).report .missingCommandArgument
        (filled.expect .rightParen).attempt
      else
        nothing (head :: tail)

def lexerCommand (input : List Lexeme) : Attempt input :=
  let named :=
    if Ahead.oneOf [.identifier, .modeKeyword] input then
      takeNext input
    else
      (nothing input).report .missingCommand
  (named.andThen (commandArgument named.rest)).node .lexerCommand

def moreLexerCommands : (input : List Lexeme) → Attempt input
  | [] => nothing []
  | head :: tail =>
      if head.kind = .comma then
        let separated := take head tail
        let commanded := separated.andThen (lexerCommand separated.rest)
        commanded.attempt.andThen (moreLexerCommands commanded.rest)
      else
        nothing (head :: tail)
termination_by input => input.length
decreasing_by exact Nat.lt_succ_of_le commanded.within

def lexerCommands (head : Lexeme) (tail : List Lexeme) : Advance head tail :=
  let opened := take head tail
  let first := opened.andThen (lexerCommand opened.rest)
  (first.andThen (moreLexerCommands first.rest)).node .lexerCommands

/-! ## Elements -/

def alternativeLabel? : (input : List Lexeme) → Attempt input
  | [] => nothing []
  | head :: tail =>
      if head.kind = .hash then
        let opened := take head tail
        ((opened.andThen (name .missingLabelName opened.rest)).node .alternativeLabel).attempt
      else
        nothing (head :: tail)

def lexerCommands? : (input : List Lexeme) → Attempt input
  | [] => nothing []
  | head :: tail =>
      if head.kind = .arrow then
        (lexerCommands head tail).attempt
      else
        nothing (head :: tail)

def blockOptions? : (input : List Lexeme) → Attempt input
  | [] => nothing []
  | head :: tail =>
      if head.kind = .optionsKeyword then
        ((optionsSpec head tail).expect .colon).attempt
      else
        nothing (head :: tail)

/-- A bound for the calls of a reader at a level below seven on so many lexemes: a call
may go down a level, or leave lexemes behind. -/
def rank (length level : Nat) : Nat :=
  7 * length + level

theorem rank_lt {length longer level higher : Nat} (enough : length ≤ longer)
    (below : level < higher) : rank length level < rank longer higher := by
  unfold rank
  omega

theorem rank_lt_of_shorter {length longer level other : Nat} (shorter : length < longer)
    (isLevel : level < 7) : rank length level < rank longer other := by
  unfold rank
  omega

mutual

/-- Alternatives separated by bars. -/
def alternativeList (input : List Lexeme) : Attempt input :=
  let first := alternative input
  (first.andThen (moreAlternatives first.rest)).node .alternativeList
termination_by rank input.length 6
decreasing_by
  · exact rank_lt (Nat.le_refl _) (by decide)
  · exact rank_lt first.within (by decide)

/-- The alternatives after the first, each after a bar. -/
def moreAlternatives : (input : List Lexeme) → Attempt input
  | [] => nothing []
  | head :: tail =>
      if head.kind = .pipe then
        let separated := take head tail
        let more := separated.andThen (alternative separated.rest)
        more.attempt.andThen (moreAlternatives more.rest)
      else
        nothing (head :: tail)
termination_by input => rank input.length 5
decreasing_by
  · exact rank_lt_of_shorter (Nat.lt_succ_self _) (by decide)
  · exact rank_lt_of_shorter (Nat.lt_succ_of_le more.within) (by decide)

/-- One alternative: options, elements, a label and lexer commands, each if
there are any. -/
def alternative (input : List Lexeme) : Attempt input :=
  let opened := elementOptions? input
  let filled := opened.andThen (elements opened.rest)
  let labeled := filled.andThen (alternativeLabel? filled.rest)
  (labeled.andThen (lexerCommands? labeled.rest)).node .alternative
termination_by rank input.length 4
decreasing_by exact rank_lt opened.within (by decide)

def elements : (input : List Lexeme) → Attempt input
  | [] => nothing []
  | head :: tail =>
      if Ahead.elementStart (head :: tail) then
        let first := element head tail
        first.attempt.andThen (elements first.rest)
      else
        nothing (head :: tail)
termination_by input => rank input.length 3
decreasing_by
  · exact rank_lt (Nat.le_refl _) (by decide)
  · exact rank_lt_of_shorter (Nat.lt_succ_of_le first.within) (by decide)

/-- An atom with its label, if it has one, and its suffix, if it has one. A
second question mark makes a suffix non-greedy. -/
def element (head : Lexeme) (tail : List Lexeme) : Advance head tail :=
  let body := labeledElement head tail
  if Ahead.suffix body.rest then
    (body.bump.eat .question).node .repeatedElement
  else
    body
termination_by rank (tail.length + 1) 2
decreasing_by exact rank_lt (Nat.le_refl _) (by decide)

def labeledElement (head : Lexeme) : (tail : List Lexeme) → Advance head tail
  | [] => atom head []
  | sign :: rest =>
      if head.kind = .identifier ∧ (sign.kind = .equals ∨ sign.kind = .plusEquals) then
        let signed := (take head (sign :: rest)).andThen (take sign rest).attempt
        (signed.andThen (operand .missingLabeledElement rest)).node .labeledElement
      else
        atom head (sign :: rest)
termination_by tail => rank (tail.length + 1) 1
decreasing_by
  · exact rank_lt (Nat.le_refl _) (by decide)
  · exact rank_lt_of_shorter (Nat.lt_succ_of_lt (Nat.lt_succ_self _)) (by decide)
  · exact rank_lt (Nat.le_refl _) (by decide)

/-- The atom that a label or a negation needs. -/
def operand (missing : Fault) : (input : List Lexeme) → Attempt input
  | [] => (nothing []).report missing
  | head :: tail =>
      if Ahead.elementStart (head :: tail) then
        (atom head tail).attempt
      else
        (nothing (head :: tail)).report missing
termination_by input => rank input.length 1
decreasing_by exact rank_lt (Nat.le_refl _) (by decide)

/-- One atom: a reference, a literal or a range of literals, a wildcard, a
negation, a block, target code, a predicate or a character set. Anything else is
an unreadable lexeme. -/
def atom (head : Lexeme) (tail : List Lexeme) : Advance head tail :=
  let first := take head tail
  match head.kind with
  | .identifier =>
      if Text.isTokenName head.text then
        (first.andThen (elementOptions? first.rest)).node .tokenRef
      else
        let applied := first.andThen (arguments? first.rest)
        (applied.andThen (elementOptions? applied.rest)).node .ruleRef
  | .string =>
      if Ahead.next .doubleDot first.rest then
        let opened := first.bump
        let closed :=
          if Ahead.next .string opened.rest then
            opened.bump
          else
            opened.report .missingRangeEnd
        closed.node .charRange
      else
        (first.andThen (elementOptions? first.rest)).node .stringLiteral
  | .leftParen =>
      let opened := first.andThen (blockOptions? first.rest)
      ((opened.andThen (alternativeList opened.rest)).expect .rightParen).node .block
  | .dot => (first.andThen (elementOptions? first.rest)).node .wildcard
  | .tilde => (first.andThen (operand .missingNegatedElement tail)).node .negation
  | .action =>
      if Ahead.next .question first.rest then
        let asked := first.bump
        (asked.andThen (elementOptions? asked.rest)).node .predicate
      else
        first.node .actionElement
  | .bracketBlock => first.node .charSet
  | _ => unreadable head tail
termination_by rank (tail.length + 1) 0
decreasing_by
  · exact rank_lt_of_shorter (Nat.lt_succ_of_le opened.within) (by decide)
  · exact rank_lt_of_shorter (Nat.lt_succ_self _) (by decide)

end

end GrammarDesk.Syntax.Production
