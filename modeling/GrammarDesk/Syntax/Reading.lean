import GrammarDesk.Syntax.Log
import GrammarDesk.Syntax.Shape

/-!
Contract: a reader's progress through a list of significant lexemes.

Owns: readings (shapes built, problems met and lexemes left), looking ahead, and
the steps that readers of the grammar are made of. Every reading carries the
proof that its shapes and its rest spell its input, so no reader can lose or
invent a lexeme; a bound on the length of its rest, so a loop over readings ends;
and the proof that it reports the unreadable lexemes it consumed, each once and in
order, and calls no other lexeme unreadable.

Does not own: the productions of the grammar.
-/

namespace GrammarDesk.Syntax

/-! ## Looking ahead -/

namespace Ahead

def next (kind : Kind) : List Lexeme → Bool
  | [] => false
  | lexeme :: _ => lexeme.kind = kind

def second (kind : Kind) (input : List Lexeme) : Bool :=
  next kind (input.drop 1)

/-- Whether the lexeme after the next two is of a kind. -/
def third (kind : Kind) (input : List Lexeme) : Bool :=
  next kind (input.drop 2)

def oneOf (kinds : List Kind) (input : List Lexeme) : Bool :=
  kinds.any fun kind => next kind input

/-- Whether the lexemes go on as a rule does after its name. -/
def ruleColonOrSpec (input : List Lexeme) : Bool :=
  oneOf [.colon, .returnsKeyword, .localsKeyword, .throwsKeyword] input

/-- Whether a rule starts here: a name, an argument block or none, and then a
colon or a specification. Only after an argument block may options or a rule
action follow. -/
def ruleStart (input : List Lexeme) : Bool :=
  next .identifier input &&
    (ruleColonOrSpec (input.drop 1) ||
      (second .bracketBlock input &&
        (ruleColonOrSpec (input.drop 2) || third .optionsKeyword input || third .atSign input)))

/-- Whether a member of the file starts here. Readers that skip lexemes stop
at such a place. -/
def memberStart (input : List Lexeme) : Bool :=
  oneOf
      [.grammarKeyword, .optionsKeyword, .importKeyword, .tokensKeyword, .channelsKeyword,
        .atSign, .modeKeyword, .fragmentKeyword, .publicKeyword, .privateKeyword,
        .protectedKeyword]
      input ||
    (oneOf [.lexerKeyword, .parserKeyword] input && second .grammarKeyword input) ||
    ruleStart input

/-- Whether an element of an alternative starts here. A name that starts a rule
does not. -/
def elementStart (input : List Lexeme) : Bool :=
  (next .identifier input && !ruleStart input) ||
    oneOf
      [.string, .leftParen, .dot, .tilde, .action, .bracketBlock, .error]
      input

def actionName (input : List Lexeme) : Bool :=
  oneOf [.identifier, .parserKeyword, .lexerKeyword] input

/-- Whether a suffix that repeats an element comes next. -/
def suffix (input : List Lexeme) : Bool :=
  oneOf [.question, .star, .plus] input

end Ahead

/-! ## Readings -/

/-- What a reader made of a list of lexemes, leaving at most `limit` of them. -/
structure Reading (input : List Lexeme) (limit : Nat) where
  shapes : List Shape
  problems : Log
  rest : List Lexeme
  covers : Shape.leavesOf shapes ++ rest = input
  within : rest.length ≤ limit
  reported :
    problems.toList.filter Problem.isUnreadable =
      Problem.ofLexemes rest.length (Shape.leavesOf shapes)

/-- A reading that may have consumed nothing. -/
abbrev Attempt (input : List Lexeme) := Reading input input.length

/-- A reading that consumed at least the first of its lexemes. -/
abbrev Advance (head : Lexeme) (tail : List Lexeme) := Reading (head :: tail) tail.length

namespace Reading

variable {input : List Lexeme} {limit : Nat}

def nothing (input : List Lexeme) : Attempt input :=
  ⟨[], .empty, input, rfl, Nat.le_refl _, rfl⟩

@[simp] theorem rest_nothing (input : List Lexeme) : (nothing input).rest = input := rfl

/-- What reading one lexeme reports: an unreadable one is a problem. -/
def problemsOf (head : Lexeme) (tail : List Lexeme) : Log :=
  if head.kind = .error then .entry ⟨.lexeme tail.length, .unreadable head.text⟩ else .empty

theorem toList_problemsOf (head : Lexeme) (tail : List Lexeme) :
    (problemsOf head tail).toList = Problem.ofLexeme tail.length head := by
  unfold problemsOf Problem.ofLexeme
  split <;> rfl

theorem reported_problemsOf (head : Lexeme) (tail : List Lexeme) :
    (problemsOf head tail).toList.filter Problem.isUnreadable =
      Problem.ofLexemes tail.length [head] := by
  rw [toList_problemsOf, Problem.filter_ofLexeme]
  simp [Problem.ofLexemes]

def take (head : Lexeme) (tail : List Lexeme) : Advance head tail :=
  ⟨[.leaf head], problemsOf head tail, tail, rfl, Nat.le_refl _, reported_problemsOf head tail⟩

/-- What was read of some lexemes, the first of them included, has a lexeme. -/
theorem leavesOf_ne_nil {head : Lexeme} {tail : List Lexeme} (reading : Advance head tail) :
    Shape.leavesOf reading.shapes ≠ [] := by
  intro none
  have covers := reading.covers
  rw [none, List.nil_append] at covers
  have within := reading.within
  rw [covers, List.length_cons] at within
  exact Nat.not_succ_le_self _ within

def takeNext : (input : List Lexeme) → Attempt input
  | [] => nothing []
  | head :: tail =>
      ⟨[.leaf head], problemsOf head tail, tail, rfl, Nat.le_succ _,
        reported_problemsOf head tail⟩

def weaken (reading : Reading input limit) {larger : Nat} (enough : limit ≤ larger) :
    Reading input larger :=
  { reading with within := Nat.le_trans reading.within enough }

def attempt {head : Lexeme} {tail : List Lexeme} (reading : Advance head tail) :
    Attempt (head :: tail) :=
  reading.weaken (Nat.le_succ _)

/-- A reading followed by a reading of its rest. The bound is the second's. -/
def append {limit' : Nat}
    (reading : Reading input limit)
    (following : Reading reading.rest limit') :
    Reading input limit' where
  shapes := reading.shapes ++ following.shapes
  problems := reading.problems ++ following.problems
  rest := following.rest
  covers := by
    rw [Shape.leavesOf_append, List.append_assoc, following.covers, reading.covers]
  within := following.within
  reported := by
    have between := congrArg List.length following.covers
    rw [List.length_append] at between
    rw [Log.toList_append, List.filter_append, reading.reported, following.reported,
      Shape.leavesOf_append, Problem.ofLexemes_append, between]

def andThen
    (reading : Reading input limit)
    (following : Attempt reading.rest) :
    Reading input limit :=
  (reading.append following).weaken reading.within

/-- All shapes read so far put under one node. -/
def node (kind : Kind) (reading : Reading input limit) : Reading input limit where
  shapes := [.node kind reading.shapes]
  problems := reading.problems
  rest := reading.rest
  covers := by simpa using reading.covers
  within := reading.within
  reported := by simpa using reading.reported

/-- A fault noted at a place, after the problems so far. -/
def note (place : Place) (fault : Fault) (reading : Reading input limit) :
    Reading input limit :=
  { reading with
    problems := reading.problems ++ .entry ⟨place, .malformed fault⟩
    reported := by simpa [Problem.isUnreadable] using reading.reported }

/-- A fault at the next lexeme, reported after the problems so far. -/
def report (fault : Fault) (reading : Reading input limit) : Reading input limit :=
  reading.note (.next reading.rest) fault

def reportAfter (fault : Fault) (reading : Reading input limit) : Reading input limit :=
  reading.note (.after reading.rest.length) fault

/-- A fault at the first lexeme of the input, reported before all others. -/
def preface (fault : Fault) (reading : Reading input limit) : Reading input limit :=
  { reading with
    problems := .entry ⟨.next input, .malformed fault⟩ ++ reading.problems
    reported := by simpa [Problem.isUnreadable] using reading.reported }

def bump (reading : Reading input limit) : Reading input limit :=
  reading.andThen (takeNext reading.rest)

def eat (kind : Kind) (reading : Reading input limit) : Reading input limit :=
  if Ahead.next kind reading.rest then reading.bump else reading

/-- The next lexeme read if it is of a kind, and reported as missing
otherwise. -/
def expect (kind : Kind) (reading : Reading input limit) : Reading input limit :=
  if Ahead.next kind reading.rest then reading.bump else reading.report (.missingToken kind)

end Reading

end GrammarDesk.Syntax
