import GrammarDesk.Syntax.Production.Rule

/-!
Contract: the productions of a grammar file and its members.

Owns: header, imports, token and channel lists, named actions, modes, and what
happens to lexemes that start no member.

Main statement: reading a file leaves no lexeme over, by the bound in the type of
`members` (`rest_members`).
-/

namespace GrammarDesk.Syntax.Production

open Reading

/-! ## Header -/

/-- The header, from the word before `grammar`, if there is one, or from
`grammar` on. -/
def header (head : Lexeme) (tail : List Lexeme) : Advance head tail :=
  let opened :=
    if head.kind = .grammarKeyword then
      take head tail
    else
      (take head tail).expect .grammarKeyword
  let named := opened.andThen (name .missingGrammarName opened.rest)
  (named.expect .semicolon).node .header

/-! ## Imports -/

def importAlias? : (input : List Lexeme) → Attempt input
  | [] => nothing []
  | head :: tail =>
      if head.kind = .identifier ∧ Ahead.next .equals tail then
        (((take head tail).node .name).bump).attempt
      else
        nothing (head :: tail)

def importTarget : (input : List Lexeme) → Attempt input
  | [] => (nothing []).report .missingGrammarName
  | head :: tail =>
      if head.kind = .identifier then
        (nameRef head tail).attempt
      else
        (nothing (head :: tail)).report .missingGrammarName

def importItem (input : List Lexeme) : Attempt input :=
  let aliased := importAlias? input
  (aliased.andThen (importTarget aliased.rest)).node .importItem

/-- The imports after the first, each after a comma. -/
def moreImports : (input : List Lexeme) → Attempt input
  | [] => nothing []
  | head :: tail =>
      if head.kind = .comma then
        let separated := take head tail
        let more := separated.andThen (importItem separated.rest)
        more.attempt.andThen (moreImports more.rest)
      else
        nothing (head :: tail)
termination_by input => input.length
decreasing_by exact Nat.lt_succ_of_le more.within

def importDecl (head : Lexeme) (tail : List Lexeme) : Advance head tail :=
  let opened := take head tail
  let first := opened.andThen (importItem opened.rest)
  ((first.andThen (moreImports first.rest)).expect .semicolon).node .importDecl

/-! ## Token and channel lists -/

/-- The names of a list with a comma after each but perhaps the last, every one
under a node of kind `entry`. -/
def listEntries (entry : Kind) : (input : List Lexeme) → Attempt input
  | [] => nothing []
  | head :: tail =>
      if head.kind = .identifier then
        let named := ((take head tail).node .name).node entry
        if Ahead.next .comma named.rest then
          let separated := named.bump
          separated.attempt.andThen (listEntries entry separated.rest)
        else
          named.attempt
      else
        nothing (head :: tail)
termination_by input => input.length
decreasing_by exact Nat.lt_succ_of_le separated.within

/-- What stands between the names of a list and its closing brace is skipped. -/
def listRemainder : (input : List Lexeme) → Attempt input
  | [] => nothing []
  | head :: tail =>
      if head.kind = .rightBrace ∨ Ahead.memberStart (head :: tail) then
        nothing (head :: tail)
      else
        (recover .missingListEntry [.rightBrace] head tail).attempt

def nameList (list entry : Kind) (head : Lexeme) (tail : List Lexeme) : Advance head tail :=
  let opened := take head tail
  let listed :=
    if Ahead.next .leftBrace opened.rest then
      let braced := opened.bump
      let named := braced.andThen (listEntries entry braced.rest)
      (named.andThen (listRemainder named.rest)).expect .rightBrace
    else
      opened.report (.missingToken .leftBrace)
  listed.node list

/-! ## Named actions -/

def actionName : (input : List Lexeme) → Attempt input
  | [] => (nothing []).report .missingActionName
  | head :: tail =>
      if Ahead.actionName (head :: tail) then
        let first := take head tail
        let qualified :=
          if Ahead.next .doubleColon first.rest then
            let opened := first.bump
            if Ahead.actionName opened.rest then
              opened.bump
            else
              opened.report .missingActionName
          else
            first
        (qualified.node .name).attempt
      else
        (nothing (head :: tail)).report .missingActionName

def namedAction (head : Lexeme) (tail : List Lexeme) : Advance head tail :=
  let opened := take head tail
  ((opened.andThen (actionName opened.rest)).expect .action).node .namedAction

/-! ## Modes -/

/-- The rules of a mode, up to the next mode or another member that is no
rule. -/
def modeRules : (input : List Lexeme) → Attempt input
  | [] => nothing []
  | head :: tail =>
      if head.kind = .identifier ∨ head.kind.isRuleModifier then
        let first := rule head tail
        first.attempt.andThen (modeRules first.rest)
      else if head.kind = .error then
        let first := unreadable head tail
        first.attempt.andThen (modeRules first.rest)
      else if Ahead.memberStart (head :: tail) then
        nothing (head :: tail)
      else
        let skipped :=
          (recover (.notALexerRule head.kind) [.semicolon] head tail).eat .semicolon
        skipped.attempt.andThen (modeRules skipped.rest)
termination_by input => input.length
decreasing_by
  · exact Nat.lt_succ_of_le first.within
  · exact Nat.lt_succ_of_le first.within
  · exact Nat.lt_succ_of_le skipped.within

def modeSection (head : Lexeme) (tail : List Lexeme) : Advance head tail :=
  let opened := take head tail
  let named := (opened.andThen (name .missingModeName opened.rest)).expect .semicolon
  (named.andThen (modeRules named.rest)).node .modeSection

/-! ## The file -/

/-- What starts no member, skipped through the next semicolon. -/
def stray (head : Lexeme) (tail : List Lexeme) : Advance head tail :=
  (recover (.notAMember head.kind) [.semicolon] head tail).eat .semicolon

/-- One member, or what stands in the place of one. -/
def member (head : Lexeme) (tail : List Lexeme) : Advance head tail :=
  match head.kind with
  | .grammarKeyword => header head tail
  | .lexerKeyword | .parserKeyword =>
      if Ahead.next .grammarKeyword tail then header head tail else stray head tail
  | .optionsKeyword => optionsSpec head tail
  | .importKeyword => importDecl head tail
  | .tokensKeyword => nameList .tokensSpec .tokenDecl head tail
  | .channelsKeyword => nameList .channelsSpec .channelDecl head tail
  | .atSign => namedAction head tail
  | .modeKeyword => modeSection head tail
  | .identifier | .fragmentKeyword | .publicKeyword | .privateKeyword | .protectedKeyword =>
      rule head tail
  | .error => unreadable head tail
  | _ => stray head tail

def members : (input : List Lexeme) → Reading input 0
  | [] => nothing []
  | head :: tail =>
      let first := member head tail
      first.append (members first.rest)
termination_by input => input.length
decreasing_by exact Nat.lt_succ_of_le first.within

theorem rest_members (input : List Lexeme) : (members input).rest = [] :=
  List.length_eq_zero_iff.mp (Nat.le_zero.mp (members input).within)

theorem leavesOf_members (input : List Lexeme) :
    Shape.leavesOf (members input).shapes = input := by
  have covers := (members input).covers
  rwa [rest_members, List.append_nil] at covers

/-- The shapes of the members of a file, and the problems in order. A file
without a header has that problem first. -/
def file (input : List Lexeme) : List Shape × List Problem :=
  let read := members input
  let problems := read.problems.toList
  if read.shapes.any (Shape.isNode .header) then
    (read.shapes, problems)
  else
    (read.shapes, ⟨.fileStart, .malformed .missingHeader⟩ :: problems)

theorem shapes_file (input : List Lexeme) : (file input).1 = (members input).shapes := by
  unfold file
  dsimp only
  split
  · rfl
  · rfl

end GrammarDesk.Syntax.Production
