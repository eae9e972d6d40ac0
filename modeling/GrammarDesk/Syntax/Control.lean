import GrammarDesk.Syntax.Builder
import GrammarDesk.Syntax.Production.File

/-!
Contract: the reader, command by command.

Owns: commands over a place in a sequence of lexemes; the procedures of the reader as such
commands, the guard of every loop apart from the cases of what the loop calls, and with the
branches that force a lexeme where none was read; the runs of a command, with the rounds and
the calls that they go through, what they ask of the builder and what they report; and what it
is for a run to make progress.

A place is the lexemes from there on, whitespace and comments included. Commands look ahead
at significant lexemes only, any number of them, and that reads none. That the reader may be
told to give up is left out.

Does not own: what the builder makes of its calls (`Builder`), or which shapes and problems the
lexemes have (`Production`).
-/

namespace GrammarDesk.Syntax.Control

/-! ## Places -/

/-- The significant lexemes from a place on. -/
def ahead (place : List Lexeme) : List Lexeme :=
  place.filter fun lexeme => !lexeme.isTrivia

/-- The place of the next significant lexeme, or the end. -/
def pastTrivia (place : List Lexeme) : List Lexeme :=
  place.dropWhile Lexeme.isTrivia

def triviaAt (place : List Lexeme) : List Lexeme :=
  place.takeWhile Lexeme.isTrivia

def pastNext (place : List Lexeme) : List Lexeme :=
  (pastTrivia place).tail

/-- The kind of the next significant lexeme. At the end it is that of an unreadable one. -/
def currentKind : (input : List Lexeme) → Kind
  | [] => .error
  | head :: _ => head.kind

def currentText : (input : List Lexeme) → String
  | [] => ""
  | head :: _ => head.text

/-! ## Commands -/

inductive Procedure where
  | file | member | header | optionsSpec | option | importDecl | namedAction | modeSection
  | rule | ruleSpecs | ruleEnd | handlers | alternativeList | alternative | element | atom
  | block | elementOptions | lexerCommands | lexerCommand
  | nameList (list entry : Kind)
  | recover (fault : Fault) (resume : List Kind)
deriving DecidableEq, Repr

/-- What a procedure does. -/
inductive Command where
  | skip
  /-- Reads the next significant lexeme and the trivia before it, and reports the lexeme if it
  is unreadable. -/
  | bump
  /-- Reads the trivia before the next significant lexeme. -/
  | trivia
  /-- Calls the builder. -/
  | build (call : Builder.Call)
  /-- Reports a fault at the next significant lexeme. -/
  | report (fault : Fault)
  /-- Reports a fault just after the significant lexeme read last. -/
  | reportAfter (fault : Fault)
  /-- Leaves the loop around it. -/
  | leave
  /-- Stands where a loop has found that a round read nothing. -/
  | stuck
  | seq (first second : Command)
  /-- Goes on as the lexemes ahead tell. -/
  | inspect (branch : List Lexeme → Command)
  /-- Notes the place, for as long as the command under it runs. -/
  | marked (body : Command)
  /-- Tells whether anything was read since the place noted last. -/
  | ifMoved (moved unmoved : Command)
  /-- Runs its body until that leaves the loop. -/
  | loop (body : Command)
  | call (procedure : Procedure)

namespace Command

instance : Append Command where
  append := seq

/-- One of two commands, by what is ahead. -/
def choose (test : List Lexeme → Bool) (yes no : Command) : Command :=
  inspect fun input => if test input then yes else no

def dispatch (branch : Kind → Command) : Command :=
  inspect fun input => branch (currentKind input)

/-- A command as long as a test of what is ahead holds. -/
def repeatWhile (test : List Lexeme → Bool) (body : Command) : Command :=
  loop (choose test body leave)

/-- The next lexeme read if it is of a kind. -/
def eat (kind : Kind) : Command :=
  choose (Ahead.next kind) bump skip

/-- The next lexeme read if it is of a kind, and reported as missing otherwise. -/
def expect (kind : Kind) : Command :=
  choose (Ahead.next kind) bump (report (.missingToken kind))

/-- A further round of a loop if a comma comes next. -/
def comma : Command :=
  choose (Ahead.next .comma) bump leave

/-- What is read under a node. A node begins at a significant lexeme. -/
def node (kind : Kind) (body : Command) : Command :=
  trivia ++ build (.start kind) ++ body ++ build .finish

/-- What is read, and a node around it together with a suffix if one comes next. -/
def suffixed (kind : Kind) (body : Command) (test : List Lexeme → Bool) (suffix : Command) :
    Command :=
  trivia ++ build .mark ++ body ++
    choose test (build (.startAtMark kind) ++ suffix ++ build .finish) skip ++
    build .dropMark

/-- A round of a loop that must read something: where its body reads nothing before the end,
the next lexeme is read all the same. -/
def guarded (body : Command) : Command :=
  marked (body ++ ifMoved skip (choose List.isEmpty skip (stuck ++ bump)))

end Command

/-! ## The bodies of procedures

A body without a description is that of the procedure of its name, which reads what the
production of that name does. -/

namespace Body

open Command

def declared : Command :=
  node .name bump

def name (missing : Fault) : Command :=
  choose (Ahead.next .identifier) declared (report missing)

def nameRef : Command :=
  node .nameRef bump

def unreadable : Command :=
  node .error bump

/-- One round of skipping. Where a member starts it stops only behind the place noted. -/
def skipRound (resume : List Kind) : Command :=
  choose (fun input => input.isEmpty || Ahead.oneOf resume input) leave
    (ifMoved (choose Ahead.memberStart leave bump) bump)

/-- What is skipped until a lexeme of a kind in `resume`, or until a member starts behind the
first lexeme that was skipped. If none was skipped, the next is. -/
def skipping (resume : List Kind) : Command :=
  marked <| loop (skipRound resume) ++ ifMoved skip (choose List.isEmpty skip bump)

def recover (fault : Fault) (resume : List Kind) : Command :=
  report fault ++ node .error (skipping resume)

/-- What is skipped through the next semicolon, with a fault that names its first lexeme. -/
def skipped (fault : Kind → Fault) : Command :=
  dispatch fun found => call (.recover (fault found) [.semicolon]) ++ eat .semicolon

/-! ### Options -/

def dottedParts : Command :=
  repeatWhile (fun input => Ahead.next .dot input && Ahead.second .identifier input)
    (bump ++ bump)

def optionValue : Command :=
  dispatch fun
    | .identifier => node .nameRef (bump ++ dottedParts)
    | .string | .integer | .action => bump
    | _ => report .missingOptionValue

def option : Command :=
  node .option <|
    bump ++
      choose (Ahead.next .equals) (bump ++ optionValue) (report (.missingToken .equals)) ++
      expect .semicolon

def optionRound : Command :=
  choose (fun input => Ahead.next .identifier input && !Ahead.ruleStart input) (call .option)
    (choose Ahead.memberStart leave
      (call (.recover .missingOptionName [.rightBrace, .semicolon]) ++ eat .semicolon))

def options : Command :=
  repeatWhile (fun input => !input.isEmpty && !Ahead.next .rightBrace input) optionRound

def optionsSpec : Command :=
  node .optionsSpec <|
    bump ++
      choose (Ahead.next .leftBrace) (bump ++ options ++ expect .rightBrace)
        (report (.missingToken .leftBrace))

def skipTo (kinds : List Kind) : Command :=
  repeatWhile (fun input => !input.isEmpty && !Ahead.oneOf kinds input) bump

def elementOptions : Command :=
  node .elementOptions <|
    bump ++ skipTo [.greater, .semicolon, .pipe, .rightParen] ++ expect .greater

def elementOptions? : Command :=
  choose (Ahead.next .less) (call .elementOptions) skip

def arguments? : Command :=
  choose (Ahead.next .bracketBlock) (node .argSpec bump) skip

/-! ### Lexer commands -/

def commandArgument : Command :=
  choose (Ahead.next .leftParen)
    (bump ++
      choose (Ahead.next .identifier) nameRef
        (choose (Ahead.next .integer) bump (report .missingCommandArgument)) ++
      expect .rightParen)
    skip

def lexerCommand : Command :=
  node .lexerCommand <|
    choose (Ahead.oneOf [.identifier, .modeKeyword]) bump (report .missingCommand) ++
      commandArgument

def lexerCommands : Command :=
  node .lexerCommands <| bump ++ loop (call .lexerCommand ++ comma)

/-! ### Alternatives and elements -/

def alternativeLabel? : Command :=
  choose (Ahead.next .hash) (node .alternativeLabel (bump ++ name .missingLabelName)) skip

def lexerCommands? : Command :=
  choose (Ahead.next .arrow) (call .lexerCommands) skip

def blockOptions? : Command :=
  choose (Ahead.next .optionsKeyword) (call .optionsSpec ++ expect .colon) skip

/-- The alternatives after the first, each after a bar. -/
def moreAlternatives : Command :=
  repeatWhile (Ahead.next .pipe) (bump ++ call .alternative)

def alternativeList : Command :=
  node .alternativeList <| call .alternative ++ moreAlternatives

/-- Elements as long as another starts. -/
def elements : Command :=
  repeatWhile Ahead.elementStart (call .element)

def alternative : Command :=
  node .alternative <| elementOptions? ++ elements ++ alternativeLabel? ++ lexerCommands?

/-- The atom that a label or a negation needs. -/
def operand (missing : Fault) : Command :=
  choose Ahead.elementStart (call .atom) (report missing)

def labeledElement : Command :=
  choose
    (fun input =>
      Ahead.next .identifier input &&
        (Ahead.second .equals input || Ahead.second .plusEquals input))
    (node .labeledElement (bump ++ bump ++ operand .missingLabeledElement))
    (call .atom)

def element : Command :=
  suffixed .repeatedElement labeledElement Ahead.suffix (bump ++ eat .question)

def atom : Command :=
  dispatch fun
    | .identifier =>
        choose (fun input => Text.isTokenName (currentText input))
          (node .tokenRef (bump ++ elementOptions?))
          (node .ruleRef (bump ++ arguments? ++ elementOptions?))
    | .string =>
        choose (Ahead.second .doubleDot)
          (node .charRange
            (bump ++ bump ++ choose (Ahead.next .string) bump (report .missingRangeEnd)))
          (node .stringLiteral (bump ++ elementOptions?))
    | .leftParen => call .block
    | .dot => node .wildcard (bump ++ elementOptions?)
    | .tilde => node .negation (bump ++ operand .missingNegatedElement)
    | .action =>
        choose (Ahead.second .question) (node .predicate (bump ++ bump ++ elementOptions?))
          (node .actionElement bump)
    | .bracketBlock => node .charSet bump
    | _ => unreadable

def block : Command :=
  node .block <| bump ++ blockOptions? ++ call .alternativeList ++ expect .rightParen

/-! ### Rules -/

def modifiers : Command :=
  repeatWhile (fun input => (currentKind input).isRuleModifier && !input.isEmpty) bump

def bracketSpec (kind : Kind) : Command :=
  node kind (bump ++ expect .bracketBlock)

/-- The further exception names of a rule, each after a comma. -/
def moreThrown : Command :=
  repeatWhile (Ahead.next .comma) (bump ++ expect .identifier)

def ruleSpecRound : Command :=
  dispatch fun
    | .bracketBlock => node .argSpec bump
    | .returnsKeyword => bracketSpec .returnsSpec
    | .localsKeyword => bracketSpec .localsSpec
    | .throwsKeyword => node .throwsSpec (bump ++ expect .identifier ++ moreThrown)
    | .optionsKeyword => call .optionsSpec
    | .atSign => node .ruleAction (bump ++ expect .identifier ++ expect .action)
    | _ => leave

def ruleSpecs : Command :=
  repeatWhile (fun input => !input.isEmpty) ruleSpecRound

def ruleEnd : Command :=
  choose (Ahead.next .semicolon) bump
    (choose (fun input => input.isEmpty || Ahead.memberStart input)
      (reportAfter .missingRuleEnd) (skipped .notInRuleBody))

def catches : Command :=
  repeatWhile (Ahead.next .catchKeyword)
    (node .exceptionHandler (bump ++ expect .bracketBlock ++ expect .action))

def finallyClause? : Command :=
  choose (Ahead.next .finallyKeyword) (node .finallyClause (bump ++ expect .action)) skip

def handlers : Command :=
  catches ++ finallyClause?

/-- What follows the colon of a rule. -/
def ruleBody : Command :=
  call .alternativeList ++ call .ruleEnd ++ call .handlers

def rule : Command :=
  inspect fun input => node (Production.ruleKind input) <|
    modifiers ++ name .missingRuleName ++ call .ruleSpecs ++
      choose (Ahead.next .colon) (bump ++ ruleBody)
        (report .missingColon ++
          choose
            (fun input => input.isEmpty || Ahead.memberStart input || !Ahead.elementStart input)
            skip ruleBody)

/-! ### Members -/

def header : Command :=
  node .header <|
    choose (Ahead.oneOf [.lexerKeyword, .parserKeyword]) bump skip ++
      expect .grammarKeyword ++ name .missingGrammarName ++ expect .semicolon

def importAlias? : Command :=
  choose (fun input => Ahead.next .identifier input && Ahead.second .equals input)
    (declared ++ bump) skip

def importTarget : Command :=
  choose (Ahead.next .identifier) nameRef (report .missingGrammarName)

/-- One import: an alias, if there is one, and a name. -/
def importItem : Command :=
  node .importItem <| importAlias? ++ importTarget

def importDecl : Command :=
  node .importDecl <| bump ++ loop (importItem ++ comma) ++ expect .semicolon

/-- The names of a list with a comma after each but perhaps the last. -/
def listEntries (entry : Kind) : Command :=
  repeatWhile (Ahead.next .identifier) (node entry (name .missingListEntry) ++ comma)

/-- What stands between the names of a list and its closing brace is skipped. -/
def listRemainder : Command :=
  choose
    (fun input => !input.isEmpty && !Ahead.next .rightBrace input && !Ahead.memberStart input)
    (call (.recover .missingListEntry [.rightBrace])) skip

def nameList (list entry : Kind) : Command :=
  node list <|
    bump ++
      choose (Ahead.next .leftBrace)
        (bump ++ listEntries entry ++ listRemainder ++ expect .rightBrace)
        (report (.missingToken .leftBrace))

def actionName : Command :=
  choose Ahead.actionName
    (node .name <|
      bump ++
        choose (Ahead.next .doubleColon)
          (bump ++ choose Ahead.actionName bump (report .missingActionName)) skip)
    (report .missingActionName)

def namedAction : Command :=
  node .namedAction <| bump ++ actionName ++ expect .action

/-- What starts no member, skipped through the next semicolon. -/
def stray : Command :=
  skipped .notAMember

/-- One round of the loop over the rules of a mode. -/
def modeRound : Command :=
  dispatch fun
    | .identifier | .fragmentKeyword | .publicKeyword | .privateKeyword | .protectedKeyword =>
        call .rule
    | .error => unreadable
    | _ => choose Ahead.memberStart leave (skipped .notALexerRule)

/-- The rules of a mode, up to the next mode or another member that is no rule. -/
def modeRules : Command :=
  repeatWhile (fun input => !input.isEmpty && !Ahead.next .modeKeyword input)
    (guarded modeRound)

def modeSection : Command :=
  node .modeSection <| bump ++ name .missingModeName ++ expect .semicolon ++ modeRules

def member : Command :=
  dispatch fun
    | .grammarKeyword => call .header
    | .lexerKeyword | .parserKeyword =>
        choose (Ahead.second .grammarKeyword) (call .header) stray
    | .optionsKeyword => call .optionsSpec
    | .importKeyword => call .importDecl
    | .tokensKeyword => call (.nameList .tokensSpec .tokenDecl)
    | .channelsKeyword => call (.nameList .channelsSpec .channelDecl)
    | .atSign => call .namedAction
    | .modeKeyword => call .modeSection
    | .identifier | .fragmentKeyword | .publicKeyword | .privateKeyword | .protectedKeyword =>
        call .rule
    | .error => unreadable
    | _ => stray

/-- The members of a file, down to the end. -/
def members : Command :=
  repeatWhile (fun input => !input.isEmpty) (guarded (call .member))

def file : Command :=
  node .sourceFile <| members ++ trivia

end Body

namespace Procedure

def body : Procedure → Command
  | file => Body.file
  | member => Body.member
  | header => Body.header
  | optionsSpec => Body.optionsSpec
  | option => Body.option
  | importDecl => Body.importDecl
  | namedAction => Body.namedAction
  | modeSection => Body.modeSection
  | rule => Body.rule
  | ruleSpecs => Body.ruleSpecs
  | ruleEnd => Body.ruleEnd
  | handlers => Body.handlers
  | alternativeList => Body.alternativeList
  | alternative => Body.alternative
  | element => Body.element
  | atom => Body.atom
  | block => Body.block
  | elementOptions => Body.elementOptions
  | lexerCommands => Body.lexerCommands
  | lexerCommand => Body.lexerCommand
  | nameList list entry => Body.nameList list entry
  | recover fault resume => Body.recover fault resume

def rest : Procedure → (input : List Lexeme) → List Lexeme
  | file, input => (Production.members input).rest
  | ruleSpecs, input => (Production.ruleSpecs input).rest
  | ruleEnd, input => (Production.ruleEnd input).rest
  | handlers, input => (Production.finallyClause? (Production.handlers input).rest).rest
  | alternativeList, input => (Production.alternativeList input).rest
  | alternative, input => (Production.alternative input).rest
  | lexerCommand, input => (Production.lexerCommand input).rest
  | _, [] => []
  | member, head :: tail => (Production.member head tail).rest
  | header, head :: tail => (Production.header head tail).rest
  | optionsSpec, head :: tail => (Production.optionsSpec head tail).rest
  | option, head :: tail => (Production.option head tail).rest
  | importDecl, head :: tail => (Production.importDecl head tail).rest
  | namedAction, head :: tail => (Production.namedAction head tail).rest
  | modeSection, head :: tail => (Production.modeSection head tail).rest
  | rule, head :: tail => (Production.rule head tail).rest
  | element, head :: tail => (Production.element head tail).rest
  | atom, head :: tail | block, head :: tail => (Production.atom head tail).rest
  | elementOptions, head :: tail => (Production.elementOptions head tail).rest
  | lexerCommands, head :: tail => (Production.lexerCommands head tail).rest
  | nameList list entry, head :: tail => (Production.nameList list entry head tail).rest
  | recover fault resume, head :: tail => (Production.recover fault resume head tail).rest

/-- Whether a procedure must read a lexeme wherever there is one. -/
def alwaysReads : Procedure → Bool
  | member | atom | recover _ _ => true
  | _ => false

def isHeader (procedure : Procedure) : Bool :=
  procedure = header

end Procedure

/-! ## Runs -/

/-- How a command ends: the next one follows, or the loop around it is left. -/
inductive Exit where
  | next
  | left
deriving DecidableEq, Repr

/-- What happens on the way of a run. -/
inductive Event where
  /-- A round of a loop that is followed by another, from a place to a place. -/
  | round (before after : List Lexeme)
  /-- A call, from a place to a place. -/
  | call (procedure : Procedure) (before after : List Lexeme)
  /-- A round was found to have read nothing. -/
  | stuck (place : List Lexeme)
  | build (call : Builder.Call)
  | report (problem : Problem)
deriving DecidableEq, Repr

def passTrivia (place : List Lexeme) : List Event :=
  (triviaAt place).map fun lexeme => .build (.token lexeme)

/-- A significant lexeme handed to the builder, and reported before if it is unreadable. -/
def passLexeme : (place : List Lexeme) → List Event
  | [] => []
  | head :: tail =>
      (Problem.ofLexeme (ahead tail).length head).map .report ++ [.build (.token head)]

/-- The runs of a command from a place, with another place noted: how and where they end, and
what happens on the way. A loop has a run only if its rounds come to an end. -/
inductive Runs : Command → (mark place : List Lexeme) → Exit → (after : List Lexeme) →
    List Event → Prop
  | skip {mark place} : Runs .skip mark place .next place []
  | bump {mark place} :
      Runs .bump mark place .next (pastNext place)
        (passTrivia place ++ passLexeme (pastTrivia place))
  | trivia {mark place} : Runs .trivia mark place .next (pastTrivia place) (passTrivia place)
  | build {call mark place} : Runs (.build call) mark place .next place [.build call]
  | report {fault mark place} :
      Runs (.report fault) mark place .next place
        [.report ⟨.next (ahead place), .malformed fault⟩]
  | reportAfter {fault mark place} :
      Runs (.reportAfter fault) mark place .next place
        [.report ⟨.after (ahead place).length, .malformed fault⟩]
  | leave {mark place} : Runs .leave mark place .left place []
  | stuck {mark place} : Runs .stuck mark place .next place [.stuck place]
  | seq {first second mark place between exit after log later} :
      Runs first mark place .next between log → Runs second mark between exit after later →
        Runs (.seq first second) mark place exit after (log ++ later)
  | seqLeft {first second mark place after log} :
      Runs first mark place .left after log → Runs (.seq first second) mark place .left after log
  | inspect {branch mark place exit after log} :
      Runs (branch (ahead place)) mark place exit after log →
        Runs (.inspect branch) mark place exit after log
  | marked {body mark place exit after log} :
      Runs body place place exit after log → Runs (.marked body) mark place exit after log
  | moved {moved unmoved mark place exit after log} :
      place ≠ mark → Runs moved mark place exit after log →
        Runs (.ifMoved moved unmoved) mark place exit after log
  | unmoved {moved unmoved place exit after log} :
      Runs unmoved place place exit after log →
        Runs (.ifMoved moved unmoved) place place exit after log
  | round {body mark place between exit after log later} :
      Runs body mark place .next between log → Runs (.loop body) mark between exit after later →
        Runs (.loop body) mark place exit after (log ++ .round place between :: later)
  | last {body mark place after log} :
      Runs body mark place .left after log → Runs (.loop body) mark place .next after log
  | call {procedure mark place after log} :
      Runs procedure.body place place .next after log →
        Runs (.call procedure) mark place .next after (log ++ [.call procedure place after])

/-! ## What a run builds and reports -/

namespace Event

def call? : Event → Option Builder.Call
  | .build asked => some asked
  | _ => none

def problem? : Event → Option Problem
  | .report problem => some problem
  | _ => none

def isHeader : Event → Bool
  | .call procedure _ _ => procedure.isHeader
  | _ => false

end Event

def callsIn (log : List Event) : List Builder.Call :=
  log.filterMap Event.call?

def problemsIn (log : List Event) : List Problem :=
  log.filterMap Event.problem?

/-- All problems of a file once it is read. Where no header was read, that comes first. -/
def problemsOf (log : List Event) : List Problem :=
  if log.any Event.isHeader then
    problemsIn log
  else
    ⟨.fileStart, .malformed .missingHeader⟩ :: problemsIn log

/-! ## Progress -/

/-- Between two places a significant lexeme was read. -/
def Consumes (before after : List Lexeme) : Prop :=
  ∃ passed, before = passed ++ after ∧ ∃ lexeme ∈ passed, lexeme.isTrivia = false

/-- What happens on the way makes progress: a round that is followed by another reads a
lexeme; a call leaves what the production leaves, and it reads a lexeme if its procedure must
and there is one; and no round is found to have read nothing. -/
def Event.Advances : Event → Prop
  | .round before after => Consumes before after
  | .call procedure before after =>
      ahead after = procedure.rest (ahead before) ∧
        (procedure.alwaysReads = true → ahead before ≠ [] → Consumes before after)
  | .stuck _ => False
  | .build _ | .report _ => True

end GrammarDesk.Syntax.Control
