/-!
Contract: the kinds of tokens and nodes in the tree of a grammar file.

Owns: the kinds, their numbering, the classes of kinds that readers ask about,
and how a token kind is named in a message.

Does not own: which characters make up a token (`Scan`), or which nodes occur
under which (`Reading`).
-/

namespace GrammarDesk.Syntax

inductive Kind where
  -- Trivia.
  | whitespace | lineComment | blockComment | docComment
  -- Names, literals and opaque blocks.
  | identifier | string | integer | action | bracketBlock
  -- Punctuation.
  | colon | doubleColon | semicolon | pipe | leftParen | rightParen | leftBrace
  | rightBrace | question | star | plus | plusEquals | equals | tilde | dot | doubleDot
  | arrow | comma | hash | atSign | less | greater
  -- Keywords.
  | grammarKeyword | lexerKeyword | parserKeyword | fragmentKeyword | importKeyword
  | optionsKeyword | tokensKeyword | channelsKeyword | modeKeyword | returnsKeyword
  | localsKeyword | throwsKeyword | catchKeyword | finallyKeyword | publicKeyword
  | privateKeyword | protectedKeyword
  -- Nodes of the file.
  | sourceFile | header | name | nameRef | optionsSpec | option | importDecl | importItem
  | tokensSpec | channelsSpec | tokenDecl | channelDecl | namedAction | modeSection
  -- Nodes of a rule.
  | parserRule | lexerRule | argSpec | returnsSpec | localsSpec | throwsSpec | ruleAction
  | exceptionHandler | finallyClause
  -- Nodes of a rule body.
  | alternativeList | alternative | alternativeLabel | elementOptions | labeledElement
  | repeatedElement | block | ruleRef | tokenRef | stringLiteral | charRange | charSet
  | wildcard | negation | actionElement | predicate | lexerCommands | lexerCommand
  -- A token no class accepts, and the node around skipped tokens.
  | error
deriving DecidableEq, Repr, Inhabited

namespace Kind

def all : List Kind :=
  [.whitespace, .lineComment, .blockComment, .docComment, .identifier, .string, .integer,
   .action, .bracketBlock, .colon, .doubleColon, .semicolon, .pipe, .leftParen,
   .rightParen, .leftBrace, .rightBrace, .question, .star, .plus, .plusEquals, .equals,
   .tilde, .dot, .doubleDot, .arrow, .comma, .hash, .atSign, .less, .greater,
   .grammarKeyword, .lexerKeyword, .parserKeyword, .fragmentKeyword, .importKeyword,
   .optionsKeyword, .tokensKeyword, .channelsKeyword, .modeKeyword, .returnsKeyword,
   .localsKeyword, .throwsKeyword, .catchKeyword, .finallyKeyword, .publicKeyword,
   .privateKeyword, .protectedKeyword, .sourceFile, .header, .name, .nameRef,
   .optionsSpec, .option, .importDecl, .importItem, .tokensSpec, .channelsSpec,
   .tokenDecl, .channelDecl, .namedAction, .modeSection, .parserRule, .lexerRule,
   .argSpec, .returnsSpec, .localsSpec, .throwsSpec, .ruleAction, .exceptionHandler,
   .finallyClause, .alternativeList, .alternative, .alternativeLabel, .elementOptions,
   .labeledElement, .repeatedElement, .block, .ruleRef, .tokenRef, .stringLiteral,
   .charRange, .charSet, .wildcard, .negation, .actionElement, .predicate,
   .lexerCommands, .lexerCommand, .error]

def ofNumber? (number : Nat) : Option Kind :=
  all[number]?

def isTrivia : Kind → Bool
  | .whitespace | .lineComment | .blockComment | .docComment => true
  | _ => false

def keyword? : Kind → Option String
  | .grammarKeyword => some "grammar"
  | .lexerKeyword => some "lexer"
  | .parserKeyword => some "parser"
  | .fragmentKeyword => some "fragment"
  | .importKeyword => some "import"
  | .optionsKeyword => some "options"
  | .tokensKeyword => some "tokens"
  | .channelsKeyword => some "channels"
  | .modeKeyword => some "mode"
  | .returnsKeyword => some "returns"
  | .localsKeyword => some "locals"
  | .throwsKeyword => some "throws"
  | .catchKeyword => some "catch"
  | .finallyKeyword => some "finally"
  | .publicKeyword => some "public"
  | .privateKeyword => some "private"
  | .protectedKeyword => some "protected"
  | _ => none

def isKeyword (kind : Kind) : Bool :=
  kind.keyword?.isSome

/-- Keywords that may stand before the name of a rule. -/
def isRuleModifier : Kind → Bool
  | .fragmentKeyword | .publicKeyword | .privateKeyword | .protectedKeyword => true
  | _ => false

/-- Tokens that repeat the element before them. -/
def isSuffix : Kind → Bool
  | .question | .star | .plus => true
  | _ => false

/-- Nodes that stand for a member of a grammar file. -/
def isMember : Kind → Bool
  | .header | .optionsSpec | .importDecl | .tokensSpec | .channelsSpec | .namedAction
  | .parserRule | .lexerRule | .modeSection => true
  | _ => false

def isRule : Kind → Bool
  | .parserRule | .lexerRule => true
  | _ => false

/-- Nodes that stand for an element of an alternative. -/
def isElement : Kind → Bool
  | .labeledElement | .repeatedElement | .block | .ruleRef | .tokenRef | .stringLiteral
  | .charRange | .charSet | .wildcard | .negation | .actionElement | .predicate => true
  | _ => false

def punctuation? : Kind → Option String
  | .colon => some ":"
  | .doubleColon => some "::"
  | .semicolon => some ";"
  | .pipe => some "|"
  | .leftParen => some "("
  | .rightParen => some ")"
  | .leftBrace => some "\x7b"
  | .rightBrace => some "\x7d"
  | .question => some "?"
  | .star => some "*"
  | .plus => some "+"
  | .plusEquals => some "+="
  | .equals => some "="
  | .tilde => some "~"
  | .dot => some "."
  | .doubleDot => some ".."
  | .arrow => some "->"
  | .comma => some ","
  | .hash => some "#"
  | .atSign => some "@"
  | .less => some "<"
  | .greater => some ">"
  | _ => none

/-- How a message names a token: punctuation and keywords by their quoted
characters, other tokens by what they are. -/
def describe (kind : Kind) : String :=
  match kind.punctuation?, kind.keyword? with
  | some characters, _ => "'" ++ characters ++ "'"
  | none, some word => "'" ++ word ++ "'"
  | none, none =>
      match kind with
      | .identifier => "identifier"
      | .string => "string literal"
      | .integer => "integer"
      | .action => "action block"
      | .bracketBlock => "bracket block"
      | _ => "ERROR"

end Kind

end GrammarDesk.Syntax
