import GrammarDesk.Grammar.DocComment
import GrammarDesk.Grammar.Rule

/-!
Contract: the members of a grammar file as values, in the order of the file.

Owns: headers, options, imports, name lists, named actions, rules and modes, and
reading them off a tree.

Does not own: what members declare or use.
-/

namespace GrammarDesk.Grammar

open Syntax Text

/-- What a grammar is made of, as its header says. -/
inductive GrammarKind where
  | combined
  | lexer
  | parser
deriving DecidableEq, Repr, Inhabited

namespace GrammarKind

def keyword : GrammarKind → String
  | .combined => "grammar"
  | .lexer => "lexer grammar"
  | .parser => "parser grammar"

def allowsLexerRules (kind : GrammarKind) : Bool :=
  kind ≠ .parser

def allowsParserRules (kind : GrammarKind) : Bool :=
  kind ≠ .lexer

end GrammarKind

structure Header where
  range : Range
  kind : GrammarKind
  name : Option Name
  doc : Option String
deriving DecidableEq, Repr

/-- One option; its value is a name only where a name is written. -/
structure Setting where
  name : Option String
  value : Option Name
deriving DecidableEq, Repr

structure ImportItem where
  range : Range
  alternateName : Option Name
  target : Option Name
deriving DecidableEq, Repr

structure ListEntry where
  range : Range
  name : Option Name
deriving DecidableEq, Repr

structure DocumentedRule where
  rule : Rule
  doc : Option String
deriving Repr

structure ModeSection where
  range : Range
  name : Option Name
  doc : Option String
  rules : List DocumentedRule
deriving Repr

inductive Member where
  | header (header : Header)
  | options (range : Range) (settings : List Setting)
  | imports (range : Range) (items : List ImportItem)
  | tokens (range : Range) (entries : List ListEntry)
  | channels (range : Range) (entries : List ListEntry)
  | namedAction (range : Range) (name : Option Name)
  | rule (rule : DocumentedRule)
  | mode (mode : ModeSection)
deriving Repr

namespace Setting

/-- The option whose value names the grammar that tokens come from. -/
def vocabulary : String := "tokenVocab"

end Setting

def vocabularyOf (settings : List Setting) : Option Name :=
  (settings.find? fun setting => setting.name = some Setting.vocabulary).bind
    fun setting => setting.value

/-- An action name split at its first double colon into scope and name. -/
def splitScope : List Char → Option (List Char × List Char)
  | [] => none
  | ':' :: ':' :: rest => some ([], rest)
  | character :: rest =>
      (splitScope rest).map fun (scope, name) => (character :: scope, name)

def scopeAndName (name : Name) : Option String × String :=
  match splitScope name.text.toList with
  | some (scope, rest) => (some (String.ofList scope), String.ofList rest)
  | none => (none, name.text)

/-! ## Reading a tree -/

namespace Member

def isMember : ParseTree → Bool
  | .leaf _ => false
  | .node kind _ _ => kind.isMember

def grammarKindOf (parts : List ParseTree) : GrammarKind :=
  if hasToken .lexerKeyword parts then .lexer
  else if hasToken .parserKeyword parts then .parser
  else .combined

/-- The options among the parts of an options block. -/
def settingsOf (parts : List ParseTree) : List Setting :=
  (parts.filter (ParseTree.isNode .option)).map fun option =>
    { name := (tokenOf? .identifier option.children).map fun token => token.text
      value := nameOf? .nameRef option.children }

def importItemsOf (parts : List ParseTree) : List ImportItem :=
  (parts.filter (ParseTree.isNode .importItem)).map fun item =>
    { range := item.range
      alternateName := nameOf? .name item.children
      target := nameOf? .nameRef item.children }

def entriesOf (kind : Kind) (parts : List ParseTree) : List ListEntry :=
  (parts.filter (ParseTree.isNode kind)).map fun entry =>
    { range := entry.range
      name := nameOf? .name entry.children }

def modeRulesOf (parts : List ParseTree) : List DocumentedRule :=
  (DocComment.documented Rule.isRule [] parts).map fun (tree, doc) => ⟨Rule.ofTree tree, doc⟩

def ofTree? (tree : ParseTree) (doc : Option String) : Option Member :=
  match tree with
  | .leaf _ => none
  | .node kind range parts =>
      match kind with
      | .header => some (.header ⟨range, grammarKindOf parts, nameOf? .name parts, doc⟩)
      | .optionsSpec => some (.options range (settingsOf parts))
      | .importDecl => some (.imports range (importItemsOf parts))
      | .tokensSpec => some (.tokens range (entriesOf .tokenDecl parts))
      | .channelsSpec => some (.channels range (entriesOf .channelDecl parts))
      | .namedAction => some (.namedAction range (nameOf? .name parts))
      | .parserRule | .lexerRule => some (.rule ⟨Rule.ofTree tree, doc⟩)
      | .modeSection =>
          some (.mode ⟨range, nameOf? .name parts, doc, modeRulesOf parts⟩)
      | _ => none

end Member

def membersOf (tree : ParseTree) : List Member :=
  (DocComment.documented Member.isMember [] tree.children).filterMap fun (member, doc) =>
    Member.ofTree? member doc

def headerOf? (members : List Member) : Option Header :=
  members.findSome? fun member =>
    match member with
    | .header header => some header
    | _ => none

end GrammarDesk.Grammar
