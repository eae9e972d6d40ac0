import GrammarDesk.Syntax.ParseTree

/-!
Contract: the bodies of rules as values: alternatives, their elements and their
lexer commands, each with the byte range it was written at.

Owns: these types, and what a tree says about them. A node that lacks a part it
cannot do without is no element; a part that recovery may have left out is
optional.

Does not own: rules and members around the bodies.
-/

namespace GrammarDesk.Grammar

open Syntax Text

/-- A name or literal, and where it is written. -/
structure Name where
  text : String
  range : Range
deriving DecidableEq, Repr, Inhabited

namespace Name

/-- The name that a node spells without its trivia. -/
def ofTree (tree : ParseTree) : Name :=
  ⟨tree.significantText, tree.range⟩

def ofToken (token : Token) : Name :=
  ⟨token.text, ⟨token.offset, token.stop⟩⟩

end Name

/-! ## Parts of a node -/

def tokenOf? (kind : Kind) (trees : List ParseTree) : Option Token :=
  (trees.filterMap ParseTree.token?).find? fun token => token.kind = kind

def hasToken (kind : Kind) (trees : List ParseTree) : Bool :=
  (tokenOf? kind trees).isSome

def nameOf? (kind : Kind) (trees : List ParseTree) : Option Name :=
  (trees.find? (ParseTree.isNode kind)).map Name.ofTree

/-! ## Lexer commands -/

/-- What a lexer command does, told by its name. -/
inductive CommandKind where
  | skip
  | more
  | popMode
  | channel
  | mode
  | pushMode
  | type
  | unknown
deriving DecidableEq, Repr

namespace CommandKind

/-- The command of a name; any other name is unknown. -/
def ofName : String → CommandKind
  | "skip" => .skip
  | "more" => .more
  | "popMode" => .popMode
  | "channel" => .channel
  | "mode" => .mode
  | "pushMode" => .pushMode
  | "type" => .type
  | _ => .unknown

end CommandKind

/-- A lexer command: its name and its argument, as an identifier and as
written. -/
structure Command where
  name : Option String
  argument : Option Name
  argumentText : Option String
deriving DecidableEq, Repr

namespace Command

def kind (command : Command) : Option CommandKind :=
  command.name.map CommandKind.ofName

def ofParts (parts : List ParseTree) : Command :=
  let words := (parts.filterMap ParseTree.token?).filter fun token =>
    token.kind = .identifier || token.kind = .modeKeyword
  let argument := nameOf? .nameRef parts
  { name := words.head?.map fun token => token.text
    argument := argument
    argumentText :=
      match argument with
      | some name => some name.text
      | none => (tokenOf? .integer parts).map fun token => token.text }

end Command

def commandsOf (parts : List ParseTree) : List Command :=
  match parts.find? (ParseTree.isNode .lexerCommands) with
  | none => []
  | some commands =>
      (commands.children.filter (ParseTree.isNode .lexerCommand)).map fun command =>
        Command.ofParts command.children

/-! ## Elements -/

inductive Suffix where
  | optional
  | zeroOrMore
  | oneOrMore
deriving DecidableEq, Repr

namespace Suffix

def ofKind? : Kind → Option Suffix
  | .question => some .optional
  | .star => some .zeroOrMore
  | .plus => some .oneOrMore
  | _ => none

/-- Whether no occurrence at all is enough. -/
def allowsNone : Suffix → Bool
  | .optional | .zeroOrMore => true
  | .oneOrMore => false

end Suffix

mutual

/-- An element of an alternative. The inner element of a label, a suffix or a
negation is missing where recovery found none. -/
inductive Element where
  | labeled (range : Range) (label : String) (isList : Bool) (inner : Option Element)
  | repeated (range : Range) (suffix : Suffix) (isGreedy : Bool) (inner : Option Element)
  | negated (range : Range) (inner : Option Element)
  | block (range : Range) (alternatives : List Alternative)
  | ruleRef (range : Range) (name : Name)
  | tokenRef (range : Range) (name : Name)
  | literal (range : Range) (literal : Name)
  | charRange (range : Range) (bounds : Option (String × String))
  | charSet (range : Range) (text : String)
  | wildcard (range : Range)
  | action (range : Range) (text : String)
  | predicate (range : Range) (text : String)
deriving Repr

inductive Alternative where
  | mk (label : Option Name) (elements : List Element) (commands : List Command)
deriving Repr

end

namespace Element

def range : Element → Range
  | .labeled range .. => range
  | .repeated range .. => range
  | .negated range .. => range
  | .block range .. => range
  | .ruleRef range .. => range
  | .tokenRef range .. => range
  | .literal range .. => range
  | .charRange range .. => range
  | .charSet range .. => range
  | .wildcard range => range
  | .action range .. => range
  | .predicate range .. => range

end Element

namespace Alternative

def label : Alternative → Option Name
  | .mk label _ _ => label

def elements : Alternative → List Element
  | .mk _ elements _ => elements

def commands : Alternative → List Command
  | .mk _ _ commands => commands

end Alternative

/-! ## Reading a tree -/

def labelOf? (parts : List ParseTree) : Option Name :=
  (parts.find? (ParseTree.isNode .alternativeLabel)).bind fun label =>
    nameOf? .name label.children

/-- The repetition and greediness that the parts of a repeated element spell. -/
def suffixOf? (parts : List ParseTree) : Option (Suffix × Bool) :=
  match (parts.filterMap ParseTree.token?).filter fun token => token.kind.isSuffix with
  | [] => none
  | first :: others => (Suffix.ofKind? first.kind).map fun suffix => (suffix, others.isEmpty)

/-- The ends of a range of literals, if it has both. -/
def boundsOf? (parts : List ParseTree) : Option (String × String) :=
  match (parts.filterMap ParseTree.token?).filter fun token => token.kind = .string with
  | low :: high :: _ => some (low.text, high.text)
  | _ => none

mutual

def elementOf? : ParseTree → Option Element
  | .leaf _ => none
  | .node kind range parts =>
      match kind with
      | .labeledElement =>
          (tokenOf? .identifier parts).map fun label =>
            .labeled range label.text (hasToken .plusEquals parts) (firstElementOf? parts)
      | .repeatedElement =>
          (suffixOf? parts).map fun (suffix, isGreedy) =>
            .repeated range suffix isGreedy (firstElementOf? parts)
      | .negation => some (.negated range (firstElementOf? parts))
      | .block => some (.block range (firstAlternativesOf parts))
      | .ruleRef =>
          (tokenOf? .identifier parts).map fun token => .ruleRef range (.ofToken token)
      | .tokenRef =>
          (tokenOf? .identifier parts).map fun token => .tokenRef range (.ofToken token)
      | .stringLiteral =>
          (tokenOf? .string parts).map fun token => .literal range (.ofToken token)
      | .charRange => some (.charRange range (boundsOf? parts))
      | .charSet => some (.charSet range (ParseTree.node kind range parts).significantText)
      | .wildcard => some (.wildcard range)
      | .actionElement => some (.action range (ParseTree.node kind range parts).significantText)
      | .predicate =>
          (tokenOf? .action parts).map fun token => .predicate range token.text
      | _ => none

def firstElementOf? : List ParseTree → Option Element
  | [] => none
  | tree :: rest =>
      match elementOf? tree with
      | some element => some element
      | none => firstElementOf? rest

def elementsOf : List ParseTree → List Element
  | [] => []
  | tree :: rest =>
      match elementOf? tree with
      | some element => element :: elementsOf rest
      | none => elementsOf rest

def alternativesOf : List ParseTree → List Alternative
  | [] => []
  | .leaf _ :: rest => alternativesOf rest
  | .node kind _ parts :: rest =>
      if kind = .alternative then
        .mk (labelOf? parts) (elementsOf parts) (commandsOf parts) :: alternativesOf rest
      else
        alternativesOf rest

def firstAlternativesOf : List ParseTree → List Alternative
  | [] => []
  | .leaf _ :: rest => firstAlternativesOf rest
  | .node kind _ parts :: rest =>
      if kind = .alternativeList then alternativesOf parts else firstAlternativesOf rest

end

end GrammarDesk.Grammar
