import GrammarDesk.Query.Basic
import GrammarDesk.Text.Word

/-!
Contract: the railroad diagram of a rule.

Owns: diagrams as trees, and the diagram of a rule's body. A label leaves no
trace, a group of one is that one, and an element that recovery left without its
core is left out.

Does not own: layout and drawing.
-/

namespace GrammarDesk

open Grammar

inductive Diagram where
  | choice (branches : List Diagram)
  | sequence (parts : List Diagram)
  | repeated (suffix : Suffix) (inner : Diagram)
  | negation (inner : Diagram)
  | terminal (name : String)
  | nonTerminal (name : String)
  | literal (text : String)
  | charSet (text : String)
  | wildcard
  | action (text : String)
  | predicate (text : String)
  /-- Lexer commands as written. -/
  | commands (entries : List String)
deriving Repr

namespace Diagram

/-- The branches of a choice as one diagram. -/
def chooseFrom : List Diagram → Diagram
  | [] => .sequence []
  | [only] => only
  | branches => .choice branches

def joinParts : List Diagram → Diagram
  | [only] => only
  | parts => .sequence parts

/-- A lexer command as written, if it has a name. -/
def commandText? (command : Command) : Option String :=
  command.name.map fun name =>
    match command.argumentText with
    | some argument => name ++ "(" ++ argument ++ ")"
    | none => name

def ofCommands : List Command → List Diagram
  | [] => []
  | written => [.commands (written.filterMap commandText?)]

mutual

def ofElement? : Element → Option Diagram
  | .labeled _ _ _ inner => ofInner? inner
  | .repeated _ suffix _ inner => (ofInner? inner).map (.repeated suffix)
  | .negated _ inner => (ofInner? inner).map .negation
  | .block _ alternatives => some (chooseFrom (ofAlternatives alternatives))
  | .ruleRef _ name => some (.nonTerminal name.text)
  | .tokenRef _ name => some (.terminal name.text)
  | .literal _ written => some (.literal written.text)
  | .charRange _ bounds => bounds.map fun (low, high) => .charSet (low ++ ".." ++ high)
  | .charSet _ text => some (.charSet text)
  | .wildcard _ => some .wildcard
  | .action _ text => some (.action text)
  | .predicate _ text => some (.predicate text)

def ofInner? : Option Element → Option Diagram
  | none => none
  | some element => ofElement? element

def ofElements : List Element → List Diagram
  | [] => []
  | element :: rest => (ofElement? element).toList ++ ofElements rest

def ofAlternative : Alternative → Diagram
  | .mk _ elements written => joinParts (ofElements elements ++ ofCommands written)

def ofAlternatives : List Alternative → List Diagram
  | [] => []
  | alternative :: rest => ofAlternative alternative :: ofAlternatives rest

end

def ofRule (rule : Rule) : Diagram :=
  chooseFrom (ofAlternatives rule.alternatives)

end Diagram

structure RuleDiagram where
  name : String
  file : File.Id
  kind : SymbolKind
  root : Diagram
deriving Repr

/-- The diagram of the first rule of a name in a file, if there is one. -/
def Snapshot.diagram (snapshot : Snapshot) (path : File.Path) (name : String) :
    Answer (Option RuleDiagram) :=
  if Text.isIdentifier name then
    .ok <| do
      let source ← snapshot.fileAt? path
      let rule ← source.analysis.rules.find? fun rule => rule.nameText = some name
      return ⟨name, source.file, if rule.isLexer then .lexerRule else .parserRule,
        .ofRule rule⟩
  else
    .error (.notRuleName name)

end GrammarDesk
