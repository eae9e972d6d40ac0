import GrammarDesk.Grammar.Member

/-!
Contract: where the members of a file use names, and what each use looks for.

Owns: the kinds of references, and the uses of a member in the order of the text.

Does not own: what a name is bound to (`Lookup`).
-/

namespace GrammarDesk

open Grammar

inductive ReferenceKind where
  | rule
  | token
  /-- A literal in a parser rule, which means the lexer rule it makes up. -/
  | literal
  | mode
  | channel
  | grammar
deriving DecidableEq, Repr

namespace ReferenceKind

def display : ReferenceKind → String
  | .rule => "rule"
  | .token => "token"
  | .literal => "literal"
  | .mode => "mode"
  | .channel => "channel"
  | .grammar => "grammar"

/-- What the argument of a lexer command looks for. -/
def ofCommand? : CommandKind → Option ReferenceKind
  | .mode | .pushMode => some .mode
  | .channel => some .channel
  | .type => some .token
  | .skip | .more | .popMode | .unknown => none

end ReferenceKind

structure Use where
  kind : ReferenceKind
  name : Name
  /-- The name of the rule it is in. -/
  rule : Option String
  inLexerRule : Bool
deriving DecidableEq, Repr

namespace Use

/-- The use that a lexer command makes of its argument. -/
def ofCommand? (command : Command) : Option (ReferenceKind × Name) := do
  let name ← command.argument
  let kind ← command.kind
  let wanted ← ReferenceKind.ofCommand? kind
  return (wanted, name)

mutual

/-- The uses in an element. A literal in a lexer rule defines text and refers to
nothing. -/
def ofElement (inLexerRule : Bool) : Element → List (ReferenceKind × Name)
  | .labeled _ _ _ inner => ofInner inLexerRule inner
  | .repeated _ _ _ inner => ofInner inLexerRule inner
  | .negated _ inner => ofInner inLexerRule inner
  | .block _ alternatives => ofAlternatives inLexerRule alternatives
  | .ruleRef _ name => [(.rule, name)]
  | .tokenRef _ name => [(.token, name)]
  | .literal _ literal => if inLexerRule then [] else [(.literal, literal)]
  | .charRange _ _ | .charSet _ _ | .wildcard _ | .action _ _ | .predicate _ _ => []

def ofInner (inLexerRule : Bool) : Option Element → List (ReferenceKind × Name)
  | none => []
  | some element => ofElement inLexerRule element

def ofElements (inLexerRule : Bool) : List Element → List (ReferenceKind × Name)
  | [] => []
  | element :: rest => ofElement inLexerRule element ++ ofElements inLexerRule rest

def ofAlternative (inLexerRule : Bool) : Alternative → List (ReferenceKind × Name)
  | .mk _ elements commands =>
      ofElements inLexerRule elements ++ commands.filterMap ofCommand?

def ofAlternatives (inLexerRule : Bool) : List Alternative → List (ReferenceKind × Name)
  | [] => []
  | alternative :: rest =>
      ofAlternative inLexerRule alternative ++ ofAlternatives inLexerRule rest

end

def ofRule (rule : Rule) : List Use :=
  (ofAlternatives rule.isLexer rule.alternatives).map fun (kind, name) =>
    ⟨kind, name, rule.nameText, rule.isLexer⟩

/-- The use of a grammar's name outside rules. -/
def ofGrammar (name : Name) : Use :=
  ⟨.grammar, name, none, false⟩

def ofMember : Member → List Use
  | .header _ | .tokens _ _ | .channels _ _ | .namedAction _ _ => []
  | .options _ settings => (vocabularyOf settings).toList.map ofGrammar
  | .imports _ items => (items.filterMap fun item => item.target).map ofGrammar
  | .rule entry => ofRule entry.rule
  | .mode mode => mode.rules.flatMap fun entry => ofRule entry.rule

def ofMembers (members : List Member) : List Use :=
  members.flatMap ofMember

end Use

end GrammarDesk
