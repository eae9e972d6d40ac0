import GrammarDesk.Query.Basic

/-!
Contract: the rule under a cursor.

Owns: the rule around every token of a tree, and the rule that a position
selects. Between two tokens the right one decides if it is in a rule, and else
the left one.
-/

namespace GrammarDesk

open Text Grammar

mutual

/-- The tokens of a tree, each with the innermost rule around it, in front of
others; `around` is the rule around the whole tree. -/
def prependTokensInRules (others : List (Syntax.Token × Option Rule)) (around : Option Rule) :
    Syntax.ParseTree → List (Syntax.Token × Option Rule)
  | .leaf token => (token, around) :: others
  | .node kind range children =>
      let inside :=
        if kind.isRule then some (Rule.ofTree (.node kind range children)) else around
      prependTokensInRulesOf others inside children

/-- The tokens of several trees, each with the innermost rule around it, in
front of others. -/
def prependTokensInRulesOf (others : List (Syntax.Token × Option Rule)) (around : Option Rule) :
    List Syntax.ParseTree → List (Syntax.Token × Option Rule)
  | [] => others
  | tree :: rest => prependTokensInRules (prependTokensInRulesOf others around rest) around tree

end

/-- The tokens of a tree, each with the innermost rule around it. -/
def tokensInRules (tree : Syntax.ParseTree) : List (Syntax.Token × Option Rule) :=
  prependTokensInRules [] none tree

namespace SourceFile

/-- The rule that an offset selects. -/
def ruleAt? (source : SourceFile) (offset : Nat) : Option Rule :=
  let touching :=
    (tokensInRules source.analysis.parse.tree).filter fun entry =>
      (Range.mk entry.1.offset entry.1.stop).touches offset
  (touching.getLast?.bind Prod.snd).or (touching.head?.bind Prod.snd)

end SourceFile

def Snapshot.ruleAt (snapshot : Snapshot) (path : File.Path) (position : Position) :
    Answer (Option String) :=
  match snapshot.fileAt? path with
  | none => .ok none
  | some source => do
      let offset ← source.offset position
      return (source.ruleAt? offset).bind Rule.nameText

end GrammarDesk
