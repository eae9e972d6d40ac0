import GrammarDesk.Check.Opening
import GrammarDesk.Diagnostic.Basic
import GrammarDesk.Grammar.Rule
import GrammarDesk.Graph.Reach

/-!
Contract: rules that can start with themselves.

Owns: the graph of leading references, and the report of its cycles: several
rules of one class that lead to each other, and a lexer rule that leads to itself
alone. A parser rule may lead to itself alone.

Does not own: which rules a body can start with (`Opening`).
-/

namespace GrammarDesk.Check

open Text Grammar

/-- A rule in the graph of leading references. -/
structure RuleNode where
  name : Name
  isLexer : Bool
  leads : List String
deriving DecidableEq, Repr

namespace RuleNode

def text (node : RuleNode) : String :=
  node.name.text

def ofRule? (rule : Rule) : Option RuleNode :=
  rule.name.map fun name =>
    ⟨name, rule.isLexer, (Opening.ofAlternatives rule.isLexer rule.alternatives).rules⟩

def firsts : (taken : List String) → List RuleNode → List RuleNode
  | _, [] => []
  | taken, node :: rest =>
      if node.text ∈ taken then
        firsts taken rest
      else
        node :: firsts (node.text :: taken) rest

/-- The nodes of a file: the first declaration of every rule name. -/
def ofRules (rules : List Rule) : List RuleNode :=
  firsts [] (rules.filterMap ofRule?)

/-- The place among all nodes of the rule that a leading reference of a node
means, which is of the node's own class. -/
def targetOf? (nodes : List RuleNode) (node : RuleNode) (name : String) : Option Nat :=
  nodes.findIdx? fun other => other.text = name && other.isLexer = node.isLexer

/-- The places that the leading references of a node lead to, one bit for
each. -/
def edges (nodes : List RuleNode) (node : RuleNode) : Nat :=
  (node.leads.filterMap (node.targetOf? nodes)).foldl (fun row place => row ||| 1 <<< place) 0

end RuleNode

/-- A rule on a cycle of leading references. -/
structure LoopNode where
  node : RuleNode
  /-- The place of the rule among all rules. -/
  place : Nat
  /-- The places of the rules that it leads to, one bit for each. -/
  ahead : Nat
deriving DecidableEq, Repr

namespace LoopNode

/-- The rules that lead back to themselves, in the order of their
declarations. -/
def ofNodes (nodes : List RuleNode) : List LoopNode :=
  let rows : Graph.Rows := nodes.map (RuleNode.edges nodes)
  (nodes.zip rows.reach).zipIdx.filterMap fun ((node, ahead), place) =>
    if ahead.testBit place then some ⟨node, place, ahead⟩ else none

/-- Whether two different rules lead to each other. -/
def meets (left right : LoopNode) : Bool :=
  left.place ≠ right.place && left.ahead.testBit right.place && right.ahead.testBit left.place

end LoopNode

def quotedNames (nodes : List RuleNode) : String :=
  ", ".intercalate (nodes.map fun node => "'" ++ node.text ++ "'")

/-- A file and the rules of it that lead back to themselves, each with the place
that other reports point to. -/
structure Loops where
  file : File.Id
  index : LineIndex
  entries : List (LoopNode × RelatedPlace)
deriving Repr

namespace Loops

def declared (file : File.Id) (index : LineIndex) (node : RuleNode) : RelatedPlace :=
  ⟨file, node.name.range, index.cutSpan node.name.range, "'" ++ node.text ++ "' declared here"⟩

def ofRules (file : File.Id) (index : LineIndex) (rules : List Rule) : Loops :=
  { file, index
    entries :=
      (LoopNode.ofNodes (RuleNode.ofRules rules)).map fun entry =>
        (entry, declared file index entry.node) }

/-- The report of a rule that leads back to itself, unless it is a parser rule
that does so alone. -/
def reports (loops : Loops) (entry : LoopNode) : List Diagnostic :=
  let node := entry.node
  let report := Diagnostic.ofKind .leftRecursion loops.file node.name.range
    (loops.index.cutSpan node.name.range)
  match loops.entries.filter fun other => entry.meets other.1 with
  | [] =>
      if node.isLexer then
        [report ("lexer rule '" ++ node.text ++ "' is left-recursive")]
      else
        []
  | partners =>
      [(report ("rule '" ++ node.text ++ "' is mutually left-recursive with " ++
          quotedNames (partners.map fun other => other.1.node))).relatedTo
        (partners.map Prod.snd)]

end Loops

def leftRecursion (file : File.Id) (index : LineIndex) (rules : List Rule) : List Diagnostic :=
  let loops := Loops.ofRules file index rules
  loops.entries.flatMap fun entry => loops.reports entry.1

end GrammarDesk.Check
