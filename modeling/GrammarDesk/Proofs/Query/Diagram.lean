import GrammarDesk.Proofs.Query.Body
import GrammarDesk.Proofs.Symbol.Rules
import GrammarDesk.Proofs.Workspace.Loaded
import GrammarDesk.Proofs.Workspace.Session
import GrammarDesk.Query.Diagram
import Mathlib.Data.List.Find

/-!
Contract: the rules of which there are diagrams.

Owns: what a diagram has of the symbol that declares its rule, and the proof that a loaded file
has diagrams of just the rules that its table has.

Does not own: what it is to show a rule's body (`Body`), or which symbols declare which rules
(`Symbol`).

Main statement: `walks_find_same_rules`.
-/

namespace GrammarDesk

open Grammar

/-- A diagram is that of the rule that a symbol declares: it has the symbol's name, file and
kind, and it shows the body of that rule. -/
structure RuleDiagram.Draws (rules : List Rule) (diagram : RuleDiagram) (symbol : Symbol) :
    Prop where
  name : diagram.name = symbol.name
  file : diagram.file = symbol.file
  kind : diagram.kind = symbol.kind
  root : ∃ rule ∈ rules,
    symbol.Declares diagram.file rule ∧ diagram.root.ShowsBody rule.alternatives

namespace SourceFile

def drawn (source : SourceFile) (name : String) (rule : Rule) : RuleDiagram :=
  ⟨name, source.file, if rule.isLexer then .lexerRule else .parserRule, .ofRule rule⟩

variable (source : SourceFile)

/-- The named rules of a loaded file are declared by the rules of its table, one by one. -/
theorem forall₂_declares :
    List.Forall₂ (fun rule symbol => symbol.Declares source.file rule)
      (source.analysis.rules.filter fun rule => rule.name.isSome)
      (source.symbols.filter fun symbol => symbol.kind.isRule) := by
  rw [symbols, source.analysis.table_eq]
  exact Declare.forall₂_declares source.analysis.parse_eq _ _

/-- The first rule of a name in a loaded file is declared by the first rule of that name in its
table. -/
theorem rel_rule? (name : String) :
    Option.Rel (fun rule symbol => symbol.Declares source.file rule)
      (source.analysis.rules.find? fun rule => rule.nameText = some name)
      (source.analysis.table.rule? name) := by
  have firsts : Option.Rel (fun rule symbol => symbol.Declares source.file rule)
      ((source.analysis.rules.filter fun rule => rule.name.isSome).find?
        fun rule => rule.nameText = some name)
      ((source.symbols.filter fun symbol => symbol.kind.isRule).find?
        fun symbol => symbol.name = name) :=
    rel_find? (fun rule symbol declares => by simp [declares.nameText]) source.forall₂_declares
  -- Each side filters in its own order.
  have rules : (source.analysis.rules.filter fun rule => rule.name.isSome).find?
      (fun rule => rule.nameText = some name) =
        source.analysis.rules.find? fun rule => rule.nameText = some name := by
    rw [List.find?_filter]
    refine List.find?_congr fun rule _ => ?_
    have named : rule.nameText = some name → rule.name.isSome = true :=
      fun isName => (Option.isSome_map ..).symm.trans (Option.isSome_of_eq_some isName)
    simpa using named
  have symbols : (source.symbols.filter fun symbol => symbol.kind.isRule).find?
      (fun symbol => symbol.name = name) = source.analysis.table.rule? name := by
    rw [SymbolTable.rule?, SymbolTable.lookup, List.find?_filter, List.find?_filter]
    refine List.find?_congr fun symbol _ => ?_
    simp [and_comm]
  rwa [rules, symbols] at firsts

/-- What is drawn under a name is the rule of this name in the table. -/
theorem rel_drawn (name : String) :
    Option.Rel (RuleDiagram.Draws source.analysis.rules)
      ((source.analysis.rules.find? fun rule => rule.nameText = some name).map (source.drawn name))
      (source.analysis.table.rule? name) := by
  have related := source.rel_rule? name
  generalize source.analysis.table.rule? name = declared at related ⊢
  cases found : source.analysis.rules.find? fun rule => rule.nameText = some name with
  | none =>
      rw [found] at related
      cases related
      exact .none
  | some rule =>
      have isRule := List.mem_of_find?_eq_some found
      have isName : rule.nameText = some name := by simpa using List.find?_some found
      rw [found] at related
      cases related with
      | some declares =>
          have name := Option.some.inj (isName.symm.trans declares.nameText)
          exact .some ⟨name, declares.file.symm, declares.kind.symm, rule, isRule, declares,
            Diagram.showsBody_ofRule rule⟩

end SourceFile

/-- The diagram of a name is that of the first rule of the name. -/
theorem Snapshot.diagram_eq {snapshot : Snapshot} {path : File.Path} {source : SourceFile}
    (loaded : snapshot.fileAt? path = some source) {name : String}
    (isIdentifier : Text.isIdentifier name = true) :
    snapshot.diagram path name =
      .ok ((source.analysis.rules.find? fun rule => rule.nameText = some name).map
        (source.drawn name)) := by
  rw [diagram, if_pos isIdentifier, loaded]
  cases found : source.analysis.rules.find? fun rule => rule.nameText = some name with
  | none => simp [found]
  | some rule => simp [found, SourceFile.drawn]

/-- A diagram shows the body of the first rule of its name. -/
theorem Snapshot.exists_of_diagram {snapshot : Snapshot} {path : File.Path} {source : SourceFile}
    (loaded : snapshot.fileAt? path = some source) {name : String} {diagram : RuleDiagram}
    (drawn : snapshot.diagram path name = .ok (some diagram)) :
    ∃ rule, source.analysis.rules.find? (fun rule => rule.nameText = some name) = some rule ∧
      diagram.root = .ofRule rule := by
  have isIdentifier : Text.isIdentifier name = true := by
    by_contra noIdentifier
    rw [Snapshot.diagram, if_neg noIdentifier] at drawn
    cases drawn
  rw [diagram_eq loaded isIdentifier] at drawn
  obtain ⟨rule, found, rfl⟩ := Option.map_eq_some_iff.mp (Except.ok.inj drawn)
  exact ⟨rule, found, rfl⟩

/-- In every text that can be read the same rules are found, in the same order, by going down into
every node and by going through the members and their modes; no two of them overlap. Those that
have names are the rules of its table, one by one, whatever file the text is of. And so a loaded
file has a diagram of an identifier just if its table has a rule of this name; the diagram has the
kind of this symbol and shows the body of the rule that the symbol declares. -/
theorem walks_find_same_rules :
    (∀ text, readable text = true →
      ∃ parse, Syntax.Parse.ofText? text = some parse ∧
        rulesOf parse.tree = (membersOf parse.tree).flatMap Member.rules ∧
        ((rulesOf parse.tree).Pairwise fun left right => left.range.Precedes right.range) ∧
        ∀ (file : File.Id) (index : Text.LineIndex),
          List.Forall₂ (fun rule symbol => symbol.Declares file rule)
            ((rulesOf parse.tree).filter fun rule => rule.name.isSome)
            ((Declare.table file index (membersOf parse.tree)).1.symbols.filter
              fun symbol => symbol.kind.isRule)) ∧
      ∀ (snapshot : Snapshot) (path : File.Path) (source : SourceFile) (name : String),
        snapshot.fileAt? path = some source → Text.isIdentifier name = true →
          ∃ answer, snapshot.diagram path name = .ok answer ∧
            Option.Rel (RuleDiagram.Draws source.analysis.rules) answer
              (source.analysis.table.rule? name) := by
  constructor
  · intro text isReadable
    have begins : Syntax.Parse.beginsWithTrivia (Syntax.Scan.tokenize text) = false := by
      simpa [readable] using isReadable
    have read := Syntax.Parse.ofText?_eq_some_iff.mpr ⟨begins, rfl⟩
    exact ⟨_, read,
      rulesOf_eq_flatMap (Syntax.Parse.nested_of_text read) (Syntax.Parse.isNode_of_text read),
      pairwise_rules read, Declare.forall₂_declares read⟩
  · intro snapshot path source name loaded isIdentifier
    exact ⟨_, Snapshot.diagram_eq loaded isIdentifier, source.rel_drawn name⟩

/-- Of a rule that is declared twice the first is drawn, here a label, a group and a suffix, and
not the second. -/
theorem walks_find_same_rules_twice :
    let text := "grammar G;a:x=b('c'|D)*;B:'x';a:c;"
    let snapshot := ((Session.new .standard).run [.load ⟨"/g/G.g4"⟩ text]).workspace.snapshot
    readable text = true ∧ (Syntax.Parse.ofText? text).isSome = true ∧
      ∃ source, snapshot.fileAt? ⟨"/g/G.g4"⟩ = some source ∧ Text.isIdentifier "a" = true ∧
        ∃ diagram symbol, snapshot.diagram ⟨"/g/G.g4"⟩ "a" = .ok (some diagram) ∧
          source.analysis.table.rule? "a" = some symbol ∧ symbol.declaration = ⟨10, 24⟩ ∧
          diagram.Draws source.analysis.rules symbol ∧
          diagram.root.leaves = [(.rule, "b"), (.literal, "'c'"), (.token, "D")] := by
  intro text snapshot
  have isReadable : readable text = true := by decide +kernel
  have declared : ((snapshot.fileAt? ⟨"/g/G.g4"⟩).bind fun source =>
      (source.analysis.table.rule? "a").map Symbol.declaration) = some ⟨10, 24⟩ := by
    decide +kernel
  have leaves : (snapshot.diagram ⟨"/g/G.g4"⟩ "a").toOption.join.map
      (fun diagram => diagram.root.leaves) =
        some [(.rule, "b"), (.literal, "'c'"), (.token, "D")] := by
    decide +kernel
  have isIdentifier : Text.isIdentifier "a" = true := by decide +kernel
  obtain ⟨parse, read, _⟩ := walks_find_same_rules.1 text isReadable
  obtain ⟨source, loaded, declared⟩ := Option.bind_eq_some_iff.mp declared
  obtain ⟨symbol, isSymbol, place⟩ := Option.map_eq_some_iff.mp declared
  obtain ⟨answer, isAnswer, drawn⟩ :=
    walks_find_same_rules.2 snapshot _ source "a" loaded isIdentifier
  rw [isAnswer] at leaves
  rw [isSymbol] at drawn
  cases drawn with
  | @some diagram _ draws =>
      exact ⟨isReadable, Option.isSome_of_eq_some read, source, loaded, isIdentifier, diagram,
        symbol, isAnswer, isSymbol, place, draws, Option.some.inj leaves⟩

end GrammarDesk
