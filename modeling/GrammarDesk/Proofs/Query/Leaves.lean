import GrammarDesk.Proofs.Query.Diagram
import GrammarDesk.Proofs.Query.Uses
import GrammarDesk.Proofs.Reference.Commands

/-!
Contract: what a diagram shows of the references in a rule's body.

Owns: the proof that the names and literals in a diagram are, from left to right, the references
in the elements of the rule that is drawn.

Does not own: which names and literals are in a diagram (`Body`), of which rules there are diagrams
(`Diagram`), or which uses a rule has (`Sites`).

Diagrams and uses are read off the same elements by two recursions: one leaves out what lacks its
core and collapses groups of one, the other goes on into lexer commands. Element by element the
uses outside of commands are spelled by the diagram.

Main statement: `diagram_shows_references`.
-/

namespace GrammarDesk

open Grammar Syntax

/-! ## Leaves -/

namespace Diagram

theorem leavesOf_append (left right : List Diagram) :
    leavesOf (left ++ right) = leavesOf left ++ leavesOf right := by
  induction left with
  | nil => rfl
  | cons diagram rest inductionHypothesis =>
      rw [List.cons_append, leavesOf, inductionHypothesis, leavesOf, List.append_assoc]

theorem leavesOf_singleton (diagram : Diagram) : leavesOf [diagram] = leaves diagram :=
  List.append_nil _

theorem leaves_chooseFrom (branches : List Diagram) :
    leaves (chooseFrom branches) = leavesOf branches := by
  unfold chooseFrom
  split
  · rfl
  · exact (leavesOf_singleton _).symm
  · rfl

theorem leaves_joinParts (parts : List Diagram) : leaves (joinParts parts) = leavesOf parts := by
  unfold joinParts
  split
  · exact (leavesOf_singleton _).symm
  · rfl

theorem leavesOf_ofCommands (written : List Command) : leavesOf (ofCommands written) = [] := by
  cases written <;> rfl

/-- What is around a diagram does not matter to its leaves. -/
theorem leavesOf_map (around : Diagram → Diagram)
    (same : ∀ inner, leaves (around inner) = leaves inner) (inner : Option Diagram) :
    leavesOf (inner.map around).toList = leavesOf inner.toList := by
  cases inner with
  | none => rfl
  | some diagram =>
      show leavesOf [around diagram] = leavesOf [diagram]
      rw [leavesOf_singleton, leavesOf_singleton, same]

/-- What the leaves of diagrams refer to. -/
def leafKinds : List ReferenceKind := [.rule, .token, .literal]

mutual

theorem kind_of_mem_leaves (diagram : Diagram) :
    ∀ leaf ∈ diagram.leaves, leaf.1 ∈ leafKinds := by
  match diagram with
  | .choice branches => exact kind_of_mem_leavesOf branches
  | .sequence parts => exact kind_of_mem_leavesOf parts
  | .repeated _ inner => exact kind_of_mem_leaves inner
  | .negation inner => exact kind_of_mem_leaves inner
  | .terminal name => exact List.forall_mem_singleton.mpr (by simp [leafKinds])
  | .nonTerminal name => exact List.forall_mem_singleton.mpr (by simp [leafKinds])
  | .literal text => exact List.forall_mem_singleton.mpr (by simp [leafKinds])
  | .charSet _ | .wildcard | .action _ | .predicate _ | .commands _ => exact List.forall_mem_nil _

theorem kind_of_mem_leavesOf (diagrams : List Diagram) :
    ∀ leaf ∈ leavesOf diagrams, leaf.1 ∈ leafKinds := by
  match diagrams with
  | [] => exact List.forall_mem_nil _
  | diagram :: rest =>
      intro leaf isLeaf
      rcases List.mem_append.mp isLeaf with isFirst | isLater
      · exact kind_of_mem_leaves diagram leaf isFirst
      · exact kind_of_mem_leavesOf rest leaf isLater

end

end Diagram

/-! ## Elements as they are used and drawn -/

namespace Use

open ParseTree Diagram

def spelled (uses : List (ReferenceKind × Name)) : List (ReferenceKind × String) :=
  uses.map fun site => (site.1, site.2.text)

/-- Whether a leaf is a use in a rule of this class: a literal in a lexer rule is none. -/
def isUseIn (inLexerRule : Bool) (leaf : ReferenceKind × String) : Bool :=
  !(inLexerRule && leaf.1 = .literal)

/-- An element without its commands uses what the diagram of the element shows, and it is there
just if that element is. -/
structure Shown (inLexerRule : Bool) (used drawn : Option Element) : Prop where
  isSome_eq : used.isSome = drawn.isSome
  spelled_eq : spelled (ofInner inLexerRule used) =
    (leavesOf (ofInner? drawn).toList).filter (isUseIn inLexerRule)

variable {inLexerRule : Bool}

theorem shown_none : Shown inLexerRule none none := ⟨rfl, rfl⟩

theorem spelled_append (left right : List (ReferenceKind × Name)) :
    spelled (left ++ right) = spelled left ++ spelled right :=
  List.map_append

theorem suffixOf?_emptied (parts : List ParseTree) :
    suffixOf? (emptiedParts parts) = suffixOf? parts := by
  rw [suffixOf?, filterMap_token?_emptied, suffixOf?]

/-- Emptied commands use nothing. -/
theorem filterMap_commandsOf_emptied (parts : List ParseTree) :
    (commandsOf (emptiedParts parts)).filterMap ofCommand? = [] := by
  unfold commandsOf
  cases found : (emptiedParts parts).find? (ParseTree.isNode .lexerCommands) with
  | none => rfl
  | some commands =>
      rw [emptiedParts_eq_map] at found
      obtain ⟨original, _, rfl⟩ := List.mem_map.mp (List.mem_of_find?_eq_some found)
      have isCommands : original.emptied.isNode .lexerCommands = true := List.find?_some found
      obtain ⟨range, children, rfl⟩ :=
        eq_node_of_isNode ((isNode_emptied _ _).symm.trans isCommands)
      refine List.filterMap_eq_nil_iff.mpr fun command isCommand => ?_
      obtain ⟨tree, isTree, rfl⟩ := List.mem_map.mp isCommand
      obtain ⟨isChild, isNode⟩ := List.mem_filter.mp isTree
      have isChild : tree ∈ emptiedParts children := isChild
      rw [emptiedParts_eq_map] at isChild
      obtain ⟨child, _, rfl⟩ := List.mem_map.mp isChild
      obtain ⟨own, parts, rfl⟩ := eq_node_of_isNode ((isNode_emptied _ _).symm.trans isNode)
      rfl

def elementKinds : List Kind :=
  [.labeledElement, .repeatedElement, .negation, .block, .ruleRef, .tokenRef, .stringLiteral,
    .charRange, .charSet, .wildcard, .actionElement, .predicate]

theorem elementOf?_of_other {kind : Kind} (other : kind ∉ elementKinds) (range : Text.Range)
    (parts : List ParseTree) : elementOf? (.node kind range parts) = none := by
  rw [elementOf?]
  all_goals
    rintro rfl
    exact absurd other (by decide)

mutual

/-- The uses of an element, emptied of its commands, are the leaves that are drawn for it; by
the recursion that reads elements and alternatives together. -/
theorem shown_element (tree : ParseTree) :
    Shown inLexerRule (elementOf? tree.emptied) (elementOf? tree) := by
  match tree with
  | .leaf token => exact shown_none
  | .node kind range parts =>
      have inner := shown_firstElement parts
      by_cases isElement : kind ∉ elementKinds
      · rw [emptied, elementOf?_of_other isElement, elementOf?_of_other isElement]
        exact shown_none
      · have noCommand : kind ≠ .lexerCommand := by
          rintro rfl
          exact isElement (by decide)
        rw [emptied, if_neg noCommand]
        simp only [elementKinds, List.mem_cons, List.not_mem_nil, or_false, not_not] at isElement
        obtain rfl | rfl | rfl | rfl | rfl | rfl | rfl | rfl | rfl | rfl | rfl | rfl := isElement
        -- Elements around one other element or a list of alternatives.
        · rw [elementOf?, elementOf?, tokenOf?_emptied]
          cases tokenOf? .identifier parts with
          | none => exact shown_none
          | some label => exact ⟨rfl, inner.spelled_eq⟩
        · rw [elementOf?, elementOf?, suffixOf?_emptied]
          cases suffixOf? parts with
          | none => exact shown_none
          | some suffix =>
              refine ⟨rfl, inner.spelled_eq.trans ?_⟩
              exact congrArg _ (leavesOf_map (.repeated suffix.1) (fun _ => rfl) _).symm
        · refine ⟨rfl, inner.spelled_eq.trans ?_⟩
          exact congrArg _ (leavesOf_map .negation (fun _ => rfl) _).symm
        · refine ⟨rfl, (spelled_firstAlternatives parts).trans ?_⟩
          exact congrArg _ ((leavesOf_singleton _).trans (leaves_chooseFrom _)).symm
        -- Names and literals.
        · rw [elementOf?, elementOf?, tokenOf?_emptied]
          cases tokenOf? .identifier parts with
          | none => exact shown_none
          | some token => exact ⟨rfl, by cases inLexerRule <;> rfl⟩
        · rw [elementOf?, elementOf?, tokenOf?_emptied]
          cases tokenOf? .identifier parts with
          | none => exact shown_none
          | some token => exact ⟨rfl, by cases inLexerRule <;> rfl⟩
        · rw [elementOf?, elementOf?, tokenOf?_emptied]
          cases tokenOf? .string parts with
          | none => exact shown_none
          | some token => exact ⟨rfl, by cases inLexerRule <;> rfl⟩
        -- Elements that use nothing.
        · rw [elementOf?, elementOf?]
          refine ⟨rfl, ?_⟩
          cases boundsOf? parts <;> rfl
        · exact ⟨rfl, rfl⟩
        · exact ⟨rfl, rfl⟩
        · exact ⟨rfl, rfl⟩
        · rw [elementOf?, elementOf?, tokenOf?_emptied]
          cases tokenOf? .action parts with
          | none => exact shown_none
          | some token => exact ⟨rfl, rfl⟩

theorem shown_firstElement (trees : List ParseTree) :
    Shown inLexerRule (firstElementOf? (emptiedParts trees)) (firstElementOf? trees) := by
  match trees with
  | [] => exact shown_none
  | tree :: rest =>
      have first := shown_element tree
      have later := shown_firstElement rest
      have isThere := first.isSome_eq
      rw [emptiedParts, firstElementOf?, firstElementOf?]
      cases used : elementOf? tree.emptied with
      | none =>
          cases drawn : elementOf? tree with
          | none => exact later
          | some element =>
              rw [used, drawn] at isThere
              cases isThere
      | some element =>
          cases drawn : elementOf? tree with
          | none =>
              rw [used, drawn] at isThere
              cases isThere
          | some original =>
              rw [used, drawn] at first
              exact first

theorem spelled_elements (trees : List ParseTree) :
    spelled (ofElements inLexerRule (elementsOf (emptiedParts trees))) =
      (leavesOf (Diagram.ofElements (elementsOf trees))).filter (isUseIn inLexerRule) := by
  match trees with
  | [] => rfl
  | tree :: rest =>
      have first := (shown_element tree).spelled_eq
      have later := spelled_elements rest
      have used : ofElements inLexerRule (elementsOf (emptiedParts (tree :: rest))) =
          ofInner inLexerRule (elementOf? tree.emptied) ++
            ofElements inLexerRule (elementsOf (emptiedParts rest)) := by
        rw [emptiedParts, elementsOf]
        cases elementOf? tree.emptied <;> rfl
      have drawn : Diagram.ofElements (elementsOf (tree :: rest)) =
          (Diagram.ofInner? (elementOf? tree)).toList ++ Diagram.ofElements (elementsOf rest) := by
        rw [elementsOf]
        cases elementOf? tree <;> rfl
      rw [used, drawn, spelled_append, leavesOf_append, List.filter_append, first, later]

theorem spelled_alternatives (trees : List ParseTree) :
    spelled (ofAlternatives inLexerRule (alternativesOf (emptiedParts trees))) =
      (leavesOf (Diagram.ofAlternatives (alternativesOf trees))).filter (isUseIn inLexerRule) := by
  match trees with
  | [] => rfl
  | .leaf token :: rest => exact spelled_alternatives rest
  | .node kind range parts :: rest =>
      have first := spelled_elements parts
      have later := spelled_alternatives rest
      rw [emptiedParts, emptied, alternativesOf, alternativesOf]
      by_cases isAlternative : kind = .alternative
      · subst isAlternative
        rw [if_pos rfl, if_pos rfl, if_neg nofun, ofAlternatives, ofAlternative,
          filterMap_commandsOf_emptied, List.append_nil, spelled_append, Diagram.ofAlternatives,
          leavesOf, Diagram.ofAlternative, leaves_joinParts, leavesOf_append, leavesOf_ofCommands,
          List.append_nil, List.filter_append, first, later]
      · rw [if_neg isAlternative, if_neg isAlternative]
        exact later

theorem spelled_firstAlternatives (trees : List ParseTree) :
    spelled (ofAlternatives inLexerRule (firstAlternativesOf (emptiedParts trees))) =
      (leavesOf (Diagram.ofAlternatives (firstAlternativesOf trees))).filter
        (isUseIn inLexerRule) := by
  match trees with
  | [] => rfl
  | .leaf token :: rest => exact spelled_firstAlternatives rest
  | .node kind range parts :: rest =>
      have first := spelled_alternatives parts
      have later := spelled_firstAlternatives rest
      rw [emptiedParts, emptied, firstAlternativesOf, firstAlternativesOf]
      by_cases isList : kind = .alternativeList
      · subst isList
        rw [if_pos rfl, if_pos rfl, if_neg nofun]
        exact first
      · rw [if_neg isList, if_neg isList]
        exact later

end

end Use

/-! ## References and leaves -/

/-- What references look for and by which names, as far as they are of some kinds. -/
def Reference.namesOf (kinds : List ReferenceKind) (references : List Reference) :
    List (ReferenceKind × String) :=
  (references.filter fun reference => reference.kind ∈ kinds).map
    fun reference => (reference.kind, reference.name)

theorem Reference.namesOf_eq (kinds : List ReferenceKind) (references : List Reference) :
    Reference.namesOf kinds references =
      (references.map fun reference => (reference.kind, reference.name)).filter
        fun leaf => leaf.1 ∈ kinds := by
  rw [List.filter_map]
  rfl

namespace SourceFile

/-- The references of a file in the elements of a rule: those that lie in the rule but in no lexer
command. -/
def elementReferences (source : SourceFile) (rule : Rule) : List Reference :=
  source.references.filter fun reference =>
    reference.range.Inside rule.range ∧
      reference.range.Outside source.analysis.parse.tree.commandRanges

end SourceFile

namespace Workspace.Coherent

variable {workspace : Workspace} (coherent : workspace.Coherent)

include coherent

/-- The references in the elements of a rule are what the diagram of the rule shows, but for the
literals in a lexer rule. -/
theorem map_elementReferences {source : SourceFile} (isLoaded : source ∈ workspace.snapshot.all)
    {rule : Rule} (isRule : rule ∈ source.analysis.rules) :
    (source.elementReferences rule).map (fun reference => (reference.kind, reference.name)) =
      (Diagram.ofRule rule).leaves.filter (Use.isUseIn rule.isLexer) := by
  have read := source.analysis.parse_eq
  obtain ⟨node, isNode, uses⟩ := Use.exists_of_rule read isRule
  have sites : source.references = (Use.sites source.analysis.parse.tree).map
      (workspace.binderOf source.analysis).reference := by
    rw [coherent.references_eq isLoaded, ← Use.ofMembers_eq_sites read]
    rfl
  have body : (Diagram.ofRule rule).leaves =
      Diagram.leavesOf (Diagram.ofAlternatives (firstAlternativesOf node.children)) := by
    rw [isNode]
    exact Diagram.leaves_chooseFrom _
  rw [SourceFile.elementReferences, sites, List.filter_map, List.map_map, body,
    ← Use.spelled_firstAlternatives, ← uses, Use.spelled, List.map_map]
  rfl

end Workspace.Coherent

/-- The names in the diagram of a rule of a loaded file are, from left to right, the references to
rules and tokens in the elements of the first rule of that name; and in the diagram of a parser
rule so are the names and literals together. -/
theorem diagram_shows_references (config : Config) (operations : List Operation)
    (path : File.Path) (name : String) (source : SourceFile) (diagram : RuleDiagram)
    (loaded : ((Session.new config).run operations).workspace.snapshot.fileAt? path = some source)
    (drawn : ((Session.new config).run operations).workspace.snapshot.diagram path name =
      .ok (some diagram)) :
    ∃ rule, source.analysis.rules.find? (fun rule => rule.nameText = some name) = some rule ∧
      let references := source.elementReferences rule
      (diagram.root.leaves.filter fun leaf => leaf.1 ∈ [.rule, .token]) =
          Reference.namesOf [.rule, .token] references ∧
        (rule.isLexer = false →
          diagram.root.leaves = Reference.namesOf [.rule, .token, .literal] references) := by
  have coherent := (Session.coherent_run config operations).workspace
  obtain ⟨rule, found, isRoot⟩ := Snapshot.exists_of_diagram loaded drawn
  have names := coherent.map_elementReferences (List.mem_of_find?_eq_some loaded)
    (List.mem_of_find?_eq_some found)
  refine ⟨rule, found, ?_, fun isParserRule => ?_⟩
  · -- Leaving out the literals of a lexer rule changes nothing among the other leaves.
    rw [Reference.namesOf_eq, names, isRoot, List.filter_filter]
    refine List.filter_congr fun ⟨kind, text⟩ _ => ?_
    cases rule.isLexer <;> cases kind <;> rfl
  · have all : (Diagram.ofRule rule).leaves.filter (Use.isUseIn rule.isLexer) =
        (Diagram.ofRule rule).leaves := by
      rw [isParserRule]
      exact List.filter_true _
    rw [Reference.namesOf_eq, names, isRoot, all]
    refine (List.filter_eq_self.mpr fun leaf isLeaf => ?_).symm
    exact decide_eq_true (Diagram.kind_of_mem_leaves _ leaf isLeaf)

/-- A parser rule with a label, groups and suffixes, whose last element recovery left without its
core; and a lexer rule with a literal and a command that names a token. -/
theorem diagram_shows_references_malformed :
    let text := "grammar G;a:x=b+('c'|D e)*~;D:'d'E->type(F);"
    let session := (Session.new .standard).run [.load ⟨"/g/G.g4"⟩ text]
    ∃ source parserRule lexerRule,
      session.workspace.snapshot.fileAt? ⟨"/g/G.g4"⟩ = some source ∧
      source.analysis.rules.find? (fun rule => rule.nameText = some "a") = some parserRule ∧
      source.analysis.rules.find? (fun rule => rule.nameText = some "D") = some lexerRule ∧
      Reference.namesOf [.rule, .token, .literal] (source.elementReferences parserRule) =
        [(.rule, "b"), (.literal, "'c'"), (.token, "D"), (.rule, "e")] ∧
      Reference.namesOf [.rule, .token] (source.elementReferences lexerRule) = [(.token, "E")] := by
  intro text session
  have parserRuleFirst : (session.workspace.snapshot.fileAt? ⟨"/g/G.g4"⟩).bind (fun source =>
      (source.analysis.rules.find? fun rule => rule.nameText = some "a").map Rule.isLexer) =
        some false := by
    decide +kernel
  have leavesOf : ∀ {name : String} {leaves : List (ReferenceKind × String)},
      (session.workspace.snapshot.diagram ⟨"/g/G.g4"⟩ name).toOption.join.map
          (fun diagram => diagram.root.leaves) = some leaves →
        ∃ diagram, session.workspace.snapshot.diagram ⟨"/g/G.g4"⟩ name = .ok (some diagram) ∧
          diagram.root.leaves = leaves := by
    intro name leaves shown
    obtain ⟨diagram, isThere, isLeaves⟩ := Option.map_eq_some_iff.mp shown
    refine ⟨diagram, ?_, isLeaves⟩
    cases answer : session.workspace.snapshot.diagram ⟨"/g/G.g4"⟩ name with
    | error problem => simp [answer, Except.toOption] at isThere
    | ok found => simpa [answer, Except.toOption] using isThere
  obtain ⟨ofParserRule, drawn, shown⟩ := @leavesOf "a"
    [(.rule, "b"), (.literal, "'c'"), (.token, "D"), (.rule, "e")] (by decide +kernel)
  obtain ⟨ofLexerRule, drawnLexer, shownLexer⟩ := @leavesOf "D"
    [(.literal, "'d'"), (.token, "E")] (by decide +kernel)
  obtain ⟨source, loaded, isFirst⟩ := Option.bind_eq_some_iff.mp parserRuleFirst
  obtain ⟨parserRule, found, _, all⟩ :=
    diagram_shows_references .standard _ _ "a" source ofParserRule loaded drawn
  obtain ⟨lexerRule, foundLexer, names, _⟩ :=
    diagram_shows_references .standard _ _ "D" source ofLexerRule loaded drawnLexer
  rw [found] at isFirst
  rw [shownLexer] at names
  exact ⟨source, parserRule, lexerRule, loaded, found, foundLexer,
    (all (Option.some.inj isFirst)).symm.trans shown, names.symm⟩

end GrammarDesk
