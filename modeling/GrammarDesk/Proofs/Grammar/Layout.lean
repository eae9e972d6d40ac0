import GrammarDesk.Grammar.Member
import GrammarDesk.Proofs.Syntax.Layout

/-!
Contract: what a tree says, apart from places and documentation.

Owns: members and their parts at no place and without documentation, and the proof that
each reader finds the same in a tree as in its bare tree, one lemma for each reader.

Does not own: what members declare (`Symbol`).

Main statement: trees of one shape have the same members (`membersOf_congr`).
-/

namespace GrammarDesk.Grammar

open Syntax Text ParseTree

/-! ## Values at no place -/

def Name.unplaced (name : Name) : Name :=
  { name with range := .emptyAt 0 }

@[simp] theorem Name.text_unplaced (name : Name) : name.unplaced.text = name.text := rfl

def Command.unplaced (command : Command) : Command :=
  { command with argument := command.argument.map Name.unplaced }

mutual

def Element.unplaced : Element → Element
  | .labeled _ label isList inner => .labeled (.emptyAt 0) label isList (unplacedInner inner)
  | .repeated _ suffix isGreedy inner =>
      .repeated (.emptyAt 0) suffix isGreedy (unplacedInner inner)
  | .negated _ inner => .negated (.emptyAt 0) (unplacedInner inner)
  | .block _ alternatives => .block (.emptyAt 0) (unplacedAlternatives alternatives)
  | .ruleRef _ name => .ruleRef (.emptyAt 0) name.unplaced
  | .tokenRef _ name => .tokenRef (.emptyAt 0) name.unplaced
  | .literal _ literal => .literal (.emptyAt 0) literal.unplaced
  | .charRange _ bounds => .charRange (.emptyAt 0) bounds
  | .charSet _ text => .charSet (.emptyAt 0) text
  | .wildcard _ => .wildcard (.emptyAt 0)
  | .action _ text => .action (.emptyAt 0) text
  | .predicate _ text => .predicate (.emptyAt 0) text

def unplacedInner : Option Element → Option Element
  | none => none
  | some element => some element.unplaced

def unplacedElements : List Element → List Element
  | [] => []
  | element :: rest => element.unplaced :: unplacedElements rest

def unplacedAlternatives : List Alternative → List Alternative
  | [] => []
  | .mk label elements commands :: rest =>
      .mk (label.map Name.unplaced) (unplacedElements elements) (commands.map Command.unplaced) ::
        unplacedAlternatives rest

end

def Rule.unplaced (rule : Rule) : Rule :=
  { rule with
    range := .emptyAt 0
    name := rule.name.map Name.unplaced
    alternatives := unplacedAlternatives rule.alternatives }

/-- The header at no place and without documentation. -/
def Header.unplaced (header : Header) : Header :=
  { header with range := .emptyAt 0, name := header.name.map Name.unplaced, doc := none }

def Setting.unplaced (setting : Setting) : Setting :=
  { setting with value := setting.value.map Name.unplaced }

def ImportItem.unplaced (item : ImportItem) : ImportItem :=
  ⟨.emptyAt 0, item.alternateName.map Name.unplaced, item.target.map Name.unplaced⟩

def ListEntry.unplaced (entry : ListEntry) : ListEntry :=
  ⟨.emptyAt 0, entry.name.map Name.unplaced⟩

def DocumentedRule.unplaced (entry : DocumentedRule) : DocumentedRule :=
  ⟨entry.rule.unplaced, none⟩

/-- The mode at no place and without documentation. -/
def ModeSection.unplaced (mode : ModeSection) : ModeSection :=
  ⟨.emptyAt 0, mode.name.map Name.unplaced, none, mode.rules.map DocumentedRule.unplaced⟩

/-- The member at no place and without documentation. -/
def Member.unplaced : Member → Member
  | .header written => .header written.unplaced
  | .options _ settings => .options (.emptyAt 0) (settings.map Setting.unplaced)
  | .imports _ items => .imports (.emptyAt 0) (items.map ImportItem.unplaced)
  | .tokens _ entries => .tokens (.emptyAt 0) (entries.map ListEntry.unplaced)
  | .channels _ entries => .channels (.emptyAt 0) (entries.map ListEntry.unplaced)
  | .namedAction _ name => .namedAction (.emptyAt 0) (name.map Name.unplaced)
  | .rule entry => .rule entry.unplaced
  | .mode written => .mode written.unplaced

/-! ## Parts of a node -/

theorem Name.unplaced_ofTree_bare (tree : ParseTree) :
    (ofTree tree.bare).unplaced = (ofTree tree).unplaced := by
  unfold ofTree unplaced
  rw [significantText_bare]

theorem filter_kind_bareOf {kind : Kind} (significant : kind.isTrivia = false)
    (trees : List ParseTree) :
    ((bareOf trees).filterMap token?).filter (fun token => token.kind = kind) =
      ((trees.filterMap token?).filter fun token => token.kind = kind).map Token.unplaced :=
  @filter_tokens_bareOf (fun own => own = kind)
    (fun _ same => by rw [of_decide_eq_true same, significant]) trees

theorem tokenOf?_bareOf {kind : Kind} (significant : kind.isTrivia = false)
    (trees : List ParseTree) :
    tokenOf? kind (bareOf trees) = (tokenOf? kind trees).map Token.unplaced := by
  unfold tokenOf?
  rw [← List.head?_filter, filter_kind_bareOf significant, List.head?_map, List.head?_filter]

theorem hasToken_bareOf {kind : Kind} (significant : kind.isTrivia = false)
    (trees : List ParseTree) : hasToken kind (bareOf trees) = hasToken kind trees := by
  unfold hasToken
  rw [tokenOf?_bareOf significant, Option.isSome_map]

theorem find?_isNode_bareOf (kind : Kind) (trees : List ParseTree) :
    (bareOf trees).find? (isNode kind) = (trees.find? (isNode kind)).map bare :=
  find?_bareOf (isNode_bare kind) (fun _ => rfl) trees

theorem filter_isNode_bareOf (kind : Kind) (trees : List ParseTree) :
    (bareOf trees).filter (isNode kind) = (trees.filter (isNode kind)).map bare :=
  filter_bareOf (isNode_bare kind) (fun _ => rfl) trees

theorem nameOf?_bareOf (kind : Kind) (trees : List ParseTree) :
    (nameOf? kind (bareOf trees)).map Name.unplaced =
      (nameOf? kind trees).map Name.unplaced := by
  unfold nameOf?
  rw [find?_isNode_bareOf, Option.map_map, Option.map_map, Option.map_map]
  exact congrArg (Option.map · _) (funext Name.unplaced_ofTree_bare)

theorem text_nameOf?_bareOf (kind : Kind) (trees : List ParseTree) :
    (nameOf? kind (bareOf trees)).map Name.text = (nameOf? kind trees).map Name.text := by
  have same := congrArg (Option.map Name.text) (nameOf?_bareOf kind trees)
  rw [Option.map_map, Option.map_map] at same
  exact same

/-! ## Commands -/

namespace Command

/-- A command is known by its first word, which no layout separates. -/
theorem name_ofParts_bareOf (parts : List ParseTree) :
    (ofParts (bareOf parts)).name = (ofParts parts).name := by
  have words : ((bareOf parts).filterMap token?).filter
        (fun token => token.kind = .identifier || token.kind = .modeKeyword) =
      ((parts.filterMap token?).filter fun token =>
        token.kind = .identifier || token.kind = .modeKeyword).map Token.unplaced := by
    refine @filter_tokens_bareOf (fun kind => kind = .identifier || kind = .modeKeyword)
      (fun kind isWord => ?_) parts
    rcases (Bool.or_eq_true _ _).mp isWord with same | same
    · rw [of_decide_eq_true same]
      rfl
    · rw [of_decide_eq_true same]
      rfl
  unfold ofParts
  dsimp only
  rw [words, List.head?_map, Option.map_map]
  rfl

/-- A name as argument goes before a number. -/
theorem argumentText_ofParts (parts : List ParseTree) :
    (ofParts parts).argumentText =
      ((nameOf? .nameRef parts).map Name.text).or
        ((tokenOf? .integer parts).map fun token => token.text) := by
  unfold ofParts
  cases nameOf? .nameRef parts with
  | none => rfl
  | some name => rfl

theorem ofParts_bareOf (parts : List ParseTree) :
    (ofParts (bareOf parts)).unplaced = (ofParts parts).unplaced := by
  have argument := nameOf?_bareOf .nameRef parts
  have argumentText : (ofParts (bareOf parts)).argumentText = (ofParts parts).argumentText := by
    rw [argumentText_ofParts, argumentText_ofParts, text_nameOf?_bareOf, tokenOf?_bareOf rfl,
      Option.map_map]
    rfl
  unfold unplaced
  rw [name_ofParts_bareOf, argumentText]
  exact congrArg (Command.mk _ · _) argument

end Command

theorem commandsOf_bareOf (parts : List ParseTree) :
    (commandsOf (bareOf parts)).map Command.unplaced =
      (commandsOf parts).map Command.unplaced := by
  unfold commandsOf
  rw [find?_isNode_bareOf]
  cases parts.find? (isNode .lexerCommands) with
  | none => rfl
  | some commands =>
      show ((commands.bare.children.filter _).map _).map _ = _
      rw [children_bare, filter_isNode_bareOf, List.map_map, List.map_map, List.map_map]
      refine List.map_congr_left fun command _ => ?_
      show (Command.ofParts command.bare.children).unplaced = _
      rw [children_bare]
      exact Command.ofParts_bareOf command.children

/-! ## Elements -/

theorem labelOf?_bareOf (parts : List ParseTree) :
    (labelOf? (bareOf parts)).map Name.unplaced = (labelOf? parts).map Name.unplaced := by
  unfold labelOf?
  rw [find?_isNode_bareOf]
  cases parts.find? (isNode .alternativeLabel) with
  | none => rfl
  | some label =>
      show (nameOf? .name label.bare.children).map _ = _
      rw [children_bare]
      exact nameOf?_bareOf .name label.children

/-- Which repetition is meant is read off significant tokens alone. -/
theorem suffixOf?_bareOf (parts : List ParseTree) : suffixOf? (bareOf parts) = suffixOf? parts := by
  have significant : ∀ kind, Kind.isSuffix kind = true → kind.isTrivia = false := by
    intro kind isSuffix
    unfold Kind.isSuffix at isSuffix
    split at isSuffix
    · rfl
    · rfl
    · rfl
    · cases isSuffix
  unfold suffixOf?
  rw [filter_tokens_bareOf significant]
  cases (parts.filterMap token?).filter fun token => token.kind.isSuffix with
  | nil => rfl
  | cons first others =>
      show (Suffix.ofKind? first.kind).map (fun suffix => (suffix, (others.map _).isEmpty)) = _
      rw [List.isEmpty_map]

theorem boundsOf?_bareOf (parts : List ParseTree) : boundsOf? (bareOf parts) = boundsOf? parts := by
  unfold boundsOf?
  rw [filter_kind_bareOf rfl]
  cases (parts.filterMap token?).filter fun token => token.kind = .string with
  | nil => rfl
  | cons low others =>
      cases others with
      | nil => rfl
      | cons high rest => rfl

/-- The first element is the first of the elements. -/
theorem firstElementOf?_eq_head? (trees : List ParseTree) :
    firstElementOf? trees = (elementsOf trees).head? := by
  induction trees with
  | nil => rfl
  | cons tree rest inductionHypothesis =>
      rw [firstElementOf?, elementsOf]
      cases elementOf? tree with
      | none => exact inductionHypothesis
      | some element => rfl

theorem head?_unplacedElements (elements : List Element) :
    (unplacedElements elements).head? = unplacedInner elements.head? := by
  cases elements with
  | nil => rfl
  | cons element rest => rfl

theorem firstElementOf?_congr {left right : List ParseTree}
    (same : unplacedElements (elementsOf left) = unplacedElements (elementsOf right)) :
    unplacedInner (firstElementOf? left) = unplacedInner (firstElementOf? right) := by
  rw [firstElementOf?_eq_head?, firstElementOf?_eq_head?, ← head?_unplacedElements, same,
    head?_unplacedElements]

mutual

/-- The element that a tree is does not depend on the layout in it; by the recursion that reads
elements and alternatives together. -/
theorem elementOf?_bare (tree : ParseTree) :
    unplacedInner (elementOf? tree.bare) = unplacedInner (elementOf? tree) := by
  match tree with
  | .leaf token => rfl
  | .node kind range parts =>
      have first := firstElementOf?_congr (elementsOf_bareOf parts)
      have alternatives := firstAlternativesOf_bareOf parts
      have text := significantText_bare (.node kind range parts)
      rw [bare_node] at text ⊢
      unfold elementOf?
      split
      · rw [tokenOf?_bareOf rfl, hasToken_bareOf rfl]
        cases tokenOf? .identifier parts with
        | none => rfl
        | some label => simp [unplacedInner, Element.unplaced, first]
      · rw [suffixOf?_bareOf]
        cases suffixOf? parts with
        | none => rfl
        | some suffix => simp [unplacedInner, Element.unplaced, first]
      · simp [unplacedInner, Element.unplaced, first]
      · simp [unplacedInner, Element.unplaced, alternatives]
      · rw [tokenOf?_bareOf rfl]
        cases tokenOf? .identifier parts with
        | none => rfl
        | some token => rfl
      · rw [tokenOf?_bareOf rfl]
        cases tokenOf? .identifier parts with
        | none => rfl
        | some token => rfl
      · rw [tokenOf?_bareOf rfl]
        cases tokenOf? .string parts with
        | none => rfl
        | some token => rfl
      · rw [boundsOf?_bareOf]
        rfl
      · rw [text]
        rfl
      · rfl
      · rw [text]
        rfl
      · rw [tokenOf?_bareOf rfl]
        cases tokenOf? .action parts with
        | none => rfl
        | some token => rfl
      · rfl

theorem elementsOf_bareOf (trees : List ParseTree) :
    unplacedElements (elementsOf (bareOf trees)) = unplacedElements (elementsOf trees) := by
  match trees with
  | [] => rfl
  | .leaf token :: rest =>
      have later := elementsOf_bareOf rest
      rw [read_bareOf_leaf elementsOf (fun _ _ => rfl)]
      exact later
  | .node kind range parts :: rest =>
      have own := elementOf?_bare (.node kind range parts)
      have later := elementsOf_bareOf rest
      rw [bare_node] at own
      rw [bareOf_node, elementsOf, elementsOf]
      generalize elementOf? (.node kind (.emptyAt 0) (bareOf parts)) = bareElement at own ⊢
      generalize elementOf? (.node kind range parts) = element at own ⊢
      cases bareElement with
      | none =>
          cases element with
          | none => exact later
          | some element => cases own
      | some bareElement =>
          cases element with
          | none => cases own
          | some element => exact congrArg₂ List.cons (Option.some.inj own) later

theorem alternativesOf_bareOf (trees : List ParseTree) :
    unplacedAlternatives (alternativesOf (bareOf trees)) =
      unplacedAlternatives (alternativesOf trees) := by
  match trees with
  | [] => rfl
  | .leaf token :: rest =>
      have later := alternativesOf_bareOf rest
      rw [read_bareOf_leaf alternativesOf (fun _ _ => rfl)]
      exact later
  | .node kind range parts :: rest =>
      have elements := elementsOf_bareOf parts
      have later := alternativesOf_bareOf rest
      rw [bareOf_node, alternativesOf, alternativesOf]
      split
      · rw [unplacedAlternatives, unplacedAlternatives, labelOf?_bareOf, elements,
          commandsOf_bareOf, later]
      · exact later

theorem firstAlternativesOf_bareOf (trees : List ParseTree) :
    unplacedAlternatives (firstAlternativesOf (bareOf trees)) =
      unplacedAlternatives (firstAlternativesOf trees) := by
  match trees with
  | [] => rfl
  | .leaf token :: rest =>
      have later := firstAlternativesOf_bareOf rest
      rw [read_bareOf_leaf firstAlternativesOf (fun _ _ => rfl)]
      exact later
  | .node kind range parts :: rest =>
      have inner := alternativesOf_bareOf parts
      have later := firstAlternativesOf_bareOf rest
      rw [bareOf_node, firstAlternativesOf, firstAlternativesOf]
      split
      · exact inner
      · exact later

end

/-! ## Rules -/

theorem Rule.unplaced_ofTree_bare (tree : ParseTree) :
    (ofTree tree.bare).unplaced = (ofTree tree).unplaced := by
  have signature : (bareOf tree.children).filter isSignaturePart =
      (tree.children.filter isSignaturePart).map bare := by
    refine filter_bareOf (fun part => ?_) (fun _ => rfl) tree.children
    cases part with
    | leaf token => rfl
    | node kind range children => cases kind <;> rfl
  unfold ofTree unplaced
  dsimp only
  rw [children_bare, isNode_bare, hasToken_bareOf rfl, nameOf?_bareOf, signature, List.map_map,
    firstAlternativesOf_bareOf]
  simp only [Function.comp_def, significantTokens_bare, List.map_map, Token.text_unplaced]

theorem isRule_bare (tree : ParseTree) : Rule.isRule tree.bare = Rule.isRule tree := by
  cases tree with
  | leaf token => rfl
  | node kind range children => rfl

/-! ## Members -/

namespace DocComment

/-- The documented trees are those that pass the test. -/
theorem map_fst_documented (test : ParseTree → Bool) (before trees : List ParseTree) :
    (documented test before trees).map Prod.fst = trees.filter test := by
  induction trees generalizing before with
  | nil => rfl
  | cons tree rest inductionHypothesis =>
      have later := inductionHypothesis (tree :: before)
      rw [documented, List.filter_cons]
      split
      · rw [List.map_cons, later]
      · exact later

end DocComment

namespace Member

theorem isMember_bare (tree : ParseTree) : isMember tree.bare = isMember tree := by
  cases tree with
  | leaf token => rfl
  | node kind range children => rfl

theorem grammarKindOf_bareOf (parts : List ParseTree) :
    grammarKindOf (bareOf parts) = grammarKindOf parts := by
  unfold grammarKindOf
  rw [hasToken_bareOf rfl, hasToken_bareOf rfl]

theorem settingsOf_bareOf (parts : List ParseTree) :
    (settingsOf (bareOf parts)).map Setting.unplaced = (settingsOf parts).map Setting.unplaced := by
  unfold settingsOf
  rw [filter_isNode_bareOf, List.map_map, List.map_map, List.map_map]
  refine List.map_congr_left fun option _ => ?_
  have name := @tokenOf?_bareOf .identifier rfl option.children
  simp [Setting.unplaced, name, nameOf?_bareOf, Function.comp_def]

theorem importItemsOf_bareOf (parts : List ParseTree) :
    (importItemsOf (bareOf parts)).map ImportItem.unplaced =
      (importItemsOf parts).map ImportItem.unplaced := by
  unfold importItemsOf
  rw [filter_isNode_bareOf, List.map_map, List.map_map, List.map_map]
  refine List.map_congr_left fun item _ => ?_
  simp [ImportItem.unplaced, nameOf?_bareOf]

theorem entriesOf_bareOf (kind : Kind) (parts : List ParseTree) :
    (entriesOf kind (bareOf parts)).map ListEntry.unplaced =
      (entriesOf kind parts).map ListEntry.unplaced := by
  unfold entriesOf
  rw [filter_isNode_bareOf, List.map_map, List.map_map, List.map_map]
  refine List.map_congr_left fun entry _ => ?_
  simp [ListEntry.unplaced, nameOf?_bareOf]

theorem unplaced_modeRulesOf (parts : List ParseTree) :
    (modeRulesOf parts).map DocumentedRule.unplaced =
      (parts.filter Rule.isRule).map fun tree => ⟨(Rule.ofTree tree).unplaced, none⟩ := by
  unfold modeRulesOf
  rw [← DocComment.map_fst_documented Rule.isRule [] parts, List.map_map, List.map_map]
  rfl

theorem modeRulesOf_bareOf (parts : List ParseTree) :
    (modeRulesOf (bareOf parts)).map DocumentedRule.unplaced =
      (modeRulesOf parts).map DocumentedRule.unplaced := by
  rw [unplaced_modeRulesOf, unplaced_modeRulesOf, filter_bareOf isRule_bare (fun _ => rfl),
    List.map_map]
  simp only [Function.comp_def, Rule.unplaced_ofTree_bare]

/-- The member that a tree is, whatever documentation stands before it. -/
theorem ofTree?_bare (tree : ParseTree) (bareDoc doc : Option String) :
    (ofTree? tree.bare bareDoc).map unplaced = (ofTree? tree doc).map unplaced := by
  cases tree with
  | leaf token => rfl
  | node kind range parts =>
      have rule := Rule.unplaced_ofTree_bare (.node kind range parts)
      rw [bare_node] at rule ⊢
      unfold ofTree?
      dsimp only
      split
      · simp [unplaced, Header.unplaced, grammarKindOf_bareOf, nameOf?_bareOf]
      · simp [unplaced, settingsOf_bareOf]
      · simp [unplaced, importItemsOf_bareOf]
      · simp [unplaced, entriesOf_bareOf]
      · simp [unplaced, entriesOf_bareOf]
      · simp [unplaced, nameOf?_bareOf]
      · simp [unplaced, DocumentedRule.unplaced, rule]
      · simp [unplaced, DocumentedRule.unplaced, rule]
      · simp [unplaced, ModeSection.unplaced, nameOf?_bareOf, modeRulesOf_bareOf]
      · rfl

end Member

theorem unplaced_membersOf (tree : ParseTree) :
    (membersOf tree).map Member.unplaced =
      (tree.children.filter Member.isMember).filterMap fun member =>
        (Member.ofTree? member none).map Member.unplaced := by
  have undocumented : ∀ (member : ParseTree) (doc : Option String),
      (Member.ofTree? member doc).map Member.unplaced =
        (Member.ofTree? member none).map Member.unplaced := by
    intro member doc
    rw [← Member.ofTree?_bare member none doc, Member.ofTree?_bare member none none]
  unfold membersOf
  rw [← DocComment.map_fst_documented Member.isMember [], List.filterMap_map, List.map_filterMap]
  simp only [undocumented]
  rfl

/-- Trees of one shape have the same members, apart from their places and documentation. -/
theorem membersOf_congr {left right : ParseTree} (same : left.shape? = right.shape?) :
    (membersOf left).map Member.unplaced = (membersOf right).map Member.unplaced := by
  have bareMembers : ∀ tree, (membersOf tree).map Member.unplaced =
      (membersOf tree.bare).map Member.unplaced := by
    intro tree
    rw [unplaced_membersOf, unplaced_membersOf, children_bare,
      filter_bareOf Member.isMember_bare (fun _ => rfl), List.filterMap_map]
    simp only [Function.comp_def, Member.ofTree?_bare _ none none]
  rw [bareMembers left, bareMembers right, unplaced_membersOf, unplaced_membersOf, children_bare,
    children_bare, bareOf_congr (shapesOf_children_congr same)]

end GrammarDesk.Grammar
