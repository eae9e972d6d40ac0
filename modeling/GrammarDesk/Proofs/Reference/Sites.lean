import GrammarDesk.Proofs.Grammar.Layout
import GrammarDesk.Proofs.Lists
import GrammarDesk.Proofs.Syntax.Nesting
import GrammarDesk.Reference.Use

/-!
Contract: the places in the tree of a text where names are used.

Owns: the sites of a tree, found by going down into every node, and the proof that the uses
of a file are its sites, each once and in the order of the text.

Does not own: what a use is bound to (`Bind`).

The uses of a file are found through its members, the alternatives of its rules and their
elements, which look for parts of a node and take the first. That nothing is passed over is
due to the slots of each kind of node: where the first part is taken, there is no second.

Main statement: `Use.ofMembers_eq_sites`.
-/

namespace GrammarDesk.Use

open Grammar Syntax

/-! ## Sites -/

/-- What the argument of a lexer command of this name means. -/
def argumentKind? : String → Option ReferenceKind
  | "mode" | "pushMode" => some .mode
  | "channel" => some .channel
  | "type" => some .token
  | _ => none

/-- The site in a lexer command with these parts: its argument, if it is an identifier. -/
def commandSite? (parts : List ParseTree) : Option (ReferenceKind × Name) := do
  let word ← (Command.ofParts parts).name
  let kind ← argumentKind? word
  let name ← nameOf? .nameRef parts
  return (kind, name)

mutual

/-- The sites in a tree inside a rule: every reference, every literal outside lexer rules, and
the arguments of lexer commands, however deep they stand. -/
def bodySites (inLexerRule : Bool) : ParseTree → List (ReferenceKind × Name)
  | .leaf _ => []
  | .node kind _ parts =>
      match kind with
      | .ruleRef => (tokenOf? .identifier parts).toList.map fun token => (.rule, .ofToken token)
      | .tokenRef => (tokenOf? .identifier parts).toList.map fun token => (.token, .ofToken token)
      | .stringLiteral =>
          if inLexerRule then []
          else (tokenOf? .string parts).toList.map fun token => (.literal, .ofToken token)
      | .lexerCommand => (commandSite? parts).toList
      | _ => bodySitesOf inLexerRule parts

def bodySitesOf (inLexerRule : Bool) : List ParseTree → List (ReferenceKind × Name)
  | [] => []
  | tree :: rest => bodySites inLexerRule tree ++ bodySitesOf inLexerRule rest

end

/-- The sites in a rule with these parts, which know the rule they are in. -/
def ruleSites (inLexerRule : Bool) (parts : List ParseTree) : List Use :=
  (bodySitesOf inLexerRule parts).map fun (kind, name) =>
    ⟨kind, name, (nameOf? .name parts).map fun name => name.text, inLexerRule⟩

mutual

/-- The sites in a tree: those of every rule, the target of every import, and the vocabulary
that options outside rules name first. -/
def sites : ParseTree → List Use
  | .leaf _ => []
  | .node kind _ parts =>
      match kind with
      | .parserRule => ruleSites false parts
      | .lexerRule => ruleSites true parts
      | .optionsSpec => (vocabularyOf (Member.settingsOf parts)).toList.map ofGrammar
      | .importItem => (nameOf? .nameRef parts).toList.map ofGrammar
      | _ => sitesOf parts

def sitesOf : List ParseTree → List Use
  | [] => []
  | tree :: rest => sites tree ++ sitesOf rest

end

theorem bodySitesOf_eq_flatMap (inLexerRule : Bool) (trees : List ParseTree) :
    bodySitesOf inLexerRule trees = trees.flatMap (bodySites inLexerRule) := by
  induction trees with
  | nil => rfl
  | cons tree rest inductionHypothesis =>
      rw [bodySitesOf, inductionHypothesis, List.flatMap_cons]

theorem sitesOf_eq_flatMap (trees : List ParseTree) : sitesOf trees = trees.flatMap sites := by
  induction trees with
  | nil => rfl
  | cons tree rest inductionHypothesis =>
      rw [sitesOf, inductionHypothesis, List.flatMap_cons]

theorem ofCommand?_ofName (word : String) :
    ReferenceKind.ofCommand? (CommandKind.ofName word) = argumentKind? word := by
  unfold CommandKind.ofName
  split
  case h_8 => simp_all [ReferenceKind.ofCommand?, argumentKind?]
  all_goals rfl

theorem commandSite?_eq (parts : List ParseTree) :
    commandSite? parts = ofCommand? (Command.ofParts parts) := by
  unfold commandSite? ofCommand? Command.kind
  change _ = (nameOf? .nameRef parts).bind _
  cases (Command.ofParts parts).name with
  | none => cases nameOf? .nameRef parts <;> rfl
  | some word =>
      have means := ofCommand?_ofName word
      cases argument : nameOf? .nameRef parts with
      | none => simp
      | some name => simp [means]

/-! ## Sites as the alternatives and elements of a rule have them -/

/-- The nodes inside a rule below which there is no site. -/
def silentKinds : List Kind :=
  [.name, .nameRef, .optionsSpec, .option, .argSpec, .returnsSpec, .localsSpec, .throwsSpec,
    .ruleAction, .exceptionHandler, .finallyClause, .alternativeLabel, .elementOptions,
    .charRange, .charSet, .wildcard, .actionElement, .predicate, .error]

/-- The nodes inside a rule that are elements or silent. -/
def plainKinds : List Kind :=
  [.labeledElement, .repeatedElement, .negation, .block, .ruleRef, .tokenRef,
    .stringLiteral] ++ silentKinds

def bodyKinds : List Kind :=
  [.alternativeList, .alternative, .lexerCommands, .lexerCommand] ++ plainKinds

/-- Whether a part is a token or a node of one of some kinds. -/
def isAmong (kinds : List Kind) : Part → Bool
  | .token _ => true
  | .node kind => kind ∈ kinds

def isTreeAmong (kinds : List Kind) : ParseTree → Bool
  | .leaf _ => true
  | .node kind _ _ => kind ∈ kinds

def takeOnly (kinds : List Kind) (slots : List Slot) : Bool :=
  slots.all fun slot => slot.parts.all (isAmong kinds)

def takeOneAtMost (test : Part → Bool) (slots : List Slot) : Bool :=
  (slots.all fun slot => !(slot.isMany && slot.parts.any test)) &&
    (slots.countP fun slot => slot.parts.any test) ≤ 1

/-- The sites of a tree, as the typed parts of a rule have them. -/
def readSites (inLexerRule : Bool) : ParseTree → List (ReferenceKind × Name)
  | .leaf _ => []
  | .node kind range parts =>
      match kind with
      | .alternativeList => ofAlternatives inLexerRule (alternativesOf parts)
      | .alternative =>
          ofElements inLexerRule (elementsOf parts) ++ (commandsOf parts).filterMap ofCommand?
      | .lexerCommands =>
          ((parts.filter (ParseTree.isNode .lexerCommand)).map fun command =>
            Command.ofParts command.children).filterMap ofCommand?
      | .lexerCommand => (ofCommand? (Command.ofParts parts)).toList
      | kind => ofInner inLexerRule (elementOf? (.node kind range parts))

variable {inLexerRule : Bool}

theorem isTreeAmong_of_fits {kinds : List Kind} {slots : List Slot} {parts : List ParseTree}
    (fits : Fits slots (Part.ofTrees parts)) (only : takeOnly kinds slots = true) :
    ∀ tree ∈ parts, isTreeAmong kinds tree = true := by
  intro tree isPart
  cases tree with
  | leaf token => rfl
  | node kind range children =>
      exact fits.forall_mem only (.node kind) (List.mem_filterMap.mpr ⟨_, isPart, rfl⟩)

theorem countP_le_one_of_fits {test : Part → Bool} {slots : List Slot} {parts : List Part}
    (fits : Fits slots parts) (single : takeOneAtMost test slots = true) :
    parts.countP test ≤ 1 := by
  obtain ⟨notMany, few⟩ := Bool.and_eq_true_iff.mp single
  exact Nat.le_trans (fits.countP_le notMany) (of_decide_eq_true few)

/-- Under a node whose slots only take nodes of some kinds stand only nodes of these kinds. -/
theorem isTreeAmong_of_nested {kinds : List Kind} {kind : Kind} {range : Text.Range}
    {parts : List ParseTree} (nested : (ParseTree.node kind range parts).Nested)
    (closed : takeOnly kinds kind.contents = true) :
    ∀ tree ∈ parts, tree.Nested ∧ isTreeAmong kinds tree = true := by
  intro tree isPart
  exact ⟨ParseTree.allNested_iff.mp nested.2 tree isPart,
    isTreeAmong_of_fits nested.1 closed tree isPart⟩

theorem eq_node_of_isNode {kind : Kind} {tree : ParseTree}
    (isNode : tree.isNode kind = true) : ∃ range parts, tree = .node kind range parts := by
  cases tree with
  | leaf token => cases isNode
  | node own range parts =>
      obtain rfl : own = kind := of_decide_eq_true isNode
      exact ⟨range, parts, rfl⟩

theorem isTreeAmong_of_noNode {kind : Kind} {kinds : List Kind} {tree : ParseTree}
    (among : isTreeAmong (kind :: kinds) tree = true) (noNode : tree.isNode kind = false) :
    isTreeAmong kinds tree = true := by
  cases tree with
  | leaf token => rfl
  | node own range parts =>
      rcases List.mem_cons.mp (of_decide_eq_true among) with isKind | isOther
      · exact absurd isKind (of_decide_eq_false noNode)
      · exact decide_eq_true isOther

theorem find?_isNode_of_absent {kind : Kind} {kinds : List Kind} {parts : List ParseTree}
    (among : ∀ tree ∈ parts, isTreeAmong kinds tree = true) (absent : kind ∉ kinds) :
    parts.find? (ParseTree.isNode kind) = none := by
  refine List.find?_eq_none.mpr fun tree isPart isNode => ?_
  obtain ⟨range, children, rfl⟩ := eq_node_of_isNode isNode
  exact absent (of_decide_eq_true (among _ isPart))

/-! ### Silent nodes -/

/-- Where nodes of some kinds stand only over nodes of these kinds, and pass on what is found
below them, nothing is found in them. -/
theorem eq_nil_of_passing {Site : Type} {kinds : List Kind} {sitesIn : ParseTree → List Site}
    (closed : ∀ kind ∈ kinds, takeOnly kinds kind.contents = true)
    (leaf : ∀ token, sitesIn (.leaf token) = [])
    (passing : ∀ kind ∈ kinds, ∀ range parts,
      sitesIn (.node kind range parts) = parts.flatMap sitesIn)
    {tree : ParseTree} (nested : tree.Nested) (among : isTreeAmong kinds tree = true) :
    sitesIn tree = [] := by
  induction tree using ParseTree.induction with
  | leaf token => exact leaf token
  | node kind range parts inductionHypothesis =>
      have isKind : kind ∈ kinds := of_decide_eq_true among
      rw [passing kind isKind, List.flatMap_eq_nil_iff]
      intro tree isPart
      obtain ⟨nestedPart, amongPart⟩ :=
        isTreeAmong_of_nested nested (closed kind isKind) tree isPart
      exact inductionHypothesis tree isPart nestedPart amongPart

theorem bodySites_of_silent {tree : ParseTree} (nested : tree.Nested)
    (silent : isTreeAmong silentKinds tree = true) : bodySites inLexerRule tree = [] := by
  refine eq_nil_of_passing (by decide +kernel) (fun _ => rfl) ?_ nested silent
  intro kind isSilent range parts
  rw [← bodySitesOf_eq_flatMap, bodySites]
  all_goals
    rintro rfl
    exact absurd isSilent (by decide)

/-- Apart from nodes that hold alternatives or commands, the sites are those of the element
that a node is. -/
theorem readSites_of_plain {tree : ParseTree} (plain : isTreeAmong plainKinds tree = true) :
    readSites inLexerRule tree = ofInner inLexerRule (elementOf? tree) := by
  cases tree with
  | leaf token => rfl
  | node kind range parts =>
      have isPlain : kind ∈ plainKinds := of_decide_eq_true plain
      rw [readSites]
      all_goals
        rintro rfl
        exact absurd isPlain (by decide)

theorem plain_of_silent {tree : ParseTree} (silent : isTreeAmong silentKinds tree = true) :
    isTreeAmong plainKinds tree = true := by
  cases tree with
  | leaf token => rfl
  | node kind range parts =>
      exact decide_eq_true (List.mem_append_right _ (of_decide_eq_true silent))

theorem readSites_of_silent {tree : ParseTree} (silent : isTreeAmong silentKinds tree = true) :
    readSites inLexerRule tree = [] := by
  rw [readSites_of_plain (plain_of_silent silent)]
  cases tree with
  | leaf token => rfl
  | node kind range parts =>
      have isSilent : kind ∈ silentKinds := of_decide_eq_true silent
      unfold elementOf?
      split
      case h_12 => cases tokenOf? .action parts <;> rfl
      all_goals first | rfl | exact absurd isSilent (by decide)

/-! ### Elements -/

theorem flatMap_readSites_of_plain {parts : List ParseTree}
    (plain : ∀ tree ∈ parts, isTreeAmong plainKinds tree = true) :
    parts.flatMap (readSites inLexerRule) = ofElements inLexerRule (elementsOf parts) := by
  induction parts with
  | nil => rfl
  | cons tree rest inductionHypothesis =>
      obtain ⟨plainTree, plainRest⟩ := List.forall_mem_cons.mp plain
      rw [List.flatMap_cons, inductionHypothesis plainRest, readSites_of_plain plainTree,
        elementsOf]
      cases elementOf? tree with
      | none => rfl
      | some element => rfl

def isNodePart : Part → Bool
  | .token _ => false
  | .node _ => true

theorem elementsOf_eq_filterMap (trees : List ParseTree) :
    elementsOf trees = trees.filterMap elementOf? := by
  induction trees with
  | nil => rfl
  | cons tree rest inductionHypothesis =>
      rw [elementsOf, List.filterMap_cons, inductionHypothesis]
      cases elementOf? tree <;> rfl

/-- Of some trees no more elements are read than there are nodes among them. -/
theorem length_elementsOf_le (parts : List ParseTree) :
    (elementsOf parts).length ≤ (Part.ofTrees parts).countP isNodePart := by
  have isPart : ∀ tree ∈ parts, (elementOf? tree).isSome = true →
      (Part.ofTree? tree).any isNodePart = true := by
    intro tree _ isElement
    cases tree with
    | leaf token => cases isElement
    | node kind range children => rfl
  rw [elementsOf_eq_filterMap, List.length_filterMap_eq_countP, Part.ofTrees,
    List.countP_filterMap]
  refine List.countP_mono_left fun tree isTree isElement => ?_
  have passes := isPart tree isTree isElement
  cases part : Part.ofTree? tree with
  | none => rw [part] at passes; cases passes
  | some part => rw [part] at passes; exact passes

/-- Where there is one element at most, it is the first. -/
theorem ofElements_of_single {elements : List Element} (single : elements.length ≤ 1) :
    ofElements inLexerRule elements = ofInner inLexerRule elements.head? := by
  cases elements with
  | nil => rfl
  | cons element rest =>
      obtain rfl := List.eq_nil_of_length_eq_zero (Nat.le_zero.mp (Nat.le_of_succ_le_succ single))
      exact List.append_nil _

theorem flatMap_readSites_of_single {parts : List ParseTree}
    (plain : ∀ tree ∈ parts, isTreeAmong plainKinds tree = true)
    (single : (Part.ofTrees parts).countP isNodePart ≤ 1) :
    parts.flatMap (readSites inLexerRule) = ofInner inLexerRule (firstElementOf? parts) := by
  rw [flatMap_readSites_of_plain plain, firstElementOf?_eq_head?]
  exact ofElements_of_single (Nat.le_trans (length_elementsOf_le parts) single)

/-! ### Lists of alternatives and commands -/

def isPartOf (kind : Kind) (part : Part) : Bool :=
  part = .node kind

theorem countP_isNode (kind : Kind) (parts : List ParseTree) :
    parts.countP (ParseTree.isNode kind) = (Part.ofTrees parts).countP (isPartOf kind) := by
  rw [Part.ofTrees, List.countP_filterMap]
  refine List.countP_congr fun tree _ => ?_
  cases tree with
  | leaf token =>
      rw [Part.ofTree?]
      split <;> simp [ParseTree.isNode, isPartOf]
  | node own range children => simp [ParseTree.isNode, isPartOf, Part.ofTree?]

/-- What only nodes of a kind have, and there is one at most, the first has. -/
theorem flatMap_of_single {Site : Type} {kind : Kind} {sitesIn : ParseTree → List Site}
    {parts : List ParseTree}
    (others : ∀ tree ∈ parts, ParseTree.isNode kind tree = false → sitesIn tree = [])
    (single : (Part.ofTrees parts).countP (isPartOf kind) ≤ 1) :
    parts.flatMap sitesIn =
      ((parts.find? (ParseTree.isNode kind)).toList).flatMap sitesIn := by
  rw [← countP_isNode] at single
  induction parts with
  | nil => rfl
  | cons tree rest inductionHypothesis =>
      obtain ⟨other, othersRest⟩ := List.forall_mem_cons.mp others
      rw [List.countP_cons] at single
      rw [List.flatMap_cons, List.find?_cons]
      cases isKind : ParseTree.isNode kind tree with
      | false =>
          rw [other isKind, List.nil_append]
          exact inductionHypothesis othersRest (Nat.le_trans (Nat.le_add_right _ _) single)
      | true =>
          rw [isKind, if_pos rfl] at single
          have none : rest.countP (ParseTree.isNode kind) = 0 :=
            Nat.le_zero.mp (Nat.le_of_succ_le_succ single)
          have silent : rest.flatMap sitesIn = [] := List.flatMap_eq_nil_iff.mpr
            fun later isLater => othersRest later isLater
              (Bool.eq_false_iff.mpr (List.countP_eq_zero.mp none later isLater))
          rw [silent]
          rfl

/-- The alternatives come from the first list of alternatives, and there are none without one.
-/
theorem firstAlternativesOf_eq (parts : List ParseTree) :
    firstAlternativesOf parts =
      (parts.find? (ParseTree.isNode .alternativeList)).elim []
        fun list => alternativesOf list.children := by
  induction parts with
  | nil => rfl
  | cons tree rest inductionHypothesis =>
      cases tree with
      | leaf token => exact inductionHypothesis
      | node kind range children =>
          rw [firstAlternativesOf, List.find?_cons, ParseTree.isNode]
          by_cases isList : kind = .alternativeList
          · rw [if_pos isList, decide_eq_true isList]
            rfl
          · rw [if_neg isList, decide_eq_false isList]
            exact inductionHypothesis

/-- The sites of the parts of a block or a rule are those of its list of alternatives. -/
theorem flatMap_readSites_of_list {parts : List ParseTree}
    (among : ∀ tree ∈ parts, isTreeAmong (.alternativeList :: silentKinds) tree = true)
    (single : (Part.ofTrees parts).countP (isPartOf .alternativeList) ≤ 1) :
    parts.flatMap (readSites inLexerRule) =
      ofAlternatives inLexerRule (firstAlternativesOf parts) := by
  have others : ∀ tree ∈ parts, ParseTree.isNode .alternativeList tree = false →
      readSites inLexerRule tree = [] := by
    intro tree isPart noList
    exact readSites_of_silent (isTreeAmong_of_noNode (among tree isPart) noList)
  rw [flatMap_of_single others single, firstAlternativesOf_eq]
  cases found : parts.find? (ParseTree.isNode .alternativeList) with
  | none => rfl
  | some list =>
      obtain ⟨range, children, rfl⟩ := eq_node_of_isNode (List.find?_some found)
      exact List.append_nil _

theorem flatMap_readSites_of_alternatives {parts : List ParseTree}
    (among : ∀ tree ∈ parts, isTreeAmong [.alternative] tree = true) :
    parts.flatMap (readSites inLexerRule) =
      ofAlternatives inLexerRule (alternativesOf parts) := by
  induction parts with
  | nil => rfl
  | cons tree rest inductionHypothesis =>
      obtain ⟨isAmong, amongRest⟩ := List.forall_mem_cons.mp among
      rw [List.flatMap_cons, inductionHypothesis amongRest]
      cases tree with
      | leaf token => rfl
      | node kind range children =>
          obtain rfl := List.mem_singleton.mp (of_decide_eq_true isAmong)
          rw [alternativesOf, if_pos rfl]
          rfl

theorem flatMap_readSites_of_commands {parts : List ParseTree}
    (among : ∀ tree ∈ parts, isTreeAmong [.lexerCommand] tree = true) :
    parts.flatMap (readSites inLexerRule) =
      ((parts.filter (ParseTree.isNode .lexerCommand)).map fun command =>
        Command.ofParts command.children).filterMap ofCommand? := by
  induction parts with
  | nil => rfl
  | cons tree rest inductionHypothesis =>
      obtain ⟨isAmong, amongRest⟩ := List.forall_mem_cons.mp among
      rw [List.flatMap_cons, inductionHypothesis amongRest]
      cases tree with
      | leaf token => rfl
      | node kind range children =>
          obtain rfl := List.mem_singleton.mp (of_decide_eq_true isAmong)
          have isCommand : ParseTree.isNode .lexerCommand
              (.node .lexerCommand range children) = true := rfl
          rw [List.filter_cons_of_pos isCommand, List.map_cons, List.filterMap_cons, readSites]
          dsimp only [ParseTree.children]
          cases ofCommand? (Command.ofParts children) <;> rfl

/-- The sites of the lexer commands of an alternative. -/
theorem flatMap_readSites_of_commandList {parts : List ParseTree}
    (among : ∀ tree ∈ parts, isTreeAmong [.lexerCommands] tree = true)
    (single : (Part.ofTrees parts).countP (isPartOf .lexerCommands) ≤ 1) :
    parts.flatMap (readSites inLexerRule) = (commandsOf parts).filterMap ofCommand? := by
  have others : ∀ tree ∈ parts, ParseTree.isNode .lexerCommands tree = false →
      readSites inLexerRule tree = [] := by
    intro tree isPart noCommands
    have isLeaf := isTreeAmong_of_noNode (among tree isPart) noCommands
    cases tree with
    | leaf token => rfl
    | node kind range children =>
        exact absurd (of_decide_eq_true (p := kind ∈ []) isLeaf) List.not_mem_nil
  rw [flatMap_of_single others single, commandsOf]
  cases found : parts.find? (ParseTree.isNode .lexerCommands) with
  | none => rfl
  | some commands =>
      obtain ⟨range, children, rfl⟩ := eq_node_of_isNode (List.find?_some found)
      exact List.append_nil _

theorem elementsOf_of_commandList {parts : List ParseTree}
    (among : ∀ tree ∈ parts, isTreeAmong [.lexerCommands] tree = true) :
    elementsOf parts = [] := by
  rw [elementsOf_eq_filterMap, List.filterMap_eq_nil_iff]
  intro tree isPart
  cases tree with
  | leaf token => rfl
  | node kind range children =>
      obtain rfl := List.mem_singleton.mp (of_decide_eq_true (among _ isPart))
      rfl

/-- The sites of the parts of an alternative are those of its elements, and then those of its
commands. -/
theorem flatMap_readSites_of_alternative {parts : List ParseTree}
    (fits : Fits (Kind.contents .alternative) (Part.ofTrees parts)) :
    parts.flatMap (readSites inLexerRule) =
      ofElements inLexerRule (elementsOf parts) ++ (commandsOf parts).filterMap ofCommand? := by
  obtain ⟨left, right, whole, fitsLeft, fitsRight⟩ :=
    @Fits.split [.optional [.node .elementOptions], .many elementParts,
      .optional [.node .alternativeLabel]] [.optional [.node .lexerCommands]] _ fits
  obtain ⟨before, after, rfl, rfl, rfl⟩ := List.filterMap_eq_append_iff.mp whole
  have plain : ∀ tree ∈ before, isTreeAmong plainKinds tree = true :=
    isTreeAmong_of_fits fitsLeft (by decide +kernel)
  have commands : ∀ tree ∈ after, isTreeAmong [.lexerCommands] tree = true :=
    isTreeAmong_of_fits fitsRight (by decide +kernel)
  have elements : elementsOf (before ++ after) = elementsOf before := by
    rw [elementsOf_eq_filterMap, List.filterMap_append, ← elementsOf_eq_filterMap,
      ← elementsOf_eq_filterMap, elementsOf_of_commandList commands, List.append_nil]
  have commandList : commandsOf (before ++ after) = commandsOf after := by
    rw [commandsOf, List.find?_append, find?_isNode_of_absent plain (by decide), Option.none_or,
      commandsOf]
  rw [List.flatMap_append, flatMap_readSites_of_plain plain, elements, commandList]
  exact congrArg _ (flatMap_readSites_of_commandList commands
    (countP_le_one_of_fits fitsRight (by decide +kernel)))

/-! ### Nodes with their parts -/

theorem exists_tokenOf? {kind : Kind} {parts : List ParseTree}
    (isPart : .token kind ∈ Part.ofTrees parts) : ∃ token, tokenOf? kind parts = some token := by
  obtain ⟨tree, isTree, isToken⟩ := List.mem_filterMap.mp isPart
  cases tree with
  | node own range children => cases isToken
  | leaf token =>
      rw [Part.ofTree?] at isToken
      split at isToken
      · cases isToken
      · obtain ⟨rfl⟩ := Part.token.inj (Option.some.inj isToken)
        refine Option.isSome_iff_exists.mp (List.find?_isSome.mpr ⟨token, ?_, decide_eq_true rfl⟩)
        exact List.mem_filterMap.mpr ⟨_, isTree, rfl⟩

/-- A token that repeats is found as the repetition of its parts, whatever stands around it. -/
theorem exists_suffixOf? {kind : Kind} {parts : List ParseTree} (isSuffix : kind.isSuffix = true)
    (isPart : .token kind ∈ Part.ofTrees parts) : ∃ suffix, suffixOf? parts = some suffix := by
  obtain ⟨token, found⟩ := exists_tokenOf? isPart
  unfold tokenOf? at found
  have isKind := List.find?_some found
  obtain rfl : token.kind = kind := of_decide_eq_true isKind
  have isToken : token ∈ (parts.filterMap ParseTree.token?).filter fun token =>
      token.kind.isSuffix := List.mem_filter.mpr ⟨List.mem_of_find?_eq_some found, isSuffix⟩
  unfold suffixOf?
  cases suffixes : (parts.filterMap ParseTree.token?).filter fun token => token.kind.isSuffix with
  | nil =>
      rw [suffixes] at isToken
      cases isToken
  | cons first others =>
      have isMember := suffixes.symm ▸ (List.mem_cons_self : first ∈ first :: others)
      have isFirst : first.kind.isSuffix = true := (List.mem_filter.mp isMember).2
      have means : (Suffix.ofKind? first.kind).isSome = true := by
        generalize first.kind = own at isFirst
        cases own <;> first | rfl | cases isFirst
      obtain ⟨suffix, isSuffix⟩ := Option.isSome_iff_exists.mp means
      exact ⟨(suffix, others.isEmpty), congrArg (Option.map _) isSuffix⟩

variable {range : Text.Range} {parts : List ParseTree}

/-- The parts of a node with a place for one element at most. -/
theorem flatMap_readSites_of_element_slot {kind : Kind}
    (fits : Fits kind.contents (Part.ofTrees parts))
    (only : takeOnly plainKinds kind.contents = true)
    (single : takeOneAtMost isNodePart kind.contents = true) :
    parts.flatMap (readSites inLexerRule) = ofInner inLexerRule (firstElementOf? parts) :=
  flatMap_readSites_of_single (isTreeAmong_of_fits fits only)
    (countP_le_one_of_fits fits single)

theorem readSites_labeledElement
    (fits : Fits (Kind.contents .labeledElement) (Part.ofTrees parts)) :
    readSites inLexerRule (.node .labeledElement range parts) =
      parts.flatMap (readSites inLexerRule) := by
  obtain ⟨part, isPart, isLabel⟩ := fits.exists_mem List.mem_cons_self
  obtain rfl := List.mem_singleton.mp isLabel
  obtain ⟨label, found⟩ := exists_tokenOf? isPart
  rw [flatMap_readSites_of_element_slot fits (by decide +kernel) (by decide),
    readSites_of_plain rfl, elementOf?, found]
  rfl

/-- A repetition adds no use to those of its parts. -/
theorem readSites_repeatedElement
    (fits : Fits (Kind.contents .repeatedElement) (Part.ofTrees parts)) :
    readSites inLexerRule (.node .repeatedElement range parts) =
      parts.flatMap (readSites inLexerRule) := by
  have isSlot : Slot.one [.token .question, .token .star, .token .plus] ∈
      Kind.contents .repeatedElement := List.mem_cons_of_mem _ List.mem_cons_self
  obtain ⟨part, isPart, isSuffix⟩ := fits.exists_mem isSlot
  have suffix : ∃ suffix, suffixOf? parts = some suffix := by
    simp only [List.mem_cons, List.not_mem_nil, or_false] at isSuffix
    obtain rfl | rfl | rfl := isSuffix
    all_goals exact exists_suffixOf? rfl isPart
  obtain ⟨suffix, found⟩ := suffix
  rw [flatMap_readSites_of_element_slot fits (by decide +kernel) (by decide),
    readSites_of_plain rfl, elementOf?, found]
  rfl

theorem readSites_negation (fits : Fits (Kind.contents .negation) (Part.ofTrees parts)) :
    readSites inLexerRule (.node .negation range parts) =
      parts.flatMap (readSites inLexerRule) := by
  rw [flatMap_readSites_of_element_slot fits (by decide +kernel) (by decide)]
  rfl

/-- The parts of a node whose only part with sites is a list of alternatives. -/
theorem flatMap_readSites_of_list_slot {kind : Kind}
    (fits : Fits kind.contents (Part.ofTrees parts))
    (only : takeOnly (.alternativeList :: silentKinds) kind.contents = true)
    (single : takeOneAtMost (isPartOf .alternativeList) kind.contents = true) :
    parts.flatMap (readSites inLexerRule) =
      ofAlternatives inLexerRule (firstAlternativesOf parts) :=
  flatMap_readSites_of_list (isTreeAmong_of_fits fits only) (countP_le_one_of_fits fits single)

theorem map_ofToken_eq_ofInner (kind : ReferenceKind) (found : Option Token)
    (element : Token → Element)
    (means : ∀ token, ofElement inLexerRule (element token) = [(kind, .ofToken token)]) :
    (found.toList.map fun token => (kind, Name.ofToken token)) =
      ofInner inLexerRule (found.map element) := by
  cases found with
  | none => rfl
  | some token => exact (means token).symm

theorem bodySites_stringLiteral :
    bodySites inLexerRule (.node .stringLiteral range parts) =
      readSites inLexerRule (.node .stringLiteral range parts) := by
  rw [readSites_of_plain rfl, elementOf?]
  cases inLexerRule with
  | false =>
      exact map_ofToken_eq_ofInner .literal _ (.literal range <| .ofToken ·) fun _ => rfl
  | true => cases tokenOf? .string parts <;> rfl

/-- Inside a rule, the sites in a tree are those that its parts have as elements, alternatives
and commands. -/
theorem bodySites_eq_readSites {tree : ParseTree} (nested : tree.Nested)
    (isBody : isTreeAmong bodyKinds tree = true) :
    bodySites inLexerRule tree = readSites inLexerRule tree := by
  have closed : ∀ kind ∈ bodyKinds, takeOnly bodyKinds kind.contents = true := by
    decide +kernel
  induction tree using ParseTree.induction with
  | leaf token => rfl
  | node kind range parts inductionHypothesis =>
      have isBodyKind : kind ∈ bodyKinds := of_decide_eq_true isBody
      have below : bodySitesOf inLexerRule parts = parts.flatMap (readSites inLexerRule) := by
        rw [bodySitesOf_eq_flatMap]
        refine List.flatMap_congr fun tree isPart => ?_
        obtain ⟨nestedPart, isBodyPart⟩ :=
          isTreeAmong_of_nested nested (closed kind isBodyKind) tree isPart
        exact inductionHypothesis tree isPart nestedPart isBodyPart
      by_cases isSilent : kind ∈ silentKinds
      · have silent : isTreeAmong silentKinds (.node kind range parts) = true :=
          decide_eq_true isSilent
        rw [bodySites_of_silent nested silent, readSites_of_silent silent]
      · have fits := nested.1
        simp only [bodyKinds, plainKinds, List.mem_append, isSilent, or_false, List.mem_cons,
          List.not_mem_nil] at isBodyKind
        obtain (rfl | rfl | rfl | rfl) | rfl | rfl | rfl | rfl | rfl | rfl | rfl := isBodyKind
        -- Alternatives and commands, each read by a function of its own.
        · exact below.trans (flatMap_readSites_of_alternatives
            (isTreeAmong_of_fits fits (by decide)))
        · exact below.trans (flatMap_readSites_of_alternative fits)
        · exact below.trans (flatMap_readSites_of_commands
            (isTreeAmong_of_fits fits (by decide)))
        · exact congrArg Option.toList (commandSite?_eq parts)
        -- Elements around one other element or a list of alternatives.
        · exact below.trans (readSites_labeledElement fits).symm
        · exact below.trans (readSites_repeatedElement fits).symm
        · exact below.trans (readSites_negation fits).symm
        · exact below.trans (flatMap_readSites_of_list_slot fits (by decide) (by decide))
        -- Elements that are sites themselves.
        · exact map_ofToken_eq_ofInner .rule _ (.ruleRef range <| .ofToken ·) fun _ => rfl
        · exact map_ofToken_eq_ofInner .token _ (.tokenRef range <| .ofToken ·) fun _ => rfl
        · exact bodySites_stringLiteral

/-! ## Rules and members -/

/-- What stands in a rule has no sites but in its list of alternatives. -/
theorem ruleSites_eq_ofRule {kind : Kind} (isRule : kind.contents = ruleSlots)
    (nested : (ParseTree.node kind range parts).Nested) :
    ruleSites (decide (kind = .lexerRule)) parts =
      ofRule (Rule.ofTree (.node kind range parts)) := by
  have closed : takeOnly bodyKinds kind.contents = true := by
    rw [isRule]
    decide
  have below : ∀ inLexerRule, bodySitesOf inLexerRule parts =
      ofAlternatives inLexerRule (firstAlternativesOf parts) := by
    intro inLexerRule
    rw [bodySitesOf_eq_flatMap]
    have eachRead : ∀ tree ∈ parts,
        bodySites inLexerRule tree = readSites inLexerRule tree := by
      intro tree isPart
      obtain ⟨nestedPart, isBody⟩ := isTreeAmong_of_nested nested closed tree isPart
      exact bodySites_eq_readSites nestedPart isBody
    rw [List.flatMap_congr eachRead]
    refine flatMap_readSites_of_list_slot nested.1 ?_ ?_
    all_goals
      rw [isRule]
      decide
  unfold ruleSites
  rw [below]
  rfl

/-- The nodes outside rules below which there is no site. -/
def muteKinds : List Kind :=
  [.header, .name, .tokensSpec, .tokenDecl, .channelsSpec, .channelDecl, .namedAction, .error]

theorem sites_of_mute {tree : ParseTree} (nested : tree.Nested)
    (mute : isTreeAmong muteKinds tree = true) : sites tree = [] := by
  refine eq_nil_of_passing (by decide +kernel) (fun _ => rfl) ?_ nested mute
  intro kind isMute range parts
  rw [← sitesOf_eq_flatMap, sites]
  all_goals
    rintro rfl
    exact absurd isMute (by decide)

theorem sites_of_rule {tree : ParseTree} (nested : tree.Nested)
    (isRule : Rule.isRule tree = true) : sites tree = ofRule (Rule.ofTree tree) := by
  cases tree with
  | leaf token => cases isRule
  | node kind range parts =>
      obtain rfl | rfl := Kind.eq_of_isRule isRule
      all_goals exact ruleSites_eq_ofRule rfl nested

/-- The sites below an import declaration are those of its items. -/
theorem sitesOf_imports {parts : List ParseTree}
    (fits : Fits (Kind.contents .importDecl) (Part.ofTrees parts)) :
    sitesOf parts = ofMember (.imports range (Member.importItemsOf parts)) := by
  have among := @isTreeAmong_of_fits [.importItem] _ _ fits (by decide)
  have others : ∀ tree ∈ parts, ParseTree.isNode .importItem tree = false → sites tree = [] := by
    intro tree isPart noItem
    have isLeaf := isTreeAmong_of_noNode (among tree isPart) noItem
    cases tree with
    | leaf token => rfl
    | node kind range children =>
        exact absurd (of_decide_eq_true (p := kind ∈ []) isLeaf) List.not_mem_nil
  have item : ∀ tree ∈ parts.filter (ParseTree.isNode .importItem),
      sites tree = (nameOf? .nameRef tree.children).toList.map ofGrammar := by
    intro tree isItem
    obtain ⟨range, children, rfl⟩ := eq_node_of_isNode (List.mem_filter.mp isItem).2
    rfl
  rw [sitesOf_eq_flatMap, ← flatMap_filter others, List.flatMap_congr item]
  unfold ofMember Member.importItemsOf
  dsimp only
  rw [List.filterMap_map, List.map_filterMap, List.filterMap_eq_flatMap_toList]
  exact List.flatMap_congr fun tree _ => (Option.toList_map ..).symm

/-- Of some kinds of nodes, those that fail a test are mute if the kinds say so. -/
theorem sites_of_failing {kinds : List Kind} {test : Kind → Bool}
    (mute : ∀ kind ∈ kinds, test kind = false → kind ∈ muteKinds) {tree : ParseTree}
    (nested : tree.Nested) (among : isTreeAmong kinds tree = true)
    (fails : ∀ kind range parts, tree = .node kind range parts → test kind = false) :
    sites tree = [] := by
  cases tree with
  | leaf token => rfl
  | node kind range parts =>
      exact sites_of_mute nested
        (decide_eq_true (mute kind (of_decide_eq_true among) (fails kind range parts rfl)))

/-- The sites below a mode are those of the rules directly in it, since no rule stands in
another. -/
theorem sitesOf_mode {parts : List ParseTree} {name : Option Name} {doc : Option String}
    (nested : (ParseTree.node .modeSection range parts).Nested) :
    sitesOf parts = ofMember (.mode ⟨range, name, doc, Member.modeRulesOf parts⟩) := by
  have closed : takeOnly (.parserRule :: .lexerRule :: muteKinds)
      (Kind.contents .modeSection) = true := by
    decide +kernel
  have others : ∀ tree ∈ parts, Rule.isRule tree = false → sites tree = [] := by
    intro tree isPart noRule
    obtain ⟨nestedPart, among⟩ := isTreeAmong_of_nested nested closed tree isPart
    exact @sites_of_failing _ Kind.isRule (by decide) _ nestedPart among
      fun kind range children isNode => by subst isNode; exact noRule
  have rules : ∀ tree ∈ parts.filter Rule.isRule, sites tree = ofRule (Rule.ofTree tree) := by
    intro tree isRule
    obtain ⟨isPart, isRule⟩ := List.mem_filter.mp isRule
    exact sites_of_rule (ParseTree.allNested_iff.mp nested.2 tree isPart) isRule
  rw [sitesOf_eq_flatMap, ← flatMap_filter others, List.flatMap_congr rules, ofMember,
    Member.modeRulesOf, List.flatMap_map, ← DocComment.map_fst_documented Rule.isRule [] parts,
    List.flatMap_map]

/-- The sites of a member are its uses. -/
theorem sites_eq_ofMember {tree : ParseTree} (nested : tree.Nested)
    (isMember : Member.isMember tree = true) (doc : Option String) :
    sites tree = (Member.ofTree? tree doc).toList.flatMap ofMember := by
  cases tree with
  | leaf token => cases isMember
  | node kind range parts =>
      have isMemberKind : kind.isMember = true := isMember
      have mute : kind ∈ muteKinds → sites (.node kind range parts) = [] :=
        fun isMute => sites_of_mute nested (decide_eq_true isMute)
      unfold Kind.isMember at isMemberKind
      unfold Member.ofTree?
      dsimp only
      split
      case h_1 => exact mute (by decide)
      case h_2 => exact (List.append_nil _).symm
      case h_3 => exact (sitesOf_imports nested.1).trans (List.append_nil _).symm
      case h_4 => exact mute (by decide)
      case h_5 => exact mute (by decide)
      case h_6 => exact mute (by decide)
      case h_7 => exact (sites_of_rule nested rfl).trans (List.append_nil _).symm
      case h_8 => exact (sites_of_rule nested rfl).trans (List.append_nil _).symm
      case h_9 => exact (sitesOf_mode nested).trans (List.append_nil _).symm
      case h_10 => simp_all

/-- The uses of the members of a text are the sites of its tree, each once and in the order of
the text. -/
theorem ofMembers_eq_sites {text : String} {parse : Parse}
    (read : Parse.ofText? text = some parse) :
    ofMembers (membersOf parse.tree) = sites parse.tree := by
  have nested := Parse.nested_of_text read
  obtain ⟨range, parts, isTree⟩ := eq_node_of_isNode (Parse.isNode_of_text read)
  rw [isTree] at nested ⊢
  have closed : takeOnly
      ([.optionsSpec, .importDecl, .modeSection, .parserRule, .lexerRule] ++ muteKinds)
      (Kind.contents .sourceFile) = true := by
    decide +kernel
  have others : ∀ tree ∈ parts, Member.isMember tree = false → sites tree = [] := by
    intro tree isPart noMember
    obtain ⟨nestedPart, among⟩ := isTreeAmong_of_nested nested closed tree isPart
    exact @sites_of_failing _ Kind.isMember (by decide) _ nestedPart among
      fun kind range children isNode => by subst isNode; exact noMember
  have members : ∀ member ∈ DocComment.documented Member.isMember [] parts,
      ((Member.ofTree? member.1 member.2).toList.flatMap ofMember) = sites member.1 := by
    intro member isDocumented
    have isPart : member.1 ∈ parts.filter Member.isMember := by
      rw [← DocComment.map_fst_documented Member.isMember [] parts]
      exact List.mem_map_of_mem isDocumented
    obtain ⟨isPart, isMember⟩ := List.mem_filter.mp isPart
    exact (sites_eq_ofMember (ParseTree.allNested_iff.mp nested.2 _ isPart) isMember _).symm
  show ofMembers _ = sitesOf parts
  unfold ofMembers membersOf
  rw [List.filterMap_eq_flatMap_toList, List.flatMap_assoc]
  show (DocComment.documented Member.isMember [] parts).flatMap _ = _
  rw [List.flatMap_congr members, sitesOf_eq_flatMap, ← flatMap_filter others,
    ← DocComment.map_fst_documented Member.isMember [] parts, List.flatMap_map]

end GrammarDesk.Use
