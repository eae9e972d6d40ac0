import GrammarDesk.Proofs.Grammar.Rules
import GrammarDesk.Proofs.Reference.Marks

/-!
Contract: the names used in the elements of a rule, apart from those in its lexer commands.

Owns: where the lexer commands of a tree are written, a tree with nothing left in its lexer
commands, and the proof that the sites of such a tree are those that lie in no command; and that
the sites of a file that lie in a rule are those of the rule.

Does not own: what is made of elements (`Diagram`), or what a use is bound to (`Bind`).

That a site can be told by its range is due to the tree: what is used in a part of a node lies in
this part, and no two parts have bytes in common.

Main statement: `exists_of_rule`.
-/

namespace GrammarDesk

open Text Grammar Syntax Range

/-! ## Lexer commands in a tree -/

namespace Text.Range

instance (inner outer : Range) : Decidable (inner.Inside outer) :=
  inferInstanceAs (Decidable (_ ∧ _))

def Outside (range : Range) (others : List Range) : Prop :=
  ∀ other ∈ others, ¬range.Inside other

instance (range : Range) (others : List Range) : Decidable (range.Outside others) :=
  inferInstanceAs (Decidable (∀ other ∈ others, ¬range.Inside other))

end Text.Range

namespace Syntax.ParseTree

mutual

def commandRanges : ParseTree → List Range
  | .leaf _ => []
  | .node kind range parts => if kind = .lexerCommand then [range] else commandRangesOf parts

def commandRangesOf : List ParseTree → List Range
  | [] => []
  | tree :: rest => commandRanges tree ++ commandRangesOf rest

end

mutual

/-- The tree with nothing in its lexer commands. -/
def emptied : ParseTree → ParseTree
  | .leaf token => .leaf token
  | .node kind range parts =>
      .node kind range (if kind = .lexerCommand then [] else emptiedParts parts)

/-- The trees with nothing in their lexer commands. -/
def emptiedParts : List ParseTree → List ParseTree
  | [] => []
  | tree :: rest => emptied tree :: emptiedParts rest

end

theorem commandRangesOf_eq_flatMap (trees : List ParseTree) :
    commandRangesOf trees = trees.flatMap commandRanges := by
  induction trees with
  | nil => rfl
  | cons tree rest inductionHypothesis =>
      rw [commandRangesOf, inductionHypothesis, List.flatMap_cons]

theorem emptiedParts_eq_map (trees : List ParseTree) :
    emptiedParts trees = trees.map emptied := by
  induction trees with
  | nil => rfl
  | cons tree rest inductionHypothesis =>
      rw [emptiedParts, inductionHypothesis, List.map_cons]

theorem isNode_emptied (kind : Kind) (tree : ParseTree) :
    tree.emptied.isNode kind = tree.isNode kind := by
  cases tree <;> rfl

theorem token?_emptied (tree : ParseTree) : tree.emptied.token? = tree.token? := by
  cases tree <;> rfl

/-- The tokens directly under a node stay when the commands are emptied. -/
theorem filterMap_token?_emptied (trees : List ParseTree) :
    (emptiedParts trees).filterMap token? = trees.filterMap token? := by
  rw [emptiedParts_eq_map, List.filterMap_map]
  exact List.filterMap_congr fun tree _ => token?_emptied tree

theorem tokenOf?_emptied (kind : Kind) (trees : List ParseTree) :
    tokenOf? kind (emptiedParts trees) = tokenOf? kind trees := by
  rw [tokenOf?, filterMap_token?_emptied, tokenOf?]

theorem ofTrees_emptied (trees : List ParseTree) :
    Part.ofTrees (emptiedParts trees) = Part.ofTrees trees := by
  rw [emptiedParts_eq_map, Part.ofTrees, List.filterMap_map]
  refine List.filterMap_congr fun tree _ => ?_
  cases tree <;> rfl

/-- A tree stays nested when its commands are emptied: a command may lack all of its parts. -/
theorem nested_emptied {tree : ParseTree} (nested : tree.Nested) : tree.emptied.Nested := by
  induction tree using ParseTree.induction with
  | leaf token => exact nested
  | node kind range parts inductionHypothesis =>
      unfold emptied
      by_cases isCommand : kind = .lexerCommand
      · rw [if_pos isCommand, isCommand]
        exact ⟨.empty rfl (.empty rfl (.empty rfl (.empty rfl .nil))), trivial⟩
      · rw [if_neg isCommand]
        refine ⟨ofTrees_emptied parts ▸ nested.1, allNested_iff.mpr fun tree isEmptied => ?_⟩
        rw [emptiedParts_eq_map] at isEmptied
        obtain ⟨part, isPart, rfl⟩ := List.mem_map.mp isEmptied
        exact inductionHypothesis part isPart (allNested_iff.mp nested.2 part isPart)

/-- The commands of a tree lie in the tree. -/
theorem Solid.inside_of_mem_commandRanges {tree : ParseTree} (solid : tree.Solid) {range : Range}
    (isCommand : range ∈ tree.commandRanges) : range.Inside tree.range := by
  induction tree using ParseTree.induction with
  | leaf token => cases isCommand
  | node kind own parts inductionHypothesis =>
      unfold commandRanges at isCommand
      split at isCommand
      · obtain rfl := List.mem_singleton.mp isCommand
        exact ⟨Nat.le_refl _, Nat.le_refl _⟩
      · rw [commandRangesOf_eq_flatMap] at isCommand
        obtain ⟨part, isPart, isCommand⟩ := List.mem_flatMap.mp isCommand
        have inPart := inductionHypothesis part isPart (solid.parts.solid part isPart) isCommand
        have inNode := solid.parts.inside isPart
        exact ⟨Nat.le_trans inNode.1 inPart.1, Nat.le_trans inPart.2 inNode.2⟩

namespace SolidParts

variable {start stop : Nat} {parts : List ParseTree} (solid : SolidParts start parts stop)

include solid

/-- What lies in a part is in no command of the parts if it is in none of that part. -/
theorem outside_iff {part : ParseTree} (isPart : part ∈ parts) {range : Range}
    (inside : range.Inside part.range) (filled : range.start < range.stop) :
    range.Outside (commandRangesOf parts) ↔ range.Outside part.commandRanges := by
  rw [commandRangesOf_eq_flatMap]
  constructor
  · exact fun outside other isCommand =>
      outside other (List.mem_flatMap.mpr ⟨part, isPart, isCommand⟩)
  · intro outside other isCommand within
    obtain ⟨owner, isOwner, isCommand⟩ := List.mem_flatMap.mp isCommand
    have inOwner := (solid.solid owner isOwner).inside_of_mem_commandRanges isCommand
    have same : part = owner := by
      refine eq_of_apart solid.pairwise isPart isOwner ?_
      unfold Inside at inside within inOwner
      unfold Overlaps
      omega
    exact outside other (same ▸ isCommand) within

/-- What is read off the parts, each time in its own part, and lies in one of them is read off
that part. -/
theorem filter_inside {Item : Type} {rangeOf : Item → Range} {items : ParseTree → List Item}
    (each : ∀ part ∈ parts, part.Solid →
      Row part.range.start ((items part).map rangeOf) part.range.stop)
    {part : ParseTree} (isPart : part ∈ parts) {range : Range}
    (within : range.Inside part.range) :
    ((parts.flatMap items).filter fun item => (rangeOf item).Inside range) =
      (items part).filter fun item => (rangeOf item).Inside range := by
  have apart := solid.pairwise
  obtain ⟨before, after, rfl⟩ := List.append_of_mem isPart
  -- An item of another part that lies in the range would make this part overlap that one.
  have overlaps : ∀ other ∈ before ++ part :: after, ∀ item ∈ items other,
      (rangeOf item).Inside range → other.range.Overlaps part.range := by
    intro other isOther item isItem inside
    have row := each other isOther (solid.solid other isOther)
    have own := row.inside_of_mem (List.mem_map_of_mem isItem)
    have filled := (row.forall_mem _ (List.mem_map_of_mem isItem)).2
    unfold Inside at own within inside
    unfold Overlaps
    dsimp only at own
    omega
  obtain ⟨_, later, earlier⟩ := List.pairwise_append.mp apart
  have formerNone :
      (before.flatMap items).filter (fun item => (rangeOf item).Inside range) = [] := by
    refine List.filter_eq_nil_iff.mpr fun item isItem inside => ?_
    obtain ⟨other, isOther, isItem⟩ := List.mem_flatMap.mp isItem
    exact earlier other isOther part List.mem_cons_self
      (overlaps other (List.mem_append_left _ isOther) item isItem (of_decide_eq_true inside))
  have latterNone :
      (after.flatMap items).filter (fun item => (rangeOf item).Inside range) = [] := by
    refine List.filter_eq_nil_iff.mpr fun item isItem inside => ?_
    obtain ⟨other, isOther, isItem⟩ := List.mem_flatMap.mp isItem
    have both := overlaps other (List.mem_append_right _ (List.mem_cons_of_mem _ isOther)) item
      isItem (of_decide_eq_true inside)
    exact (List.pairwise_cons.mp later).1 other isOther both.symm
  rw [List.flatMap_append, List.flatMap_cons, List.filter_append, List.filter_append, formerNone,
    latterNone, List.nil_append, List.append_nil]

end SolidParts

end Syntax.ParseTree

/-! ## Sites outside of commands -/

namespace Use

open ParseTree

variable {start stop : Nat} {parts : List ParseTree} {inLexerRule : Bool}

abbrev isOutside (ranges : List Range) (site : ReferenceKind × Name) : Bool :=
  site.2.range.Outside ranges

/-- A node that is no site itself has the sites of its parts. -/
theorem bodySites_of_parts {kind : Kind} {range : Range}
    (noSite : kind ∉ [Kind.ruleRef, .tokenRef, .stringLiteral, .lexerCommand]) :
    bodySites inLexerRule (.node kind range parts) = bodySitesOf inLexerRule parts := by
  rw [bodySites]
  all_goals
    rintro rfl
    exact absurd noSite (by decide)

/-- A token lies in no command of the parts of a node. -/
theorem filter_tokenSites (solid : SolidParts start parts stop) (own : Kind)
    (wanted : ReferenceKind) :
    ((tokenOf? own parts).toList.map fun token => (wanted, Name.ofToken token)).filter
        (isOutside (commandRangesOf parts)) =
      (tokenOf? own (emptiedParts parts)).toList.map fun token => (wanted, .ofToken token) := by
  rw [tokenOf?_emptied]
  refine List.filter_eq_self.mpr fun site isSite => ?_
  obtain ⟨token, isToken, rfl⟩ := List.mem_map.mp isSite
  obtain ⟨isPart, _⟩ := exists_of_tokenOf? (Option.mem_toList.mp isToken)
  have filled := (solid.solid _ isPart).start_lt_stop (List.cons_ne_nil token [])
  have isIn : (Name.ofToken token).range.Inside (ParseTree.leaf token).range :=
    ⟨Nat.le_refl _, Nat.le_refl _⟩
  exact decide_eq_true ((solid.outside_iff isPart isIn filled).mpr (List.forall_mem_nil _))

/-- If each part has just the sites outside of its commands when the commands are emptied, so do
the parts together. -/
theorem filter_bodySitesOf (solid : SolidParts start parts stop)
    (each : ∀ part ∈ parts, (bodySites inLexerRule part).filter (isOutside part.commandRanges) =
      bodySites inLexerRule part.emptied) :
    (bodySitesOf inLexerRule parts).filter (isOutside (commandRangesOf parts)) =
      bodySitesOf inLexerRule (emptiedParts parts) := by
  rw [bodySitesOf_eq_flatMap, bodySitesOf_eq_flatMap, emptiedParts_eq_map, List.filter_flatMap,
    List.flatMap_map]
  refine List.flatMap_congr fun part isPart => ?_
  rw [← each part isPart]
  refine List.filter_congr fun site isSite => ?_
  have row := row_bodySites (solid.solid part isPart) inLexerRule
  have isIn := row.inside_of_mem (List.mem_map_of_mem isSite)
  have filled := (row.forall_mem _ (List.mem_map_of_mem isSite)).2
  exact decide_eq_decide.mpr (solid.outside_iff isPart isIn filled)

/-- The sites of a tree with nothing in its commands are those that lie in no command. -/
theorem filter_bodySites {tree : ParseTree} (solid : tree.Solid) :
    (bodySites inLexerRule tree).filter (isOutside tree.commandRanges) =
      bodySites inLexerRule tree.emptied := by
  induction tree using ParseTree.induction with
  | leaf token => rfl
  | node kind range parts inductionHypothesis =>
      by_cases isCommand : kind = .lexerCommand
      · have row := row_bodySites solid inLexerRule
        subst isCommand
        rw [commandRanges, if_pos rfl, emptied, if_pos rfl]
        refine List.filter_eq_nil_iff.mpr fun site isSite outside => ?_
        exact (of_decide_eq_true outside : site.2.range.Outside [range]) range
          (List.mem_singleton_self _) (row.inside_of_mem (List.mem_map_of_mem isSite))
      · rw [commandRanges, if_neg isCommand, emptied, if_neg isCommand]
        by_cases noSite : kind ∉ [Kind.ruleRef, .tokenRef, .stringLiteral, .lexerCommand]
        · rw [bodySites_of_parts noSite, bodySites_of_parts noSite]
          exact filter_bodySitesOf solid.parts fun part isPart =>
            inductionHypothesis part isPart (solid.parts.solid part isPart)
        · simp only [List.mem_cons, List.not_mem_nil, isCommand, or_false, not_not] at noSite
          obtain rfl | rfl | rfl := noSite
          · exact filter_tokenSites solid.parts .identifier .rule
          · exact filter_tokenSites solid.parts .identifier .token
          · cases inLexerRule with
            | true => rfl
            | false => exact filter_tokenSites solid.parts .string .literal

/-! ## Sites of a rule -/

/-- The sites of a solid tree are in a row. -/
theorem row_sites {tree : ParseTree} (solid : tree.Solid) :
    Row tree.range.start ((sites tree).map fun used => used.name.range) tree.range.stop := by
  have body : ∀ {kind : Kind} {range : Range} {parts : List ParseTree} (inLexerRule : Bool),
      (ParseTree.node kind range parts).Solid →
        Row range.start ((ruleSites inLexerRule parts).map fun used => used.name.range)
          range.stop := by
    intro kind range parts inLexerRule solid
    rw [ruleSites, List.map_map, bodySitesOf_eq_flatMap]
    show Row _ ((parts.flatMap _).map fun site : ReferenceKind × Name => site.2.range) _
    rw [List.map_flatMap]
    exact solid.parts.row_flatMap fun part _ isSolid => row_bodySites isSolid inLexerRule
  induction tree using ParseTree.induction with
  | leaf token => exact solid.start_le_stop
  | node kind range parts inductionHypothesis =>
      rw [sites.eq_def]
      dsimp only
      split
      case h_1 => exact body false solid
      case h_2 => exact body true solid
      case h_3 =>
        rw [List.map_map]
        exact Mark.row_vocabularyOf solid.parts
      case h_4 =>
        cases found : nameOf? .nameRef parts with
        | none => exact solid.start_le_stop
        | some name => exact solid.parts.row_name (.inr rfl) found
      case h_5 =>
        rw [sitesOf_eq_flatMap, List.map_flatMap]
        exact solid.parts.row_flatMap inductionHypothesis

/-- Whether a use lies in a range and in no command of a tree. -/
abbrev isElementIn (range : Range) (tree : ParseTree) (used : Use) : Bool :=
  used.name.range.Inside range ∧ used.name.range.Outside tree.commandRanges

/-- What lies in a part of a file or of a mode is found in this part. -/
theorem filter_sites_of_part {kind : Kind} {own range : Range}
    (solid : (ParseTree.node kind own parts).Solid)
    (passes : kind = .sourceFile ∨ kind = .modeSection) {part : ParseTree}
    (isPart : part ∈ parts) (within : range.Inside part.range) :
    (sites (.node kind own parts)).filter (isElementIn range (.node kind own parts)) =
      (sites part).filter (isElementIn range part) := by
  have isSites : sites (.node kind own parts) = parts.flatMap sites := by
    rw [← sitesOf_eq_flatMap]
    rcases passes with rfl | rfl <;> rfl
  have isRanges : commandRanges (.node kind own parts) = commandRangesOf parts := by
    rcases passes with rfl | rfl <;> rfl
  have inPart := solid.parts.filter_inside (fun part _ isSolid => row_sites isSolid) isPart within
  have row := row_sites (solid.parts.solid part isPart)
  have former : (sites (.node kind own parts)).filter (isElementIn range (.node kind own parts)) =
      ((parts.flatMap sites).filter fun used => used.name.range.Inside range).filter
        fun used => used.name.range.Outside (commandRangesOf parts) := by
    rw [List.filter_filter, isSites]
    refine List.filter_congr fun used _ => ?_
    unfold isElementIn
    rw [isRanges, Bool.and_comm, Bool.decide_and]
  rw [former, inPart, List.filter_filter]
  refine List.filter_congr fun used isUse => ?_
  have isIn := row.inside_of_mem (List.mem_map_of_mem isUse)
  have filled := (row.forall_mem _ (List.mem_map_of_mem isUse)).2
  have outside := solid.parts.outside_iff isPart isIn filled
  unfold isElementIn
  rw [Bool.and_comm, Bool.decide_and, decide_eq_decide.mpr outside]

/-- What is used in a rule without anything in its commands is used in its alternatives. -/
theorem bodySitesOf_emptied {kind : Kind} {range : Range} (isRule : kind.isRule = true)
    (nested : (ParseTree.node kind range parts).Nested) :
    bodySitesOf (decide (kind = .lexerRule)) (emptiedParts parts) =
      ofAlternatives (decide (kind = .lexerRule)) (firstAlternativesOf (emptiedParts parts)) := by
  have slots : kind.contents = ruleSlots := by
    rcases Kind.eq_of_isRule isRule with rfl | rfl <;> rfl
  have noCommand : kind ≠ .lexerCommand := by
    rintro rfl
    cases isRule
  have emptied := nested_emptied nested
  rw [ParseTree.emptied, if_neg noCommand] at emptied
  have uses := congrArg (List.map fun used : Use => (used.kind, used.name))
    (ruleSites_eq_ofRule slots emptied)
  rw [ruleSites, ofRule, List.map_map, List.map_map] at uses
  simp only [Function.comp_def, List.map_id'] at uses
  exact uses

/-- The sites of a rule that lie in no command are the uses in its alternatives when nothing is in
their commands. -/
theorem map_filter_sites_of_rule {node : ParseTree} (solid : node.Solid)
    (isRule : Rule.isRule node = true) :
    ((sites node).filter (isElementIn node.range node)).map (fun used => (used.kind, used.name)) =
      ofAlternatives (Rule.ofTree node).isLexer
        (firstAlternativesOf (emptiedParts node.children)) := by
  cases node with
  | leaf token => cases isRule
  | node kind range parts =>
      have isSites : sites (.node kind range parts) =
          ruleSites (decide (kind = .lexerRule)) parts := by
        rcases Kind.eq_of_isRule isRule with rfl | rfl <;> rfl
      have isRanges : commandRanges (.node kind range parts) = commandRangesOf parts := by
        rcases Kind.eq_of_isRule isRule with rfl | rfl <;> rfl
      have outside : (sites (.node kind range parts)).filter
          (isElementIn range (.node kind range parts)) =
            (ruleSites (decide (kind = .lexerRule)) parts).filter
              fun used => used.name.range.Outside (commandRangesOf parts) := by
        rw [← isSites, ← isRanges]
        refine List.filter_congr fun used isUse => ?_
        have inside := (row_sites solid).inside_of_mem (List.mem_map_of_mem isUse)
        exact decide_eq_decide.mpr (and_iff_right inside)
      show ((sites _).filter (isElementIn range _)).map _ =
        ofAlternatives (decide (kind = .lexerRule)) (firstAlternativesOf (emptiedParts parts))
      rw [outside, ruleSites, List.filter_map, List.map_map,
        ← bodySitesOf_emptied isRule solid.nested,
        ← filter_bodySitesOf solid.parts fun part isPart =>
          filter_bodySites (solid.parts.solid part isPart)]
      exact List.map_id _

/-- The sites of a text that lie in one of its rules, but in no lexer command, are the uses in the
alternatives of that rule when nothing is in their commands. -/
theorem exists_of_rule {text : String} {parse : Parse} (read : Parse.ofText? text = some parse)
    {rule : Rule} (isRule : rule ∈ rulesOf parse.tree) :
    ∃ node, rule = Rule.ofTree node ∧
      ((sites parse.tree).filter (isElementIn rule.range parse.tree)).map
          (fun used => (used.kind, used.name)) =
        ofAlternatives rule.isLexer (firstAlternativesOf (emptiedParts node.children)) := by
  obtain ⟨node, rfl, isNode, stands⟩ := exists_of_mem_rules read isRule
  have solid := Parse.solid_of_text read
  obtain ⟨own, parts, isTree⟩ := eq_node_of_isNode (Parse.isNode_of_text read)
  rw [isTree] at solid stands ⊢
  refine ⟨node, rfl, ?_⟩
  show ((sites _).filter (isElementIn node.range _)).map _ = _
  rcases stands with inFile | ⟨mode, isMode, isSection, inMode⟩
  · rw [filter_sites_of_part solid (.inl rfl) inFile ⟨Nat.le_refl _, Nat.le_refl _⟩]
    exact map_filter_sites_of_rule (solid.parts.solid node inFile) isNode
  · obtain ⟨range, children, rfl⟩ := eq_node_of_isNode isSection
    have solidMode := solid.parts.solid _ isMode
    rw [filter_sites_of_part solid (.inl rfl) isMode (solidMode.parts.inside inMode),
      filter_sites_of_part solidMode (.inr rfl) inMode ⟨Nat.le_refl _, Nat.le_refl _⟩]
    exact map_filter_sites_of_rule (solidMode.parts.solid node inMode) isNode

end Use

end GrammarDesk
