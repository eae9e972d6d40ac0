import GrammarDesk.Proofs.Syntax.Nesting
import GrammarDesk.Proofs.Syntax.Tiling

/-!
Contract: declared names, which are one token each.

Owns: the nodes that declare a name, and the proof that whatever lexemes a text has, the name
under such a node is read from one lexeme and stands in the tree of the text as one token.

Does not own: the names of actions and the values of options, which may consist of several
tokens with trivia between them.

Main statement: `Parse.token_of_declared_name`.
-/

namespace GrammarDesk.Syntax

open Reading

/-- Nodes that declare the name directly under them. Named actions are none of them. -/
def Kind.declares : Kind → Bool
  | .header | .importItem | .tokenDecl | .channelDecl | .modeSection | .parserRule
  | .lexerRule => true
  | _ => false

/-- Nodes that are a name, declared or used. -/
def Kind.isName : Kind → Bool
  | .name | .nameRef => true
  | _ => false

/-! ## Plain names -/

namespace Shape

/-- The shape, if it is a name, is one lexeme. -/
def IsPlain : Shape → Prop
  | .leaf _ => True
  | .node kind children => kind.isName = true → ∃ lexeme, children = [.leaf lexeme]

/-- The names that the shape declares are one lexeme each. -/
def DeclaresPlainly : Shape → Prop
  | .leaf _ => True
  | .node kind children => kind.declares = true → ∀ child ∈ children, child.IsPlain

/-- The names that the children of the shape declare are one lexeme each. -/
def HoldsPlainly : Shape → Prop
  | .leaf _ => True
  | .node _ children => ∀ child ∈ children, child.DeclaresPlainly

end Shape

open Shape

/-- Whether a part is neither a name nor declares one. -/
def Part.isMute : Part → Bool
  | .token _ => true
  | .node kind => !kind.isName && !kind.declares

/-- Whether a part declares nothing and holds nothing that does. -/
def Part.isSilent : Part → Bool
  | .token _ => true
  | .node kind => !kind.declares && kind.contents.all fun slot => slot.parts.all fun part =>
      match part with
      | .token _ => true
      | .node inner => !inner.declares

/-- The shape is neither a name nor a declaration, or a plain one. -/
structure Shape.IsTidy (shape : Shape) : Prop where
  name : shape.IsPlain
  declaration : shape.DeclaresPlainly

theorem Shape.isTidy_of_mute {shape : Shape} (mute : (Part.ofShape shape).isMute = true) :
    shape.IsTidy := by
  cases shape with
  | leaf lexeme => exact ⟨trivial, trivial⟩
  | node kind children =>
      simp only [Part.ofShape, Part.isMute, Bool.and_eq_true, Bool.not_eq_true'] at mute
      refine ⟨fun isName => ?_, fun declares => ?_⟩
      · rw [mute.1] at isName
        cases isName
      · rw [mute.2] at declares
        cases declares

theorem Shape.declaresPlainly_of_silent {kind : Kind} {children : List Shape}
    (silent : kind.declares = false) : (Shape.node kind children).DeclaresPlainly := by
  intro declares
  rw [silent] at declares
  cases declares

/-- What neither declares nor holds declarations does both plainly. -/
theorem Shape.plainly_of_silent {shape : Shape} (nested : shape.Nested)
    (silent : (Part.ofShape shape).isSilent = true) :
    shape.DeclaresPlainly ∧ shape.HoldsPlainly := by
  cases shape with
  | leaf lexeme => exact ⟨trivial, trivial⟩
  | node kind children =>
      simp only [Part.ofShape, Part.isSilent, Bool.and_eq_true, Bool.not_eq_true'] at silent
      refine ⟨declaresPlainly_of_silent silent.1, fun child isChild => ?_⟩
      have silentChild := nested.1.forall_mem silent.2 _ (List.mem_map_of_mem isChild)
      cases child with
      | leaf lexeme => trivial
      | node inner children =>
          exact declaresPlainly_of_silent (by simpa [Part.ofShape] using silentChild)

namespace Reading

variable {input : List Lexeme} {limit : Nat} {reading : Reading input limit}
variable {head : Lexeme} {tail : List Lexeme} {kind : Kind} {fault : Fault}

def Tidy (reading : Reading input limit) : Prop :=
  ∀ shape ∈ reading.shapes, shape.IsTidy

theorem Fills.tidy {slots : List Slot} (fills : reading.Fills slots)
    (mute : slots.all (fun slot => slot.parts.all Part.isMute) = true) : reading.Tidy :=
  fun _ isShape => isTidy_of_mute
    (fills.fits.forall_mem mute _ (List.mem_map_of_mem isShape))

theorem allNested_iff {shapes : List Shape} :
    AllNested shapes ↔ ∀ shape ∈ shapes, shape.Nested := by
  induction shapes with
  | nil => exact iff_of_true trivial (List.forall_mem_nil _)
  | cons shape rest inductionHypothesis =>
      rw [List.forall_mem_cons, ← inductionHypothesis]
      rfl

theorem Fills.plainly {slots : List Slot} (fills : reading.Fills slots)
    (silent : slots.all (fun slot => slot.parts.all Part.isSilent) = true) :
    ∀ shape ∈ reading.shapes, shape.DeclaresPlainly ∧ shape.HoldsPlainly :=
  fun shape isShape => plainly_of_silent (allNested_iff.mp fills.nested shape isShape)
    (fills.fits.forall_mem silent _ (List.mem_map_of_mem isShape))

theorem tidy_nothing : (nothing input).Tidy :=
  List.forall_mem_nil _

theorem tidy_take : (take head tail).Tidy :=
  List.forall_mem_singleton.mpr ⟨trivial, trivial⟩

theorem tidy_takeNext : (takeNext input).Tidy := by
  cases input with
  | nil => exact tidy_nothing
  | cons head tail => exact @tidy_take head tail

theorem Tidy.append {limit' : Nat} {following : Reading reading.rest limit'}
    (former : reading.Tidy) (latter : following.Tidy) : (reading.append following).Tidy :=
  List.forall_mem_append.mpr ⟨former, latter⟩

theorem Tidy.andThen {following : Attempt reading.rest} (former : reading.Tidy)
    (latter : following.Tidy) : (reading.andThen following).Tidy :=
  former.append latter

theorem Tidy.bump (tidy : reading.Tidy) : reading.bump.Tidy :=
  tidy.andThen tidy_takeNext

theorem Tidy.expect (tidy : reading.Tidy) : (reading.expect kind).Tidy := by
  unfold Reading.expect
  split
  · exact tidy.bump
  · exact tidy

/-- A node over tidy shapes declares and holds plain names. -/
theorem Tidy.node (tidy : reading.Tidy) :
    ∀ shape ∈ (reading.node kind).shapes, shape.DeclaresPlainly ∧ shape.HoldsPlainly :=
  List.forall_mem_singleton.mpr
    ⟨fun _ child isChild => (tidy child isChild).name,
      fun child isChild => (tidy child isChild).declaration⟩

/-- A node over tidy shapes that is no name is tidy. -/
theorem Tidy.nodeTidy (tidy : reading.Tidy) (noName : kind.isName = false) :
    (reading.node kind).Tidy :=
  List.forall_mem_singleton.mpr
    ⟨fun isName => absurd isName (by simp [noName]),
      fun _ child isChild => (tidy child isChild).name⟩

/-- One lexeme read as a name. -/
theorem tidy_name (isName : kind.isName = true) : ((take head tail).node kind).Tidy := by
  refine List.forall_mem_singleton.mpr ⟨fun _ => ⟨head, rfl⟩, fun declares => ?_⟩
  have noDeclaration : kind.declares = false := by
    cases kind <;> first | rfl | cases isName
  rw [noDeclaration] at declares
  cases declares

end Reading

/-! ## What each production declares -/

namespace Production

variable {head : Lexeme} {tail input : List Lexeme} {fault : Fault}

theorem name_tidy : (name fault input).Tidy := by
  cases input with
  | nil => exact @tidy_nothing []
  | cons head tail =>
      unfold name
      dsimp only
      split
      · exact tidy_name rfl
      · exact @tidy_nothing (head :: tail)

theorem header_declares : ∀ shape ∈ (header head tail).shapes,
    shape.DeclaresPlainly ∧ shape.HoldsPlainly := by
  have opened : (if head.kind = .grammarKeyword then take head tail
      else (take head tail).expect .grammarKeyword).Tidy := by
    split
    · exact tidy_take
    · exact tidy_take.expect
  exact (opened.andThen name_tidy).expect.node

/-! ### Imports -/

theorem importItem_tidy : (importItem input).Tidy := by
  have aliased : (importAlias? input).Tidy := by
    cases input with
    | nil => exact tidy_nothing
    | cons head tail =>
        unfold importAlias?
        dsimp only
        split
        · exact (tidy_name rfl).bump
        · exact tidy_nothing
  have target : ∀ rest, (importTarget rest).Tidy := by
    intro rest
    cases rest with
    | nil => exact @tidy_nothing []
    | cons head tail =>
        unfold importTarget
        dsimp only
        split
        · exact tidy_name rfl
        · exact @tidy_nothing (head :: tail)
  exact (aliased.andThen (target _)).nodeTidy rfl

theorem moreImports_tidy : (moreImports input).Tidy := by
  induction input using moreImports.induct with
  | case1 =>
      unfold moreImports
      exact tidy_nothing
  | case2 head tail comma separated more inductionHypothesis =>
      unfold moreImports
      rw [if_pos comma]
      exact (tidy_take.andThen importItem_tidy).andThen inductionHypothesis
  | case3 head tail other =>
      unfold moreImports
      rw [if_neg other]
      exact tidy_nothing

theorem importDecl_declares : ∀ shape ∈ (importDecl head tail).shapes,
    shape.DeclaresPlainly ∧ shape.HoldsPlainly :=
  ((tidy_take.andThen importItem_tidy).andThen moreImports_tidy).expect.node

/-! ### Token and channel lists -/

/-- The entries of a list are tidy: the node around each holds its name and nothing else. -/
theorem listEntries_tidy {entry : Kind} (noName : entry.isName = false) :
    (listEntries entry input).Tidy := by
  have named (head : Lexeme) (tail : List Lexeme) :
      (((take head tail).node .name).node entry).Tidy := (tidy_name rfl).nodeTidy noName
  induction input using (listEntries.induct entry) with
  | case1 =>
      unfold listEntries
      exact tidy_nothing
  | case2 head tail same first comma separated inductionHypothesis =>
      unfold listEntries
      dsimp only
      rw [if_pos same, if_pos comma]
      exact (named head tail).bump.andThen inductionHypothesis
  | case3 head tail same first last =>
      unfold listEntries
      dsimp only
      rw [if_pos same, if_neg last]
      exact named head tail
  | case4 head tail other =>
      unfold listEntries
      rw [if_neg other]
      exact tidy_nothing

theorem nameList_declares {list entry : Kind} (noName : entry.isName = false) :
    ∀ shape ∈ (nameList list entry head tail).shapes,
      shape.DeclaresPlainly ∧ shape.HoldsPlainly := by
  unfold nameList
  dsimp only
  refine Tidy.node ?_
  split
  · have named := (@tidy_take head tail).bump.andThen (listEntries_tidy noName)
    exact (named.andThen (listRemainder_fills.tidy rfl)).expect
  · exact @tidy_take head tail

/-! ### Rules and modes -/

theorem ruleName_tidy : (ruleName head tail).Tidy := by
  unfold ruleName
  split
  · exact (tidy_take.andThen (modifiers_fills.tidy rfl)).andThen name_tidy
  · exact tidy_name rfl

/-- What is read under the node of a rule. -/
theorem rule_parts_tidy {declared : Advance head tail} (tidy : declared.Tidy) :
    (if Ahead.next .colon declared.rest then
      declared.bump.andThen (ruleBody declared.bump.rest)
    else if Ahead.elementStart (declared.report .missingColon).rest then
      (declared.report .missingColon).andThen (ruleBody (declared.report .missingColon).rest)
    else declared.report .missingColon).Tidy := by
  have body (rest : List Lexeme) : (ruleBody rest).Tidy := ruleBody_fills.tidy rfl
  split
  · exact tidy.bump.andThen (body _)
  · split
    · have reported : (declared.report .missingColon).Tidy := tidy
      exact reported.andThen (body _)
    · exact tidy

theorem isName_ruleKind (input : List Lexeme) : (ruleKind input).isName = false := by
  unfold ruleKind
  repeat' split
  all_goals rfl

theorem rule_declares : ∀ shape ∈ (rule head tail).shapes,
    shape.IsTidy ∧ shape.HoldsPlainly := by
  have parts := rule_parts_tidy
    ((@ruleName_tidy head tail).andThen (ruleSpecs_fills.tidy rfl))
  intro shape isShape
  exact ⟨parts.nodeTidy (isName_ruleKind _) shape isShape, (parts.node shape isShape).2⟩

theorem modeRules_tidy : (modeRules input).Tidy := by
  induction input using modeRules.induct with
  | case1 =>
      unfold modeRules
      exact tidy_nothing
  | case2 head tail starts first inductionHypothesis =>
      unfold modeRules
      rw [if_pos starts]
      have firstTidy : first.attempt.Tidy := fun shape isShape => (rule_declares shape isShape).1
      exact firstTidy.andThen inductionHypothesis
  | case3 head tail noRule stray first inductionHypothesis =>
      unfold modeRules
      rw [if_neg noRule, if_pos stray]
      have firstTidy : first.attempt.Tidy := unreadable_fills.tidy rfl
      exact firstTidy.andThen inductionHypothesis
  | case4 head tail noRule readable started =>
      unfold modeRules
      rw [if_neg noRule, if_neg readable, if_pos started]
      exact tidy_nothing
  | case5 head tail noRule readable unstarted skipped inductionHypothesis =>
      unfold modeRules
      rw [if_neg noRule, if_neg readable, if_neg unstarted]
      have skippedTidy : skipped.attempt.Tidy := recover_fills.eat.tidy rfl
      exact skippedTidy.andThen inductionHypothesis

theorem modeSection_declares : ∀ shape ∈ (modeSection head tail).shapes,
    shape.DeclaresPlainly ∧ shape.HoldsPlainly :=
  (((tidy_take.andThen name_tidy).expect).andThen modeRules_tidy).node

/-! ### The file -/

/-- Whatever a member is, the names that it declares are plain, and so are those of rules in a
mode. -/
theorem member_declares : ∀ shape ∈ (member head tail).shapes,
    shape.DeclaresPlainly ∧ shape.HoldsPlainly := by
  have ofRule : ∀ shape ∈ (rule head tail).shapes, shape.DeclaresPlainly ∧ shape.HoldsPlainly :=
    fun shape isShape =>
      ⟨(rule_declares shape isShape).1.declaration, (rule_declares shape isShape).2⟩
  have ofStray : ∀ shape ∈ (stray head tail).shapes,
      shape.DeclaresPlainly ∧ shape.HoldsPlainly := recover_fills.eat.plainly (by decide)
  unfold member
  split
  · exact header_declares
  · split
    · exact header_declares
    · exact ofStray
  · split
    · exact header_declares
    · exact ofStray
  · exact (optionsSpec_fills ‹_›).plainly (by decide)
  · exact importDecl_declares
  · exact nameList_declares rfl
  · exact nameList_declares rfl
  · exact (namedAction_fills ‹_›).plainly (by decide)
  · exact modeSection_declares
  · exact ofRule
  · exact ofRule
  · exact ofRule
  · exact ofRule
  · exact ofRule
  · exact unreadable_fills.plainly (by decide)
  · exact ofStray

theorem members_declare : ∀ shape ∈ (members input).shapes,
    shape.DeclaresPlainly ∧ shape.HoldsPlainly := by
  induction input using members.induct with
  | case1 =>
      unfold members
      exact List.forall_mem_nil _
  | case2 head tail first inductionHypothesis =>
      unfold members
      exact List.forall_mem_append.mpr ⟨member_declares, inductionHypothesis⟩

/-- Whatever lexemes a file has, its members declare plain names, and so do the nodes in
them. -/
theorem file_declares (input : List Lexeme) : ∀ shape ∈ (file input).1,
    shape.DeclaresPlainly ∧ shape.HoldsPlainly := by
  unfold file
  dsimp only
  split
  · exact members_declare
  · exact members_declare

end Production

/-! ## Names in the tree of a text -/

theorem ParseTree.Nested.of_below {root tree : ParseTree} (nested : root.Nested)
    (below : root.Below tree) : tree.Nested := by
  induction below with
  | self => exact nested
  | @child parent child _ isChild inductionHypothesis =>
      cases parent with
      | leaf token => cases isChild
      | node kind range children =>
          exact allNested_iff.mp inductionHypothesis.2 child isChild

namespace Weave

variable {length : Nat} {kind : Kind} {range : Text.Range} {children : List ParseTree}

/-- Every node that a shape is woven into is woven from that shape. -/
theorem children_of_mem_tree {tokens : List Token} {shape : Shape}
    (isTree : .node kind range children ∈ (tree length tokens shape).1) :
    ∃ own inner, shape = .node kind inner ∧ children = (trees length own inner).1 := by
  have noLeaf (trivia : List Token) :
      .node kind range children ∉ trivia.map ParseTree.leaf := by simp
  cases shape with
  | leaf lexeme =>
      unfold tree at isTree
      generalize splitTrivia tokens = parts at isTree
      obtain ⟨trivia, own⟩ := parts
      cases own with
      | nil => exact absurd isTree (noLeaf trivia)
      | cons token rest => simp at isTree
  | node own inner =>
      unfold tree at isTree
      generalize splitTrivia tokens = parts at isTree
      obtain ⟨trivia, left⟩ := parts
      dsimp only at isTree
      rcases List.mem_append.mp isTree with isTrivia | isNode
      · exact absurd isTrivia (noLeaf trivia)
      · obtain ⟨rfl, _, rfl⟩ := ParseTree.node.inj (List.mem_singleton.mp isNode)
        exact ⟨left, inner, rfl, rfl⟩

theorem children_of_mem_trees {tokens : List Token} {shapes : List Shape}
    (isTree : .node kind range children ∈ (trees length tokens shapes).1) :
    ∃ own inner, .node kind inner ∈ shapes ∧ children = (trees length own inner).1 := by
  induction shapes generalizing tokens with
  | nil => cases isTree
  | cons shape rest inductionHypothesis =>
      unfold trees at isTree
      rcases List.mem_append.mp isTree with inFirst | inRest
      · obtain ⟨own, inner, rfl, same⟩ := children_of_mem_tree inFirst
        exact ⟨own, inner, List.mem_cons_self, same⟩
      · obtain ⟨own, inner, isShape, same⟩ := inductionHypothesis inRest
        exact ⟨own, inner, List.mem_cons_of_mem _ isShape, same⟩

/-- One lexeme is woven into one token with the trivia before it, or into trivia alone. -/
theorem trees_leaf (tokens : List Token) (lexeme : Lexeme) :
    (trees length tokens [.leaf lexeme]).1 =
      (splitTrivia tokens).1.map .leaf ++
        ((splitTrivia tokens).2.head?.map ParseTree.leaf).toList := by
  unfold trees tree
  generalize splitTrivia tokens = parts
  obtain ⟨trivia, own⟩ := parts
  cases own with
  | nil => simp [trees]
  | cons token rest => simp [trees]

/-- A node that is woven from one lexeme is one token, unless there was none left. -/
theorem tokens_of_plain {tokens : List Token} {lexeme : Lexeme}
    (tiled : (ParseTree.node kind range (trees length tokens [.leaf lexeme]).1).Tiled)
    (some : (trees length tokens [.leaf lexeme]).1 ≠ []) :
    ∃ token, (ParseTree.node kind range (trees length tokens [.leaf lexeme]).1).tokens = [token] ∧
      token.kind.isTrivia = false := by
  obtain ⟨_, begins⟩ := tiled
  have onlyTrivia := (splitTrivia_spec tokens).1
  rw [ParseTree.tokens_node]
  rw [trees_leaf] at begins some ⊢
  generalize splitTrivia tokens = parts at begins some onlyTrivia ⊢
  obtain ⟨trivia, own⟩ := parts
  cases trivia with
  | cons token rest =>
      have significant : token.kind.isTrivia = false := begins token rfl
      unfold significantOf at onlyTrivia
      rw [List.filter_cons_of_pos (by simp [significant])] at onlyTrivia
      cases onlyTrivia
  | nil =>
      cases own with
      | nil => exact absurd rfl some
      | cons token rest => exact ⟨token, rfl, begins token rfl⟩

end Weave

namespace Parse

variable {text : String} {parse : Parse}
variable {kind : Kind} {range : Text.Range} {children : List ParseTree}

/-- The members of a text are woven from shapes that declare plain names. -/
theorem member_of_text (read : ofText? text = some parse)
    (isMember : .node kind range children ∈ parse.tree.children) :
    ∃ own inner, (Shape.node kind inner).DeclaresPlainly ∧ (Shape.node kind inner).HoldsPlainly ∧
      children = (Weave.trees text.utf8ByteSize own inner).1 := by
  obtain ⟨_, rfl⟩ := ofText?_eq_some_iff.mp read
  rcases List.mem_append.mp isMember with woven | atEnd
  · obtain ⟨own, inner, isShape, same⟩ := Weave.children_of_mem_trees woven
    obtain ⟨declares, holds⟩ := Production.file_declares _ _ isShape
    exact ⟨own, inner, declares, holds, same⟩
  · simp at atEnd

/-- The name of a node that is woven from a shape with plain names is one token. -/
theorem token_of_plain (read : ofText? text = some parse) {own : List Token}
    {inner : List Shape} (below : parse.tree.Below (.node kind range children))
    (woven : children = (Weave.trees text.utf8ByteSize own inner).1)
    (plainly : (Shape.node kind inner).DeclaresPlainly) (declares : kind.declares = true)
    {name : ParseTree} (isChild : name ∈ children)
    (isName : name.isNode .name = true ∨ name.isNode .nameRef = true) :
    ∃ token, name.tokens = [token] ∧ token.kind.isTrivia = false := by
  have belowName : parse.tree.Below name := below.child isChild
  have tiled := tiled_of_below read belowName
  have nested := (nested_of_text read).of_below belowName
  cases name with
  | leaf token => rcases isName with isName | isName <;> cases isName
  | node own' place parts =>
      subst woven
      obtain ⟨left, shapes, isShape, rfl⟩ := Weave.children_of_mem_trees isChild
      have named : own' = .name ∨ own' = .nameRef := by simpa [ParseTree.isNode] using isName
      obtain ⟨lexeme, rfl⟩ : ∃ lexeme, shapes = [.leaf lexeme] :=
        plainly declares _ isShape (by rcases named with rfl | rfl <;> rfl)
      refine Weave.tokens_of_plain tiled fun none => ?_
      have fits := nested.1
      rw [none] at fits
      rcases named with rfl | rfl
      · obtain ⟨part, isPart, _⟩ := fits.exists_mem List.mem_cons_self
        cases isPart
      · obtain ⟨part, isPart, _⟩ := fits.exists_mem List.mem_cons_self
        cases isPart

/-- The name of a node that declares one, directly in a file or in one of its members, is one
token. -/
theorem token_of_declared_name (read : ofText? text = some parse) {node name : ParseTree}
    (isNode : node ∈ parse.tree.children ∨
      ∃ member ∈ parse.tree.children, node ∈ member.children)
    (declares : ∃ kind, node.isNode kind = true ∧ kind.declares = true)
    (isChild : name ∈ node.children)
    (isName : name.isNode .name = true ∨ name.isNode .nameRef = true) :
    ∃ token, name.tokens = [token] ∧ token.kind.isTrivia = false := by
  obtain ⟨own, isOwn, declares⟩ := declares
  cases node with
  | leaf token => cases isOwn
  | node kind range children =>
      obtain rfl : kind = own := of_decide_eq_true isOwn
      rcases isNode with isMember | ⟨member, isMember, inMember⟩
      · obtain ⟨left, inner, plainly, _, woven⟩ := member_of_text read isMember
        exact token_of_plain read (.child .self isMember) woven plainly declares isChild isName
      · have below : parse.tree.Below (.node kind range children) :=
          (ParseTree.Below.self.child isMember).child inMember
        cases member with
        | leaf token => cases inMember
        | node outer place parts =>
            obtain ⟨left, inner, _, holds, rfl⟩ := member_of_text read isMember
            obtain ⟨later, shapes, isShape, woven⟩ := Weave.children_of_mem_trees inMember
            exact token_of_plain read below woven (holds _ isShape) declares isChild isName

end Parse

end GrammarDesk.Syntax
