import GrammarDesk.Proofs.Syntax.Names

/-!
Contract: the nodes of rules, none of which is empty.

Owns: the proof that whatever lexemes a text has, every rule that is read has one of them, and so
every rule in the tree of a text has a token.

Does not own: where rules stand in a file (`Grammar`).

All that the slots of a rule take may be missing, so that they do not tell whether a rule is
empty. But a rule is only read where a lexeme starts it, and reading it consumes that lexeme.

Main statement: `Parse.tokens_ne_nil_of_rule`.
-/

namespace GrammarDesk.Syntax

open Reading

/-! ## Shapes -/

namespace Shape

/-- The shape, if it is a rule, has a lexeme. -/
def IsBegun : Shape → Prop
  | .leaf _ => True
  | .node kind children => kind.isRule = true → leavesOf children ≠ []

/-- The shape, if it is a mode, holds only rules that have a lexeme. -/
def HoldsBegun : Shape → Prop
  | .leaf _ => True
  | .node kind children => kind = .modeSection → ∀ child ∈ children, child.IsBegun

end Shape

def Part.isNoRule : Part → Bool
  | .token _ => true
  | .node kind => !kind.isRule

def Part.isNeither : Part → Bool
  | .token _ => true
  | .node kind => !kind.isRule && kind ≠ .modeSection

namespace Reading

variable {input : List Lexeme} {limit : Nat} {reading : Reading input limit} {slots : List Slot}
variable {head : Lexeme} {tail : List Lexeme} {kind : Kind}

/-- A node over what was read is begun. -/
theorem node_begun (reading : Advance head tail) :
    ∀ shape ∈ (reading.node kind).shapes, shape.IsBegun :=
  List.forall_mem_singleton.mpr fun _ => leavesOf_ne_nil reading

theorem Fills.begun (fills : reading.Fills slots)
    (noRule : slots.all (fun slot => slot.parts.all Part.isNoRule) = true) :
    ∀ shape ∈ reading.shapes, shape.IsBegun := by
  intro shape isShape
  have other := fills.fits.forall_mem noRule _ (List.mem_map_of_mem isShape)
  cases shape with
  | leaf lexeme => trivial
  | node kind children =>
      intro isRule
      simp [Part.ofShape, Part.isNoRule, isRule] at other

theorem Fills.bothBegun (fills : reading.Fills slots)
    (neither : slots.all (fun slot => slot.parts.all Part.isNeither) = true) :
    ∀ shape ∈ reading.shapes, shape.IsBegun ∧ shape.HoldsBegun := by
  intro shape isShape
  have other := fills.fits.forall_mem neither _ (List.mem_map_of_mem isShape)
  cases shape with
  | leaf lexeme => exact ⟨trivial, trivial⟩
  | node kind children =>
      simp only [Part.ofShape, Part.isNeither, Bool.and_eq_true, Bool.not_eq_true',
        decide_eq_true_eq] at other
      exact ⟨fun isRule => absurd isRule (by simp [other.1]),
        fun isMode => absurd isMode other.2⟩

end Reading

/-! ## Readings -/

namespace Production

variable {head : Lexeme} {tail input : List Lexeme}

theorem rule_begun : ∀ shape ∈ (rule head tail).shapes, shape.IsBegun :=
  node_begun _

theorem rule_bothBegun :
    ∀ shape ∈ (rule head tail).shapes, shape.IsBegun ∧ shape.HoldsBegun := by
  refine List.forall_mem_singleton.mpr ⟨rule_begun _ List.mem_cons_self, fun isMode => ?_⟩
  have noMode : ruleKind (head :: tail) ≠ .modeSection := by
    unfold ruleKind
    repeat' split
    all_goals decide
  exact absurd isMode noMode

/-- Every rule of a mode has a lexeme, although names and bodies may be missing. -/
theorem modeRules_begun : ∀ shape ∈ (modeRules input).shapes, shape.IsBegun := by
  induction input using modeRules.induct with
  | case1 =>
      unfold modeRules
      exact List.forall_mem_nil _
  | case2 head tail starts first inductionHypothesis =>
      unfold modeRules
      rw [if_pos starts]
      exact List.forall_mem_append.mpr ⟨rule_begun, inductionHypothesis⟩
  | case3 head tail noRule stray first inductionHypothesis =>
      unfold modeRules
      rw [if_neg noRule, if_pos stray]
      exact List.forall_mem_append.mpr ⟨unreadable_fills.begun rfl, inductionHypothesis⟩
  | case4 head tail noRule readable started =>
      unfold modeRules
      rw [if_neg noRule, if_neg readable, if_pos started]
      exact List.forall_mem_nil _
  | case5 head tail noRule readable unstarted skipped inductionHypothesis =>
      unfold modeRules
      rw [if_neg noRule, if_neg readable, if_neg unstarted]
      exact List.forall_mem_append.mpr ⟨recover_fills.eat.begun rfl, inductionHypothesis⟩

theorem modeSection_bothBegun (same : head.kind = .modeKeyword) :
    ∀ shape ∈ (modeSection head tail).shapes, shape.IsBegun ∧ shape.HoldsBegun := by
  refine List.forall_mem_singleton.mpr ⟨node_begun _ _ List.mem_cons_self, fun _ => ?_⟩
  have named := (fills_take_kind tail same).andThen (name_fills .missingModeName)
  exact List.forall_mem_append.mpr ⟨(named.expect .semicolon).begun rfl, modeRules_begun⟩

/-- Every rule of a member has a lexeme, at the top and in a mode. -/
theorem member_bothBegun :
    ∀ shape ∈ (member head tail).shapes, shape.IsBegun ∧ shape.HoldsBegun := by
  have ofStray : ∀ shape ∈ (stray head tail).shapes, shape.IsBegun ∧ shape.HoldsBegun :=
    recover_fills.eat.bothBegun (by decide)
  unfold member
  split
  · exact (header_fills (.inl ‹_›)).bothBegun (by decide)
  · split
    · exact (header_fills (.inr (.inl ‹_›))).bothBegun (by decide)
    · exact ofStray
  · split
    · exact (header_fills (.inr (.inr ‹_›))).bothBegun (by decide)
    · exact ofStray
  · exact (optionsSpec_fills ‹_›).bothBegun (by decide)
  · exact (importDecl_fills ‹_›).bothBegun (by decide)
  · exact (nameList_fills ‹_› rfl rfl).bothBegun (by decide)
  · exact (nameList_fills ‹_› rfl rfl).bothBegun (by decide)
  · exact (namedAction_fills ‹_›).bothBegun (by decide)
  · exact modeSection_bothBegun ‹_›
  · exact rule_bothBegun
  · exact rule_bothBegun
  · exact rule_bothBegun
  · exact rule_bothBegun
  · exact rule_bothBegun
  · exact unreadable_fills.bothBegun (by decide)
  · exact ofStray

theorem members_bothBegun :
    ∀ shape ∈ (members input).shapes, shape.IsBegun ∧ shape.HoldsBegun := by
  induction input using members.induct with
  | case1 =>
      unfold members
      exact List.forall_mem_nil _
  | case2 head tail first inductionHypothesis =>
      unfold members
      exact List.forall_mem_append.mpr ⟨member_bothBegun, inductionHypothesis⟩

/-- Whatever lexemes a file has, its rules have one, in modes and outside them. -/
theorem file_bothBegun (input : List Lexeme) :
    ∀ shape ∈ (file input).1, shape.IsBegun ∧ shape.HoldsBegun := by
  unfold file
  dsimp only
  split
  · exact members_bothBegun
  · exact members_bothBegun

end Production

/-! ## Trees -/

namespace ParseTree

variable {kind : Kind} {range : Text.Range} {parts : List ParseTree}

theorem shape_mem_shapesOf {trees : List ParseTree} (isTree : .node kind range parts ∈ trees) :
    .node kind (shapesOf parts) ∈ shapesOf trees := by
  obtain ⟨before, after, rfl⟩ := List.append_of_mem isTree
  rw [shapesOf_append, shapesOf_cons]
  exact List.mem_append_right _ (List.mem_append_left _ (List.mem_singleton_self _))

theorem tokens_ne_nil_of_begun (begun : (Shape.node kind (shapesOf parts)).IsBegun)
    (isRule : kind.isRule = true) : (ParseTree.node kind range parts).tokens ≠ [] := by
  intro none
  have noTokens : tokensOf parts = [] := none
  refine begun isRule ?_
  rw [leavesOf_shapesOf, noTokens]
  rfl

end ParseTree

namespace Parse

variable {text : String} {parse : Parse} {kind : Kind} {range : Text.Range}
variable {parts : List ParseTree}

theorem shapesOf_children_of_text (read : ofText? text = some parse) :
    ∃ input, ParseTree.shapesOf parse.tree.children = (Production.file input).1 := by
  obtain ⟨_, rfl⟩ := ofText?_eq_some_iff.mp read
  have isShape := (shape_of_lexemes text.utf8ByteSize (Scan.tokenize text)).1
  exact ⟨_, (Shape.node.inj (Option.some.inj isShape)).2⟩

/-- Every rule in the tree of a text has a token, in modes and outside them. -/
theorem tokens_ne_nil_of_rule (read : ofText? text = some parse) (isRule : kind.isRule = true)
    (stands : .node kind range parts ∈ parse.tree.children ∨
      ∃ place children, .node .modeSection place children ∈ parse.tree.children ∧
        .node kind range parts ∈ children) :
    (ParseTree.node kind range parts).tokens ≠ [] := by
  obtain ⟨input, shapes⟩ := shapesOf_children_of_text read
  have begun := Production.file_bothBegun input
  rw [← shapes] at begun
  rcases stands with inFile | ⟨place, children, isMode, inMode⟩
  · exact ParseTree.tokens_ne_nil_of_begun
      (begun _ (ParseTree.shape_mem_shapesOf inFile)).1 isRule
  · exact ParseTree.tokens_ne_nil_of_begun
      ((begun _ (ParseTree.shape_mem_shapesOf isMode)).2 rfl _
        (ParseTree.shape_mem_shapesOf inMode)) isRule

end Parse

end GrammarDesk.Syntax
