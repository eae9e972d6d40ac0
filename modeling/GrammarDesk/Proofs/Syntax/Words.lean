import GrammarDesk.Proofs.Syntax.Completeness.File
import GrammarDesk.Proofs.Syntax.Unended
import Mathlib.Data.List.Forall2

/-!
Contract: the words that the members of a file are read from.

Owns: lists of words that are members, or rules without their semicolon before a rule that is
seen to begin, and the proof that the members of such a list are read as one shape for each
word.

Does not own: what the shapes say (`Grammar`).

Main statement: `members_show`.
-/

namespace GrammarDesk.Syntax

namespace Shape

def isRule : Shape → Bool
  | .leaf _ => false
  | .node kind _ => kind.isRule

@[simp] theorem isRule_leaf (lexeme : Lexeme) : (leaf lexeme).isRule = false := rfl

@[simp] theorem isRule_node (kind : Kind) (children : List Shape) :
    (node kind children).isRule = kind.isRule := rfl

def isHandled : Shape → Bool
  | .leaf _ => false
  | .node _ children => children.any isHandler

/-- The members that the shape of a member stands for: a mode and its rules are members one
after another. -/
def membersIn : Shape → List Shape
  | .node .modeSection children =>
      .node .modeSection (children.takeWhile fun child => !child.isRule) ::
        children.dropWhile fun child => !child.isRule
  | shape => [shape]

theorem membersIn_of_noMode {shape : Shape} (noMode : shape.isNode .modeSection = false) :
    membersIn shape = [shape] := by
  unfold membersIn
  split
  · cases noMode
  · rfl

theorem membersIn_of_isRule {shape : Shape} (isRule : shape.isRule = true) :
    membersIn shape = [shape] := by
  apply membersIn_of_noMode
  cases shape with
  | leaf lexeme => rfl
  | node kind children => cases kind <;> first | rfl | cases isRule

/-- The members that a shape stands for have its leaves. -/
theorem leavesOf_membersIn (shape : Shape) : leavesOf shape.membersIn = shape.leaves := by
  unfold membersIn
  split
  · rw [leavesOf_cons, leaves_node, ← leavesOf_append, List.takeWhile_append_dropWhile, leaves_node]
  · rw [leavesOf_cons, leavesOf_nil, List.append_nil]

/-- A mode is cut off before a rule that stands directly in it. -/
theorem membersIn_mode (left right : List Shape) {rule : Shape} (isRule : rule.isRule = true) :
    ∃ earlier, membersIn (.node .modeSection (left ++ rule :: right)) = earlier ++ rule :: right ∧
      leavesOf earlier = leavesOf left := by
  refine ⟨.node .modeSection (left.takeWhile fun child => !child.isRule) ::
    left.dropWhile fun child => !child.isRule, ?_, ?_⟩
  · induction left with
    | nil => simp [membersIn, isRule]
    | cons shape left inductionHypothesis =>
        cases first : shape.isRule with
        | true => simp [membersIn, first]
        | false => simpa [membersIn, first] using inductionHypothesis
  · rw [leavesOf_cons, leaves_node, ← leavesOf_append, List.takeWhile_append_dropWhile]

theorem leavesOf_flatMap_membersIn (shapes : List Shape) :
    leavesOf (shapes.flatMap membersIn) = leavesOf shapes := by
  induction shapes with
  | nil => rfl
  | cons shape rest inductionHypothesis =>
      rw [List.flatMap_cons, leavesOf_append, leavesOf_membersIn, inductionHypothesis,
        leavesOf_cons]

end Shape

namespace Production

open Reading
open Ebnf
open Ebnf.Phrase

variable {word rest : List Lexeme} {words : List (List Lexeme)} {head : Lexeme}
variable {tail : List Lexeme} {shape : Shape}

/-! ## A shape for a word -/

structure Shows (shape : Shape) (word : List Lexeme) : Prop where
  leaves : shape.leaves = word
  names : shape.isRule = true → Names word shape
  starts : shape.isRule = false → Ahead.oneOf sectionStarts word = true
  ended : Derives (part .rule) word → shape.isHandled = false →
    ∃ ended semicolon, word = ended ++ [semicolon] ∧ semicolon.kind = .semicolon

theorem Names.isRule (names : Names word shape) : shape.isRule = true := by
  cases names with
  | @rule _ _ name _ _ _ =>
      show (if Text.isTokenName name.text then Kind.lexerRule else .parserRule).isRule = true
      split <;> rfl

theorem Names.starts (names : Names word shape) :
    Ahead.oneOf (.identifier :: modifierKinds) word = true := by
  cases names with
  | @rule modified later name more areModifiers named =>
      cases modified with
      | nil => exact Ahead.oneOf_of_mem (by simp [named])
      | cons modifier modified =>
          have isModifier := areModifiers modifier List.mem_cons_self
          exact Ahead.oneOf_of_mem (List.mem_cons_of_mem _ (mem_of_isRuleModifier isModifier))

/-- A member that begins as a rule does is one. -/
theorem rule_of_starts (starts : Ahead.oneOf (.identifier :: modifierKinds) word = true)
    (derives : Derives (part .member) word) : Derives (part .rule) word := by
  obtain ⟨form, isForm, derives⟩ := derives_member_iff.mp derives
  by_cases isRule : form = .rule
  · exact isRule ▸ derives
  · obtain ⟨head, tail, rfl, sectionStart, _⟩ := section_starts isForm isRule derives
    have disjoint : ∀ kind ∈ sectionStarts, kind ∉ .identifier :: modifierKinds := by decide
    rw [Ahead.oneOf_cons] at starts
    exact absurd (of_decide_eq_true starts) (disjoint _ sectionStart)

/-- A rule without its semicolon is no member. -/
theorem not_member_of_unended (unended : Unended word) (begins : RuleBegins rest) :
    ¬Derives (part .member) word := by
  intro derives
  obtain ⟨head, tail, rfl, headKind, _⟩ := rule_breaks unended
  exact not_rule_of_unended unended begins (rule_of_starts (Ahead.oneOf_of_mem headKind) derives)

theorem leavesOf_of_rest {limit : Nat} {reading : Reading (word ++ rest) limit}
    (left : reading.rest = rest) : Shape.leavesOf reading.shapes = word := by
  have covers := reading.covers
  rw [left] at covers
  exact List.append_cancel_right covers

/-- A member that is no rule is shown by a node that is none. -/
theorem shows_section {kind : Kind} {children : List Shape} {form : Nonterminal}
    (isForm : form ∈ memberForms) (noRule : form ≠ .rule) (derives : Derives (part form) word)
    (leaves : Shape.leavesOf children = word) (other : kind.isRule = false) :
    Shows (.node kind children) word := by
  obtain ⟨head, tail, rfl, starts, _⟩ := section_starts isForm noRule derives
  refine ⟨leaves, fun isRule => ?_, fun _ => Ahead.oneOf_of_mem starts, fun isRule => ?_⟩
  · rw [show (Shape.node kind children).isRule = false from other] at isRule
    cases isRule
  · obtain ⟨_, _, same, ruleStarts, _⟩ := rule_leaves isRule
    cases same
    have disjoint : ∀ kind ∈ sectionStarts, kind ∉ .identifier :: modifierKinds := by decide
    exact absurd ruleStarts (disjoint _ starts)

/-- A rule, or one without its semicolon before a rule that is seen, is read as what it
spells. -/
theorem rule_shows (isRule : Derives (part .rule) word ∨ Unended word ∧ RuleBegins rest)
    (ends : HandlersEnd rest) :
    ∃ head tail shape, word = head :: tail ∧ head.kind ∈ .identifier :: modifierKinds ∧
      (rule head (tail ++ rest)).rest = rest ∧ (rule head (tail ++ rest)).shapes = [shape] ∧
      shape.isRule = true ∧ Shows shape word := by
  rcases isRule with derives | ⟨unended, begins⟩
  · obtain ⟨head, tail, kind, children, rfl, starts, left, built, names, ended⟩ :=
      rule_names derives ends
    refine ⟨head, tail, _, rfl, starts, left, built, names.isRule, ?_, fun _ => names, ?_, ?_⟩
    · have leaves := @leavesOf_of_rest (head :: tail) rest _ _ left
      rw [built] at leaves
      simpa using leaves
    · intro other
      rw [names.isRule] at other
      cases other
    · exact fun _ unhandled => ended unhandled
  · obtain ⟨head, tail, shape, rfl, starts, left, built, names⟩ := unended_names unended begins
    refine ⟨head, tail, _, rfl, starts, left, built, names.isRule, ?_, fun _ => names, ?_, ?_⟩
    · have leaves := @leavesOf_of_rest (head :: tail) rest _ _ left
      rw [built] at leaves
      simpa using leaves
    · intro other
      rw [names.isRule] at other
      cases other
    · exact fun derives _ => absurd derives (not_rule_of_unended unended begins)

/-! ## Members with a semicolon missing -/

/-- Words that are members, or rules without their semicolon before a rule that is seen to
begin. -/
inductive Loose : List (List Lexeme) → Prop where
  | none : Loose []
  | member {word : List Lexeme} {words : List (List Lexeme)} (derives : Derives (part .member) word)
      (others : Loose words) : Loose (word :: words)
  | unended {word : List Lexeme} {words : List (List Lexeme)} (unended : Unended word)
      (begins : RuleBegins words.flatten) (others : Loose words) : Loose (word :: words)

theorem Loose.after_members {later : List (List Lexeme)} (loose : Loose later)
    (each : ∀ word ∈ words, Derives (part .member) word) : Loose (words ++ later) := by
  induction words with
  | nil => exact loose
  | cons word words inductionHypothesis =>
      obtain ⟨first, others⟩ := List.forall_mem_cons.mp each
      exact .member first (inductionHypothesis others)

theorem loose_of_members (each : ∀ word ∈ words, Derives (part .member) word) : Loose words :=
  List.append_nil words ▸ Loose.none.after_members each

theorem Loose.handlersEnd (loose : Loose words) : HandlersEnd words.flatten := by
  have starts : words = [] ∨
      Ahead.oneOf (sectionStarts ++ .identifier :: modifierKinds) words.flatten = true := by
    cases loose with
    | none => exact .inl rfl
    | member derives others => exact .inr (Ahead.oneOf_append (member_starts derives) _)
    | unended unended begins others =>
        obtain ⟨head, tail, rfl, headKind, _⟩ := rule_breaks unended
        exact .inr (Ahead.oneOf_of_mem (List.mem_append_right _ headKind))
  rcases starts with rfl | starts
  · exact ⟨rfl, rfl⟩
  · exact ⟨Ahead.not_next_of_oneOf starts (by decide), Ahead.not_next_of_oneOf starts (by decide)⟩

/-- The first of such words is another member than a rule, or it is read as a rule. -/
theorem Loose.first (loose : Loose (word :: words)) :
    Loose words ∧
      ((∃ form ∈ memberForms, form ≠ .rule ∧ Derives (part form) word) ∨
        Derives (part .rule) word ∨ Unended word ∧ RuleBegins words.flatten) := by
  cases loose with
  | member derives others =>
      obtain ⟨form, isForm, derives⟩ := derives_member_iff.mp derives
      by_cases isRule : form = .rule
      · exact ⟨others, .inr (.inl (isRule ▸ derives))⟩
      · exact ⟨others, .inl ⟨form, isForm, isRule, derives⟩⟩
  | unended unended begins others => exact ⟨others, .inr (.inr ⟨unended, begins⟩)⟩

/-! ## Modes -/

theorem modeRules_rule (starts : head.kind ∈ .identifier :: modifierKinds)
    (left : (rule head tail).rest = rest) :
    (modeRules (head :: tail)).rest = (modeRules rest).rest ∧
      (modeRules (head :: tail)).shapes = (rule head tail).shapes ++ (modeRules rest).shapes := by
  have isRule : head.kind = .identifier ∨ head.kind.isRuleModifier = true :=
    (List.mem_cons.mp starts).imp_right isRuleModifier_of_mem
  rw [modeRules.eq_2, if_pos isRule]
  exact ⟨rest_andThen left, shapes_andThen left⟩

/-- The rules of a mode are the words after it up to one that is no rule. -/
theorem modeRules_show (loose : Loose words) :
    ∃ rules left, words = rules ++ left ∧ Loose left ∧
      (modeRules words.flatten).rest = left.flatten ∧
      (∀ shape ∈ (modeRules words.flatten).shapes, shape.isRule = true) ∧
      List.Forall₂ Shows (modeRules words.flatten).shapes rules := by
  induction words with
  | nil =>
      have nothing : (modeRules []).rest = [] ∧ (modeRules []).shapes = [] := by
        unfold modeRules
        exact ⟨rfl, rfl⟩
      refine ⟨[], [], rfl, .none, nothing.1, ?_⟩
      rw [List.flatten_nil, nothing.2]
      exact ⟨List.forall_mem_nil _, .nil⟩
  | cons word words inductionHypothesis =>
      obtain ⟨others, first⟩ := loose.first
      rw [List.flatten_cons]
      rcases first with ⟨form, isForm, noRule, derives⟩ | isRule
      · obtain ⟨left, built⟩ := @modeRules_section _ words.flatten _ isForm noRule derives
        refine ⟨[], word :: words, rfl, loose, left.1, ?_⟩
        rw [built]
        exact ⟨List.forall_mem_nil _, .nil⟩
      · obtain ⟨head, tail, shape, rfl, starts, left, built, shapeRule, shown⟩ :=
          rule_shows isRule others.handlersEnd
        obtain ⟨rules, later, same, laterLoose, laterLeft, laterRules, laterShown⟩ :=
          inductionHypothesis others
        obtain ⟨restSame, shapesSame⟩ := modeRules_rule starts left
        refine ⟨(head :: tail) :: rules, later, by rw [same]; rfl, laterLoose,
          restSame.trans laterLeft, ?_⟩
        rw [List.cons_append, shapesSame, built]
        exact ⟨List.forall_mem_cons.mpr ⟨shapeRule, laterRules⟩, .cons shown laterShown⟩

/-- What is read of a mode before its rules. -/
theorem modeSection_opened {name close : Lexeme} (nameKind : name.kind = .identifier)
    (closeKind : close.kind = .semicolon) :
    (modeSection head (name :: close :: rest)).rest = (modeRules rest).rest ∧
      (modeSection head (name :: close :: rest)).shapes =
        [.node .modeSection ([.leaf head, .node .name [.leaf name], .leaf close] ++
          (modeRules rest).shapes)] := by
  have named : ((take head (name :: close :: rest)).andThen
      (Production.name .missingModeName _)).Leaves (close :: rest) :=
    leaves_take.andThen (name_leaves nameKind)
  have opened := named.expect closeKind
  refine ⟨rest_andThen opened.1, ?_⟩
  unfold modeSection
  show [Shape.node _ (Reading.andThen _ (modeRules _)).shapes] = _
  rw [shapes_andThen opened.1, named.expect_shapes closeKind]
  show [Shape.node _ (Shape.leaf head :: (Production.name _ (name :: close :: rest)).shapes ++ _ ++
    _)] = _
  rw [name_shapes nameKind]
  rfl

/-- A mode takes the rules after it along. -/
theorem modeSection_show (derives : Derives (part .mode) word) (loose : Loose words) :
    ∃ head tail rules left, word = head :: tail ∧ head.kind = .modeKeyword ∧
      words = rules ++ left ∧ Loose left ∧
      (modeSection head (tail ++ words.flatten)).rest = left.flatten ∧
      List.Forall₂ Shows
        ((modeSection head (tail ++ words.flatten)).shapes.flatMap Shape.membersIn)
        (word :: rules) := by
  obtain ⟨head, name, close, rfl, headKind, nameKind, closeKind⟩ := mode_shape derives
  obtain ⟨rules, left, same, others, stops, areRules, shown⟩ := modeRules_show loose
  obtain ⟨restSame, built⟩ := @modeSection_opened words.flatten head _ _ nameKind closeKind
  refine ⟨head, [name, close], rules, left, rfl, headKind, same, others, restSame.trans stops, ?_⟩
  generalize (modeRules words.flatten).shapes = read at areRules shown built
  have split : (modeSection head ([name, close] ++ words.flatten)).shapes.flatMap Shape.membersIn =
      .node .modeSection [.leaf head, .node .name [.leaf name], .leaf close] :: read := by
    rw [show (modeSection head ([name, close] ++ words.flatten)).shapes = _ from built,
      List.flatMap_singleton]
    cases read with
    | nil => rfl
    | cons first others =>
        have isRule := areRules first List.mem_cons_self
        simp [Shape.membersIn, Kind.isRule, isRule]
  rw [split]
  exact .cons (shows_section (by decide) (by decide) derives rfl rfl) shown

/-! ## The file -/

theorem member_rule (starts : head.kind ∈ .identifier :: modifierKinds) :
    member head tail = rule head tail := by
  simp only [modifierKinds, List.mem_cons, List.not_mem_nil, or_false] at starts
  unfold member
  rcases starts with same | same | same | same | same
  all_goals simp only [same]

/-- A member that is neither a mode nor a rule is one node. -/
theorem member_section {form : Nonterminal} (isForm : form ∈ memberForms) (noMode : form ≠ .mode)
    (noRule : form ≠ .rule) (derives : Derives (part form) word) :
    ∃ head tail, word = head :: tail ∧ ∀ rest, ∃ kind children,
      (member head (tail ++ rest)).shapes = [.node kind children] ∧ kind.isRule = false ∧
        kind ≠ .modeSection := by
  simp only [memberForms, List.mem_cons, List.not_mem_nil, or_false] at isForm
  rcases isForm with rfl | rfl | rfl | rfl | rfl | rfl | rfl
  · obtain ⟨head, tail, rfl, same⟩ := member_eq_header derives
    refine ⟨head, tail, rfl, fun rest => ?_⟩
    exact ⟨.header, _, congrArg Reading.shapes (same rest), rfl, by decide⟩
  · obtain ⟨head, tail, rfl, same, _⟩ := optionsSpec_leaves derives
    refine ⟨head, tail, rfl, fun rest => ?_⟩
    have isOptions : member head (tail ++ rest) = optionsSpec head (tail ++ rest) := by
      unfold member
      simp only [same]
    exact ⟨.optionsSpec, _, congrArg Reading.shapes isOptions, rfl, by decide⟩
  · obtain ⟨head, tail, rfl, same, _⟩ := importDecl_leaves derives
    refine ⟨head, tail, rfl, fun rest => ?_⟩
    have isImport : member head (tail ++ rest) = importDecl head (tail ++ rest) := by
      unfold member
      simp only [same]
    exact ⟨.importDecl, _, congrArg Reading.shapes isImport, rfl, by decide⟩
  · obtain ⟨head, tail, rfl, listKind, _⟩ := nameList_leaves derives
    refine ⟨head, tail, rfl, fun rest => ?_⟩
    simp only [List.mem_cons, List.not_mem_nil, or_false] at listKind
    rcases listKind with same | same
    · have isList : member head (tail ++ rest) =
          nameList .tokensSpec .tokenDecl head (tail ++ rest) := by
        unfold member
        simp only [same]
      exact ⟨.tokensSpec, _, congrArg Reading.shapes isList, rfl, by decide⟩
    · have isList : member head (tail ++ rest) =
          nameList .channelsSpec .channelDecl head (tail ++ rest) := by
        unfold member
        simp only [same]
      exact ⟨.channelsSpec, _, congrArg Reading.shapes isList, rfl, by decide⟩
  · obtain ⟨head, tail, rfl, same, _⟩ := namedAction_leaves derives
    refine ⟨head, tail, rfl, fun rest => ?_⟩
    have isAction : member head (tail ++ rest) = namedAction head (tail ++ rest) := by
      unfold member
      simp only [same]
    exact ⟨.namedAction, _, congrArg Reading.shapes isAction, rfl, by decide⟩
  · exact absurd rfl noMode
  · exact absurd rfl noRule

/-- A member is read, and with a mode the rules after it. -/
theorem member_show (loose : Loose (word :: words)) :
    ∃ head tail rules left, word = head :: tail ∧ words = rules ++ left ∧ Loose left ∧
      (member head (tail ++ words.flatten)).rest = left.flatten ∧
      List.Forall₂ Shows ((member head (tail ++ words.flatten)).shapes.flatMap Shape.membersIn)
        (word :: rules) := by
  obtain ⟨others, first⟩ := loose.first
  rcases first with ⟨form, isForm, noRule, derives⟩ | isRule
  · by_cases isMode : form = .mode
    · cases isMode
      obtain ⟨head, tail, rules, left, rfl, headKind, same, leftLoose, stops, shown⟩ :=
        modeSection_show derives others
      have isSection : member head (tail ++ words.flatten) =
          modeSection head (tail ++ words.flatten) := by
        unfold member
        simp only [headKind]
      refine ⟨head, tail, rules, left, rfl, same, leftLoose, ?_⟩
      rw [isSection]
      exact ⟨stops, shown⟩
    · obtain ⟨head, tail, rfl, read⟩ := member_leaves_of_noMode isForm isMode derives
      obtain ⟨_, _, same, node⟩ := member_section isForm isMode noRule derives
      cases same
      have left := (read _ others.handlersEnd).1
      obtain ⟨kind, children, built, other, noMode⟩ := node words.flatten
      have leaves := @leavesOf_of_rest (head :: tail) words.flatten _ _ left
      rw [built] at leaves
      refine ⟨head, tail, [], words, rfl, rfl, others, left, ?_⟩
      have alone : Shape.membersIn (.node kind children) = [.node kind children] :=
        Shape.membersIn_of_noMode (decide_eq_false noMode)
      rw [built, List.flatMap_singleton, alone]
      exact .cons (shows_section isForm noRule derives (by simpa using leaves) other) .nil
  · obtain ⟨head, tail, shape, rfl, starts, left, built, shapeRule, shown⟩ :=
      rule_shows isRule others.handlersEnd
    refine ⟨head, tail, [], words, rfl, rfl, others, ?_⟩
    rw [member_rule starts, built, List.flatMap_singleton, Shape.membersIn_of_isRule shapeRule]
    exact ⟨left, .cons shown .nil⟩

/-- The members of such words are read as one shape for each. -/
theorem members_show (loose : Loose words) :
    List.Forall₂ Shows ((members words.flatten).shapes.flatMap Shape.membersIn) words := by
  induction count : words.length using Nat.strongRecOn generalizing words with
  | ind count inductionHypothesis =>
      cases words with
      | nil =>
          show List.Forall₂ Shows ((members []).shapes.flatMap Shape.membersIn) []
          unfold members
          exact .nil
      | cons word words =>
          obtain ⟨head, tail, rules, left, rfl, rfl, others, stops, shown⟩ := member_show loose
          have later := inductionHypothesis left.length
            (by rw [← count, List.length_cons, List.length_append]; omega) others rfl
          rw [← stops] at later
          show List.Forall₂ Shows
            ((members (head :: (tail ++ (rules ++ left).flatten))).shapes.flatMap _) _
          rw [members.eq_2]
          show List.Forall₂ Shows (((member head _).shapes ++ (members _).shapes).flatMap _) _
          rw [List.flatMap_append]
          exact List.rel_append shown later

/-- The words that shapes show are their leaves. -/
theorem map_leaves_of_shown {shapes : List Shape} (shown : List.Forall₂ Shows shapes words) :
    shapes.map Shape.leaves = words := by
  induction shown with
  | nil => rfl
  | cons shows _ inductionHypothesis => rw [List.map_cons, shows.leaves, inductionHypothesis]

theorem leavesOf_of_shown {shapes : List Shape} (shown : List.Forall₂ Shows shapes words) :
    Shape.leavesOf shapes = words.flatten := by
  induction shown with
  | nil => rfl
  | cons shows _ inductionHypothesis =>
      rw [Shape.leavesOf_cons, shows.leaves, inductionHypothesis, List.flatten_cons]

end Production

end GrammarDesk.Syntax
