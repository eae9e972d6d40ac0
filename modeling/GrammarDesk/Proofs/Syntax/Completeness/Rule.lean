import GrammarDesk.Proofs.Syntax.Completeness.Element
import GrammarDesk.Syntax.Production.Rule

/-!
Contract: rules of the right form are read whole.

Owns: for every production of a rule, that a reader of a word of its phrase finds no fault and
leaves just what follows the word.

Does not own: members and files (`Completeness.File`).

Main statement: a reader of a rule leaves what follows it unless that goes on with handlers
(`rule_leaves`).
-/

namespace GrammarDesk.Syntax.Production

open Reading
open Ebnf
open Ebnf.Phrase

variable {word rest : List Lexeme} {head : Lexeme} {tail : List Lexeme}

/-! ## Before the colon -/

theorem isRuleModifier_of_mem {kind : Kind} (member : kind ∈ modifierKinds) :
    kind.isRuleModifier = true := by
  simp only [modifierKinds, List.mem_cons, List.not_mem_nil, or_false] at member
  rcases member with rfl | rfl | rfl | rfl
  all_goals rfl

theorem mem_of_isRuleModifier {kind : Kind} (isModifier : kind.isRuleModifier = true) :
    kind ∈ modifierKinds := by
  cases kind <;> first | decide | cases isModifier

theorem isRuleModifier_of_derives
    (derives : Derives (many (oneOf (modifierKinds.map kind))) word) :
    ∀ lexeme ∈ word, lexeme.kind.isRuleModifier = true := by
  obtain ⟨words, rfl, each⟩ := derives_many_iff.mp derives
  intro lexeme member
  obtain ⟨one, isOne, inOne⟩ := List.mem_flatten.mp member
  obtain ⟨modifier, isModifier, rfl⟩ :=
    exists_of_derives_kinds modifierKinds (by decide) (each one isOne)
  rw [List.mem_singleton.mp inOne]
  exact isRuleModifier_of_mem isModifier

/-- Modifiers are read up to the name of the rule, a leaf for each. -/
theorem modifiers_leaves (areModifiers : ∀ lexeme ∈ word, lexeme.kind.isRuleModifier = true)
    (ends : head.kind = .identifier) :
    (modifiers (word ++ head :: tail)).Leaves (head :: tail) ∧
      (modifiers (word ++ head :: tail)).shapes = word.map .leaf := by
  induction word with
  | nil =>
      show (modifiers (head :: tail)).Leaves _ ∧ (modifiers (head :: tail)).shapes = _
      unfold modifiers
      rw [if_neg (by rw [ends]; exact Bool.false_ne_true)]
      exact ⟨leaves_nothing, rfl⟩
  | cons first word inductionHypothesis =>
      obtain ⟨isModifier, others⟩ := List.forall_mem_cons.mp areModifiers
      obtain ⟨leaves, built⟩ := inductionHypothesis others
      show (modifiers (first :: (word ++ head :: tail))).Leaves _ ∧
        (modifiers (first :: (word ++ head :: tail))).shapes = _
      unfold modifiers
      rw [if_pos isModifier]
      exact ⟨leaves_take.attempt.andThen leaves, congrArg (Shape.leaf first :: ·) built⟩

/-- The modifiers of a rule are read as leaves before the node of its name. -/
theorem ruleName_leaves {name : Lexeme}
    (derives : Derives (many (oneOf (modifierKinds.map kind))) word)
    (named : name.kind = .identifier) :
    ∃ head tail, word ++ [name] = head :: tail ∧ head.kind ∈ .identifier :: modifierKinds ∧
      ∀ rest, (ruleName head (tail ++ rest)).Leaves rest ∧
        (ruleName head (tail ++ rest)).shapes = word.map .leaf ++ [.node .name [.leaf name]] := by
  obtain ⟨words, rfl, each⟩ := derives_many_iff.mp derives
  cases words with
  | nil =>
      refine ⟨name, [], rfl, by rw [named]; decide, ?_⟩
      intro rest
      unfold ruleName
      rw [if_neg (by rw [named]; exact Bool.false_ne_true)]
      exact ⟨leaves_take.node, rfl⟩
  | cons first words =>
      obtain ⟨isFirst, others⟩ := List.forall_mem_cons.mp each
      obtain ⟨modifier, isModifier, rfl⟩ :=
        exists_of_derives_kinds modifierKinds (by decide) isFirst
      have areModifiers := isRuleModifier_of_derives (derives_many_iff.mpr ⟨words, rfl, others⟩)
      refine ⟨modifier, words.flatten ++ [name], rfl, List.mem_cons_of_mem _ isModifier,
        fun rest => ?_⟩
      obtain ⟨leaves, built⟩ := @modifiers_leaves words.flatten name rest areModifiers named
      have modified : ((take modifier (words.flatten ++ name :: rest)).andThen
          (modifiers _)).Leaves (name :: rest) := leaves_take.andThen leaves
      unfold ruleName
      rw [if_pos (isRuleModifier_of_mem isModifier), List.append_assoc]
      refine ⟨modified.andThen (name_leaves named), ?_⟩
      refine (shapes_andThen modified.1).trans ?_
      show Shape.leaf modifier :: (modifiers (words.flatten ++ name :: rest)).shapes ++ _ = _
      rw [built, name_shapes named]
      rfl

/-- The kind of a rule follows from its name. -/
theorem ruleKind_eq {name : Lexeme}
    (areModifiers : ∀ lexeme ∈ word, lexeme.kind.isRuleModifier = true)
    (named : name.kind = .identifier) :
    ruleKind (word ++ name :: rest) =
      if Text.isTokenName name.text then .lexerRule else .parserRule := by
  have dropped : (word ++ name :: rest).dropWhile (fun lexeme => lexeme.kind.isRuleModifier) =
      name :: rest := by
    rw [List.dropWhile_append_of_pos areModifiers, List.dropWhile_cons_of_neg]
    rw [named]
    exact Bool.false_ne_true
  unfold ruleKind
  rw [dropped]
  dsimp only
  rw [if_pos named]

theorem moreThrown_leaves
    (derives : Derives (many (seq (kind .comma) (kind .identifier))) word)
    (ends : Ahead.next .comma rest = false) : (moreThrown (word ++ rest)).Leaves rest := by
  refine leaves_many (fun _ => True) derives trivial ?_
    fun first _ _ read => ⟨trivial, ?_⟩
  · cases rest with
    | nil =>
        unfold moreThrown
        exact leaves_nothing
    | cons head tail =>
        unfold moreThrown
        rw [if_neg (of_decide_eq_false ends)]
        exact leaves_nothing
  · obtain ⟨_, _, rfl, isComma, isName⟩ := derives_seq_iff.mp first
    obtain ⟨comma, commaKind, rfl⟩ := derives_kind_iff.mp isComma
    obtain ⟨name, named, rfl⟩ := derives_kind_iff.mp isName
    show (moreThrown (comma :: name :: _)).Leaves rest
    unfold moreThrown
    rw [if_pos commaKind]
    exact (leaves_take.expect named).attempt.andThen read

def specStarts : List Kind :=
  [.bracketBlock, .returnsKeyword, .localsKeyword, .throwsKeyword, .optionsKeyword, .atSign]

/-- A specification is told by its first lexeme and read to its end. -/
theorem ruleSpec?_leaves (derives : Derives (part .prequel) word) :
    ∃ head tail, word = head :: tail ∧ head.kind ∈ specStarts ∧
      ∀ rest, Ahead.next .comma rest = false →
        ∃ reading, ruleSpec? head (tail ++ rest) = some reading ∧ reading.Leaves rest := by
  obtain ⟨phrase, member, derives⟩ :=
    exists_of_derives_oneOf (by simp) (derives_part_iff.mp derives)
  simp only [List.mem_cons, List.not_mem_nil, or_false] at member
  rcases member with rfl | rfl | rfl | rfl | rfl | rfl
  · obtain ⟨head, same, rfl⟩ := derives_kind_iff.mp derives
    refine ⟨head, [], rfl, by simp [same, specStarts], ?_⟩
    intro rest _
    unfold ruleSpec?
    simp only [same]
    exact ⟨_, rfl, leaves_take.node⟩
  · obtain ⟨_, _, rfl, isHead, isBlock⟩ := derives_seq_iff.mp derives
    obtain ⟨head, same, rfl⟩ := derives_kind_iff.mp isHead
    obtain ⟨block, blockKind, rfl⟩ := derives_kind_iff.mp isBlock
    refine ⟨head, [block], rfl, by simp [same, specStarts], ?_⟩
    intro rest _
    unfold ruleSpec?
    simp only [same]
    exact ⟨_, rfl, (leaves_take.expect blockKind).node⟩
  · obtain ⟨_, _, rfl, isHead, isBlock⟩ := derives_seq_iff.mp derives
    obtain ⟨head, same, rfl⟩ := derives_kind_iff.mp isHead
    obtain ⟨block, blockKind, rfl⟩ := derives_kind_iff.mp isBlock
    refine ⟨head, [block], rfl, by simp [same, specStarts], ?_⟩
    intro rest _
    unfold ruleSpec?
    simp only [same]
    exact ⟨_, rfl, (leaves_take.expect blockKind).node⟩
  · obtain ⟨_, _, rfl, isHead, thrown⟩ := derives_seq_iff.mp derives
    obtain ⟨_, more, rfl, isName, isMore⟩ := derives_seq_iff.mp thrown
    obtain ⟨head, same, rfl⟩ := derives_kind_iff.mp isHead
    obtain ⟨name, named, rfl⟩ := derives_kind_iff.mp isName
    refine ⟨head, name :: more, rfl, by simp [same, specStarts], ?_⟩
    intro rest noComma
    unfold ruleSpec?
    simp only [same]
    refine ⟨_, rfl, Leaves.node (Leaves.andThen ?_ (moreThrown_leaves isMore noComma))⟩
    exact leaves_take.expect named
  · obtain ⟨head, tail, rfl, same, read⟩ := optionsSpec_leaves derives
    refine ⟨head, tail, rfl, by simp [same, specStarts], ?_⟩
    intro rest _
    unfold ruleSpec?
    simp only [same]
    exact ⟨_, rfl, read rest⟩
  · obtain ⟨_, _, rfl, signed, isAction⟩ := derives_seq_iff.mp derives
    obtain ⟨_, _, rfl, isHead, isName⟩ := derives_seq_iff.mp signed
    obtain ⟨head, same, rfl⟩ := derives_kind_iff.mp isHead
    obtain ⟨name, named, rfl⟩ := derives_kind_iff.mp isName
    obtain ⟨action, actionKind, rfl⟩ := derives_kind_iff.mp isAction
    refine ⟨head, [name, action], rfl, by simp [same, specStarts], ?_⟩
    intro rest _
    unfold ruleSpec?
    simp only [same]
    exact ⟨_, rfl, ((leaves_take.expect named).expect actionKind).node⟩

theorem ruleSpecs_leaves (derives : Derives (many (part .prequel)) word)
    (ends : head.kind = .colon) :
    (ruleSpecs (word ++ head :: tail)).Leaves (head :: tail) := by
  refine leaves_many (fun later => Ahead.oneOf (.colon :: specStarts) later = true)
    derives (Ahead.oneOf_of_mem (by simp [ends])) ?_ fun {_ later} first _ follow read => ?_
  · have none : ruleSpec? head tail = none := by
      unfold ruleSpec?
      simp only [ends]
    unfold ruleSpecs
    simp only [none]
    exact leaves_nothing
  · obtain ⟨start, own, rfl, startKind, reads⟩ := ruleSpec?_leaves first
    obtain ⟨reading, found, leaves⟩ :=
      reads later (Ahead.not_next_of_oneOf follow (by decide))
    refine ⟨Ahead.oneOf_of_mem (List.mem_cons_of_mem _ startKind), ?_⟩
    show (ruleSpecs (start :: (own ++ later))).Leaves _
    unfold ruleSpecs
    simp only [found]
    exact leaves.attempt.andThen read

/-! ## After the body -/

theorem handlers_leaves
    (derives :
      Derives (many (all [kind .catchKeyword, kind .bracketBlock, kind .action])) word)
    (ends : Ahead.next .catchKeyword rest = false) : (handlers (word ++ rest)).Leaves rest := by
  refine leaves_many (fun _ => True) derives trivial ?_
    fun first _ _ read => ⟨trivial, ?_⟩
  · cases rest with
    | nil =>
        unfold handlers
        exact leaves_nothing
    | cons head tail =>
        unfold handlers
        rw [if_neg (of_decide_eq_false ends)]
        exact leaves_nothing
  · obtain ⟨_, _, rfl, caught, isAction⟩ := derives_seq_iff.mp first
    obtain ⟨_, _, rfl, isCatch, isBlock⟩ := derives_seq_iff.mp caught
    obtain ⟨start, startKind, rfl⟩ := derives_kind_iff.mp isCatch
    obtain ⟨block, blockKind, rfl⟩ := derives_kind_iff.mp isBlock
    obtain ⟨action, actionKind, rfl⟩ := derives_kind_iff.mp isAction
    show (handlers (start :: block :: action :: _)).Leaves rest
    unfold handlers
    rw [if_pos startKind]
    exact ((leaves_take.expect blockKind).expect actionKind).node.attempt.andThen read

theorem finallyClause?_leaves
    (derives : Derives (optional (seq (kind .finallyKeyword) (kind .action))) word)
    (ends : Ahead.next .finallyKeyword rest = false) :
    (finallyClause? (word ++ rest)).Leaves rest := by
  rcases derives_optional_iff.mp derives with clause | rfl
  · obtain ⟨_, _, rfl, isFinally, isAction⟩ := derives_seq_iff.mp clause
    obtain ⟨start, startKind, rfl⟩ := derives_kind_iff.mp isFinally
    obtain ⟨action, actionKind, rfl⟩ := derives_kind_iff.mp isAction
    show (finallyClause? (start :: action :: rest)).Leaves rest
    unfold finallyClause?
    dsimp only
    rw [if_pos startKind]
    exact (leaves_take.expect actionKind).node.attempt
  · cases rest with
    | nil => exact leaves_nothing
    | cons head tail =>
        show (finallyClause? (head :: tail)).Leaves _
        unfold finallyClause?
        dsimp only
        rw [if_neg (of_decide_eq_false ends)]
        exact leaves_nothing

/-- Lexemes that do not go on with the handlers of a rule. -/
def HandlersEnd (rest : List Lexeme) : Prop :=
  Ahead.next .catchKeyword rest = false ∧ Ahead.next .finallyKeyword rest = false

theorem next_catch_of_final {final : List Lexeme}
    (isFinal : Derives (optional (seq (kind .finallyKeyword) (kind .action))) final)
    (ends : HandlersEnd rest) : Ahead.next .catchKeyword (final ++ rest) = false := by
  rcases derives_optional_iff.mp isFinal with some | rfl
  · obtain ⟨_, _, rfl, isFinally, _⟩ := derives_seq_iff.mp some
    obtain ⟨start, startKind, rfl⟩ := derives_kind_iff.mp isFinally
    exact decide_eq_false (by rw [startKind]; decide)
  · exact ends.1

/-- The body of a rule is read through its semicolon. -/
theorem ended_leaves {body : List Lexeme} {semicolon : Lexeme}
    (isBody : Derives (part .alternatives) body) (isEnd : semicolon.kind = .semicolon) :
    ((alternativeList (body ++ semicolon :: rest)).andThen
      (ruleEnd (alternativeList (body ++ semicolon :: rest)).rest)).Leaves rest := by
  have ended : (ruleEnd (semicolon :: rest)).Leaves rest := by
    unfold ruleEnd
    dsimp only
    rw [if_pos isEnd]
    exact leaves_take.attempt
  have closes : Ahead.oneOf [.semicolon] (semicolon :: rest) = true :=
    Ahead.oneOf_of_mem (by simp [isEnd])
  have read := alternativeList_leaves isBody
    (rowEnds_of_oneOf (Ahead.oneOf_mono closes (by simp)))
    (Ahead.not_next_of_oneOf closes (by decide))
  exact read.andThen ended

theorem ruleBody_leaves {body caught final : List Lexeme} {semicolon : Lexeme}
    (isBody : Derives (part .alternatives) body) (isEnd : semicolon.kind = .semicolon)
    (isCaught :
      Derives (many (all [kind .catchKeyword, kind .bracketBlock, kind .action])) caught)
    (isFinal : Derives (optional (seq (kind .finallyKeyword) (kind .action))) final)
    (ends : HandlersEnd rest) :
    (ruleBody (body ++ semicolon :: (caught ++ (final ++ rest)))).Leaves rest := by
  have handled := handlers_leaves isCaught (next_catch_of_final isFinal ends)
  exact ((ended_leaves isBody isEnd).andThen handled).andThen
    (finallyClause?_leaves isFinal ends.2)

/-! ## Rules -/

structure RuleHead (modified : List Lexeme) (name : Lexeme) (specs : List Lexeme)
    (colon : Lexeme) : Prop where
  modifiers : Derives (many (oneOf (modifierKinds.map kind))) modified
  named : name.kind = .identifier
  specs : Derives (many (part .prequel)) specs
  colon : colon.kind = .colon

/-- The words of a rule, by what it is made of. -/
inductive RuleForm : List Lexeme → Prop where
  | parts {modified specs body caught final : List Lexeme} {name colon semicolon : Lexeme}
      (opened : RuleHead modified name specs colon) (isBody : Derives (part .alternatives) body)
      (isEnd : semicolon.kind = .semicolon)
      (isCaught :
        Derives (many (all [kind .catchKeyword, kind .bracketBlock, kind .action])) caught)
      (isFinal : Derives (optional (seq (kind .finallyKeyword) (kind .action))) final) :
      RuleForm (modified ++ name :: (specs ++ colon :: (body ++ semicolon :: (caught ++ final))))

/-- A rule is its modifiers, name, specifications, colon, body, semicolon and handlers, in this
order. -/
theorem ruleForm_of_derives (derives : Derives (part .rule) word) : RuleForm word := by
  obtain ⟨_, final, rfl, handled, isFinal⟩ := derives_seq_iff.mp (derives_part_iff.mp derives)
  obtain ⟨_, caught, rfl, ended, isCaught⟩ := derives_seq_iff.mp handled
  obtain ⟨_, _, rfl, filled, isEnd⟩ := derives_seq_iff.mp ended
  obtain ⟨_, body, rfl, opened, isBody⟩ := derives_seq_iff.mp filled
  obtain ⟨_, _, rfl, declared, isColon⟩ := derives_seq_iff.mp opened
  obtain ⟨_, specs, rfl, named, isSpecs⟩ := derives_seq_iff.mp declared
  obtain ⟨modified, _, rfl, isModified, isName⟩ := derives_seq_iff.mp named
  obtain ⟨semicolon, semicolonKind, rfl⟩ := derives_kind_iff.mp isEnd
  obtain ⟨colon, colonKind, rfl⟩ := derives_kind_iff.mp isColon
  obtain ⟨name, nameKind, rfl⟩ := derives_kind_iff.mp isName
  have form := RuleForm.parts ⟨isModified, nameKind, isSpecs, colonKind⟩ isBody semicolonKind
    isCaught isFinal
  simpa using form

/-- A rule is read up to its colon without fault, and its body from there on. -/
theorem rule_opened {modified specs : List Lexeme} {name colon : Lexeme}
    (opened : RuleHead modified name specs colon) :
    ∃ head tail,
      (∀ later, modified ++ name :: (specs ++ colon :: later) = head :: (tail ++ later)) ∧
      head.kind ∈ .identifier :: modifierKinds ∧
      ∀ rest, ∃ declared : Advance head (tail ++ rest), declared.Leaves rest ∧
        (∃ more, declared.shapes = modified.map .leaf ++ .node .name [.leaf name] :: more) ∧
        rule head (tail ++ rest) =
          (declared.andThen (ruleBody declared.rest)).node
            (if Text.isTokenName name.text then .lexerRule else .parserRule) := by
  obtain ⟨head, own, same, headKind, read⟩ := ruleName_leaves opened.modifiers opened.named
  have whole : ∀ later,
      modified ++ name :: (specs ++ colon :: later) =
        head :: (own ++ (specs ++ colon :: later)) := by
    intro later
    rw [List.append_cons, same]
    rfl
  have split : ∀ later, own ++ (specs ++ [colon]) ++ later = own ++ (specs ++ colon :: later) := by
    intro later
    simp
  refine ⟨head, own ++ (specs ++ [colon]), fun later => ?_, headKind, fun rest => ?_⟩
  · rw [whole, split]
  · obtain ⟨leaves, built⟩ := read (specs ++ colon :: rest)
    have declared : ((ruleName head _).andThen (ruleSpecs _)).Leaves (colon :: rest) :=
      leaves.andThen (ruleSpecs_leaves opened.specs opened.colon)
    have isKind := @ruleKind_eq modified (specs ++ colon :: rest) name
      (isRuleModifier_of_derives opened.modifiers) opened.named
    rw [split]
    refine ⟨_, declared.bump, ?_, ?_⟩
    · have bumped : (Reading.bump _).shapes = _ ++ (takeNext (colon :: rest)).shapes :=
        shapes_andThen declared.1
      have specified : (Reading.andThen _ (ruleSpecs _)).shapes =
          _ ++ (ruleSpecs (specs ++ colon :: rest)).shapes := shapes_andThen leaves.1
      refine ⟨(ruleSpecs (specs ++ colon :: rest)).shapes ++ [.leaf colon], ?_⟩
      rw [bumped, specified, built]
      simp [takeNext]
    · rw [← isKind, whole]
      unfold rule
      dsimp only
      rw [if_pos (declared.next opened.colon)]

/-- A rule is read without fault up to what follows it. -/
theorem rule_leaves (derives : Derives (part .rule) word) :
    ∃ head tail, word = head :: tail ∧ head.kind ∈ .identifier :: modifierKinds ∧
      ∀ rest, HandlersEnd rest → (rule head (tail ++ rest)).Leaves rest := by
  cases ruleForm_of_derives derives with
  | parts opened isBody isEnd isCaught isFinal =>
      obtain ⟨head, tail, whole, headKind, read⟩ := rule_opened opened
      refine ⟨head, _, whole _, headKind, fun rest ends => ?_⟩
      obtain ⟨declared, leaves, _, isRule⟩ := read (_ ++ _ :: (_ ++ (_ ++ rest)))
      rw [List.append_assoc, List.append_assoc, List.cons_append, List.append_assoc, isRule]
      exact (leaves.andThen (ruleBody_leaves isBody isEnd isCaught isFinal ends)).node

end GrammarDesk.Syntax.Production
