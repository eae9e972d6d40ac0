import GrammarDesk.Proofs.Syntax.Completeness.Rule

/-!
Contract: rules without the semicolon at their end.

Owns: words that are a rule but for their semicolon, where the next rule is seen to begin, and
the kind and name that a rule is read with.

Does not own: files that hold such words (`Grammar`).

Main statements: a rule without its semicolon is read up to the next rule, with a fault, if that
one is seen to begin (`rule_breaks`); either rule has the kind and name that its first lexemes
spell (`rule_shapes`).
-/

namespace GrammarDesk.Syntax

/-- Whether the shape is a handler of a rule, or its final clause. -/
def Shape.isHandler (shape : Shape) : Bool :=
  shape.isNode .exceptionHandler || shape.isNode .finallyClause

namespace Reading

variable {input middle rest : List Lexeme} {limit : Nat} {reading : Reading input limit}
variable {kind : Kind}

/-- The reading found a fault and left these lexemes. -/
structure Breaks (reading : Reading input limit) (rest : List Lexeme) : Prop where
  rest : reading.rest = rest
  fault : ∃ problem ∈ reading.problems.toList, problem.isUnreadable = false

theorem breaks_reportAfter {fault : Fault} : ((nothing input).reportAfter fault).Breaks input := by
  refine ⟨rfl, ⟨.after (nothing input).rest.length, .malformed fault⟩, ?_, rfl⟩
  show _ ∈ (.empty ++ .entry _ : Log).toList
  simp

theorem Leaves.not_breaks {other : List Lexeme} (leaves : reading.Leaves rest) :
    ¬reading.Breaks other := by
  intro breaks
  obtain ⟨problem, member, isFault⟩ := breaks.fault
  rw [leaves.2 problem member] at isFault
  cases isFault

theorem Leaves.breaks {following : (input : List Lexeme) → Attempt input}
    (former : reading.Leaves middle) (latter : (following middle).Breaks rest) :
    (reading.andThen (following reading.rest)).Breaks rest := by
  obtain ⟨rfl, _⟩ := former
  obtain ⟨problem, member, isFault⟩ := latter.fault
  refine ⟨latter.rest, problem, ?_, isFault⟩
  show problem ∈ (reading.problems ++ (following reading.rest).problems).toList
  rw [Log.toList_append]
  exact List.mem_append_right _ member

theorem Breaks.andThen {following : (input : List Lexeme) → Attempt input}
    (former : reading.Breaks middle) (latter : (following middle).Leaves rest) :
    (reading.andThen (following reading.rest)).Breaks rest := by
  obtain ⟨rfl, problem, member, isFault⟩ := former
  refine ⟨latter.1, problem, ?_, isFault⟩
  show problem ∈ (reading.problems ++ (following reading.rest).problems).toList
  rw [Log.toList_append]
  exact List.mem_append_left _ member

theorem Breaks.node (breaks : reading.Breaks rest) : (reading.node kind).Breaks rest :=
  ⟨breaks.rest, breaks.fault⟩

end Reading

namespace Production

open Reading
open Ebnf
open Ebnf.Phrase

variable {word rest : List Lexeme} {head : Lexeme} {tail : List Lexeme}

/-! ## Where the next rule is seen -/

/-- A rule begins here, and looking ahead tells so. -/
structure RuleBegins (rest : List Lexeme) : Prop where
  starts : Ahead.oneOf (.identifier :: modifierKinds) rest = true
  seen : Ahead.memberStart rest = true

namespace RuleBegins

theorem noElement (begins : RuleBegins rest) : Ahead.elementStart rest = false := by
  obtain ⟨head, tail, rfl, startKind⟩ := Ahead.exists_of_oneOf begins.starts
  have seen := begins.seen
  by_cases named : head.kind = .identifier
  · have isRule : Ahead.ruleStart (head :: tail) = true := by
      simpa [Ahead.memberStart, Ahead.oneOf, Ahead.next, named] using seen
    simp [Ahead.elementStart, Ahead.oneOf, Ahead.next, named, isRule]
  · have modifier : head.kind ∈ modifierKinds := (List.mem_cons.mp startKind).resolve_left named
    exact elementStart_eq_false (Ahead.oneOf_of_mem modifier) (by decide)

theorem rowEnds (begins : RuleBegins rest) : RowEnds rest :=
  ⟨Ahead.oneOf_mono begins.starts (by decide), begins.noElement⟩

theorem handlersEnd (begins : RuleBegins rest) : HandlersEnd rest :=
  ⟨Ahead.not_next_of_oneOf begins.starts (by decide),
    Ahead.not_next_of_oneOf begins.starts (by decide)⟩

theorem ruleEnd (begins : RuleBegins rest) : (ruleEnd rest).Breaks rest := by
  have noSemicolon : Ahead.next .semicolon rest = false :=
    Ahead.not_next_of_oneOf begins.starts (by decide)
  obtain ⟨head, tail, rfl, _⟩ := Ahead.exists_of_oneOf begins.starts
  unfold Production.ruleEnd
  dsimp only
  rw [if_neg (of_decide_eq_false noSemicolon), if_pos begins.seen]
  exact breaks_reportAfter

end RuleBegins

/-! ## Rules without their semicolon -/

/-- A word that a semicolon makes a rule. -/
def Unended (word : List Lexeme) : Prop :=
  ∃ semicolon : Lexeme, semicolon.kind = .semicolon ∧ Derives (part .rule) (word ++ [semicolon])

/-- What stands after the semicolon of a rule ends with target code. -/
theorem handlers_end {caught final : List Lexeme}
    (isCaught : Derives (many (all [kind .catchKeyword, kind .bracketBlock, kind .action])) caught)
    (isFinal : Derives (optional (seq (kind .finallyKeyword) (kind .action))) final) :
    caught ++ final = [] ∨
      ∃ before action, caught ++ final = before ++ [action] ∧ action.kind = .action := by
  rcases derives_optional_iff.mp isFinal with clause | rfl
  · obtain ⟨start, _, rfl, _, isAction⟩ := derives_seq_iff.mp clause
    obtain ⟨action, actionKind, rfl⟩ := derives_kind_iff.mp isAction
    exact .inr ⟨caught ++ start, action, (List.append_assoc _ _ _).symm, actionKind⟩
  · rw [List.append_nil]
    obtain ⟨words, rfl, each⟩ := derives_many_iff.mp isCaught
    rcases List.eq_nil_or_concat words with rfl | ⟨earlier, last, rfl⟩
    · exact .inl rfl
    · obtain ⟨start, _, rfl, _, isAction⟩ := derives_seq_iff.mp (each last (by simp))
      obtain ⟨action, actionKind, rfl⟩ := derives_kind_iff.mp isAction
      exact .inr ⟨earlier.flatten ++ start, action, by simp, actionKind⟩

/-- A rule without its semicolon ends with its body: no handler ends with a semicolon. -/
theorem Unended.form (unended : Unended word) :
    ∃ modified name specs colon body, word = modified ++ name :: (specs ++ colon :: body) ∧
      RuleHead modified name specs colon ∧ Derives (part .alternatives) body := by
  obtain ⟨semicolon, isEnd, derives⟩ := unended
  generalize whole : word ++ [semicolon] = ended at derives
  cases ruleForm_of_derives derives with
  | @parts modified specs body _ _ name colon own opened isBody _ isCaught isFinal =>
      rcases handlers_end isCaught isFinal with none | ⟨before, action, same, actionKind⟩
      · rw [none] at whole
        have ends : word ++ [semicolon] =
            modified ++ name :: (specs ++ colon :: body) ++ [own] := by
          simpa using whole
        exact ⟨modified, name, specs, colon, body, (List.append_inj' ends rfl).1, opened, isBody⟩
      · rw [same] at whole
        have ends : word ++ [semicolon] =
            modified ++ name :: (specs ++ colon :: (body ++ own :: before)) ++ [action] := by
          simpa using whole
        obtain ⟨_, last⟩ := List.append_inj' ends rfl
        cases last
        rw [actionKind] at isEnd
        cases isEnd

theorem ruleBody_breaks {body : List Lexeme} (isBody : Derives (part .alternatives) body)
    (begins : RuleBegins rest) : (ruleBody (body ++ rest)).Breaks rest := by
  have read : (alternativeList (body ++ rest)).Leaves rest :=
    alternativeList_leaves isBody begins.rowEnds (Ahead.not_next_of_oneOf begins.starts (by decide))
  have ended := read.breaks begins.ruleEnd
  have handled := ended.andThen (handlers_leaves .none begins.handlersEnd.1)
  exact handled.andThen (finallyClause?_leaves (.right .empty) begins.handlersEnd.2)

/-- A rule without its semicolon is read up to the next rule, if that one is seen, and the
missing semicolon is reported. -/
theorem rule_breaks (unended : Unended word) :
    ∃ head tail, word = head :: tail ∧ head.kind ∈ .identifier :: modifierKinds ∧
      ∀ rest, RuleBegins rest → (rule head (tail ++ rest)).Breaks rest := by
  obtain ⟨modified, name, specs, colon, body, rfl, opened, isBody⟩ := unended.form
  obtain ⟨head, tail, whole, headKind, read⟩ := rule_opened opened
  refine ⟨head, _, whole body, headKind, fun rest begins => ?_⟩
  obtain ⟨declared, leaves, _, isRule⟩ := read (body ++ rest)
  rw [List.append_assoc, isRule]
  exact (leaves.breaks (ruleBody_breaks isBody begins)).node

/-- A word is not both a rule and one without its semicolon. -/
theorem not_rule_of_unended (unended : Unended word) (begins : RuleBegins rest) :
    ¬Derives (part .rule) word := by
  intro derives
  obtain ⟨head, tail, rfl, _, leaves⟩ := rule_leaves derives
  obtain ⟨_, _, same, _, breaks⟩ := rule_breaks unended
  cases same
  exact (leaves rest begins.handlersEnd).not_breaks (breaks rest begins)

/-! ## Rules with handlers -/

/-- Clauses that catch leave a node for a handler. -/
theorem handlers_handled {caught : List Lexeme}
    (isCaught : Derives (many (all [kind .catchKeyword, kind .bracketBlock, kind .action])) caught)
    (some : caught ≠ []) : (handlers (caught ++ rest)).shapes.any Shape.isHandler = true := by
  obtain ⟨words, rfl, each⟩ := derives_many_iff.mp isCaught
  cases words with
  | nil => exact absurd rfl some
  | cons first words =>
      obtain ⟨_, _, rfl, starts, _⟩ := derives_seq_iff.mp (each _ List.mem_cons_self)
      obtain ⟨_, _, rfl, isCatch, _⟩ := derives_seq_iff.mp starts
      obtain ⟨start, startKind, rfl⟩ := derives_kind_iff.mp isCatch
      rw [List.flatten_cons, List.append_assoc, List.append_assoc, List.append_assoc]
      show (handlers (start :: _)).shapes.any Shape.isHandler = true
      unfold handlers
      rw [if_pos startKind]
      rfl

theorem finallyClause?_handled {final : List Lexeme}
    (isFinal : Derives (optional (seq (kind .finallyKeyword) (kind .action))) final)
    (some : final ≠ []) : (finallyClause? (final ++ rest)).shapes.any Shape.isHandler = true := by
  obtain ⟨_, _, rfl, isFinally, _⟩ :=
    derives_seq_iff.mp ((derives_optional_iff.mp isFinal).resolve_right some)
  obtain ⟨start, startKind, rfl⟩ := derives_kind_iff.mp isFinally
  show (finallyClause? (start :: _)).shapes.any Shape.isHandler = true
  unfold finallyClause?
  dsimp only
  rw [if_pos startKind]
  rfl

/-- A rule with something after its semicolon has a handler. -/
theorem ruleBody_handled {body caught final : List Lexeme} {semicolon : Lexeme}
    (isBody : Derives (part .alternatives) body) (isEnd : semicolon.kind = .semicolon)
    (isCaught : Derives (many (all [kind .catchKeyword, kind .bracketBlock, kind .action])) caught)
    (isFinal : Derives (optional (seq (kind .finallyKeyword) (kind .action))) final)
    (ends : HandlersEnd rest) (some : caught ++ final ≠ []) :
    (ruleBody (body ++ semicolon :: (caught ++ (final ++ rest)))).shapes.any Shape.isHandler =
      true := by
  have ended := @ended_leaves (caught ++ (final ++ rest)) _ _ isBody isEnd
  have handled := ended.andThen (handlers_leaves isCaught (next_catch_of_final isFinal ends))
  unfold ruleBody
  rw [shapes_andThen handled.1, shapes_andThen ended.1, List.any_append, List.any_append,
    Bool.or_eq_true, Bool.or_eq_true]
  by_cases none : caught = []
  · rw [none, List.nil_append] at some
    exact .inr (finallyClause?_handled isFinal some)
  · exact .inl (.inr (handlers_handled isCaught none))

/-! ## The shape of a rule -/

/-- The shape is the rule that a word spells: a node of the kind that its name tells, with the
name after the modifiers. -/
inductive Names : List Lexeme → Shape → Prop where
  | rule {modified later : List Lexeme} {name : Lexeme} {more : List Shape}
      (areModifiers : ∀ lexeme ∈ modified, lexeme.kind.isRuleModifier = true)
      (named : name.kind = .identifier) :
      Names (modified ++ name :: later)
        (.node (if Text.isTokenName name.text then .lexerRule else .parserRule)
          (modified.map .leaf ++ .node .name [.leaf name] :: more))

/-- A rule whose head is written leaves one node, which begins with the head. -/
theorem rule_shapes {modified specs : List Lexeme} {name colon : Lexeme}
    (opened : RuleHead modified name specs colon)
    (same : head :: tail = modified ++ name :: (specs ++ colon :: rest)) :
    ∃ more, (rule head tail).shapes =
      [.node (if Text.isTokenName name.text then .lexerRule else .parserRule)
        (modified.map .leaf ++ .node .name [.leaf name] :: (more ++ (ruleBody rest).shapes))] := by
  obtain ⟨_, _, whole, _, read⟩ := rule_opened opened
  rw [whole] at same
  cases same
  obtain ⟨declared, leaves, ⟨more, built⟩, isRule⟩ := read rest
  have filled : (declared.andThen (ruleBody declared.rest)).shapes =
      declared.shapes ++ (ruleBody rest).shapes := shapes_andThen leaves.1
  refine ⟨more, ?_⟩
  rw [isRule]
  show [Shape.node _ (declared.andThen (ruleBody declared.rest)).shapes] = _
  rw [filled, built]
  simp

/-- A rule is read as one node with its name, up to what follows it. -/
theorem rule_names (derives : Derives (part .rule) word) (ends : HandlersEnd rest) :
    ∃ head tail kind children, word = head :: tail ∧ head.kind ∈ .identifier :: modifierKinds ∧
      (rule head (tail ++ rest)).rest = rest ∧
      (rule head (tail ++ rest)).shapes = [.node kind children] ∧
      Names word (.node kind children) ∧
      (children.any Shape.isHandler = false →
        ∃ ended semicolon, word = ended ++ [semicolon] ∧ semicolon.kind = .semicolon) := by
  obtain ⟨head, tail, rfl, headKind, read⟩ := rule_leaves derives
  generalize whole : head :: tail = word at derives
  cases ruleForm_of_derives derives with
  | @parts modified specs body caught final name colon semicolon opened isBody isEnd isCaught
      isFinal =>
      have spelled : head :: (tail ++ rest) = modified ++ name ::
          (specs ++ colon :: (body ++ semicolon :: (caught ++ (final ++ rest)))) := by
        rw [← List.cons_append, whole]
        simp
      obtain ⟨more, built⟩ := rule_shapes opened spelled
      refine ⟨head, tail, _, _, whole.symm, headKind, (read rest ends).1, built,
        .rule (isRuleModifier_of_derives opened.modifiers) opened.named, fun unhandled => ?_⟩
      by_cases none : caught ++ final = []
      · refine ⟨modified ++ name :: (specs ++ colon :: body), semicolon, ?_, isEnd⟩
        rw [none]
        simp
      · have handled := ruleBody_handled isBody isEnd isCaught isFinal ends none
        simp [handled] at unhandled

/-- A rule without its semicolon is read as one node with its name, up to the next rule. -/
theorem unended_names (unended : Unended word) (begins : RuleBegins rest) :
    ∃ head tail shape, word = head :: tail ∧ head.kind ∈ .identifier :: modifierKinds ∧
      (rule head (tail ++ rest)).rest = rest ∧ (rule head (tail ++ rest)).shapes = [shape] ∧
      Names word shape := by
  obtain ⟨head, tail, rfl, headKind, read⟩ := rule_breaks unended
  obtain ⟨modified, name, specs, colon, body, whole, opened, isBody⟩ := unended.form
  have spelled : head :: (tail ++ rest) =
      modified ++ name :: (specs ++ colon :: (body ++ rest)) := by
    rw [← List.cons_append, whole]
    simp
  obtain ⟨more, built⟩ := rule_shapes opened spelled
  refine ⟨head, tail, _, rfl, headKind, (read rest begins).rest, built, ?_⟩
  rw [whole]
  exact .rule (isRuleModifier_of_derives opened.modifiers) opened.named

end Production

end GrammarDesk.Syntax
