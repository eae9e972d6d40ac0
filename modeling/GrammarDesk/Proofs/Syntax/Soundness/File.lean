import GrammarDesk.Proofs.Syntax.Soundness.Element
import GrammarDesk.Syntax.Production.File

/-!
Contract: a file read without a problem has the form of the grammar.

Owns: for the productions of rules and members, the phrase that their lexemes have the form
of once nothing was reported.

Does not own: that nothing is reported of a file of this form (`Completeness`).

Main statement: a file without problems is derived by the grammar (`derives_of_file`).
-/

namespace GrammarDesk.Syntax.Production

open Reading
open Ebnf (Derives production)
open Ebnf.Phrase

variable {head : Lexeme} {tail input : List Lexeme} {fault : Fault}

/-! ## Rules -/

theorem reads_take_modifier (modifier : head.kind.isRuleModifier = true) :
    (take head tail).Reads
      (oneOf
        [kind .fragmentKeyword, kind .publicKeyword, kind .privateKeyword,
          kind .protectedKeyword]) := by
  unfold Kind.isRuleModifier at modifier
  split at modifier
  · exact (reads_take_kind _ ‹_›).mono (.oneOf 0 rfl)
  · exact (reads_take_kind _ ‹_›).mono (.oneOf 1 rfl)
  · exact (reads_take_kind _ ‹_›).mono (.oneOf 2 rfl)
  · exact (reads_take_kind _ ‹_›).mono (.oneOf 3 rfl)
  · exact absurd modifier Bool.false_ne_true

theorem modifiers_reads :
    (modifiers input).Reads
      (many
        (oneOf
          [kind .fragmentKeyword, kind .publicKeyword, kind .privateKeyword,
            kind .protectedKeyword])) := by
  induction input with
  | nil => exact reads_nothing_many
  | cons head tail inductionHypothesis =>
      unfold modifiers
      split
      · exact (reads_take_modifier ‹_›).attempt.more inductionHypothesis
      · exact reads_nothing_many

theorem moreThrown_reads :
    (moreThrown input).Reads (many (seq (kind .comma) (kind .identifier))) := by
  induction input using moreThrown.induct with
  | case1 =>
      unfold moreThrown
      exact reads_nothing_many
  | case2 head tail comma named inductionHypothesis =>
      unfold moreThrown
      rw [if_pos comma]
      exact ((reads_take_kind _ comma).expect .identifier).attempt.more inductionHypothesis
  | case3 head tail other =>
      unfold moreThrown
      rw [if_neg other]
      exact reads_nothing_many

/-- Read without a fault, a specification is one of the prequels of a rule. -/
theorem ruleSpec?_reads {reading : Advance head tail}
    (starts : ruleSpec? head tail = some reading) : reading.Reads (part .prequel) := by
  apply Reads.part
  unfold ruleSpec? at starts
  dsimp only at starts
  split at starts
  · cases starts
    exact (reads_take_kind _ ‹_›).node.mono (.oneOf 0 rfl)
  · cases starts
    exact ((reads_take_kind _ ‹_›).expect .bracketBlock).node.mono (.oneOf 1 rfl)
  · cases starts
    exact ((reads_take_kind _ ‹_›).expect .bracketBlock).node.mono (.oneOf 2 rfl)
  · cases starts
    have named := (reads_take_kind tail ‹_›).expect .identifier
    have thrown := (named.andThen moreThrown_reads).mono Ebnf.derives_seq_assoc.mp
    exact thrown.node.mono (.oneOf 3 rfl)
  · cases starts
    exact (optionsSpec_reads ‹_›).mono (.oneOf 4 rfl)
  · cases starts
    have named := (reads_take_kind tail ‹_›).expect .identifier
    exact (named.expect .action).node.mono (.oneOf 5 rfl)
  · cases starts

theorem ruleSpecs_reads : (ruleSpecs input).Reads (many (part .prequel)) := by
  induction input using ruleSpecs.induct with
  | case1 =>
      unfold ruleSpecs
      exact reads_nothing_many
  | case2 head tail none =>
      unfold ruleSpecs
      simp only [none]
      exact reads_nothing_many
  | case3 head tail first starts inductionHypothesis =>
      unfold ruleSpecs
      simp only [starts]
      exact (ruleSpec?_reads starts).attempt.more inductionHypothesis

theorem ruleEnd_reads : (ruleEnd input).Reads (kind .semicolon) := by
  cases input with
  | nil => exact faulty_reportAfter.reads
  | cons head tail =>
      unfold ruleEnd
      dsimp only
      split
      · exact (reads_take_kind _ ‹_›).attempt
      · split
        · exact faulty_reportAfter.reads
        · exact Reads.attempt faulty_recover.eat.reads

theorem handlers_reads :
    (handlers input).Reads
      (many (all [kind .catchKeyword, kind .bracketBlock, kind .action])) := by
  induction input using handlers.induct with
  | case1 =>
      unfold handlers
      exact reads_nothing_many
  | case2 head tail catches handler inductionHypothesis =>
      unfold handlers
      rw [if_pos catches]
      have one := ((reads_take_kind tail catches).expect .bracketBlock).expect .action
      exact one.node.attempt.more inductionHypothesis
  | case3 head tail other =>
      unfold handlers
      rw [if_neg other]
      exact reads_nothing_many

theorem finallyClause?_reads :
    (finallyClause? input).Reads (optional (seq (kind .finallyKeyword) (kind .action))) := by
  cases input with
  | nil => exact reads_nothing_optional
  | cons head tail =>
      unfold finallyClause?
      dsimp only
      split
      · exact ((reads_take_kind _ ‹_›).expect .action).node.attempt.mono .left
      · exact reads_nothing_optional

theorem ruleBody_reads :
    (ruleBody input).Reads
      (all
        [part .alternatives, kind .semicolon,
          many (all [kind .catchKeyword, kind .bracketBlock, kind .action]),
          optional (seq (kind .finallyKeyword) (kind .action))]) := by
  have ended := (alternativeList_reads input).andThen ruleEnd_reads
  exact (ended.andThen handlers_reads).andThen finallyClause?_reads

theorem ruleName_reads (tail : List Lexeme)
    (starts : head.kind = .identifier ∨ head.kind.isRuleModifier = true) :
    (ruleName head tail).Reads
      (seq
        (many
          (oneOf
            [kind .fragmentKeyword, kind .publicKeyword, kind .privateKeyword,
              kind .protectedKeyword]))
        (kind .identifier)) := by
  unfold ruleName
  split
  · exact ((reads_take_modifier ‹_›).more modifiers_reads).andThen (name_reads _)
  · rename_i unmodified
    have named : ((take head tail).node .name).Reads (kind .identifier) :=
      (reads_take_kind _ (starts.resolve_right unmodified)).node
    exact named.mono fun derives => Ebnf.derives_seq_iff.mpr ⟨[], _, rfl, .none, derives⟩

theorem rule_reads (starts : head.kind = .identifier ∨ head.kind.isRuleModifier = true) :
    (rule head tail).Reads (part .rule) := by
  unfold rule
  dsimp only
  have declared := (ruleName_reads tail starts).andThen ruleSpecs_reads
  refine Reads.part (Reads.node ?_)
  split
  · exact ((declared.bump ‹_›).andThen ruleBody_reads).mono .seq_all
  · split
    · exact (faulty_report.andThen _).reads
    · exact faulty_report.reads

/-! ## Members -/

theorem header_reads
    (starts : head.kind = .grammarKeyword ∨ head.kind = .lexerKeyword ∨
      head.kind = .parserKeyword) :
    (header head tail).Reads (part .header) := by
  unfold header
  dsimp only
  refine (Reads.expect (Reads.andThen ?_ (name_reads _)) .semicolon).node.part
  split
  · exact (reads_take_kind _ ‹_›).mono fun derives =>
      Ebnf.derives_seq_iff.mpr ⟨[], _, rfl, .right .empty, derives⟩
  · rename_i worded
    refine Reads.expect (Reads.mono ?_ .left) .grammarKeyword
    rcases starts.resolve_left worded with lexer | parser
    · exact (reads_take_kind _ lexer).mono (.oneOf 0 rfl)
    · exact (reads_take_kind _ parser).mono (.oneOf 1 rfl)

theorem importAlias?_reads :
    (importAlias? input).Reads (optional (seq (kind .identifier) (kind .equals))) := by
  cases input with
  | nil => exact reads_nothing_optional
  | cons head tail =>
      unfold importAlias?
      dsimp only
      split
      · rename_i aliased
        exact ((reads_take_kind _ aliased.1).node.bump aliased.2).attempt.mono .left
      · exact reads_nothing_optional

theorem importTarget_reads : (importTarget input).Reads (kind .identifier) := by
  cases input with
  | nil => exact faulty_report.reads
  | cons head tail =>
      unfold importTarget
      dsimp only
      split
      · exact (reads_take_kind _ ‹_›).node.attempt
      · exact faulty_report.reads

theorem importItem_reads : (importItem input).Reads (part .item) :=
  (importAlias?_reads.andThen importTarget_reads).node.part

theorem moreImports_reads :
    (moreImports input).Reads (many (seq (kind .comma) (part .item))) := by
  induction input using moreImports.induct with
  | case1 =>
      unfold moreImports
      exact reads_nothing_many
  | case2 head tail comma separated more inductionHypothesis =>
      unfold moreImports
      rw [if_pos comma]
      exact ((reads_take_kind _ comma).andThen importItem_reads).attempt.more inductionHypothesis
  | case3 head tail other =>
      unfold moreImports
      rw [if_neg other]
      exact reads_nothing_many

theorem importDecl_reads (same : head.kind = .importKeyword) :
    (importDecl head tail).Reads (part .imports) := by
  have first := (reads_take_kind tail same).andThen importItem_reads
  have items := (first.andThen moreImports_reads).mono Ebnf.derives_seq_assoc.mp
  exact (items.expect .semicolon).node.part

/-- A name and a comma before a list of names make a longer list. -/
theorem derives_names_cons {name comma : Lexeme} {word : List Lexeme}
    (isName : name.kind = .identifier) (isComma : comma.kind = .comma)
    (derives :
      Derives (optional (seq (separated .comma (kind .identifier)) (optional (kind .comma))))
        word) :
    Derives (optional (seq (separated .comma (kind .identifier)) (optional (kind .comma))))
      (name :: comma :: word) := by
  have first : Derives (kind .identifier) [name] := .token (decide_eq_true isName)
  have separator : Derives (kind .comma) [comma] := .token (decide_eq_true isComma)
  rcases Ebnf.derives_optional_iff.mp derives with names | rfl
  · obtain ⟨listed, last, rfl, list, trailing⟩ := Ebnf.derives_seq_iff.mp names
    obtain ⟨second, others, rfl, single, further⟩ := Ebnf.derives_seq_iff.mp list
    have longer := Derives.seq first (.more (.seq separator single) further)
    exact (Derives.seq longer trailing).left
  · exact .left (.seq (.seq first .none) (.left separator))

/-- Read without a fault, entries are separated by commas, and one more comma may follow the
last. -/
theorem listEntries_reads (entry : Kind) :
    (listEntries entry input).Reads
      (optional (seq (separated .comma (kind .identifier)) (optional (kind .comma)))) := by
  induction input using (listEntries.induct entry) with
  | case1 =>
      unfold listEntries
      exact reads_nothing_optional
  | case2 head tail same named comma separated inductionHypothesis =>
      unfold listEntries
      dsimp only
      rw [if_pos same, if_pos comma]
      have one : named.Reads (kind .identifier) := (reads_take_kind tail same).node.node
      have both := one.bump comma
      apply (both.attempt.andThen inductionHypothesis).mono
      intro _ derives
      obtain ⟨_, rest, rfl, pair, rest⟩ := Ebnf.derives_seq_iff.mp derives
      obtain ⟨_, _, rfl, one, other⟩ := Ebnf.derives_seq_iff.mp pair
      obtain ⟨name, isName, rfl⟩ := Ebnf.derives_kind_iff.mp one
      obtain ⟨comma, isComma, rfl⟩ := Ebnf.derives_kind_iff.mp other
      exact derives_names_cons isName isComma rest
  | case3 head tail same named last =>
      unfold listEntries
      dsimp only
      rw [if_pos same, if_neg last]
      apply (reads_take_kind tail same).node.node.attempt.mono
      intro word derives
      obtain ⟨name, isName, rfl⟩ := Ebnf.derives_kind_iff.mp derives
      exact .left (.seq (.seq derives .none) (.right .empty))
  | case4 head tail other =>
      unfold listEntries
      rw [if_neg other]
      exact reads_nothing_optional

theorem listRemainder_reads : (listRemainder input).Reads empty := by
  cases input with
  | nil => exact reads_nothing
  | cons head tail =>
      unfold listRemainder
      dsimp only
      split
      · exact reads_nothing
      · exact Reads.attempt faulty_recover.reads

theorem nameList_reads {list entry : Kind}
    (starts : head.kind = .tokensKeyword ∨ head.kind = .channelsKeyword) :
    (nameList list entry head tail).Reads (part .names) := by
  have opened : (take head tail).Reads (oneOf [kind .tokensKeyword, kind .channelsKeyword]) := by
    rcases starts with tokens | channels
    · exact (reads_take_kind _ tokens).mono (.oneOf 0 rfl)
    · exact (reads_take_kind _ channels).mono (.oneOf 1 rfl)
  unfold nameList
  dsimp only
  refine Reads.part (Reads.node ?_)
  split
  · have named := (opened.bump ‹_›).andThen (listEntries_reads entry)
    have listed := (named.andThen listRemainder_reads).mono fun derives => by
      obtain ⟨left, _, rfl, former, nothing⟩ := Ebnf.derives_seq_iff.mp derives
      rw [Ebnf.derives_empty_iff.mp nothing, List.append_nil]
      exact former
    exact listed.expect .rightBrace
  · exact faulty_report.reads

theorem reads_takeNext_actionName (input : List Lexeme) (next : Ahead.actionName input = true) :
    (takeNext input).Reads (part .actionName) := by
  simp only [Ahead.actionName, Ahead.oneOf, List.any_cons, List.any_nil, Bool.or_false,
    Bool.or_eq_true] at next
  apply Reads.part
  rcases next with identifier | parser | lexer
  · exact (reads_takeNext identifier).mono (.oneOf 0 rfl)
  · exact (reads_takeNext parser).mono (.oneOf 1 rfl)
  · exact (reads_takeNext lexer).mono (.oneOf 2 rfl)

theorem actionName_reads :
    (actionName input).Reads
      (seq (part .actionName) (optional (seq (kind .doubleColon) (part .actionName)))) := by
  cases input with
  | nil => exact faulty_report.reads
  | cons head tail =>
      unfold actionName
      dsimp only
      split
      · have first : (take head tail).Reads (part .actionName) :=
          reads_takeNext_actionName (head :: tail) ‹_›
        refine Reads.attempt (Reads.node ?_)
        split
        · have opened := first.bump ‹_›
          split
          · apply Reads.mono (opened.andThen (reads_takeNext_actionName _ ‹_›))
            intro _ derives
            obtain ⟨left, right, rfl, former, latter⟩ :=
              Ebnf.derives_seq_iff.mp (Ebnf.derives_seq_assoc.mp derives)
            exact .seq former (.left latter)
          · exact faulty_report.reads
        · apply first.mono
          intro word derives
          rw [← List.append_nil word]
          exact .seq derives (.right .empty)
      · exact faulty_report.reads

theorem namedAction_reads (same : head.kind = .atSign) :
    (namedAction head tail).Reads (part .namedAction) := by
  have named := (reads_take_kind tail same).andThen actionName_reads
  exact ((named.mono Ebnf.derives_seq_assoc.mpr).expect .action).node.part

theorem modeRules_reads : (modeRules input).Reads (many (part .rule)) := by
  induction input using modeRules.induct with
  | case1 =>
      unfold modeRules
      exact reads_nothing_many
  | case2 head tail starts first inductionHypothesis =>
      unfold modeRules
      rw [if_pos starts]
      exact (rule_reads starts).attempt.more inductionHypothesis
  | case3 head tail noRule stray first _ =>
      unfold modeRules
      rw [if_neg noRule, if_pos stray]
      have faulty : (unreadable head tail).Faulty := faulty_take stray
      exact (Faulty.andThen faulty _).reads
  | case4 head tail noRule readable started =>
      unfold modeRules
      rw [if_neg noRule, if_neg readable, if_pos started]
      exact reads_nothing_many
  | case5 head tail noRule readable unstarted skipped _ =>
      unfold modeRules
      rw [if_neg noRule, if_neg readable, if_neg unstarted]
      exact (Faulty.andThen faulty_recover.eat _).reads

/-- A mode and its rules are members one after another. -/
theorem modeSection_reads (same : head.kind = .modeKeyword) :
    (modeSection head tail).Reads (many (part .member)) := by
  have named := (reads_take_kind tail same).andThen (name_reads .missingModeName)
  apply ((named.expect .semicolon).andThen modeRules_reads).node.mono
  intro _ derives
  obtain ⟨_, _, rfl, mode, rules⟩ := Ebnf.derives_seq_iff.mp derives
  have first := Ebnf.derives_member_iff.mpr ⟨.mode, by decide, .part mode⟩
  exact .more first (rules.many_mono fun rule =>
    Ebnf.derives_member_iff.mpr ⟨.rule, by decide, rule⟩)

/-! ## The file -/

theorem faulty_stray : (stray head tail).Faulty :=
  faulty_recover.eat

theorem member_of_form {form : Ebnf.Nonterminal} {reading : Advance head tail}
    (isForm : form ∈ Ebnf.memberForms) (reads : reading.Reads (part form)) :
    reading.Reads (many (part .member)) :=
  reads.mono fun derives => (Ebnf.derives_member_iff.mpr ⟨form, isForm, derives⟩).single

theorem modified_reads (modifier : Kind) (same : head.kind = modifier)
    (isModifier : modifier.isRuleModifier = true) :
    (rule head tail).Reads (many (part .member)) :=
  member_of_form (by decide) (rule_reads (.inr (same ▸ isModifier)))

/-- What is read at the top of a file derives from members, or there is a fault. -/
theorem member_reads : (member head tail).Reads (many (part .member)) := by
  unfold member
  split
  · exact member_of_form (by decide) (header_reads (.inl ‹_›))
  · split
    · exact member_of_form (by decide) (header_reads (.inr (.inl ‹_›)))
    · exact faulty_stray.reads
  · split
    · exact member_of_form (by decide) (header_reads (.inr (.inr ‹_›)))
    · exact faulty_stray.reads
  · exact member_of_form (by decide) (optionsSpec_reads ‹_›)
  · exact member_of_form (by decide) (importDecl_reads ‹_›)
  · exact member_of_form (by decide) (nameList_reads (.inl ‹_›))
  · exact member_of_form (by decide) (nameList_reads (.inr ‹_›))
  · exact member_of_form (by decide) (namedAction_reads ‹_›)
  · exact modeSection_reads ‹_›
  · exact member_of_form (by decide) (rule_reads (.inl ‹_›))
  · exact modified_reads .fragmentKeyword ‹_› rfl
  · exact modified_reads .publicKeyword ‹_› rfl
  · exact modified_reads .privateKeyword ‹_› rfl
  · exact modified_reads .protectedKeyword ‹_› rfl
  · exact (faulty_take ‹_›).reads.node
  · exact faulty_stray.reads

theorem ruleKind_ne_header (input : List Lexeme) : ruleKind input ≠ .header := by
  unfold ruleKind
  split
  · split
    · split <;> decide
    · split <;> decide
  · split <;> decide

/-- A member under a header node has the form of a header. -/
theorem header_of_member (isHeader : (member head tail).shapes.any (Shape.isNode .header) = true) :
    (member head tail).Reads (part .header) := by
  have noRule : (rule head tail).shapes.any (Shape.isNode .header) = false := by
    show ((ruleKind (head :: tail) = Kind.header : Bool) || false) = false
    rw [decide_eq_false (ruleKind_ne_header _), Bool.or_false]
  revert isHeader
  unfold member
  split
  · exact fun _ => header_reads (.inl ‹_›)
  · split
    · exact fun _ => header_reads (.inr (.inl ‹_›))
    · exact fun _ => faulty_stray.reads
  · split
    · exact fun _ => header_reads (.inr (.inr ‹_›))
    · exact fun _ => faulty_stray.reads
  iterate 6 exact fun isHeader => absurd isHeader Bool.false_ne_true
  iterate 5 exact fun isHeader => absurd isHeader (by rw [noRule]; exact Bool.false_ne_true)
  · exact fun isHeader => absurd isHeader Bool.false_ne_true
  · exact fun _ => faulty_stray.reads

theorem members_reads : (members input).Reads (many (part .member)) := by
  induction input using members.induct with
  | case1 =>
      unfold members
      exact reads_nothing_many
  | case2 head tail first inductionHypothesis =>
      unfold members
      apply (member_reads.append inductionHypothesis).mono
      intro _ derives
      obtain ⟨_, _, rfl, former, latter⟩ := Ebnf.derives_seq_iff.mp derives
      exact former.many_append latter

/-- Members of which one is under a header node have the form of a file. -/
theorem members_header
    (isHeader : (members input).shapes.any (Shape.isNode .header) = true) :
    (members input).Reads Ebnf.file := by
  induction input using members.induct with
  | case1 =>
      unfold members at isHeader
      exact absurd isHeader Bool.false_ne_true
  | case2 head tail first inductionHypothesis =>
      unfold members at isHeader ⊢
      dsimp only at isHeader ⊢
      change (first.shapes ++ (members first.rest).shapes).any _ = true at isHeader
      rw [List.any_append, Bool.or_eq_true] at isHeader
      rcases isHeader with inFirst | inRest
      · have header := (header_of_member inFirst).append members_reads
        refine header.mono fun derives => Derives.seq_all ?_
        exact Ebnf.derives_seq_iff.mpr ⟨[], _, rfl, .none, derives⟩
      · apply (member_reads.append (inductionHypothesis inRest)).mono
        intro _ derives
        obtain ⟨_, _, rfl, former, latter⟩ := Ebnf.derives_seq_iff.mp derives
        obtain ⟨_, after, rfl, both, after⟩ := Ebnf.derives_seq_iff.mp latter
        obtain ⟨before, header, rfl, before, header⟩ := Ebnf.derives_seq_iff.mp both
        have longer : Derives Ebnf.file _ := .seq (.seq (former.many_append before) header) after
        simpa only [List.append_assoc] using longer

/-- A file read without a problem is derived by the grammar. -/
theorem derives_of_file (clean : (file input).2 = []) : Derives Ebnf.file input := by
  unfold file at clean
  dsimp only at clean
  split at clean
  · rename_i isHeader
    have derives := members_header isHeader clean
    rwa [leavesOf_members] at derives
  · cases clean

end GrammarDesk.Syntax.Production
