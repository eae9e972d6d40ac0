import GrammarDesk.Proofs.Syntax.Contents
import GrammarDesk.Proofs.Syntax.Layout

/-!
Contract: the slots that each production fills.

Owns: the proof that whatever lexemes a text has, every node that is read from them has under
it what its kind has slots for, and that the same holds in the tree of the text.

Does not own: the slots (`Contents`).

Main statements: `Production.file_fills`, `Parse.nested_of_text`.
-/

namespace GrammarDesk.Syntax

open Reading

namespace Production

variable {head : Lexeme} {tail input : List Lexeme} {fault : Fault}

/-! ## Names and skipping -/

theorem name_fills (fault : Fault) : (name fault input).Fills [.optional [.node .name]] := by
  cases input with
  | nil => exact fills_nothing.report.orNothing
  | cons head tail =>
      unfold name
      dsimp only
      split
      case isTrue same =>
        exact ((fills_take_kind _ same).nodeOver (by decide)).attempt.optional
      case isFalse => exact fills_nothing.report.orNothing

theorem nameRef_fills (same : head.kind = .identifier) :
    (nameRef head tail).Fills [.one [.node .nameRef]] :=
  (fills_take_kind _ same).nodeOver (by decide)

theorem skipUntil_fills (stop : List Lexeme → Bool) :
    (skipUntil stop input).Fills [.many anyToken] := by
  induction input with
  | nil => exact fills_nothing_many
  | cons head tail inductionHypothesis =>
      unfold skipUntil
      split
      · exact fills_nothing_many
      · exact (fills_take (mem_anyToken head.kind)).many.attempt.more inductionHypothesis

theorem recover_fills {resume : List Kind} :
    (recover fault resume head tail).Fills [.one [.node .error]] := by
  have first : (take head tail).Fills [.many anyToken] :=
    (fills_take (mem_anyToken head.kind)).many
  unfold recover
  dsimp only
  split
  · exact first.node.preface
  · exact (first.more (skipUntil_fills _)).node.preface

theorem unreadable_fills : (unreadable head tail).Fills [.one [.node .error]] :=
  (fills_take (mem_anyToken head.kind)).many.node

/-! ## Options -/

theorem dottedParts_fills :
    (dottedParts input).Fills [.many [.token .dot, .token .identifier]] := by
  induction input using dottedParts.induct with
  | case1 dot part tail kinds both inductionHypothesis =>
      unfold dottedParts
      rw [if_pos kinds]
      have next : Ahead.next .identifier (take dot (part :: tail)).rest = true :=
        decide_eq_true kinds.2
      have first := (fills_take_kind _ kinds.1).bump next
      exact (first.attempt.cover (by decide)).more inductionHypothesis
  | case2 dot part tail kinds =>
      unfold dottedParts
      rw [if_neg kinds]
      exact fills_nothing_many
  | case3 input short =>
      rw [dottedParts.eq_2 _ short]
      exact fills_nothing_many

theorem optionValue_fills :
    (optionValue input).Fills
      [.optional [.node .nameRef, .token .string, .token .integer, .token .action]] := by
  cases input with
  | nil => exact fills_nothing.report.orNothing
  | cons head tail =>
      unfold optionValue
      dsimp only
      split
      · rename_i same
        have dotted := (fills_take_kind _ same).andThen (@dottedParts_fills tail)
        exact (dotted.nodeOver (by decide)).attempt.cover (by decide)
      · exact (fills_take_kind _ ‹_›).attempt.cover (by decide)
      · exact (fills_take_kind _ ‹_›).attempt.cover (by decide)
      · exact (fills_take_kind _ ‹_›).attempt.cover (by decide)
      · exact fills_nothing.report.orNothing

theorem option_fills (same : head.kind = .identifier) :
    (option head tail).Fills [.one [.node .option]] := by
  unfold option
  dsimp only
  split
  case isTrue next =>
    have signed := (fills_take_kind _ same).bump next
    exact ((signed.andThen optionValue_fills).expect _).nodeOver (by decide)
  case isFalse =>
    exact ((fills_take_kind _ same).report.expect _).nodeOver (by decide)

theorem options_fills :
    (options input).Fills [.many [.node .option, .node .error, .token .semicolon]] := by
  induction input using options.induct with
  | case1 =>
      unfold options
      exact fills_nothing_many
  | case2 head tail closed =>
      unfold options
      rw [if_pos closed]
      exact fills_nothing_many
  | case3 head tail going named first inductionHypothesis =>
      unfold options
      rw [if_neg going, if_pos named]
      exact ((option_fills named.1).attempt.cover (by decide)).more inductionHypothesis
  | case4 head tail going unnamed started =>
      unfold options
      rw [if_neg going, if_neg unnamed, if_pos started]
      exact fills_nothing_many
  | case5 head tail going unnamed unstarted skipped inductionHypothesis =>
      unfold options
      rw [if_neg going, if_neg unnamed, if_neg unstarted]
      exact (recover_fills.eat.attempt.cover (by decide)).more inductionHypothesis

theorem optionsSpec_fills (same : head.kind = .optionsKeyword) :
    (optionsSpec head tail).Fills [.one [.node .optionsSpec]] := by
  unfold optionsSpec
  dsimp only
  split
  case isTrue next =>
    have braced := (fills_take_kind _ same).bump next
    exact ((braced.andThen options_fills).expect _).nodeOver (by decide)
  case isFalse => exact (fills_take_kind _ same).report.nodeOver (by decide)

theorem elementOptions?_fills :
    (elementOptions? input).Fills [.optional [.node .elementOptions]] := by
  cases input with
  | nil => exact fills_nothing.orNothing
  | cons head tail =>
      unfold elementOptions? elementOptions
      dsimp only
      split
      case isTrue same =>
        have opened := fills_take_kind tail same
        exact ((opened.andThen (skipUntil_fills _)).expect _).node.attempt.optional
      case isFalse => exact fills_nothing.orNothing

theorem arguments?_fills : (arguments? input).Fills [.optional [.node .argSpec]] := by
  cases input with
  | nil => exact fills_nothing.orNothing
  | cons head tail =>
      unfold arguments?
      dsimp only
      split
      case isTrue same => exact ((fills_take_kind _ same).nodeOver (by decide)).attempt.optional
      case isFalse => exact fills_nothing.orNothing

/-! ## Lexer commands -/

theorem commandArgument_fills :
    (commandArgument input).Fills
      [.optional [.token .leftParen], .optional [.node .nameRef, .token .integer],
        .optional [.token .rightParen]] := by
  cases input with
  | nil => exact fills_nothing.cover (by decide)
  | cons head tail =>
      unfold commandArgument
      dsimp only
      split
      case isTrue same =>
        have opened (tail : List Lexeme) := fills_take_kind tail same
        split
        · exact ((opened []).report.expect _).attempt.cover (by decide)
        · rename_i argument rest
          split
          case isTrue named =>
            have filled := (opened _).andThen (@nameRef_fills _ rest named).attempt
            exact (filled.expect _).attempt.cover (by decide)
          case isFalse =>
            split
            case isTrue number =>
              have next : Ahead.next .integer (argument :: rest) = true := decide_eq_true number
              exact (((opened _).bump next).expect _).attempt.cover (by decide)
            case isFalse => exact ((opened _).report.expect _).attempt.cover (by decide)
      case isFalse => exact fills_nothing.cover (by decide)

theorem lexerCommand_fills : (lexerCommand input).Fills [.one [.node .lexerCommand]] := by
  have named : (if Ahead.oneOf [.identifier, .modeKeyword] input then takeNext input
      else (nothing input).report .missingCommand).Fills
        [.optional [.token .identifier, .token .modeKeyword]] := by
    split
    case isTrue next => exact (fills_takeNext next).optional
    case isFalse => exact fills_nothing.report.orNothing
  exact (named.andThen commandArgument_fills).nodeOver (by decide)

theorem moreLexerCommands_fills :
    (moreLexerCommands input).Fills [.many [.node .lexerCommand, .token .comma]] := by
  induction input using moreLexerCommands.induct with
  | case1 =>
      unfold moreLexerCommands
      exact fills_nothing_many
  | case2 head tail comma separated commanded inductionHypothesis =>
      unfold moreLexerCommands
      rw [if_pos comma]
      have one := (fills_take_kind tail comma).andThen lexerCommand_fills
      exact (one.attempt.cover (by decide)).more inductionHypothesis
  | case3 head tail other =>
      unfold moreLexerCommands
      rw [if_neg other]
      exact fills_nothing_many

theorem lexerCommands?_fills :
    (lexerCommands? input).Fills [.optional [.node .lexerCommands]] := by
  cases input with
  | nil => exact fills_nothing.orNothing
  | cons head tail =>
      unfold lexerCommands? lexerCommands
      dsimp only
      split
      case isTrue same =>
        have first := (fills_take_kind tail same).andThen lexerCommand_fills
        exact ((first.andThen moreLexerCommands_fills).nodeOver (by decide)).attempt.optional
      case isFalse => exact fills_nothing.orNothing

/-! ## Bodies -/

theorem alternativeLabel?_fills :
    (alternativeLabel? input).Fills [.optional [.node .alternativeLabel]] := by
  cases input with
  | nil => exact fills_nothing.orNothing
  | cons head tail =>
      unfold alternativeLabel?
      dsimp only
      split
      case isTrue same =>
        have named := (fills_take_kind tail same).andThen (name_fills .missingLabelName)
        exact (named.nodeOver (by decide)).attempt.optional
      case isFalse => exact fills_nothing.orNothing

theorem blockOptions?_fills :
    (blockOptions? input).Fills [.optional [.node .optionsSpec], .optional [.token .colon]] := by
  cases input with
  | nil => exact fills_nothing.cover (by decide)
  | cons head tail =>
      unfold blockOptions?
      dsimp only
      split
      case isTrue same => exact ((optionsSpec_fills same).expect _).attempt.cover (by decide)
      case isFalse => exact fills_nothing.cover (by decide)

mutual

theorem alternativeList_fills (input : List Lexeme) :
    (alternativeList input).Fills [.one [.node .alternativeList]] := by
  unfold alternativeList
  have first := alternative_fills input
  exact (first.andThen (moreAlternatives_fills _)).nodeOver (by decide)
termination_by rank input.length 6
decreasing_by
  · exact rank_lt (Nat.le_refl _) (by decide)
  · exact rank_lt (alternative input).within (by decide)

theorem moreAlternatives_fills (input : List Lexeme) :
    (moreAlternatives input).Fills [.many [.token .pipe, .node .alternative]] := by
  match input with
  | [] =>
      unfold moreAlternatives
      exact fills_nothing_many
  | head :: tail =>
      unfold moreAlternatives
      dsimp only
      split
      · have one := (fills_take_kind tail ‹_›).andThen (alternative_fills tail)
        exact (one.attempt.cover (by decide)).more (moreAlternatives_fills _)
      · exact fills_nothing_many
termination_by rank input.length 5
decreasing_by
  · exact rank_lt_of_shorter (Nat.lt_succ_self _) (by decide)
  · exact rank_lt_of_shorter (Nat.lt_succ_of_le
      ((take head tail).andThen (alternative (take head tail).rest)).within) (by decide)

theorem alternative_fills (input : List Lexeme) :
    (alternative input).Fills [.one [.node .alternative]] := by
  unfold alternative
  have opened : (elementOptions? input).Fills [.optional [.node .elementOptions]] :=
    elementOptions?_fills
  have filled := opened.andThen (elements_fills _)
  exact ((filled.andThen alternativeLabel?_fills).andThen lexerCommands?_fills).node
termination_by rank input.length 4
decreasing_by exact rank_lt (elementOptions? input).within (by decide)

theorem elements_fills (input : List Lexeme) : (elements input).Fills [.many elementParts] := by
  match input with
  | [] =>
      unfold elements
      exact fills_nothing_many
  | head :: tail =>
      unfold elements
      dsimp only
      split
      · exact (element_fills head tail).many.attempt.more (elements_fills _)
      · exact fills_nothing_many
termination_by rank input.length 3
decreasing_by
  · exact rank_lt (Nat.le_refl _) (by decide)
  · exact rank_lt_of_shorter (Nat.lt_succ_of_le (element head tail).within) (by decide)

theorem element_fills (head : Lexeme) (tail : List Lexeme) :
    (element head tail).Fills [.one elementParts] := by
  unfold element
  dsimp only
  have body := labeledElement_fills head tail
  split
  · exact ((body.bump_oneOf ‹_›).eat.nodeOver (by decide)).cover (by decide)
  · exact body.cover (by decide)
termination_by rank (tail.length + 1) 2
decreasing_by exact rank_lt (Nat.le_refl _) (by decide)

theorem labeledElement_fills (head : Lexeme) (tail : List Lexeme) :
    (labeledElement head tail).Fills [.one (.node .labeledElement :: atomParts)] := by
  match tail with
  | [] =>
      unfold labeledElement
      exact (atom_fills head []).cover (by decide)
  | sign :: rest =>
      unfold labeledElement
      dsimp only
      split
      · rename_i labels
        have signed : (take sign rest).Fills [.one [.token .equals, .token .plusEquals]] := by
          rcases labels.2 with equals | plusEquals
          · exact (fills_take_kind _ equals).cover (by decide)
          · exact (fills_take_kind _ plusEquals).cover (by decide)
        have labeled := (fills_take_kind (sign :: rest) labels.1).andThen signed.attempt
        have filled := labeled.andThen (operand_fills .missingLabeledElement rest)
        exact (filled.nodeOver (by decide)).cover (by decide)
      · exact (atom_fills head (sign :: rest)).cover (by decide)
termination_by rank (tail.length + 1) 1
decreasing_by
  · exact rank_lt (Nat.le_refl _) (by decide)
  · exact rank_lt (Nat.le_refl _) (by decide)
  · exact rank_lt_of_shorter (Nat.lt_succ_of_lt (Nat.lt_succ_self _)) (by decide)

theorem operand_fills (missing : Fault) (input : List Lexeme) :
    (operand missing input).Fills [.optional atomParts] := by
  match input with
  | [] =>
      unfold operand
      exact fills_nothing.report.orNothing
  | head :: tail =>
      unfold operand
      split
      · exact (atom_fills head tail).attempt.optional
      · exact fills_nothing.report.orNothing
termination_by rank input.length 1
decreasing_by exact rank_lt (Nat.le_refl _) (by decide)

/-- An atom is one part, and the parts of a block fill the slots of its node; by induction on
how much is left to read, since a block holds atoms. -/
theorem atom_fills (head : Lexeme) (tail : List Lexeme) :
    (atom head tail).Fills [.one atomParts] := by
  unfold atom
  dsimp only
  split
  · rename_i same
    have named := fills_take_kind tail same
    split
    · exact ((named.andThen elementOptions?_fills).nodeOver (by decide)).cover (by decide)
    · have applied := named.andThen arguments?_fills
      exact ((applied.andThen elementOptions?_fills).nodeOver (by decide)).cover (by decide)
  · rename_i same
    have first := fills_take_kind tail same
    split
    · have opened := first.bump ‹_›
      split
      · exact ((opened.bump ‹_›).nodeOver (by decide)).cover (by decide)
      · exact (opened.report.nodeOver (by decide)).cover (by decide)
    · exact ((first.andThen elementOptions?_fills).nodeOver (by decide)).cover (by decide)
  · rename_i same
    have opened := (fills_take_kind tail same).andThen blockOptions?_fills
    have filled := opened.andThen (alternativeList_fills _)
    exact ((filled.expect _).nodeOver (by decide)).cover (by decide)
  · rename_i same
    have first := fills_take_kind tail same
    exact ((first.andThen elementOptions?_fills).nodeOver (by decide)).cover (by decide)
  · rename_i same
    have negated := operand_fills .missingNegatedElement tail
    exact (((fills_take_kind _ same).andThen negated).nodeOver (by decide)).cover (by decide)
  · rename_i same
    have first := fills_take_kind tail same
    split
    · have asked := first.bump ‹_›
      exact ((asked.andThen elementOptions?_fills).nodeOver (by decide)).cover (by decide)
    · exact (first.nodeOver (by decide)).cover (by decide)
  · rename_i same
    exact ((fills_take_kind _ same).nodeOver (by decide)).cover (by decide)
  · exact unreadable_fills.cover (by decide)
termination_by rank (tail.length + 1) 0
decreasing_by
  · exact rank_lt_of_shorter (Nat.lt_succ_of_le
      ((take head tail).andThen (blockOptions? (take head tail).rest)).within) (by decide)
  · exact rank_lt_of_shorter (Nat.lt_succ_self _) (by decide)

end

/-! ## Rules -/

theorem fills_take_modifier (modifier : head.kind.isRuleModifier = true) :
    (take head tail).Fills [.one modifierParts] := by
  unfold Kind.isRuleModifier at modifier
  split at modifier
  · exact (fills_take_kind _ ‹_›).cover (by decide)
  · exact (fills_take_kind _ ‹_›).cover (by decide)
  · exact (fills_take_kind _ ‹_›).cover (by decide)
  · exact (fills_take_kind _ ‹_›).cover (by decide)
  · exact absurd modifier Bool.false_ne_true

theorem modifiers_fills : (modifiers input).Fills [.many modifierParts] := by
  induction input with
  | nil => exact fills_nothing_many
  | cons head tail inductionHypothesis =>
      unfold modifiers
      split
      · exact (fills_take_modifier ‹_›).many.attempt.more inductionHypothesis
      · exact fills_nothing_many

theorem moreThrown_fills :
    (moreThrown input).Fills [.many [.token .identifier, .token .comma]] := by
  induction input using moreThrown.induct with
  | case1 =>
      unfold moreThrown
      exact fills_nothing_many
  | case2 head tail comma named inductionHypothesis =>
      unfold moreThrown
      rw [if_pos comma]
      have one := (fills_take_kind tail comma).expect .identifier
      exact (one.attempt.cover (by decide)).more inductionHypothesis
  | case3 head tail other =>
      unfold moreThrown
      rw [if_neg other]
      exact fills_nothing_many

theorem ruleSpec?_fills {reading : Advance head tail}
    (starts : ruleSpec? head tail = some reading) : reading.Fills [.one specParts] := by
  unfold ruleSpec? at starts
  dsimp only at starts
  split at starts
  · cases starts
    exact ((fills_take_kind _ ‹_›).nodeOver (by decide)).cover (by decide)
  · cases starts
    exact (((fills_take_kind _ ‹_›).expect _).nodeOver (by decide)).cover (by decide)
  · cases starts
    exact (((fills_take_kind _ ‹_›).expect _).nodeOver (by decide)).cover (by decide)
  · cases starts
    have thrown := ((fills_take_kind tail ‹_›).expect .identifier).andThen moreThrown_fills
    exact (thrown.nodeOver (by decide)).cover (by decide)
  · cases starts
    exact (optionsSpec_fills ‹_›).cover (by decide)
  · cases starts
    have named := (fills_take_kind tail ‹_›).expect .identifier
    exact ((named.expect .action).nodeOver (by decide)).cover (by decide)
  · cases starts

theorem ruleSpecs_fills : (ruleSpecs input).Fills [.many specParts] := by
  induction input using ruleSpecs.induct with
  | case1 =>
      unfold ruleSpecs
      exact fills_nothing_many
  | case2 head tail none =>
      unfold ruleSpecs
      simp only [none]
      exact fills_nothing_many
  | case3 head tail first starts inductionHypothesis =>
      unfold ruleSpecs
      simp only [starts]
      exact (ruleSpec?_fills starts).many.attempt.more inductionHypothesis

theorem ruleEnd_fills :
    (ruleEnd input).Fills [.optional [.node .error], .optional [.token .semicolon]] := by
  cases input with
  | nil => exact fills_nothing.reportAfter.cover (by decide)
  | cons head tail =>
      unfold ruleEnd
      dsimp only
      split
      · exact (fills_take_kind _ ‹_›).attempt.cover (by decide)
      · split
        · exact fills_nothing.reportAfter.cover (by decide)
        · exact recover_fills.eat.attempt.cover (by decide)

theorem handlers_fills : (handlers input).Fills [.many [.node .exceptionHandler]] := by
  induction input using handlers.induct with
  | case1 =>
      unfold handlers
      exact fills_nothing_many
  | case2 head tail catches handler inductionHypothesis =>
      unfold handlers
      rw [if_pos catches]
      have one := ((fills_take_kind tail catches).expect .bracketBlock).expect .action
      exact (one.nodeOver (by decide)).many.attempt.more inductionHypothesis
  | case3 head tail other =>
      unfold handlers
      rw [if_neg other]
      exact fills_nothing_many

theorem finallyClause?_fills :
    (finallyClause? input).Fills [.optional [.node .finallyClause]] := by
  cases input with
  | nil => exact fills_nothing.orNothing
  | cons head tail =>
      unfold finallyClause?
      dsimp only
      split
      · exact (((fills_take_kind _ ‹_›).expect _).nodeOver (by decide)).attempt.optional
      · exact fills_nothing.orNothing

theorem ruleBody_fills :
    (ruleBody input).Fills
      [.one [.node .alternativeList], .optional [.node .error], .optional [.token .semicolon],
        .many [.node .exceptionHandler], .optional [.node .finallyClause]] := by
  have ended := (alternativeList_fills input).andThen ruleEnd_fills
  exact (ended.andThen handlers_fills).andThen finallyClause?_fills

theorem ruleName_fills (starts : head.kind = .identifier ∨ head.kind.isRuleModifier = true) :
    (ruleName head tail).Fills [.many modifierParts, .optional [.node .name]] := by
  unfold ruleName
  split
  · exact ((fills_take_modifier ‹_›).many.more modifiers_fills).andThen (name_fills _)
  · rename_i unmodified
    have named : ((take head tail).node .name).Fills [.one [.node .name]] :=
      (fills_take_kind tail (starts.resolve_right unmodified)).nodeOver (by decide)
    exact named.cover (by decide)

theorem contents_ruleKind (input : List Lexeme) :
    (ruleKind input).contents = ruleSlots ∧ .node (ruleKind input) ∈ modeParts := by
  unfold ruleKind
  split
  · split
    · split <;> exact ⟨rfl, by decide⟩
    · split <;> exact ⟨rfl, by decide⟩
  · split <;> exact ⟨rfl, by decide⟩

theorem rule_fills (starts : head.kind = .identifier ∨ head.kind.isRuleModifier = true) :
    (rule head tail).Fills [.one modeParts] := by
  obtain ⟨contents, isPart⟩ := contents_ruleKind (head :: tail)
  have declared := (@ruleName_fills _ tail starts).andThen ruleSpecs_fills
  have asRule : ∀ {reading : Advance head tail}, reading.Fills ruleSlots →
      (reading.node (ruleKind (head :: tail))).Fills [.one modeParts] := by
    intro reading fills
    rw [← contents] at fills
    exact fills.node.among isPart
  unfold rule
  dsimp only
  split
  · exact asRule (((declared.bump ‹_›).andThen ruleBody_fills).cover (by decide))
  · split
    · exact asRule ((declared.report.andThen ruleBody_fills).cover (by decide))
    · exact asRule (declared.report.cover (by decide))

/-! ## Members -/

theorem header_fills
    (starts : head.kind = .grammarKeyword ∨ head.kind = .lexerKeyword ∨
      head.kind = .parserKeyword) :
    (header head tail).Fills [.one [.node .header]] := by
  have worded : (take head tail).Fills
      [.one [.token .grammarKeyword, .token .lexerKeyword, .token .parserKeyword]] := by
    rcases starts with grammar | lexer | parser
    · exact (fills_take_kind _ grammar).cover (by decide)
    · exact (fills_take_kind _ lexer).cover (by decide)
    · exact (fills_take_kind _ parser).cover (by decide)
  have opened : (if head.kind = .grammarKeyword then take head tail
      else (take head tail).expect .grammarKeyword).Fills
        [.one [.token .grammarKeyword, .token .lexerKeyword, .token .parserKeyword],
          .optional [.token .grammarKeyword]] := by
    split
    · exact worded.orNothing
    · exact worded.expect .grammarKeyword
  exact ((opened.andThen (name_fills _)).expect _).nodeOver (by decide)

theorem importAlias?_fills :
    (importAlias? input).Fills [.optional [.node .name], .optional [.token .equals]] := by
  cases input with
  | nil => exact fills_nothing.cover (by decide)
  | cons head tail =>
      unfold importAlias?
      dsimp only
      split
      · rename_i aliased
        have named : ((take head tail).node .name).Fills [.one [.node .name]] :=
          (fills_take_kind tail aliased.1).nodeOver (by decide)
        exact (named.bump aliased.2).attempt.cover (by decide)
      · exact fills_nothing.cover (by decide)

theorem importTarget_fills : (importTarget input).Fills [.optional [.node .nameRef]] := by
  cases input with
  | nil => exact fills_nothing.report.orNothing
  | cons head tail =>
      unfold importTarget
      dsimp only
      split
      · exact (nameRef_fills ‹_›).attempt.optional
      · exact fills_nothing.report.orNothing

theorem importItem_fills : (importItem input).Fills [.one [.node .importItem]] :=
  (importAlias?_fills.andThen importTarget_fills).node

theorem moreImports_fills :
    (moreImports input).Fills [.many [.node .importItem, .token .comma]] := by
  induction input using moreImports.induct with
  | case1 =>
      unfold moreImports
      exact fills_nothing_many
  | case2 head tail comma separated more inductionHypothesis =>
      unfold moreImports
      rw [if_pos comma]
      have one := (fills_take_kind tail comma).andThen importItem_fills
      exact (one.attempt.cover (by decide)).more inductionHypothesis
  | case3 head tail other =>
      unfold moreImports
      rw [if_neg other]
      exact fills_nothing_many

theorem importDecl_fills (same : head.kind = .importKeyword) :
    (importDecl head tail).Fills [.one [.node .importDecl]] := by
  have first := (fills_take_kind tail same).andThen importItem_fills
  exact ((first.andThen moreImports_fills).expect _).nodeOver (by decide)

theorem listEntries_fills (entry : Kind) (isEntry : entry.contents = [.one [.node .name]]) :
    (listEntries entry input).Fills [.many [.node entry, .token .comma]] := by
  have named (head : Lexeme) (tail : List Lexeme) (same : head.kind = .identifier) :
      (((take head tail).node .name).node entry).Fills [.many [.node entry, .token .comma]] := by
    have name : ((take head tail).node .name).Fills [.one [.node .name]] :=
      (fills_take_kind tail same).nodeOver (by decide)
    rw [← isEntry] at name
    exact (name.node.among List.mem_cons_self).many
  induction input using (listEntries.induct entry) with
  | case1 =>
      unfold listEntries
      exact fills_nothing_many
  | case2 head tail same first comma separated inductionHypothesis =>
      unfold listEntries
      dsimp only
      rw [if_pos same, if_pos comma]
      have separator : (takeNext first.rest).Fills [.one [.token .comma]] :=
        fills_takeNext (List.any_eq_true.mpr ⟨.comma, List.mem_singleton_self _, comma⟩)
      have both := (named head tail same).more (separator.among (by simp)).many
      exact both.attempt.more inductionHypothesis
  | case3 head tail same first last =>
      unfold listEntries
      dsimp only
      rw [if_pos same, if_neg last]
      exact (named head tail same).attempt
  | case4 head tail other =>
      unfold listEntries
      rw [if_neg other]
      exact fills_nothing_many

theorem listRemainder_fills : (listRemainder input).Fills [.optional [.node .error]] := by
  cases input with
  | nil => exact fills_nothing.orNothing
  | cons head tail =>
      unfold listRemainder
      dsimp only
      split
      · exact fills_nothing.orNothing
      · exact recover_fills.attempt.optional

theorem nameList_fills {list entry keyword : Kind} (same : head.kind = keyword)
    (isList : list.contents = listSlots keyword entry)
    (isEntry : entry.contents = [.one [.node .name]]) :
    (nameList list entry head tail).Fills [.one [.node list]] := by
  have opened := fills_take_kind tail same
  unfold nameList
  dsimp only
  refine Fills.node ?_
  rw [isList]
  split
  · have named := (opened.bumpOptional ‹_›).andThen (listEntries_fills entry isEntry)
    exact (named.andThen listRemainder_fills).expect .rightBrace
  · exact opened.report.orNothing.orNone.orNothing.orNothing

theorem actionName_fills : (actionName input).Fills [.optional [.node .name]] := by
  cases input with
  | nil => exact fills_nothing.report.orNothing
  | cons head tail =>
      unfold actionName
      dsimp only
      split
      · rename_i next
        have first : (take head tail).Fills [.one wordParts] :=
          ⟨(fills_takeNext next).fits, (fills_takeNext next).nested⟩
        refine (Fills.node ?_).attempt.optional
        split
        · have opened := first.bump ‹_›
          split
          · exact (opened.bump_oneOf ‹_›).cover (by decide)
          · exact opened.report.cover (by decide)
        · exact first.cover (by decide)
      · exact fills_nothing.report.orNothing

theorem namedAction_fills (same : head.kind = .atSign) :
    (namedAction head tail).Fills [.one [.node .namedAction]] := by
  have named := (fills_take_kind tail same).andThen actionName_fills
  exact (named.expect _).nodeOver (by decide)

theorem modeRules_fills : (modeRules input).Fills [.many modeParts] := by
  induction input using modeRules.induct with
  | case1 =>
      unfold modeRules
      exact fills_nothing_many
  | case2 head tail starts first inductionHypothesis =>
      unfold modeRules
      rw [if_pos starts]
      exact (rule_fills starts).many.attempt.more inductionHypothesis
  | case3 head tail noRule stray first inductionHypothesis =>
      unfold modeRules
      rw [if_neg noRule, if_pos stray]
      exact (unreadable_fills.attempt.cover (by decide)).more inductionHypothesis
  | case4 head tail noRule readable started =>
      unfold modeRules
      rw [if_neg noRule, if_neg readable, if_pos started]
      exact fills_nothing_many
  | case5 head tail noRule readable unstarted skipped inductionHypothesis =>
      unfold modeRules
      rw [if_neg noRule, if_neg readable, if_neg unstarted]
      exact (recover_fills.eat.attempt.cover (by decide)).more inductionHypothesis

theorem modeSection_fills (same : head.kind = .modeKeyword) :
    (modeSection head tail).Fills [.one [.node .modeSection]] := by
  have named := (fills_take_kind tail same).andThen (name_fills .missingModeName)
  exact ((named.expect .semicolon).andThen modeRules_fills).nodeOver (by decide)

/-! ## The file -/

theorem stray_fills : (stray head tail).Fills [.many fileParts] :=
  recover_fills.eat.cover (by decide)

/-- A member is made of parts that may stand at the top of a file, whether it was read or
skipped. -/
theorem member_fills : (member head tail).Fills [.many fileParts] := by
  have modified (modifier : Kind) (same : head.kind = modifier)
      (isModifier : modifier.isRuleModifier = true) : (rule head tail).Fills [.many fileParts] :=
    (rule_fills (.inr (same ▸ isModifier))).cover (by decide)
  unfold member
  split
  · exact (header_fills (.inl ‹_›)).cover (by decide)
  · split
    · exact (header_fills (.inr (.inl ‹_›))).cover (by decide)
    · exact stray_fills
  · split
    · exact (header_fills (.inr (.inr ‹_›))).cover (by decide)
    · exact stray_fills
  · exact (optionsSpec_fills ‹_›).cover (by decide)
  · exact (importDecl_fills ‹_›).cover (by decide)
  · exact (nameList_fills ‹_› rfl rfl).cover (by decide)
  · exact (nameList_fills ‹_› rfl rfl).cover (by decide)
  · exact (namedAction_fills ‹_›).cover (by decide)
  · exact (modeSection_fills ‹_›).cover (by decide)
  · exact (rule_fills (.inl ‹_›)).cover (by decide)
  · exact modified .fragmentKeyword ‹_› rfl
  · exact modified .publicKeyword ‹_› rfl
  · exact modified .privateKeyword ‹_› rfl
  · exact modified .protectedKeyword ‹_› rfl
  · exact unreadable_fills.cover (by decide)
  · exact stray_fills

theorem members_fills : (members input).Fills [.many fileParts] := by
  induction input using members.induct with
  | case1 =>
      unfold members
      exact fills_nothing_many
  | case2 head tail first inductionHypothesis =>
      unfold members
      exact member_fills.appendMany inductionHypothesis

/-- Whatever lexemes a file has, its members are nested, and fill the slot of a file. -/
theorem file_fills (input : List Lexeme) :
    Shape.Nested (.node .sourceFile (file input).1) := by
  have fills := @members_fills input
  unfold file
  dsimp only
  split
  · exact ⟨fills.fits, fills.nested⟩
  · exact ⟨fills.fits, fills.nested⟩

end Production

/-! ## Trees -/

/-- The sort of part that a tree is; a trivia token is none. -/
def Part.ofTree? : ParseTree → Option Part
  | .leaf written => if written.kind.isTrivia then none else some (.token written.kind)
  | .node kind _ _ => some (.node kind)

def Part.ofTrees (trees : List ParseTree) : List Part :=
  trees.filterMap Part.ofTree?

namespace ParseTree

/-- What holds of a token and of every node over trees of which it holds, holds of all
trees. -/
@[elab_as_elim] theorem induction {motive : ParseTree → Prop}
    (leaf : ∀ token, motive (.leaf token))
    (node : ∀ kind range children, (∀ tree ∈ children, motive tree) →
      motive (.node kind range children)) (tree : ParseTree) : motive tree := by
  cases tree with
  | leaf token => exact leaf token
  | node kind range children =>
      exact node kind range children fun child _ => induction leaf node child

mutual

/-- Under every node of the tree stand parts that fit into its slots. -/
def Nested : ParseTree → Prop
  | .leaf _ => True
  | .node kind _ children => Fits kind.contents (Part.ofTrees children) ∧ AllNested children

/-- Under every node of the trees stand parts that fit into its slots. -/
def AllNested : List ParseTree → Prop
  | [] => True
  | tree :: rest => tree.Nested ∧ AllNested rest

end

theorem allNested_iff {trees : List ParseTree} :
    AllNested trees ↔ ∀ tree ∈ trees, tree.Nested := by
  induction trees with
  | nil => exact iff_of_true trivial (List.forall_mem_nil _)
  | cons tree rest inductionHypothesis =>
      rw [List.forall_mem_cons, ← inductionHypothesis]
      rfl

theorem map_ofShape_shape? (tree : ParseTree) :
    tree.shape?.map Part.ofShape = Part.ofTree? tree := by
  cases tree with
  | leaf token =>
      rw [shape?, Part.ofTree?]
      split <;> rfl
  | node kind range children => rfl

theorem map_ofShape_shapesOf (trees : List ParseTree) :
    (shapesOf trees).map Part.ofShape = Part.ofTrees trees := by
  induction trees with
  | nil => rfl
  | cons tree rest inductionHypothesis =>
      rw [shapesOf, Part.ofTrees, List.filterMap_cons, ← map_ofShape_shape?]
      cases tree.shape? with
      | none => exact inductionHypothesis
      | some shape => exact congrArg (Part.ofShape shape :: ·) inductionHypothesis

mutual

theorem nested_of_shape {tree : ParseTree} {shape : Shape} (isShape : tree.shape? = some shape)
    (nested : shape.Nested) : tree.Nested := by
  match tree with
  | .leaf token => trivial
  | .node kind range children =>
      obtain rfl := Option.some.inj isShape
      exact ⟨map_ofShape_shapesOf children ▸ nested.1, allNested_of_shapes nested.2⟩

theorem allNested_of_shapes {trees : List ParseTree}
    (nested : Shape.AllNested (shapesOf trees)) : AllNested trees := by
  match trees with
  | [] => trivial
  | .leaf token :: rest =>
      rw [shapesOf, shape?] at nested
      split at nested
      · exact ⟨trivial, allNested_of_shapes nested⟩
      · exact ⟨trivial, allNested_of_shapes nested.2⟩
  | .node kind range children :: rest =>
      exact ⟨nested_of_shape rfl nested.1, allNested_of_shapes nested.2⟩

end

end ParseTree

/-- The tree of every text is nested. -/
theorem Parse.nested_of_text {text : String} {parse : Parse}
    (read : Parse.ofText? text = some parse) : parse.tree.Nested := by
  obtain ⟨_, rfl⟩ := Parse.ofText?_eq_some_iff.mp read
  exact ParseTree.nested_of_shape (Parse.shape_of_lexemes _ _).1 (Production.file_fills _)

/-- The tree of every text is a file. -/
theorem Parse.isNode_of_text {text : String} {parse : Parse}
    (read : Parse.ofText? text = some parse) : parse.tree.isNode .sourceFile = true := by
  obtain ⟨_, rfl⟩ := Parse.ofText?_eq_some_iff.mp read
  rfl

end GrammarDesk.Syntax
