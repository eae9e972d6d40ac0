import GrammarDesk.Proofs.Syntax.Forms
import GrammarDesk.Syntax.Production.Element

/-!
Contract: the forms of options and rule bodies that are read without a problem.

Owns: for every production up to alternatives, the phrase that its lexemes have the form of
once nothing was reported.

Does not own: the forms of rules and members (`Soundness.File`).

Main statement: alternatives read without a problem are derived as alternatives
(`alternativeList_reads`).
-/

namespace GrammarDesk.Syntax.Production

open Reading
open Ebnf (Derives production)
open Ebnf.Phrase

variable {head : Lexeme} {tail input : List Lexeme} {fault : Fault}

/-! ## Names and options -/

theorem name_reads (fault : Fault) : (name fault input).Reads (kind .identifier) := by
  cases input with
  | nil => exact faulty_report.reads
  | cons head tail =>
      unfold name
      dsimp only
      split
      · exact (reads_take_kind _ ‹_›).node.attempt
      · exact faulty_report.reads

theorem faulty_recover {resume : List Kind} : (recover fault resume head tail).Faulty :=
  faulty_preface

theorem skipUntil_reads {kinds : List Kind} :
    (skipUntil (Ahead.oneOf kinds) input).Reads (many (token (.otherThan kinds))) := by
  induction input with
  | nil => exact reads_nothing_many
  | cons head tail inductionHypothesis =>
      unfold skipUntil
      split
      · exact reads_nothing_many
      · rename_i go
        refine (reads_take ?_).attempt.more inductionHypothesis
        simpa [Ahead.oneOf, Ahead.next, Ebnf.Terminal.accepts] using go

theorem dottedParts_reads :
    (dottedParts input).Reads (many (seq (kind .dot) (kind .identifier))) := by
  induction input using dottedParts.induct with
  | case1 dot part tail kinds both inductionHypothesis =>
      unfold dottedParts
      rw [if_pos kinds]
      refine Reads.more (Reads.attempt ?_) inductionHypothesis
      exact (reads_take_kind _ kinds.1).bump (decide_eq_true kinds.2)
  | case2 dot part tail kinds =>
      unfold dottedParts
      rw [if_neg kinds]
      exact reads_nothing_many
  | case3 input short =>
      rw [dottedParts.eq_2 _ short]
      exact reads_nothing_many

theorem optionValue_reads :
    (optionValue input).Reads
      (oneOf
        [seq (kind .identifier) (many (seq (kind .dot) (kind .identifier))),
          kind .string, kind .integer, kind .action]) := by
  cases input with
  | nil => exact faulty_report.reads
  | cons head tail =>
      unfold optionValue
      dsimp only
      split
      · rename_i same
        exact ((reads_take_kind _ same).andThen dottedParts_reads).node.attempt.mono (.oneOf 0 rfl)
      · rename_i same
        exact (reads_take_kind _ same).attempt.mono (.oneOf 1 rfl)
      · rename_i same
        exact (reads_take_kind _ same).attempt.mono (.oneOf 2 rfl)
      · rename_i same
        exact (reads_take_kind _ same).attempt.mono (.oneOf 3 rfl)
      · exact faulty_report.reads

theorem option_reads (same : head.kind = .identifier) :
    (option head tail).Reads (part .option) := by
  unfold option
  dsimp only
  split
  · have signed := (reads_take_kind tail same).bump ‹_›
    exact ((signed.andThen optionValue_reads).expect .semicolon).node.part
  · exact (faulty_report.reads.expect .semicolon).node.part

theorem options_reads : (options input).Reads (many (part .option)) := by
  induction input using options.induct with
  | case1 =>
      unfold options
      exact reads_nothing_many
  | case2 head tail closed =>
      unfold options
      rw [if_pos closed]
      exact reads_nothing_many
  | case3 head tail going named first inductionHypothesis =>
      unfold options
      rw [if_neg going, if_pos named]
      exact (option_reads named.1).attempt.more inductionHypothesis
  | case4 head tail going unnamed started =>
      unfold options
      rw [if_neg going, if_neg unnamed, if_pos started]
      exact reads_nothing_many
  | case5 head tail going unnamed unstarted skipped _ =>
      unfold options
      rw [if_neg going, if_neg unnamed, if_neg unstarted]
      exact (faulty_recover.eat.andThen _).reads

theorem optionsSpec_reads (same : head.kind = .optionsKeyword) :
    (optionsSpec head tail).Reads (part .options) := by
  unfold optionsSpec
  dsimp only
  split
  · have braced := (reads_take_kind tail same).bump ‹_›
    exact ((braced.andThen options_reads).expect .rightBrace).node.part
  · exact faulty_report.reads.node.part

theorem elementOptions?_reads :
    (elementOptions? input).Reads (optional (part .elementOptions)) := by
  cases input with
  | nil => exact reads_nothing_optional
  | cons head tail =>
      unfold elementOptions?
      dsimp only
      split
      · refine Reads.mono (Reads.part (Reads.attempt (Reads.node ?_))) .left
        exact ((reads_take_kind _ ‹_›).andThen skipUntil_reads).expect .greater
      · exact reads_nothing_optional

theorem arguments?_reads : (arguments? input).Reads (optional (kind .bracketBlock)) := by
  cases input with
  | nil => exact reads_nothing_optional
  | cons head tail =>
      unfold arguments?
      dsimp only
      split
      · exact (reads_take_kind _ ‹_›).node.attempt.mono .left
      · exact reads_nothing_optional

/-! ## Lexer commands -/

theorem commandArgument_reads :
    (commandArgument input).Reads
      (optional
        (all [kind .leftParen, oneOf [kind .identifier, kind .integer], kind .rightParen])) := by
  cases input with
  | nil => exact reads_nothing_optional
  | cons head tail =>
      unfold commandArgument
      dsimp only
      split
      · have opened (tail : List Lexeme) := reads_take_kind tail ‹head.kind = _›
        refine (Reads.expect ?_ .rightParen).attempt.mono .left
        split
        · exact faulty_report.reads
        · split
          · exact (opened _).andThen ((reads_take_kind _ ‹_›).node.attempt.mono .left)
          · split
            · rename_i argument rest _ same
              have number : (takeNext (argument :: rest)).Reads (kind .integer) :=
                reads_takeNext (decide_eq_true same)
              exact (opened _).andThen (number.mono .right)
            · exact faulty_report.reads
      · exact reads_nothing_optional

theorem lexerCommand_reads : (lexerCommand input).Reads (part .command) := by
  unfold lexerCommand
  refine (Reads.andThen ?_ commandArgument_reads).node.part
  split
  · rename_i named
    simp only [Ahead.oneOf, List.any_cons, List.any_nil, Bool.or_false, Bool.or_eq_true] at named
    rcases named with next | next
    · exact (reads_takeNext next).mono .left
    · exact (reads_takeNext next).mono .right
  · exact faulty_report.reads

theorem moreLexerCommands_reads :
    (moreLexerCommands input).Reads (many (seq (kind .comma) (part .command))) := by
  induction input using moreLexerCommands.induct with
  | case1 =>
      unfold moreLexerCommands
      exact reads_nothing_many
  | case2 head tail comma separated commanded inductionHypothesis =>
      unfold moreLexerCommands
      rw [if_pos comma]
      have one := (reads_take_kind tail comma).andThen lexerCommand_reads
      exact one.attempt.more inductionHypothesis
  | case3 head tail other =>
      unfold moreLexerCommands
      rw [if_neg other]
      exact reads_nothing_many

theorem lexerCommands?_reads : (lexerCommands? input).Reads (optional (part .commands)) := by
  cases input with
  | nil => exact reads_nothing_optional
  | cons head tail =>
      unfold lexerCommands?
      dsimp only
      split
      · have first := (reads_take_kind tail ‹_›).andThen lexerCommand_reads
        have separated := (first.andThen moreLexerCommands_reads).mono Ebnf.derives_seq_assoc.mp
        exact separated.node.part.attempt.mono .left
      · exact reads_nothing_optional

/-! ## Bodies -/

theorem alternativeLabel?_reads :
    (alternativeLabel? input).Reads (optional (seq (kind .hash) (kind .identifier))) := by
  cases input with
  | nil => exact reads_nothing_optional
  | cons head tail =>
      unfold alternativeLabel?
      dsimp only
      split
      · exact ((reads_take_kind _ ‹_›).andThen (name_reads _)).node.attempt.mono .left
      · exact reads_nothing_optional

theorem blockOptions?_reads :
    (blockOptions? input).Reads (optional (seq (part .options) (kind .colon))) := by
  cases input with
  | nil => exact reads_nothing_optional
  | cons head tail =>
      unfold blockOptions?
      dsimp only
      split
      · exact ((optionsSpec_reads ‹_›).expect .colon).attempt.mono .left
      · exact reads_nothing_optional

/-- A suffix after an atom, and the question mark that makes it non-greedy. -/
theorem suffix_reads {limit : Nat} {reading : Reading input limit} {phrase : Ebnf.Phrase}
    (reads : reading.Reads phrase) (suffixed : Ahead.suffix reading.rest = true) :
    (reading.bump.eat .question).Reads (seq phrase (part .suffix)) := by
  simp only [Ahead.suffix, Ahead.oneOf, List.any_cons, List.any_nil, Bool.or_false,
    Bool.or_eq_true] at suffixed
  have one : (takeNext reading.rest).Reads
      (oneOf [kind .question, kind .star, kind .plus]) := by
    rcases suffixed with question | star | plus
    · exact (reads_takeNext question).mono (.oneOf 0 rfl)
    · exact (reads_takeNext star).mono (.oneOf 1 rfl)
    · exact (reads_takeNext plus).mono (.oneOf 2 rfl)
  have both := (reads.andThen one).eat .question
  exact both.mono fun derives => by
    obtain ⟨left, right, rfl, former, latter⟩ :=
      Ebnf.derives_seq_iff.mp (Ebnf.derives_seq_assoc.mp derives)
    exact .seq former (.part latter)

mutual

theorem alternativeList_reads (input : List Lexeme) :
    (alternativeList input).Reads (part .alternatives) := by
  unfold alternativeList
  have first := alternative_reads input
  exact (first.andThen (moreAlternatives_reads _)).node.part
termination_by (input.length, 6)
decreasing_by
  · exact Prod.Lex.right _ (by omega)
  · exact Prod.Lex.right' _ (alternative input).within (by omega)

theorem moreAlternatives_reads (input : List Lexeme) :
    (moreAlternatives input).Reads (many (seq (kind .pipe) (part .alternative))) := by
  match input with
  | [] =>
      unfold moreAlternatives
      exact reads_nothing_many
  | head :: tail =>
      unfold moreAlternatives
      dsimp only
      split
      · have one := (reads_take_kind tail ‹_›).andThen (alternative_reads tail)
        exact one.attempt.more (moreAlternatives_reads _)
      · exact reads_nothing_many
termination_by (input.length, 5)
decreasing_by
  · exact Prod.Lex.left _ _ (Nat.lt_succ_self _)
  · exact Prod.Lex.left _ _ (Nat.lt_succ_of_le
      ((take head tail).andThen (alternative (take head tail).rest)).within)

theorem alternative_reads (input : List Lexeme) :
    (alternative input).Reads (part .alternative) := by
  unfold alternative
  have opened : (elementOptions? input).Reads (optional (part .elementOptions)) :=
    elementOptions?_reads
  have filled := opened.andThen (elements_reads _)
  exact ((filled.andThen alternativeLabel?_reads).andThen lexerCommands?_reads).node.part
termination_by (input.length, 4)
decreasing_by exact Prod.Lex.right' _ (elementOptions? input).within (by omega)

theorem elements_reads (input : List Lexeme) :
    (elements input).Reads (many (part .element)) := by
  match input with
  | [] =>
      unfold elements
      exact reads_nothing_many
  | head :: tail =>
      unfold elements
      dsimp only
      split
      · exact (element_reads head tail ‹_›).attempt.more (elements_reads _)
      · exact reads_nothing_many
termination_by (input.length, 3)
decreasing_by
  · exact Prod.Lex.right _ (by omega)
  · exact Prod.Lex.left _ _ (Nat.lt_succ_of_le (element head tail).within)

/-- Read without a fault, an element is an atom with an optional label and suffix. -/
theorem element_reads (head : Lexeme) (tail : List Lexeme)
    (starts : Ahead.elementStart (head :: tail) = true) :
    (element head tail).Reads (part .element) := by
  unfold element
  dsimp only
  have body := labeledElement_reads head tail starts
  split
  · exact ((suffix_reads body ‹_›).node.mono fun derives => by
      obtain ⟨_, _, rfl, former, latter⟩ := Ebnf.derives_seq_iff.mp derives
      exact .seq former (.left latter)).part
  · exact (body.mono fun {word} derives => by
      rw [← List.append_nil word]
      exact .seq derives (.right .empty)).part
termination_by (tail.length + 1, 2)
decreasing_by exact Prod.Lex.right _ (by omega)

theorem labeledElement_reads (head : Lexeme) (tail : List Lexeme)
    (starts : Ahead.elementStart (head :: tail) = true) :
    (labeledElement head tail).Reads
      (oneOf
        [all [kind .identifier, oneOf [kind .equals, kind .plusEquals], part .atom],
          part .atom]) := by
  match tail with
  | [] =>
      unfold labeledElement
      exact (atom_reads head [] starts).mono .right
  | sign :: rest =>
      unfold labeledElement
      dsimp only
      split
      · rename_i labels
        have signed : (take sign rest).attempt.Reads
            (oneOf [kind .equals, kind .plusEquals]) := by
          rcases labels.2 with equals | plusEquals
          · exact (reads_take_kind _ equals).attempt.mono .left
          · exact (reads_take_kind _ plusEquals).attempt.mono .right
        have labeled := (reads_take_kind (sign :: rest) labels.1).andThen signed
        exact (labeled.andThen (operand_reads .missingLabeledElement rest)).node.mono .left
      · exact (atom_reads head (sign :: rest) starts).mono .right
termination_by (tail.length + 1, 1)
decreasing_by
  · exact Prod.Lex.right _ (by omega)
  · exact Prod.Lex.right _ (by omega)
  · exact Prod.Lex.left _ _ (Nat.lt_succ_of_lt (Nat.lt_succ_self _))

theorem operand_reads (missing : Fault) (input : List Lexeme) :
    (operand missing input).Reads (part .atom) := by
  match input with
  | [] =>
      unfold operand
      exact faulty_report.reads
  | head :: tail =>
      unfold operand
      split
      · exact (atom_reads head tail ‹_›).attempt
      · exact faulty_report.reads
termination_by (input.length, 1)
decreasing_by exact Prod.Lex.right _ (by omega)

/-- Read without a fault, an atom derives from the form that its first lexeme tells; by
induction on how much is left to read. -/
theorem atom_reads (head : Lexeme) (tail : List Lexeme)
    (starts : Ahead.elementStart (head :: tail) = true) :
    (atom head tail).Reads (part .atom) := by
  unfold atom
  dsimp only
  apply Reads.part
  split
  · rename_i same
    split
    · rename_i token
      have named : (take head tail).Reads (.token .tokenName) :=
        reads_take (by simp [Ebnf.Terminal.accepts, same, token])
      exact (named.andThen elementOptions?_reads).node.mono (.oneOf 0 rfl)
    · rename_i rule
      have named : (take head tail).Reads (.token .ruleName) :=
        reads_take (by simp [Ebnf.Terminal.accepts, same, rule])
      have applied := named.andThen arguments?_reads
      exact (applied.andThen elementOptions?_reads).node.mono (.oneOf 1 rfl)
  · rename_i same
    split
    · have opened := (reads_take_kind tail same).bump ‹_›
      split
      · exact (opened.bump ‹_›).node.mono (.oneOf 2 rfl)
      · exact faulty_report.reads.node
    · exact ((reads_take_kind _ same).andThen elementOptions?_reads).node.mono (.oneOf 3 rfl)
  · rename_i same
    have opened := (reads_take_kind tail same).andThen blockOptions?_reads
    have filled := opened.andThen (alternativeList_reads _)
    exact (filled.expect .rightParen).node.mono (.oneOf 4 rfl)
  · rename_i same
    exact ((reads_take_kind _ same).andThen elementOptions?_reads).node.mono (.oneOf 5 rfl)
  · rename_i same
    have negated := operand_reads .missingNegatedElement tail
    exact ((reads_take_kind _ same).andThen negated).node.mono (.oneOf 6 rfl)
  · rename_i same
    split
    · have asked := (reads_take_kind tail same).bump ‹_›
      exact (asked.andThen elementOptions?_reads).node.mono (.oneOf 7 rfl)
    · exact (reads_take_kind _ same).node.mono (.oneOf 8 rfl)
  · rename_i same
    exact (reads_take_kind _ same).node.mono (.oneOf 9 rfl)
  · rename_i notName notString notParen notDot notTilde notAction notBracket
    refine (faulty_take ?_).reads.node
    simp only [Ahead.elementStart, Ahead.oneOf, Ahead.next] at starts
    grind
termination_by (tail.length + 1, 0)
decreasing_by
  · exact Prod.Lex.left _ _ (Nat.lt_succ_of_le
      ((take head tail).andThen (blockOptions? (take head tail).rest)).within)
  · exact Prod.Lex.left _ _ (Nat.lt_succ_self _)

end

end GrammarDesk.Syntax.Production
