import GrammarDesk.Proofs.Syntax.Leaves
import GrammarDesk.Syntax.Production.Element

/-!
Contract: options, labels and lexer commands of the right form are read whole.

Owns: for every production below elements, that a reader of a word of its phrase finds no
fault and leaves just what follows the word.

Does not own: elements and alternatives (`Completeness.Element`).

Main statements: `optionsSpec_leaves`, `elementOptions?_leaves`, `lexerCommands?_leaves`.
-/

namespace GrammarDesk.Syntax.Production

open Reading
open Ebnf
open Ebnf.Phrase

variable {word rest : List Lexeme} {head : Lexeme} {tail : List Lexeme}

def modifierKinds : List Kind :=
  [.fragmentKeyword, .publicKeyword, .privateKeyword, .protectedKeyword]

/-- The kinds that can follow an alternative: a bar, what closes the body, and what the next
rule begins with where the semicolon before it is missing. -/
def rowEnds : List Kind :=
  [.pipe, .semicolon, .rightParen, .identifier] ++ modifierKinds

/-- What follows a list of words that each begin with a separator. -/
theorem oneOf_separated {separator : Kind} {phrase : Ebnf.Phrase} {kinds : List Kind}
    (derives : Derives (many (seq (kind separator) phrase)) word)
    (ends : Ahead.oneOf kinds rest = true) :
    Ahead.oneOf (separator :: kinds) (word ++ rest) = true := by
  obtain ⟨words, rfl, each⟩ := derives_many_iff.mp derives
  refine Ahead.oneOf_flatten (fun word member => ?_)
    (Ahead.oneOf_mono ends (List.subset_cons_self _ _))
  obtain ⟨_, _, rfl, isSeparator, _⟩ := derives_seq_iff.mp (each word member)
  obtain ⟨lexeme, same, rfl⟩ := derives_kind_iff.mp isSeparator
  exact Ahead.oneOf_of_mem (by simp [same])

/-! ## Names and options -/

theorem name_leaves {missing : Fault} (same : head.kind = .identifier) :
    (name missing (head :: tail)).Leaves tail := by
  unfold name
  dsimp only
  rw [if_pos same]
  exact leaves_take.node.attempt

theorem name_shapes {missing : Fault} (same : head.kind = .identifier) :
    (name missing (head :: tail)).shapes = [.node .name [.leaf head]] := by
  unfold name
  dsimp only
  rw [if_pos same]
  rfl

/-- What is skipped stops at the first lexeme of the kinds that are sought. -/
theorem skipUntil_leaves {kinds : List Kind} (passed : ∀ lexeme ∈ word, lexeme.kind ∉ kinds)
    (stops : Ahead.oneOf kinds rest = true) :
    (skipUntil (Ahead.oneOf kinds) (word ++ rest)).Leaves rest := by
  induction word with
  | nil =>
      cases rest with
      | nil => exact leaves_nothing
      | cons head tail =>
          show (skipUntil _ (head :: tail)).Leaves _
          unfold skipUntil
          rw [if_pos stops]
          exact leaves_nothing
  | cons head word inductionHypothesis =>
      obtain ⟨first, others⟩ := List.forall_mem_cons.mp passed
      show (skipUntil _ (head :: (word ++ rest))).Leaves _
      unfold skipUntil
      rw [if_neg (by rw [Ahead.oneOf_cons]; simpa using first)]
      exact leaves_take.attempt.andThen (inductionHypothesis others)

theorem dottedParts_leaves (derives : Derives (many (seq (kind .dot) (kind .identifier))) word)
    (ends : Ahead.next .dot rest = false) : (dottedParts (word ++ rest)).Leaves rest := by
  refine leaves_many (fun _ => True) derives trivial ?_
    fun first _ _ read => ⟨trivial, ?_⟩
  · unfold dottedParts
    split
    · rw [if_neg fun kinds => by simp [Ahead.next, kinds.1] at ends]
      exact leaves_nothing
    · exact leaves_nothing
  · obtain ⟨_, _, rfl, isDot, isName⟩ := derives_seq_iff.mp first
    obtain ⟨dot, dotKind, rfl⟩ := derives_kind_iff.mp isDot
    obtain ⟨name, nameKind, rfl⟩ := derives_kind_iff.mp isName
    show (dottedParts (dot :: name :: _)).Leaves rest
    unfold dottedParts
    rw [if_pos ⟨dotKind, nameKind⟩]
    exact leaves_take.bump.attempt.andThen read

theorem optionValue_leaves
    (derives :
      Derives
        (oneOf
          [seq (kind .identifier) (many (seq (kind .dot) (kind .identifier))),
            kind .string, kind .integer, kind .action])
        word)
    (ends : Ahead.next .dot rest = false) : (optionValue (word ++ rest)).Leaves rest := by
  rcases derives_either_iff.mp derives with dotted | literal
  · obtain ⟨_, parts, rfl, isName, parts⟩ := derives_seq_iff.mp dotted
    obtain ⟨name, nameKind, rfl⟩ := derives_kind_iff.mp isName
    show (optionValue (name :: _)).Leaves rest
    unfold optionValue
    simp only [nameKind]
    exact (leaves_take.andThen (dottedParts_leaves parts ends)).node.attempt
  · obtain ⟨value, isLiteral, rfl⟩ :=
      exists_of_derives_kinds [.string, .integer, .action] (by decide) literal
    show (optionValue (value :: rest)).Leaves rest
    unfold optionValue
    simp only [List.mem_cons, List.not_mem_nil, or_false] at isLiteral
    rcases isLiteral with same | same | same
    · simp only [same]
      exact leaves_take.attempt
    · simp only [same]
      exact leaves_take.attempt
    · simp only [same]
      exact leaves_take.attempt

theorem option_leaves (derives : Derives (part .option) word) (rest : List Lexeme) :
    ∃ name sign tail, word = name :: sign :: tail ∧ name.kind = .identifier ∧
      sign.kind = .equals ∧ (option name (sign :: (tail ++ rest))).Leaves rest := by
  obtain ⟨_, _, rfl, valued, isEnd⟩ := derives_seq_iff.mp (derives_part_iff.mp derives)
  obtain ⟨_, value, rfl, signed, isValue⟩ := derives_seq_iff.mp valued
  obtain ⟨_, _, rfl, isName, isSign⟩ := derives_seq_iff.mp signed
  obtain ⟨name, nameKind, rfl⟩ := derives_kind_iff.mp isName
  obtain ⟨sign, signKind, rfl⟩ := derives_kind_iff.mp isSign
  obtain ⟨close, closeKind, rfl⟩ := derives_kind_iff.mp isEnd
  refine ⟨name, sign, value ++ [close], rfl, nameKind, signKind, ?_⟩
  have noDot : Ahead.next .dot (close :: rest) = false := by simp [Ahead.next, closeKind]
  rw [List.append_assoc]
  unfold option
  dsimp only
  rw [if_pos (leaves_take.next signKind)]
  refine Leaves.node (Leaves.expect ?_ closeKind)
  exact leaves_take.bump.andThen (optionValue_leaves isValue noDot)

theorem options_leaves (derives : Derives (many (part .option)) word)
    (ends : head.kind = .rightBrace) :
    (options (word ++ head :: tail)).Leaves (head :: tail) := by
  refine leaves_many (fun _ => True) derives trivial ?_
    fun {_ later} first _ _ read => ⟨trivial, ?_⟩
  · unfold options
    rw [if_pos ends]
    exact leaves_nothing
  · obtain ⟨name, sign, own, rfl, nameKind, signKind, one⟩ := option_leaves first later
    show (options (name :: sign :: (own ++ later))).Leaves _
    have noBrace : name.kind ≠ .rightBrace := by rw [nameKind]; decide
    have noRule : ¬Ahead.ruleStart (name :: sign :: (own ++ later)) := by
      simp [Ahead.ruleStart, Ahead.ruleColonOrSpec, Ahead.oneOf, Ahead.second, Ahead.next, signKind]
    unfold options
    rw [if_neg noBrace, if_pos ⟨nameKind, noRule⟩]
    exact one.attempt.andThen read

theorem optionsSpec_leaves (derives : Derives (part .options) word) :
    ∃ head tail, word = head :: tail ∧ head.kind = .optionsKeyword ∧
      ∀ rest, (optionsSpec head (tail ++ rest)).Leaves rest := by
  obtain ⟨_, _, rfl, listed, isEnd⟩ := derives_seq_iff.mp (derives_part_iff.mp derives)
  obtain ⟨_, list, rfl, opened, isList⟩ := derives_seq_iff.mp listed
  obtain ⟨_, _, rfl, isHead, isOpen⟩ := derives_seq_iff.mp opened
  obtain ⟨head, headKind, rfl⟩ := derives_kind_iff.mp isHead
  obtain ⟨brace, braceKind, rfl⟩ := derives_kind_iff.mp isOpen
  obtain ⟨close, closeKind, rfl⟩ := derives_kind_iff.mp isEnd
  refine ⟨head, brace :: (list ++ [close]), rfl, headKind, ?_⟩
  intro rest
  rw [List.cons_append, List.append_assoc]
  unfold optionsSpec
  dsimp only
  rw [if_pos (leaves_take.next braceKind)]
  refine Leaves.node (Leaves.expect ?_ closeKind)
  exact leaves_take.bump.andThen (options_leaves isList closeKind)

/-! ## Options of an element -/

theorem elementOptions?_leaves (derives : Derives (optional (part .elementOptions)) word)
    (ends : Ahead.next .less rest = false) : (elementOptions? (word ++ rest)).Leaves rest := by
  rcases derives_optional_iff.mp derives with options | rfl
  · obtain ⟨_, _, rfl, opened, isEnd⟩ := derives_seq_iff.mp (derives_part_iff.mp options)
    obtain ⟨_, skipped, rfl, isHead, isSkipped⟩ := derives_seq_iff.mp opened
    obtain ⟨head, headKind, rfl⟩ := derives_kind_iff.mp isHead
    obtain ⟨close, closeKind, rfl⟩ := derives_kind_iff.mp isEnd
    rw [List.append_assoc, List.append_assoc]
    show (elementOptions? (head :: (skipped ++ close :: rest))).Leaves rest
    unfold elementOptions?
    dsimp only
    rw [if_pos headKind]
    refine Leaves.attempt (Leaves.node (Leaves.expect ?_ closeKind))
    refine leaves_take.andThen (skipUntil_leaves ?_ ?_)
    · simpa [Ebnf.Terminal.accepts] using derives_many_token_iff.mp isSkipped
    · rw [Ahead.oneOf_cons, closeKind]
      rfl
  · cases rest with
    | nil => exact leaves_nothing
    | cons head tail =>
        show (elementOptions? (head :: tail)).Leaves _
        unfold elementOptions?
        dsimp only
        rw [if_neg (of_decide_eq_false ends)]
        exact leaves_nothing

/-! ## Lexer commands -/

theorem commandArgument_leaves
    (derives :
      Derives
        (optional
          (all [kind .leftParen, oneOf [kind .identifier, kind .integer], kind .rightParen]))
        word)
    (ends : Ahead.next .leftParen rest = false) : (commandArgument (word ++ rest)).Leaves rest := by
  rcases derives_optional_iff.mp derives with argument | rfl
  · obtain ⟨_, _, rfl, filled, isEnd⟩ := derives_seq_iff.mp argument
    obtain ⟨_, _, rfl, isOpen, isArgument⟩ := derives_seq_iff.mp filled
    obtain ⟨opening, openKind, rfl⟩ := derives_kind_iff.mp isOpen
    obtain ⟨close, closeKind, rfl⟩ := derives_kind_iff.mp isEnd
    rcases derives_either_iff.mp isArgument with isName | isNumber
    · obtain ⟨name, nameKind, rfl⟩ := derives_kind_iff.mp isName
      show (commandArgument (opening :: name :: close :: rest)).Leaves rest
      unfold commandArgument
      dsimp only
      rw [if_pos openKind, if_pos nameKind]
      refine Leaves.attempt (Leaves.expect ?_ closeKind)
      exact leaves_take.append leaves_take
    · obtain ⟨number, numberKind, rfl⟩ := derives_kind_iff.mp isNumber
      show (commandArgument (opening :: number :: close :: rest)).Leaves rest
      unfold commandArgument
      dsimp only
      rw [if_pos openKind, if_neg (by rw [numberKind]; decide), if_pos numberKind]
      refine Leaves.attempt (Leaves.expect ?_ closeKind)
      exact leaves_take.bump
  · cases rest with
    | nil => exact leaves_nothing
    | cons head tail =>
        show (commandArgument (head :: tail)).Leaves _
        unfold commandArgument
        dsimp only
        rw [if_neg (of_decide_eq_false ends)]
        exact leaves_nothing

theorem lexerCommand_leaves (derives : Derives (part .command) word)
    (ends : Ahead.oneOf (.comma :: rowEnds) rest = true) :
    (lexerCommand (word ++ rest)).Leaves rest := by
  obtain ⟨_, argument, rfl, isName, isArgument⟩ :=
    derives_seq_iff.mp (derives_part_iff.mp derives)
  obtain ⟨name, named, rfl⟩ :=
    exists_of_derives_kinds [.identifier, .modeKeyword] (by decide) isName
  have noArgument : Ahead.next .leftParen rest = false := Ahead.not_next_of_oneOf ends (by decide)
  show (lexerCommand (name :: (argument ++ rest))).Leaves rest
  unfold lexerCommand
  dsimp only
  rw [if_pos (Ahead.oneOf_of_mem named)]
  exact (leaves_takeNext.andThen (commandArgument_leaves isArgument noArgument)).node

theorem moreLexerCommands_leaves
    (derives : Derives (many (seq (kind .comma) (part .command))) word)
    (ends : Ahead.oneOf rowEnds rest = true) :
    (moreLexerCommands (word ++ rest)).Leaves rest := by
  refine leaves_many (fun later => Ahead.oneOf (.comma :: rowEnds) later = true)
    derives (Ahead.oneOf_mono ends (List.subset_cons_self _ _)) ?_ fun first _ follow read => ?_
  · have noComma : Ahead.next .comma rest = false := Ahead.not_next_of_oneOf ends (by decide)
    obtain ⟨head, tail, rfl, _⟩ := Ahead.exists_of_oneOf ends
    unfold moreLexerCommands
    rw [if_neg (of_decide_eq_false noComma)]
    exact leaves_nothing
  · obtain ⟨_, own, rfl, isComma, isCommand⟩ := derives_seq_iff.mp first
    obtain ⟨comma, commaKind, rfl⟩ := derives_kind_iff.mp isComma
    refine ⟨Ahead.oneOf_of_mem (by simp [commaKind]), ?_⟩
    rw [List.append_assoc]
    show (moreLexerCommands (comma :: _)).Leaves rest
    unfold moreLexerCommands
    rw [if_pos commaKind]
    refine Leaves.andThen (Leaves.attempt ?_) read
    exact leaves_take.andThen (lexerCommand_leaves isCommand follow)

theorem lexerCommands?_leaves (derives : Derives (optional (part .commands)) word)
    (ends : Ahead.oneOf rowEnds rest = true) :
    (lexerCommands? (word ++ rest)).Leaves rest := by
  rcases derives_optional_iff.mp derives with commands | rfl
  · obtain ⟨_, _, rfl, isHead, listed⟩ := derives_seq_iff.mp (derives_part_iff.mp commands)
    obtain ⟨first, more, rfl, isFirst, isMore⟩ := derives_seq_iff.mp listed
    obtain ⟨head, headKind, rfl⟩ := derives_kind_iff.mp isHead
    have follow := oneOf_separated isMore ends
    rw [List.append_assoc, List.append_assoc]
    show (lexerCommands? (head :: _)).Leaves rest
    unfold lexerCommands?
    dsimp only
    rw [if_pos headKind]
    refine Leaves.attempt (Leaves.node (Leaves.andThen ?_ (moreLexerCommands_leaves isMore ends)))
    exact leaves_take.andThen (lexerCommand_leaves isFirst follow)
  · have noArrow : Ahead.next .arrow rest = false := Ahead.not_next_of_oneOf ends (by decide)
    obtain ⟨head, tail, rfl, _⟩ := Ahead.exists_of_oneOf ends
    show (lexerCommands? (head :: tail)).Leaves _
    unfold lexerCommands?
    dsimp only
    rw [if_neg (of_decide_eq_false noArrow)]
    exact leaves_nothing

/-! ## Parts of a body -/

theorem alternativeLabel?_leaves
    (derives : Derives (optional (seq (kind .hash) (kind .identifier))) word)
    (ends : Ahead.next .hash rest = false) : (alternativeLabel? (word ++ rest)).Leaves rest := by
  rcases derives_optional_iff.mp derives with label | rfl
  · obtain ⟨_, _, rfl, isHash, isName⟩ := derives_seq_iff.mp label
    obtain ⟨hash, hashKind, rfl⟩ := derives_kind_iff.mp isHash
    obtain ⟨name, nameKind, rfl⟩ := derives_kind_iff.mp isName
    show (alternativeLabel? (hash :: name :: rest)).Leaves rest
    unfold alternativeLabel?
    dsimp only
    rw [if_pos hashKind]
    exact (leaves_take.andThen (name_leaves nameKind)).node.attempt
  · cases rest with
    | nil => exact leaves_nothing
    | cons head tail =>
        show (alternativeLabel? (head :: tail)).Leaves _
        unfold alternativeLabel?
        dsimp only
        rw [if_neg (of_decide_eq_false ends)]
        exact leaves_nothing

theorem blockOptions?_leaves
    (derives : Derives (optional (seq (part .options) (kind .colon))) word)
    (ends : Ahead.next .optionsKeyword rest = false) :
    (blockOptions? (word ++ rest)).Leaves rest := by
  rcases derives_optional_iff.mp derives with options | rfl
  · obtain ⟨_, _, rfl, isOptions, isColon⟩ := derives_seq_iff.mp options
    obtain ⟨colon, colonKind, rfl⟩ := derives_kind_iff.mp isColon
    obtain ⟨head, tail, rfl, headKind, read⟩ := optionsSpec_leaves isOptions
    rw [List.append_assoc]
    show (blockOptions? (head :: _)).Leaves rest
    unfold blockOptions?
    dsimp only
    rw [if_pos headKind]
    exact ((read _).expect colonKind).attempt
  · cases rest with
    | nil => exact leaves_nothing
    | cons head tail =>
        show (blockOptions? (head :: tail)).Leaves _
        unfold blockOptions?
        dsimp only
        rw [if_neg (of_decide_eq_false ends)]
        exact leaves_nothing

end GrammarDesk.Syntax.Production
