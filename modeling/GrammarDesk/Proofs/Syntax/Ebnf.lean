import GrammarDesk.Syntax.Lexeme
import GrammarDesk.Text.Word

/-!
Contract: the grammar of grammar files, and which sequences of lexemes it derives.

Owns: phrases of an extended Backus-Naur form, the parts of the grammar with their
productions, derivations of a word from a phrase, and what a derivation of each form
of phrase splits into.

Does not own: how a file is read (`Production`).

Main statements: a word of a sequence, of a choice, of a repetition or of a part
splits into words of what it is made of (`derives_seq_iff`, `derives_either_iff`,
`derives_many_iff`, `derives_part_iff`).
-/

namespace GrammarDesk.Syntax.Ebnf

/-! ## Phrases -/

inductive Terminal where
  | kind (kind : Kind)
  /-- A name that refers to a token. -/
  | tokenName
  /-- A name that refers to a parser rule. -/
  | ruleName
  /-- Any lexeme but those of some kinds. -/
  | otherThan (kinds : List Kind)

/-- Whether a lexeme is in a class. -/
def Terminal.accepts : Terminal → Lexeme → Bool
  | .kind own, lexeme => lexeme.kind = own
  | .tokenName, lexeme => lexeme.kind = .identifier && Text.isTokenName lexeme.text
  | .ruleName, lexeme => lexeme.kind = .identifier && !Text.isTokenName lexeme.text
  | .otherThan kinds, lexeme => lexeme.kind ∉ kinds

inductive Nonterminal where
  | member | header | options | option | imports | item | names | namedAction | actionName
  | mode | rule | prequel
  | alternatives | alternative | element | suffix | atom | elementOptions | commands | command
deriving DecidableEq

/-- The right side of a production, or a piece of one. -/
inductive Phrase where
  | empty
  | token (terminal : Terminal)
  | part (nonterminal : Nonterminal)
  | seq (first second : Phrase)
  | either (first second : Phrase)
  | many (phrase : Phrase)

namespace Phrase

def kind (kind : Kind) : Phrase :=
  token (.kind kind)

def all : List Phrase → Phrase
  | [] => empty
  | first :: rest => rest.foldl seq first

def oneOf : List Phrase → Phrase
  | [] => empty
  | [phrase] => phrase
  | first :: rest => either first (oneOf rest)

def optional (phrase : Phrase) : Phrase :=
  either phrase empty

def separated (separator : Kind) (phrase : Phrase) : Phrase :=
  seq phrase (many (seq (kind separator) phrase))

end Phrase

/-! ## The grammar -/

open Phrase

def memberForms : List Nonterminal :=
  [.header, .options, .imports, .names, .namedAction, .mode, .rule]

def production : Nonterminal → Phrase
  | .member => oneOf (memberForms.map part)
  | .header =>
      all
        [optional (oneOf [kind .lexerKeyword, kind .parserKeyword]), kind .grammarKeyword,
          kind .identifier, kind .semicolon]
  | .options =>
      all [kind .optionsKeyword, kind .leftBrace, many (part .option), kind .rightBrace]
  | .option =>
      all
        [kind .identifier, kind .equals,
          oneOf
            [seq (kind .identifier) (many (seq (kind .dot) (kind .identifier))),
              kind .string, kind .integer, kind .action],
          kind .semicolon]
  | .imports => all [kind .importKeyword, separated .comma (part .item), kind .semicolon]
  | .item => all [optional (seq (kind .identifier) (kind .equals)), kind .identifier]
  | .names =>
      all
        [oneOf [kind .tokensKeyword, kind .channelsKeyword], kind .leftBrace,
          optional (seq (separated .comma (kind .identifier)) (optional (kind .comma))),
          kind .rightBrace]
  | .namedAction =>
      all
        [kind .atSign, part .actionName, optional (seq (kind .doubleColon) (part .actionName)),
          kind .action]
  | .actionName => oneOf [kind .identifier, kind .parserKeyword, kind .lexerKeyword]
  | .mode => all [kind .modeKeyword, kind .identifier, kind .semicolon]
  | .rule =>
      all
        [many
            (oneOf
              [kind .fragmentKeyword, kind .publicKeyword, kind .privateKeyword,
                kind .protectedKeyword]),
          kind .identifier, many (part .prequel), kind .colon, part .alternatives,
          kind .semicolon,
          many (all [kind .catchKeyword, kind .bracketBlock, kind .action]),
          optional (seq (kind .finallyKeyword) (kind .action))]
  | .prequel =>
      oneOf
        [kind .bracketBlock,
          seq (kind .returnsKeyword) (kind .bracketBlock),
          seq (kind .localsKeyword) (kind .bracketBlock),
          seq (kind .throwsKeyword) (separated .comma (kind .identifier)),
          part .options,
          all [kind .atSign, kind .identifier, kind .action]]
  | .alternatives => separated .pipe (part .alternative)
  | .alternative =>
      all
        [optional (part .elementOptions), many (part .element),
          optional (seq (kind .hash) (kind .identifier)), optional (part .commands)]
  | .element =>
      all
        [oneOf
            [all [kind .identifier, oneOf [kind .equals, kind .plusEquals], part .atom],
              part .atom],
          optional (part .suffix)]
  | .suffix =>
      all [oneOf [kind .question, kind .star, kind .plus], optional (kind .question)]
  | .atom =>
      oneOf
        [all [token .tokenName, optional (part .elementOptions)],
          all [token .ruleName, optional (kind .bracketBlock), optional (part .elementOptions)],
          all [kind .string, kind .doubleDot, kind .string],
          all [kind .string, optional (part .elementOptions)],
          all
            [kind .leftParen, optional (seq (part .options) (kind .colon)), part .alternatives,
              kind .rightParen],
          all [kind .dot, optional (part .elementOptions)],
          all [kind .tilde, part .atom],
          all [kind .action, kind .question, optional (part .elementOptions)],
          kind .action,
          kind .bracketBlock]
  | .elementOptions =>
      all
        [kind .less, many (token (.otherThan [.greater, .semicolon, .pipe, .rightParen])),
          kind .greater]
  | .commands => seq (kind .arrow) (separated .comma (part .command))
  | .command =>
      all
        [oneOf [kind .identifier, kind .modeKeyword],
          optional
            (all [kind .leftParen, oneOf [kind .identifier, kind .integer], kind .rightParen])]

/-- A grammar file: members, one of them a header. -/
def file : Phrase :=
  all [many (part .member), part .header, many (part .member)]

/-! ## Derivations -/

/-- A word has the form of a phrase. -/
inductive Derives : Phrase → List Lexeme → Prop where
  | empty : Derives .empty []
  | token {terminal : Terminal} {lexeme : Lexeme} (accepted : terminal.accepts lexeme) :
      Derives (.token terminal) [lexeme]
  | part {nonterminal : Nonterminal} {word : List Lexeme}
      (body : Derives (production nonterminal) word) : Derives (.part nonterminal) word
  | seq {first second : Phrase} {left right : List Lexeme}
      (former : Derives first left) (latter : Derives second right) :
      Derives (.seq first second) (left ++ right)
  | left {first second : Phrase} {word : List Lexeme} (former : Derives first word) :
      Derives (.either first second) word
  | right {first second : Phrase} {word : List Lexeme} (latter : Derives second word) :
      Derives (.either first second) word
  | none {phrase : Phrase} : Derives (.many phrase) []
  | more {phrase : Phrase} {word words : List Lexeme} (first : Derives phrase word)
      (rest : Derives (.many phrase) words) : Derives (.many phrase) (word ++ words)

variable {first second third phrase : Phrase} {word : List Lexeme}

theorem derives_empty_iff : Derives .empty word ↔ word = [] := by
  constructor
  · intro derives
    cases derives
    rfl
  · rintro rfl
    exact .empty

theorem derives_token_iff {terminal : Terminal} :
    Derives (.token terminal) word ↔ ∃ lexeme, terminal.accepts lexeme ∧ word = [lexeme] := by
  constructor
  · intro derives
    cases derives with
    | token accepted => exact ⟨_, accepted, rfl⟩
  · rintro ⟨lexeme, accepted, rfl⟩
    exact .token accepted

theorem derives_kind_iff {kind : Kind} :
    Derives (.kind kind) word ↔ ∃ lexeme, lexeme.kind = kind ∧ word = [lexeme] := by
  unfold Phrase.kind
  rw [derives_token_iff]
  simp only [Terminal.accepts, decide_eq_true_eq]

theorem derives_part_iff {nonterminal : Nonterminal} :
    Derives (.part nonterminal) word ↔ Derives (production nonterminal) word := by
  constructor
  · intro derives
    cases derives with
    | part body => exact body
  · exact .part

theorem derives_seq_iff :
    Derives (.seq first second) word ↔
      ∃ left right, word = left ++ right ∧ Derives first left ∧ Derives second right := by
  constructor
  · intro derives
    cases derives with
    | seq former latter => exact ⟨_, _, rfl, former, latter⟩
  · rintro ⟨left, right, rfl, former, latter⟩
    exact .seq former latter

theorem derives_either_iff :
    Derives (.either first second) word ↔ Derives first word ∨ Derives second word := by
  constructor
  · intro derives
    cases derives with
    | left former => exact .inl former
    | right latter => exact .inr latter
  · rintro (former | latter)
    · exact .left former
    · exact .right latter

theorem derives_optional_iff :
    Derives (.optional phrase) word ↔ Derives phrase word ∨ word = [] := by
  unfold Phrase.optional
  rw [derives_either_iff, derives_empty_iff]

/-- A word of one phrase is a word of any choice that has it. -/
theorem Derives.oneOf {phrases : List Phrase} (index : Nat)
    (found : phrases[index]? = some phrase) (derives : Derives phrase word) :
    Derives (.oneOf phrases) word := by
  induction phrases generalizing index with
  | nil => cases found
  | cons first rest inductionHypothesis =>
      cases index with
      | zero =>
          cases found
          cases rest with
          | nil => exact derives
          | cons second rest => exact .left derives
      | succ index =>
          cases rest with
          | nil => cases found
          | cons second rest => exact .right (inductionHypothesis index found)

theorem Derives.oneOf_of_mem {phrases : List Phrase} (member : phrase ∈ phrases)
    (derives : Derives phrase word) : Derives (.oneOf phrases) word := by
  obtain ⟨index, found⟩ := List.mem_iff_getElem?.mp member
  exact derives.oneOf index found

theorem exists_of_derives_oneOf {phrases : List Phrase} (some : phrases ≠ [])
    (derives : Derives (.oneOf phrases) word) : ∃ phrase ∈ phrases, Derives phrase word := by
  induction phrases with
  | nil => exact absurd rfl some
  | cons first rest inductionHypothesis =>
      cases rest with
      | nil => exact ⟨first, List.mem_cons_self, derives⟩
      | cons second rest =>
          rcases derives_either_iff.mp derives with former | latter
          · exact ⟨first, List.mem_cons_self, former⟩
          · obtain ⟨phrase, member, derives⟩ := inductionHypothesis (by simp) latter
            exact ⟨phrase, List.mem_cons_of_mem _ member, derives⟩

/-- A word of one of several kinds is one lexeme. -/
theorem exists_of_derives_kinds (kinds : List Kind) (some : kinds ≠ [])
    (derives : Derives (.oneOf (kinds.map .kind)) word) :
    ∃ lexeme, lexeme.kind ∈ kinds ∧ word = [lexeme] := by
  obtain ⟨_, member, derives⟩ := exists_of_derives_oneOf (by simpa using some) derives
  obtain ⟨kind, isKind, rfl⟩ := List.mem_map.mp member
  obtain ⟨lexeme, same, rfl⟩ := derives_kind_iff.mp derives
  exact ⟨lexeme, same ▸ isKind, rfl⟩

theorem derives_member_iff :
    Derives (.part .member) word ↔ ∃ form ∈ memberForms, Derives (.part form) word := by
  rw [derives_part_iff]
  constructor
  · intro derives
    obtain ⟨_, member, derives⟩ := exists_of_derives_oneOf (by decide) derives
    obtain ⟨form, isForm, rfl⟩ := List.mem_map.mp member
    exact ⟨form, isForm, derives⟩
  · rintro ⟨form, isForm, derives⟩
    exact derives.oneOf_of_mem (List.mem_map.mpr ⟨form, isForm, rfl⟩)

/-- A repetition is a list of words of the repeated phrase. -/
theorem derives_many_iff :
    Derives (.many phrase) word ↔
      ∃ words : List (List Lexeme), word = words.flatten ∧ ∀ part ∈ words, Derives phrase part := by
  constructor
  · intro derives
    generalize repeated : Phrase.many phrase = whole at derives
    induction derives with
    | none => exact ⟨[], rfl, fun _ member => absurd member List.not_mem_nil⟩
    | more first rest firstHypothesis restHypothesis =>
        obtain ⟨words, rfl, each⟩ := restHypothesis repeated
        cases repeated
        exact ⟨_ :: words, rfl, List.forall_mem_cons.mpr ⟨first, each⟩⟩
    | _ => cases repeated
  · rintro ⟨words, rfl, each⟩
    induction words with
    | nil => exact .none
    | cons word words inductionHypothesis =>
        obtain ⟨first, others⟩ := List.forall_mem_cons.mp each
        exact .more first (inductionHypothesis others)

/-- Many of a terminal are any lexemes that it accepts. -/
theorem derives_many_token_iff {terminal : Terminal} :
    Derives (.many (.token terminal)) word ↔ ∀ lexeme ∈ word, terminal.accepts lexeme := by
  constructor
  · intro derives
    obtain ⟨words, rfl, each⟩ := derives_many_iff.mp derives
    intro lexeme member
    obtain ⟨part, isPart, inPart⟩ := List.mem_flatten.mp member
    obtain ⟨only, accepted, rfl⟩ := derives_token_iff.mp (each part isPart)
    rwa [List.mem_singleton.mp inPart]
  · intro accepted
    induction word with
    | nil => exact .none
    | cons lexeme word inductionHypothesis =>
        obtain ⟨first, others⟩ := List.forall_mem_cons.mp accepted
        exact .more (.token first) (inductionHypothesis others)

theorem Derives.single (derives : Derives phrase word) : Derives (.many phrase) word := by
  rw [← List.append_nil word]
  exact .more derives .none

theorem Derives.many_append {left right : List Lexeme} (former : Derives (.many phrase) left)
    (latter : Derives (.many phrase) right) : Derives (.many phrase) (left ++ right) := by
  obtain ⟨leftWords, rfl, eachLeft⟩ := derives_many_iff.mp former
  obtain ⟨rightWords, rfl, eachRight⟩ := derives_many_iff.mp latter
  rw [← List.flatten_append]
  exact derives_many_iff.mpr ⟨_, rfl, List.forall_mem_append.mpr ⟨eachLeft, eachRight⟩⟩

theorem Derives.many_mono (includes : ∀ {word}, Derives first word → Derives second word)
    (derives : Derives (.many first) word) : Derives (.many second) word := by
  obtain ⟨words, rfl, each⟩ := derives_many_iff.mp derives
  exact derives_many_iff.mpr ⟨words, rfl, fun part member => includes (each part member)⟩

theorem derives_seq_assoc :
    Derives (.seq (.seq first second) third) word ↔
      Derives (.seq first (.seq second third)) word := by
  constructor
  · intro derives
    obtain ⟨_, last, rfl, both, third⟩ := derives_seq_iff.mp derives
    obtain ⟨left, middle, rfl, first, second⟩ := derives_seq_iff.mp both
    rw [List.append_assoc]
    exact .seq first (.seq second third)
  · intro derives
    obtain ⟨left, _, rfl, first, both⟩ := derives_seq_iff.mp derives
    obtain ⟨middle, last, rfl, second, third⟩ := derives_seq_iff.mp both
    rw [← List.append_assoc]
    exact .seq (.seq first second) third

theorem Derives.foldl_seq (rest : List Phrase)
    (includes : ∀ {word}, Derives first word → Derives second word)
    (derives : Derives (rest.foldl .seq first) word) : Derives (rest.foldl .seq second) word := by
  induction rest generalizing first second with
  | nil => exact includes derives
  | cons next rest inductionHypothesis =>
      refine inductionHypothesis (fun derives => ?_) derives
      obtain ⟨left, right, rfl, former, latter⟩ := derives_seq_iff.mp derives
      exact .seq (includes former) latter

/-- A phrase before a sequence is the first of a longer sequence. -/
theorem Derives.seq_all {rest : List Phrase}
    (derives : Derives (.seq first (.all (second :: rest))) word) :
    Derives (.all (first :: second :: rest)) word := by
  change Derives (.seq first (rest.foldl .seq second)) word at derives
  show Derives (rest.foldl .seq (.seq first second)) word
  induction rest generalizing second with
  | nil => exact derives
  | cons next rest inductionHypothesis =>
      have shifted := @inductionHypothesis (.seq second next) derives
      exact .foldl_seq rest derives_seq_assoc.mpr shifted

end GrammarDesk.Syntax.Ebnf
