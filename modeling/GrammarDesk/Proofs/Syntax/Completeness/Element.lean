import GrammarDesk.Proofs.Syntax.Completeness.Basic

/-!
Contract: rule bodies of the right form are read whole.

Owns: what can follow an atom in a body, which words are read as atoms and elements wherever
these can stand, and that alternatives are read without fault up to what follows them.

A word can divide into elements in more than one way: a bracket block after the name of a rule
is its argument or a character set, a question mark after target code makes it a predicate or
optional. A reader takes either along with the atom before it, so an atom is said to leave
what follows it or all but that one lexeme.

Does not own: rules and members (`Completeness.File`).

Main statement: a reader of alternatives leaves just what follows them
(`alternativeList_leaves`).
-/

namespace GrammarDesk.Syntax.Production

open Reading
open Ebnf
open Ebnf.Phrase

variable {word after rest : List Lexeme} {head : Lexeme} {tail : List Lexeme}

/-! ## What can follow an atom -/

def atomStarts : List Kind :=
  [.identifier, .string, .leftParen, .dot, .tilde, .action, .bracketBlock]

def elementsEnds : List Kind :=
  [.hash, .arrow] ++ rowEnds

def atomEnds : List Kind :=
  [.question, .star, .plus] ++ atomStarts ++ elementsEnds

/-- Lexemes that can follow an atom. A reader may take a bracket block or a question mark
along, so after one of these again comes what can follow an atom. -/
def InBody : List Lexeme → Prop
  | [] => False
  | head :: tail =>
      head.kind ∈ atomEnds ∧
        (head.kind = .bracketBlock ∨ head.kind = .question → InBody tail)

/-- Lexemes that can follow an alternative. A name can if it starts a rule. -/
structure RowEnds (rest : List Lexeme) : Prop where
  kinds : Ahead.oneOf rowEnds rest = true
  noElement : Ahead.elementStart rest = false

theorem elementStart_eq_false {kinds : List Kind} (starts : Ahead.oneOf kinds rest = true)
    (others : ∀ kind ∈ kinds, kind ∉ Kind.error :: atomStarts) :
    Ahead.elementStart rest = false := by
  have noName : Ahead.next .identifier rest = false :=
    Ahead.not_next_of_oneOf starts fun same => others _ same (by decide)
  have noOther : Ahead.oneOf
      [.string, .leftParen, .dot, .tilde, .action, .bracketBlock, .error] rest = false :=
    Ahead.not_oneOf starts fun kind isStart isOther =>
      others kind isStart ((by decide : _ ⊆ Kind.error :: atomStarts) isOther)
  rw [Ahead.elementStart, noName, noOther]
  rfl

theorem rowEnds_of_oneOf (ends : Ahead.oneOf [.pipe, .semicolon, .rightParen] rest = true) :
    RowEnds rest :=
  ⟨Ahead.oneOf_mono ends (by decide), elementStart_eq_false ends (by decide)⟩

theorem InBody.oneOf (body : InBody after) : Ahead.oneOf atomEnds after = true := by
  cases after with
  | nil => exact absurd body not_false
  | cons head tail => exact Ahead.oneOf_of_mem body.1

theorem inBody_of_ends (ends : Ahead.oneOf elementsEnds rest = true) : InBody rest := by
  obtain ⟨head, tail, rfl, isEnd⟩ := Ahead.exists_of_oneOf ends
  refine ⟨List.mem_append_right _ isEnd, ?_⟩
  intro kinds
  rcases kinds with bracket | question
  · rw [bracket] at isEnd
    exact absurd isEnd (by decide)
  · rw [question] at isEnd
    exact absurd isEnd (by decide)

theorem inBody_suffix (derives : Derives (optional (part .suffix)) word) (body : InBody rest) :
    InBody (word ++ rest) := by
  rcases derives_optional_iff.mp derives with suffix | rfl
  · obtain ⟨_, more, rfl, isFirst, isMore⟩ :=
      derives_seq_iff.mp (derives_part_iff.mp suffix)
    obtain ⟨first, firstKind, rfl⟩ :=
      exists_of_derives_kinds [.question, .star, .plus] (by decide) isFirst
    refine ⟨List.mem_append_left _ (List.mem_append_left _ firstKind), ?_⟩
    intro _
    show InBody (more ++ rest)
    rcases derives_optional_iff.mp isMore with lazy | rfl
    · obtain ⟨question, questionKind, rfl⟩ := derives_kind_iff.mp lazy
      exact ⟨by rw [questionKind]; decide, fun _ => body⟩
    · exact body
  · exact body

/-! ## How words begin -/

/-- The words of an atom, told apart by their first lexeme and what they go on with. -/
inductive AtomForm : List Lexeme → Prop where
  | token {name : Lexeme} {options : List Lexeme} (named : name.kind = .identifier)
      (token : Text.isTokenName name.text = true)
      (optional : Derives (optional (part .elementOptions)) options) :
      AtomForm (name :: options)
  | rule {name : Lexeme} {arguments options : List Lexeme} (named : name.kind = .identifier)
      (rule : Text.isTokenName name.text = false)
      (applied : Derives (optional (kind .bracketBlock)) arguments)
      (optional : Derives (optional (part .elementOptions)) options) :
      AtomForm (name :: (arguments ++ options))
  | range {first dots last : Lexeme} (firstKind : first.kind = .string)
      (dotsKind : dots.kind = .doubleDot) (lastKind : last.kind = .string) :
      AtomForm [first, dots, last]
  | literal {first : Lexeme} {options : List Lexeme} (firstKind : first.kind = .string)
      (optional : Derives (optional (part .elementOptions)) options) :
      AtomForm (first :: options)
  | block {first last : Lexeme} {options body : List Lexeme} (firstKind : first.kind = .leftParen)
      (opened : Derives (optional (seq (part .options) (kind .colon))) options)
      (filled : Derives (part .alternatives) body) (lastKind : last.kind = .rightParen) :
      AtomForm (first :: (options ++ (body ++ [last])))
  | wildcard {first : Lexeme} {options : List Lexeme} (firstKind : first.kind = .dot)
      (optional : Derives (optional (part .elementOptions)) options) :
      AtomForm (first :: options)
  | negation {first : Lexeme} {atom : List Lexeme} (firstKind : first.kind = .tilde)
      (negated : Derives (part .atom) atom) : AtomForm (first :: atom)
  | predicate {first question : Lexeme} {options : List Lexeme} (firstKind : first.kind = .action)
      (questionKind : question.kind = .question)
      (optional : Derives (optional (part .elementOptions)) options) :
      AtomForm (first :: question :: options)
  | action {first : Lexeme} (firstKind : first.kind = .action) : AtomForm [first]
  | charSet {first : Lexeme} (firstKind : first.kind = .bracketBlock) : AtomForm [first]

/-- An atom has one of the forms that its first lexeme tells apart. -/
theorem atomForm_of_derives (derives : Derives (part .atom) word) : AtomForm word := by
  obtain ⟨phrase, member, derives⟩ :=
    exists_of_derives_oneOf (by simp) (derives_part_iff.mp derives)
  simp only [List.mem_cons, List.not_mem_nil, or_false] at member
  rcases member with rfl | rfl | rfl | rfl | rfl | rfl | rfl | rfl | rfl | rfl
  · obtain ⟨_, options, rfl, isName, isOptions⟩ := derives_seq_iff.mp derives
    obtain ⟨name, accepted, rfl⟩ := derives_token_iff.mp isName
    simp only [Ebnf.Terminal.accepts, Bool.and_eq_true, decide_eq_true_eq] at accepted
    exact .token accepted.1 accepted.2 isOptions
  · obtain ⟨_, options, rfl, applied, isOptions⟩ := derives_seq_iff.mp derives
    obtain ⟨_, arguments, rfl, isName, isArguments⟩ := derives_seq_iff.mp applied
    obtain ⟨name, accepted, rfl⟩ := derives_token_iff.mp isName
    simp only [Ebnf.Terminal.accepts, Bool.and_eq_true, decide_eq_true_eq, Bool.not_eq_true']
      at accepted
    exact .rule accepted.1 accepted.2 isArguments isOptions
  · obtain ⟨_, _, rfl, opened, isLast⟩ := derives_seq_iff.mp derives
    obtain ⟨_, _, rfl, isFirst, isDots⟩ := derives_seq_iff.mp opened
    obtain ⟨first, firstKind, rfl⟩ := derives_kind_iff.mp isFirst
    obtain ⟨dots, dotsKind, rfl⟩ := derives_kind_iff.mp isDots
    obtain ⟨last, lastKind, rfl⟩ := derives_kind_iff.mp isLast
    exact .range firstKind dotsKind lastKind
  · obtain ⟨_, options, rfl, isFirst, isOptions⟩ := derives_seq_iff.mp derives
    obtain ⟨first, firstKind, rfl⟩ := derives_kind_iff.mp isFirst
    exact .literal firstKind isOptions
  · obtain ⟨_, _, rfl, filled, isLast⟩ := derives_seq_iff.mp derives
    obtain ⟨_, body, rfl, opened, isBody⟩ := derives_seq_iff.mp filled
    obtain ⟨_, options, rfl, isFirst, isOptions⟩ := derives_seq_iff.mp opened
    obtain ⟨first, firstKind, rfl⟩ := derives_kind_iff.mp isFirst
    obtain ⟨last, lastKind, rfl⟩ := derives_kind_iff.mp isLast
    rw [List.append_assoc, List.append_assoc]
    exact .block firstKind isOptions isBody lastKind
  · obtain ⟨_, options, rfl, isFirst, isOptions⟩ := derives_seq_iff.mp derives
    obtain ⟨first, firstKind, rfl⟩ := derives_kind_iff.mp isFirst
    exact .wildcard firstKind isOptions
  · obtain ⟨_, atom, rfl, isFirst, isAtom⟩ := derives_seq_iff.mp derives
    obtain ⟨first, firstKind, rfl⟩ := derives_kind_iff.mp isFirst
    exact .negation firstKind isAtom
  · obtain ⟨_, options, rfl, asked, isOptions⟩ := derives_seq_iff.mp derives
    obtain ⟨_, _, rfl, isFirst, isQuestion⟩ := derives_seq_iff.mp asked
    obtain ⟨first, firstKind, rfl⟩ := derives_kind_iff.mp isFirst
    obtain ⟨question, questionKind, rfl⟩ := derives_kind_iff.mp isQuestion
    exact .predicate firstKind questionKind isOptions
  · obtain ⟨first, firstKind, rfl⟩ := derives_kind_iff.mp derives
    exact .action firstKind
  · obtain ⟨first, firstKind, rfl⟩ := derives_kind_iff.mp derives
    exact .charSet firstKind

theorem atom_starts (derives : Derives (part .atom) word) :
    ∃ head tail, word = head :: tail ∧ head.kind ∈ atomStarts ∧
      (head.kind = .bracketBlock → tail = []) := by
  cases atomForm_of_derives derives with
  | token same => exact ⟨_, _, rfl, by simp [same, atomStarts], by simp [same]⟩
  | rule same => exact ⟨_, _, rfl, by simp [same, atomStarts], by simp [same]⟩
  | range same => exact ⟨_, _, rfl, by simp [same, atomStarts], by simp [same]⟩
  | literal same => exact ⟨_, _, rfl, by simp [same, atomStarts], by simp [same]⟩
  | block same => exact ⟨_, _, rfl, by simp [same, atomStarts], by simp [same]⟩
  | wildcard same => exact ⟨_, _, rfl, by simp [same, atomStarts], by simp [same]⟩
  | negation same => exact ⟨_, _, rfl, by simp [same, atomStarts], by simp [same]⟩
  | predicate same => exact ⟨_, _, rfl, by simp [same, atomStarts], by simp [same]⟩
  | action same => exact ⟨_, _, rfl, by simp [same, atomStarts], by simp [same]⟩
  | charSet same => exact ⟨_, _, rfl, by simp [same, atomStarts], fun _ => rfl⟩

theorem element_starts (derives : Derives (part .element) word) :
    ∃ head tail, word = head :: tail ∧ head.kind ∈ atomStarts ∧
      (head.kind = .bracketBlock → Derives (optional (part .suffix)) tail) := by
  obtain ⟨_, suffix, rfl, body, isSuffix⟩ := derives_seq_iff.mp (derives_part_iff.mp derives)
  rcases derives_either_iff.mp body with labeled | atom
  · obtain ⟨_, atom, rfl, label, isAtom⟩ := derives_seq_iff.mp labeled
    obtain ⟨_, sign, rfl, isName, isSign⟩ := derives_seq_iff.mp label
    obtain ⟨name, nameKind, rfl⟩ := derives_kind_iff.mp isName
    refine ⟨name, sign ++ atom ++ suffix, by simp, by rw [nameKind]; decide, ?_⟩
    intro bracket
    rw [nameKind] at bracket
    cases bracket
  · obtain ⟨head, tail, rfl, starts, alone⟩ := atom_starts atom
    refine ⟨head, tail ++ suffix, rfl, starts, ?_⟩
    intro bracket
    rw [alone bracket]
    exact isSuffix

/-- In front of what can end a row, elements can follow an atom. -/
theorem inBody_elements {words : List (List Lexeme)}
    (each : ∀ word ∈ words, Derives (part .element) word)
    (ends : Ahead.oneOf elementsEnds rest = true) : InBody (words.flatten ++ rest) := by
  induction words with
  | nil => exact inBody_of_ends ends
  | cons word words inductionHypothesis =>
      obtain ⟨first, others⟩ := List.forall_mem_cons.mp each
      obtain ⟨head, tail, rfl, starts, bracket⟩ := element_starts first
      rw [List.flatten_cons, List.append_assoc]
      refine ⟨List.mem_append_left _ (List.mem_append_right _ starts), ?_⟩
      intro kinds
      show InBody (tail ++ (words.flatten ++ rest))
      rcases kinds with isBracket | isQuestion
      · exact inBody_suffix (bracket isBracket) (inductionHypothesis others)
      · rw [isQuestion] at starts
        exact absurd starts (by decide)

/-! ## Reading atoms -/

/-- The reading leaves what follows an atom, or all of it but a bracket block or a question
mark that it took along. -/
def LeavesAtom {input : List Lexeme} {limit : Nat} (reading : Reading input limit)
    (after : List Lexeme) : Prop :=
  reading.Leaves after ∨
    ∃ extra later, after = extra :: later ∧
      (extra.kind = .bracketBlock ∨ extra.kind = .question) ∧ reading.Leaves later

/-- An atom is read from these lexemes, as an element without a label, up to what follows it. -/
structure AtomRead (head : Lexeme) (input after : List Lexeme) : Prop where
  starts : Ahead.elementStart (head :: input) = true
  unlabeled : labeledElement head input = atom head input
  leaves : LeavesAtom (atom head input) after

/-- A word is read as an atom wherever one can stand. -/
def AtomComplete (word : List Lexeme) : Prop :=
  ∃ head tail, word = head :: tail ∧ ∀ after, InBody after → AtomRead head (tail ++ after) after

theorem LeavesAtom.andThen {input middle : List Lexeme} {limit : Nat}
    {reading : Reading input limit} {following : (input : List Lexeme) → Attempt input}
    (former : reading.Leaves middle) (latter : LeavesAtom (following middle) after) :
    LeavesAtom (reading.andThen (following reading.rest)) after := by
  rcases latter with exact | ⟨extra, later, rfl, kinds, less⟩
  · exact .inl (former.andThen exact)
  · exact .inr ⟨extra, later, rfl, kinds, former.andThen less⟩

/-- A name before what can follow an atom or a label starts no rule. -/
theorem ruleStart_eq_false
    (follows : Ahead.oneOf ([.less, .equals, .plusEquals] ++ atomEnds) tail = true)
    (further : ∀ bracket later, tail = bracket :: later → bracket.kind = .bracketBlock →
      Ahead.oneOf (.less :: atomEnds) later = true) :
    Ahead.ruleStart (head :: tail) = false := by
  have noSpec : Ahead.ruleColonOrSpec tail = false := Ahead.not_oneOf follows (by decide)
  obtain ⟨second, later, rfl, _⟩ := Ahead.exists_of_oneOf follows
  have noBracket : (Ahead.next .bracketBlock (second :: later) &&
      (Ahead.ruleColonOrSpec later || Ahead.next .optionsKeyword later ||
        Ahead.next .atSign later)) = false := by
    by_cases bracket : second.kind = .bracketBlock
    · have after := further second later rfl bracket
      have noLaterSpec : Ahead.ruleColonOrSpec later = false := Ahead.not_oneOf after (by decide)
      rw [noLaterSpec, Ahead.not_next_of_oneOf after (by decide),
        Ahead.not_next_of_oneOf after (by decide)]
      exact Bool.and_false _
    · rw [Ahead.next, decide_eq_false bracket, Bool.false_and]
  show (_ && (Ahead.ruleColonOrSpec (second :: later) ||
    (Ahead.next .bracketBlock (second :: later) &&
      (Ahead.ruleColonOrSpec later || Ahead.next .optionsKeyword later ||
        Ahead.next .atSign later)))) = false
  rw [noSpec, noBracket]
  exact Bool.and_false _

theorem elementStart_of_name (named : head.kind = .identifier)
    (noRule : Ahead.ruleStart (head :: tail) = false) :
    Ahead.elementStart (head :: tail) = true := by
  simp [Ahead.elementStart, Ahead.next, named, noRule]

/-- A name that nothing makes a label is read as an atom, even if a bracket block follows,
which may be taken for its arguments. -/
theorem atomRead_name (named : head.kind = .identifier)
    (follows : Ahead.oneOf (.less :: atomEnds) tail = true)
    (further : ∀ bracket later, tail = bracket :: later → bracket.kind = .bracketBlock →
      Ahead.oneOf (.less :: atomEnds) later = true)
    (leaves : LeavesAtom (atom head tail) after) : AtomRead head tail after := by
  have noRule : Ahead.ruleStart (head :: tail) = false :=
    ruleStart_eq_false (Ahead.oneOf_mono follows (by decide)) further
  refine ⟨elementStart_of_name named noRule, ?_, leaves⟩
  · obtain ⟨sign, rest, rfl, signKind⟩ := Ahead.exists_of_oneOf follows
    unfold labeledElement
    dsimp only
    rw [if_neg]
    rintro ⟨_, equals | plusEquals⟩
    · rw [equals] at signKind
      exact absurd signKind (by decide)
    · rw [plusEquals] at signKind
      exact absurd signKind (by decide)

theorem atomRead_other (starts : head.kind ∈ atomStarts) (other : head.kind ≠ .identifier)
    (leaves : LeavesAtom (atom head tail) after) : AtomRead head tail after := by
  refine ⟨?_, ?_, leaves⟩
  · have oneOf : Ahead.oneOf
        [.string, .leftParen, .dot, .tilde, .action, .bracketBlock, .error]
        (head :: tail) = true := by
      have member := (List.mem_cons.mp starts).resolve_left other
      exact Ahead.oneOf_of_mem (List.mem_append_left [Kind.error] member)
    rw [Ahead.elementStart, oneOf, Bool.or_true]
  · cases tail with
    | nil =>
        unfold labeledElement
        rfl
    | cons sign rest =>
        unfold labeledElement
        dsimp only
        rw [if_neg fun labels => other labels.1]

theorem elementOptions_starts (derives : Derives (part .elementOptions) word) :
    ∃ less tail, word = less :: tail ∧ less.kind = .less := by
  obtain ⟨_, _, rfl, opened, _⟩ := derives_seq_iff.mp (derives_part_iff.mp derives)
  obtain ⟨_, _, rfl, isHead, _⟩ := derives_seq_iff.mp opened
  obtain ⟨less, lessKind, rfl⟩ := derives_kind_iff.mp isHead
  exact ⟨less, _, rfl, lessKind⟩

/-- What follows a name: the options of an element, and then what can follow an atom. -/
theorem options_follow {options : List Lexeme}
    (derives : Derives (optional (part .elementOptions)) options) (body : InBody after) :
    Ahead.oneOf (.less :: atomEnds) (options ++ after) = true ∧
      ∀ bracket later, options ++ after = bracket :: later → bracket.kind = .bracketBlock →
        Ahead.oneOf (.less :: atomEnds) later = true := by
  rcases derives_optional_iff.mp derives with some | rfl
  · obtain ⟨less, _, rfl, lessKind⟩ := elementOptions_starts some
    refine ⟨Ahead.oneOf_of_mem (by simp [lessKind]), ?_⟩
    intro bracket later same bracketKind
    cases same
    rw [lessKind] at bracketKind
    cases bracketKind
  · refine ⟨Ahead.oneOf_mono body.oneOf (List.subset_cons_self _ _), ?_⟩
    rintro bracket later rfl bracketKind
    exact Ahead.oneOf_mono (body.2 (.inl bracketKind)).oneOf (List.subset_cons_self _ _)

theorem options_leaves_body {options : List Lexeme}
    (derives : Derives (optional (part .elementOptions)) options) (body : InBody after) :
    (elementOptions? (options ++ after)).Leaves after :=
  elementOptions?_leaves derives (Ahead.not_next_of_oneOf body.oneOf (by decide))

theorem arguments?_leaves_nothing {input : List Lexeme}
    (none : Ahead.next .bracketBlock input = false) : (arguments? input).Leaves input := by
  cases input with
  | nil => exact leaves_nothing
  | cons head tail =>
      unfold arguments?
      dsimp only
      rw [if_neg (of_decide_eq_false none)]
      exact leaves_nothing

theorem arguments?_leaves (same : head.kind = .bracketBlock) :
    (arguments? (head :: tail)).Leaves tail := by
  unfold arguments?
  dsimp only
  rw [if_pos same]
  exact leaves_take.node.attempt

theorem tokenRef_complete {name : Lexeme} {options : List Lexeme}
    (named : name.kind = .identifier) (token : Text.isTokenName name.text = true)
    (optional : Derives (optional (part .elementOptions)) options) (body : InBody after) :
    AtomRead name (options ++ after) after := by
  obtain ⟨follows, further⟩ := options_follow optional body
  refine atomRead_name named follows further (.inl ?_)
  unfold atom
  simp only [named]
  rw [if_pos token]
  exact (leaves_take.andThen (options_leaves_body optional body)).node

theorem ruleRef_leaves {name : Lexeme} {input middle : List Lexeme}
    (named : name.kind = .identifier) (rule : Text.isTokenName name.text = false)
    (arguments : (arguments? input).Leaves middle)
    (options : (elementOptions? middle).Leaves rest) : (atom name input).Leaves rest := by
  unfold atom
  simp only [named]
  rw [if_neg (by rw [rule]; exact Bool.false_ne_true)]
  exact ((leaves_take.andThen arguments).andThen options).node

/-- A bracket block after the name of a rule is taken along as its argument. -/
theorem ruleRef_complete {name : Lexeme} {arguments options : List Lexeme}
    (named : name.kind = .identifier) (rule : Text.isTokenName name.text = false)
    (applied : Derives (optional (kind .bracketBlock)) arguments)
    (optional : Derives (optional (part .elementOptions)) options) (body : InBody after) :
    AtomRead name (arguments ++ options ++ after) after := by
  obtain ⟨follows, further⟩ := options_follow optional body
  have ownOptions := options_leaves_body optional body
  rcases derives_optional_iff.mp applied with isBracket | rfl
  · obtain ⟨bracket, bracketKind, rfl⟩ := derives_kind_iff.mp isBracket
    refine atomRead_name named (Ahead.oneOf_of_mem (by rw [bracketKind]; decide)) ?_ (.inl ?_)
    · intro _ later same _
      cases same
      exact follows
    · exact ruleRef_leaves named rule (arguments?_leaves bracketKind) ownOptions
  · apply atomRead_name named follows further
    cases bracket : Ahead.next .bracketBlock (options ++ after) with
    | false =>
        exact .inl (ruleRef_leaves named rule (arguments?_leaves_nothing bracket) ownOptions)
    | true =>
        obtain ⟨extra, later, same, extraKind⟩ := Ahead.exists_of_next bracket
        rcases derives_optional_iff.mp optional with some | rfl
        · obtain ⟨less, _, rfl, lessKind⟩ := elementOptions_starts some
          cases same
          rw [lessKind] at extraKind
          cases extraKind
        · cases same
          have noOptions := options_leaves_body (.right .empty) (body.2 (.inl extraKind))
          exact .inr ⟨extra, later, rfl, .inl extraKind,
            ruleRef_leaves named rule (arguments?_leaves extraKind) noOptions⟩

theorem range_complete {first dots last : Lexeme} (firstKind : first.kind = .string)
    (dotsKind : dots.kind = .doubleDot) (lastKind : last.kind = .string) :
    AtomRead first (dots :: last :: after) after := by
  refine atomRead_other (by rw [firstKind]; decide) (by rw [firstKind]; decide) (.inl ?_)
  unfold atom
  simp only [firstKind]
  rw [if_pos (leaves_take.next dotsKind), if_pos (leaves_take.bump.next lastKind)]
  exact leaves_take.bump.bump.node

theorem literal_complete {first : Lexeme} {options : List Lexeme} (firstKind : first.kind = .string)
    (optional : Derives (optional (part .elementOptions)) options) (body : InBody after) :
    AtomRead first (options ++ after) after := by
  refine atomRead_other (by rw [firstKind]; decide) (by rw [firstKind]; decide) (.inl ?_)
  have noRange : Ahead.next .doubleDot (options ++ after) = false :=
    Ahead.not_next_of_oneOf (options_follow optional body).1 (by decide)
  unfold atom
  simp only [firstKind]
  rw [if_neg (leaves_take.not_next noRange)]
  exact (leaves_take.andThen (options_leaves_body optional body)).node

theorem wildcard_complete {first : Lexeme} {options : List Lexeme} (firstKind : first.kind = .dot)
    (optional : Derives (optional (part .elementOptions)) options) (body : InBody after) :
    AtomRead first (options ++ after) after := by
  refine atomRead_other (by rw [firstKind]; decide) (by rw [firstKind]; decide) (.inl ?_)
  unfold atom
  simp only [firstKind]
  exact (leaves_take.andThen (options_leaves_body optional body)).node

/-- The alternatives of a block are read if all alternatives of their length are. -/
theorem block_complete {first last : Lexeme} {options filling : List Lexeme}
    (firstKind : first.kind = .leftParen) (lastKind : last.kind = .rightParen)
    (opened : Derives (optional (seq (part .options) (kind .colon))) options)
    (starts : Ahead.next .optionsKeyword (filling ++ last :: after) = false)
    (filled : (alternativeList (filling ++ last :: after)).Leaves (last :: after)) :
    AtomRead first (options ++ (filling ++ [last]) ++ after) after := by
  refine atomRead_other (by rw [firstKind]; decide) (by rw [firstKind]; decide) (.inl ?_)
  rw [List.append_assoc, List.append_assoc]
  unfold atom
  simp only [firstKind]
  refine Leaves.node (Leaves.expect ?_ lastKind)
  exact (leaves_take.andThen (blockOptions?_leaves opened starts)).andThen filled

theorem operand_leaves {missing : Fault} {input : List Lexeme}
    (read : AtomRead head input after) : LeavesAtom (operand missing (head :: input)) after := by
  unfold operand
  rw [if_pos read.starts]
  exact read.leaves

theorem negation_complete {first : Lexeme} {input : List Lexeme} (firstKind : first.kind = .tilde)
    (read : AtomRead head input after) : AtomRead first (head :: input) after := by
  apply atomRead_other (by rw [firstKind]; decide) (by rw [firstKind]; decide)
  unfold atom
  simp only [firstKind]
  exact LeavesAtom.andThen leaves_take (operand_leaves read)

theorem predicate_leaves {first question : Lexeme} {input : List Lexeme}
    (firstKind : first.kind = .action) (questionKind : question.kind = .question)
    (options : (elementOptions? input).Leaves rest) :
    (atom first (question :: input)).Leaves rest := by
  unfold atom
  simp only [firstKind]
  rw [if_pos (leaves_take.next questionKind)]
  exact (leaves_take.bump.andThen options).node

theorem predicate_complete {first question : Lexeme} {options : List Lexeme}
    (firstKind : first.kind = .action) (questionKind : question.kind = .question)
    (optional : Derives (optional (part .elementOptions)) options) (body : InBody after) :
    AtomRead first (question :: (options ++ after)) after :=
  atomRead_other (by rw [firstKind]; decide) (by rw [firstKind]; decide)
    (.inl (predicate_leaves firstKind questionKind (options_leaves_body optional body)))

/-- A question mark after target code is taken along: the code is a predicate. -/
theorem action_complete {first : Lexeme} (firstKind : first.kind = .action)
    (body : InBody after) : AtomRead first after after := by
  apply atomRead_other (by rw [firstKind]; decide) (by rw [firstKind]; decide)
  cases question : Ahead.next .question after with
  | false =>
      refine .inl ?_
      unfold atom
      simp only [firstKind]
      rw [if_neg (leaves_take.not_next question)]
      exact leaves_take.node
  | true =>
      obtain ⟨extra, later, rfl, extraKind⟩ := Ahead.exists_of_next question
      have noOptions := options_leaves_body (.right .empty) (body.2 (.inr extraKind))
      exact .inr ⟨extra, later, rfl, .inr extraKind,
        predicate_leaves firstKind extraKind noOptions⟩

theorem charSet_complete {first : Lexeme} (firstKind : first.kind = .bracketBlock) :
    AtomRead first after after := by
  refine atomRead_other (by rw [firstKind]; decide) (by rw [firstKind]; decide) (.inl ?_)
  unfold atom
  simp only [firstKind]
  exact leaves_take.node

/-! ## Elements -/

/-- Every atom of fewer lexemes is read wherever it can stand. -/
def AtomsBelow (bound : Nat) : Prop :=
  ∀ word, word.length < bound → Derives (part .atom) word → AtomComplete word

/-- An atom with or without a label is read as an element, given that all shorter atoms are
read. -/
theorem labeledElement_complete {bound : Nat} (atoms : AtomsBelow bound)
    (derives :
      Derives
        (oneOf
          [all [kind .identifier, oneOf [kind .equals, kind .plusEquals], part .atom],
            part .atom])
        word)
    (short : word.length < bound) :
    ∃ head tail, word = head :: tail ∧ ∀ after, InBody after →
      Ahead.elementStart (head :: (tail ++ after)) = true ∧
        LeavesAtom (labeledElement head (tail ++ after)) after := by
  rcases derives_either_iff.mp derives with labeled | atom
  · obtain ⟨_, own, rfl, label, isAtom⟩ := derives_seq_iff.mp labeled
    obtain ⟨_, _, rfl, isName, isSign⟩ := derives_seq_iff.mp label
    obtain ⟨name, named, rfl⟩ := derives_kind_iff.mp isName
    obtain ⟨sign, signKind, rfl⟩ :=
      exists_of_derives_kinds [.equals, .plusEquals] (by decide) isSign
    simp only [List.length_append, List.length_cons, List.length_nil] at short
    obtain ⟨head, tail, rfl, read⟩ := atoms own (by omega) isAtom
    refine ⟨name, sign :: head :: tail, rfl, fun after body => ⟨?_, ?_⟩⟩
    · refine elementStart_of_name named (ruleStart_eq_false (Ahead.oneOf_of_mem ?_) ?_)
      · exact List.mem_append_left _ (List.mem_cons_of_mem _ signKind)
      · intro _ _ same bracket
        cases same
        rw [bracket] at signKind
        exact absurd signKind (by decide)
    · have labels : sign.kind = .equals ∨ sign.kind = .plusEquals := by simpa using signKind
      show LeavesAtom (labeledElement name (sign :: head :: (tail ++ after))) after
      unfold labeledElement
      dsimp only
      rw [if_pos ⟨named, labels⟩]
      exact LeavesAtom.andThen (leaves_take.append leaves_take)
        (operand_leaves (read after body))
  · obtain ⟨head, tail, rfl, read⟩ := atoms word short atom
    refine ⟨head, tail, rfl, fun after body => ⟨(read after body).starts, ?_⟩⟩
    rw [(read after body).unlabeled]
    exact (read after body).leaves

/-- A suffix is read with the element before it. -/
theorem element_leaves {input suffix : List Lexeme}
    (body : (labeledElement head input).Leaves (suffix ++ rest))
    (isSuffix : Derives (optional (part .suffix)) suffix)
    (ends : Ahead.oneOf (atomStarts ++ elementsEnds) rest = true) :
    (element head input).Leaves rest := by
  unfold element
  dsimp only
  rcases derives_optional_iff.mp isSuffix with some | rfl
  · obtain ⟨_, more, rfl, isFirst, isMore⟩ := derives_seq_iff.mp (derives_part_iff.mp some)
    obtain ⟨first, firstKind, rfl⟩ :=
      exists_of_derives_kinds [.question, .star, .plus] (by decide) isFirst
    have suffixed : Ahead.suffix (labeledElement head input).rest = true := by
      rw [body.1]
      exact Ahead.oneOf_of_mem firstKind
    rw [if_pos suffixed]
    have bumped : (labeledElement head input).bump.Leaves (more ++ rest) := Leaves.bump body
    rcases derives_optional_iff.mp isMore with isQuestion | rfl
    · obtain ⟨question, questionKind, rfl⟩ := derives_kind_iff.mp isQuestion
      exact (bumped.eat questionKind).node
    · exact (bumped.eat_none (Ahead.not_next_of_oneOf ends (by decide))).node
  · have unsuffixed : ¬Ahead.suffix (labeledElement head input).rest = true := by
      rw [body.1]
      show ¬Ahead.oneOf [.question, .star, .plus] rest = true
      rw [Ahead.not_oneOf ends (by decide)]
      exact Bool.false_ne_true
    rw [if_neg unsuffixed]
    exact body

/-- What comes after an element is another element or the end of all. -/
theorem elements_follow {words : List (List Lexeme)}
    (each : ∀ word ∈ words, Derives (part .element) word)
    (ends : Ahead.oneOf elementsEnds rest = true) :
    Ahead.oneOf (atomStarts ++ elementsEnds) (words.flatten ++ rest) = true := by
  refine Ahead.oneOf_flatten (fun word member => ?_)
    (Ahead.oneOf_mono ends (List.subset_append_right _ _))
  obtain ⟨head, tail, rfl, starts, _⟩ := element_starts (each word member)
  exact Ahead.oneOf_of_mem (List.mem_append_left _ starts)

/-- An element is read up to the next one, or together with the next one: a character set
becomes the argument of the name before it. -/
theorem element_complete {bound : Nat} (atoms : AtomsBelow bound) {words : List (List Lexeme)}
    (derives : Derives (part .element) word) (short : word.length < bound)
    (each : ∀ word ∈ words, Derives (part .element) word)
    (ends : Ahead.oneOf elementsEnds rest = true) :
    ∃ head tail, word = head :: tail ∧
      Ahead.elementStart (head :: (tail ++ (words.flatten ++ rest))) = true ∧
      ((element head (tail ++ (words.flatten ++ rest))).Leaves (words.flatten ++ rest) ∨
        ∃ next others, words = next :: others ∧
          (element head (tail ++ (words.flatten ++ rest))).Leaves (others.flatten ++ rest)) := by
  obtain ⟨own, suffix, rfl, isOwn, isSuffix⟩ :=
    derives_seq_iff.mp (derives_part_iff.mp derives)
  rw [List.length_append] at short
  obtain ⟨head, tail, rfl, read⟩ := labeledElement_complete atoms isOwn (by omega)
  have body : InBody (suffix ++ (words.flatten ++ rest)) :=
    inBody_suffix isSuffix (inBody_elements each ends)
  obtain ⟨starts, leaves⟩ := read _ body
  refine ⟨head, tail ++ suffix, rfl, ?_⟩
  rw [List.append_assoc]
  refine ⟨starts, ?_⟩
  rcases leaves with exact | ⟨extra, later, same, kinds, less⟩
  · exact .inl (element_leaves exact isSuffix (elements_follow each ends))
  · rcases derives_optional_iff.mp isSuffix with some | rfl
    · -- the question mark of a predicate is the first of the suffix
      obtain ⟨_, more, rfl, isFirst, isMore⟩ := derives_seq_iff.mp (derives_part_iff.mp some)
      obtain ⟨first, firstKind, rfl⟩ :=
        exists_of_derives_kinds [.question, .star, .plus] (by decide) isFirst
      cases same
      have left : (labeledElement head _).Leaves (more ++ (words.flatten ++ rest)) := less
      refine .inl (element_leaves left ?_ (elements_follow each ends))
      rcases derives_optional_iff.mp isMore with isQuestion | rfl
      · refine .left (.part ?_)
        rw [← List.append_nil more]
        exact .seq (.oneOf 0 rfl isQuestion) (.right .empty)
      · exact .right .empty
    · cases words with
      | nil =>
          obtain ⟨head, tail, rfl, isEnd⟩ := Ahead.exists_of_oneOf ends
          cases same
          rcases kinds with bracket | question
          · rw [bracket] at isEnd
            exact absurd isEnd (by decide)
          · rw [question] at isEnd
            exact absurd isEnd (by decide)
      | cons next others =>
          -- the argument of a name is the character set that the next element begins with
          obtain ⟨nextElement, more⟩ := List.forall_mem_cons.mp each
          obtain ⟨first, further, rfl, starts, bracket⟩ := element_starts nextElement
          rw [List.flatten_cons, List.append_assoc] at same
          cases same
          refine .inr ⟨_, others, rfl, ?_⟩
          rcases kinds with isBracket | isQuestion
          · exact element_leaves less (bracket isBracket) (elements_follow more ends)
          · rw [isQuestion] at starts
            exact absurd starts (by decide)

/-- A row of elements is read up to what ends it. A bracket block that the reader of one
element leaves is taken by the reader of the row. -/
theorem elements_leaves {bound : Nat} (atoms : AtomsBelow bound) {words : List (List Lexeme)}
    (each : ∀ word ∈ words, Derives (part .element) word)
    (short : words.flatten.length < bound)
    (ends : Ahead.oneOf elementsEnds rest = true)
    (noElement : Ahead.elementStart rest = false) :
    (elements (words.flatten ++ rest)).Leaves rest := by
  induction count : words.length using Nat.strongRecOn generalizing words with
  | ind count inductionHypothesis =>
      cases words with
      | nil =>
          obtain ⟨head, tail, rfl, _⟩ := Ahead.exists_of_oneOf ends
          show (elements (head :: tail)).Leaves _
          unfold elements
          rw [if_neg (by rw [noElement]; exact Bool.false_ne_true)]
          exact leaves_nothing
      | cons word words =>
          obtain ⟨first, others⟩ := List.forall_mem_cons.mp each
          rw [List.flatten_cons, List.length_append] at short
          obtain ⟨head, tail, rfl, starts, read⟩ :=
            element_complete atoms first (by omega) others ends
          rw [List.flatten_cons, List.append_assoc]
          show (elements (head :: (tail ++ (words.flatten ++ rest)))).Leaves rest
          unfold elements
          rw [if_pos starts]
          rw [List.length_cons] at count
          rcases read with exact | ⟨next, last, rfl, more⟩
          · exact exact.attempt.andThen (inductionHypothesis _ (by omega) others (by omega) rfl)
          · have eachLast := (List.forall_mem_cons.mp others).2
            rw [List.flatten_cons, List.length_append] at short
            rw [List.length_cons] at count
            exact more.attempt.andThen (inductionHypothesis _ (by omega) eachLast (by omega) rfl)

/-! ## Alternatives -/

/-- Where the parts of an alternative begin that follow its elements. -/
theorem commands_follow {label commands : List Lexeme}
    (isLabel : Derives (optional (seq (kind .hash) (kind .identifier))) label)
    (isCommands : Derives (optional (part .commands)) commands) (ends : RowEnds rest) :
    Ahead.oneOf (.arrow :: rowEnds) (commands ++ rest) = true ∧
      Ahead.oneOf elementsEnds (label ++ (commands ++ rest)) = true ∧
        Ahead.elementStart (label ++ (commands ++ rest)) = false := by
  have afterLabel : Ahead.oneOf (.arrow :: rowEnds) (commands ++ rest) = true ∧
      Ahead.elementStart (commands ++ rest) = false := by
    rcases derives_optional_iff.mp isCommands with some | rfl
    · obtain ⟨_, _, rfl, isArrow, _⟩ := derives_seq_iff.mp (derives_part_iff.mp some)
      obtain ⟨arrow, arrowKind, rfl⟩ := derives_kind_iff.mp isArrow
      have starts {later : List Lexeme} : Ahead.oneOf [.arrow] (arrow :: later) = true :=
        Ahead.oneOf_of_mem (by simp [arrowKind])
      exact ⟨Ahead.oneOf_mono starts (by simp), elementStart_eq_false starts (by decide)⟩
    · exact ⟨Ahead.oneOf_mono ends.kinds (List.subset_cons_self _ _), ends.noElement⟩
  refine ⟨afterLabel.1, ?_⟩
  rcases derives_optional_iff.mp isLabel with some | rfl
  · obtain ⟨_, _, rfl, isHash, _⟩ := derives_seq_iff.mp some
    obtain ⟨hash, hashKind, rfl⟩ := derives_kind_iff.mp isHash
    have starts {later : List Lexeme} : Ahead.oneOf [.hash] (hash :: later) = true :=
      Ahead.oneOf_of_mem (by simp [hashKind])
    exact ⟨Ahead.oneOf_mono starts (by decide), elementStart_eq_false starts (by decide)⟩
  · exact ⟨Ahead.oneOf_mono afterLabel.1 (List.subset_cons_self _ _), afterLabel.2⟩

theorem alternative_follow (derives : Derives (part .alternative) word) (ends : RowEnds rest) :
    Ahead.oneOf (.less :: (atomStarts ++ elementsEnds)) (word ++ rest) = true := by
  obtain ⟨_, commands, rfl, labeled, isCommands⟩ :=
    derives_seq_iff.mp (derives_part_iff.mp derives)
  obtain ⟨_, label, rfl, filled, isLabel⟩ := derives_seq_iff.mp labeled
  obtain ⟨options, own, rfl, isOptions, isOwn⟩ := derives_seq_iff.mp filled
  obtain ⟨words, rfl, each⟩ := derives_many_iff.mp isOwn
  have afterElements := (commands_follow isLabel isCommands ends).2.1
  rw [List.append_assoc, List.append_assoc, List.append_assoc]
  rcases derives_optional_iff.mp isOptions with some | rfl
  · obtain ⟨less, tail, rfl, lessKind⟩ := elementOptions_starts some
    exact Ahead.oneOf_of_mem (by simp [lessKind])
  · exact Ahead.oneOf_mono (elements_follow each afterElements) (List.subset_cons_self _ _)

theorem alternative_leaves {bound : Nat} (atoms : AtomsBelow bound)
    (derives : Derives (part .alternative) word) (short : word.length < bound)
    (ends : RowEnds rest) :
    (alternative (word ++ rest)).Leaves rest := by
  obtain ⟨_, commands, rfl, labeled, isCommands⟩ :=
    derives_seq_iff.mp (derives_part_iff.mp derives)
  obtain ⟨_, label, rfl, filled, isLabel⟩ := derives_seq_iff.mp labeled
  obtain ⟨options, own, rfl, isOptions, isOwn⟩ := derives_seq_iff.mp filled
  obtain ⟨words, rfl, each⟩ := derives_many_iff.mp isOwn
  simp only [List.length_append] at short
  obtain ⟨afterLabel, afterElements, noElement⟩ := commands_follow isLabel isCommands ends
  have noOptions : Ahead.next .less (words.flatten ++ (label ++ (commands ++ rest))) = false :=
    Ahead.not_next_of_oneOf (elements_follow each afterElements) (by decide)
  have noLabel : Ahead.next .hash (commands ++ rest) = false :=
    Ahead.not_next_of_oneOf afterLabel (by decide)
  rw [List.append_assoc, List.append_assoc, List.append_assoc]
  unfold alternative
  refine Leaves.node (Leaves.andThen ?_ (lexerCommands?_leaves isCommands ends.kinds))
  refine Leaves.andThen ?_ (alternativeLabel?_leaves isLabel noLabel)
  exact (elementOptions?_leaves isOptions noOptions).andThen
    (elements_leaves atoms each (by omega) afterElements noElement)

theorem moreAlternatives_leaves {bound : Nat} (atoms : AtomsBelow bound)
    (derives : Derives (many (seq (kind .pipe) (part .alternative))) word)
    (short : word.length < bound) (ends : RowEnds rest) (noBar : Ahead.next .pipe rest = false) :
    (moreAlternatives (word ++ rest)).Leaves rest := by
  refine leaves_many RowEnds derives ends ?_ fun first shorter follow read => ?_
  · obtain ⟨head, tail, rfl, _⟩ := Ahead.exists_of_oneOf ends.kinds
    unfold moreAlternatives
    rw [if_neg (of_decide_eq_false noBar)]
    exact leaves_nothing
  · obtain ⟨_, own, rfl, isPipe, isOwn⟩ := derives_seq_iff.mp first
    obtain ⟨pipe, pipeKind, rfl⟩ := derives_kind_iff.mp isPipe
    rw [List.length_append] at shorter
    refine ⟨rowEnds_of_oneOf (Ahead.oneOf_of_mem (by simp [pipeKind])), ?_⟩
    rw [List.append_assoc]
    show (moreAlternatives (pipe :: _)).Leaves rest
    unfold moreAlternatives
    rw [if_pos pipeKind]
    refine Leaves.andThen (Leaves.attempt ?_) read
    exact leaves_take.andThen (alternative_leaves atoms isOwn (by omega) follow)

/-- What follows the first of some alternatives. -/
theorem rowEnds_separated (derives : Derives (many (seq (kind .pipe) (part .alternative))) word)
    (ends : RowEnds rest) : RowEnds (word ++ rest) := by
  obtain ⟨words, rfl, each⟩ := derives_many_iff.mp derives
  cases words with
  | nil => exact ends
  | cons first words =>
      obtain ⟨_, _, rfl, isPipe, _⟩ := derives_seq_iff.mp (each _ List.mem_cons_self)
      obtain ⟨pipe, pipeKind, rfl⟩ := derives_kind_iff.mp isPipe
      exact rowEnds_of_oneOf (Ahead.oneOf_of_mem (by simp [pipeKind]))

theorem alternativeList_leaves_of_atoms {bound : Nat} (atoms : AtomsBelow bound)
    (derives : Derives (part .alternatives) word) (short : word.length < bound)
    (ends : RowEnds rest) (noBar : Ahead.next .pipe rest = false) :
    (alternativeList (word ++ rest)).Leaves rest := by
  obtain ⟨first, more, rfl, isFirst, isMore⟩ :=
    derives_seq_iff.mp (derives_part_iff.mp derives)
  rw [List.length_append] at short
  rw [List.append_assoc]
  unfold alternativeList
  refine Leaves.node
    (Leaves.andThen ?_ (moreAlternatives_leaves atoms isMore (by omega) ends noBar))
  exact alternative_leaves atoms isFirst (by omega) (rowEnds_separated isMore ends)

theorem alternatives_follow (derives : Derives (part .alternatives) word) (ends : RowEnds rest) :
    Ahead.oneOf (.less :: (atomStarts ++ elementsEnds)) (word ++ rest) = true := by
  obtain ⟨first, more, rfl, isFirst, isMore⟩ :=
    derives_seq_iff.mp (derives_part_iff.mp derives)
  rw [List.append_assoc]
  exact alternative_follow isFirst (rowEnds_separated isMore ends)

/-- An atom is read wherever it can stand, by induction on its length: the atoms within a block
or a negation are shorter. -/
theorem atomComplete_of_derives (derives : Derives (part .atom) word) : AtomComplete word := by
  suffices below : ∀ bound, AtomsBelow bound from below _ word (Nat.lt_succ_self _) derives
  intro bound
  induction bound with
  | zero => exact fun _ short => absurd short (Nat.not_lt_zero _)
  | succ bound atoms =>
      intro word short derives
      cases atomForm_of_derives derives with
      | token named token optional =>
          exact ⟨_, _, rfl, fun _ body => tokenRef_complete named token optional body⟩
      | rule named rule applied optional =>
          exact ⟨_, _, rfl, fun _ body => ruleRef_complete named rule applied optional body⟩
      | range firstKind dotsKind lastKind =>
          exact ⟨_, _, rfl, fun _ _ => range_complete firstKind dotsKind lastKind⟩
      | literal firstKind optional =>
          exact ⟨_, _, rfl, fun _ body => literal_complete firstKind optional body⟩
      | @block first last options filling firstKind opened filled lastKind =>
          simp only [List.length_cons, List.length_append] at short
          refine ⟨_, _, rfl, ?_⟩
          intro after _
          have closes : Ahead.oneOf [.rightParen] (last :: after) = true :=
            Ahead.oneOf_of_mem (by simp [lastKind])
          have ends : RowEnds (last :: after) :=
            rowEnds_of_oneOf (Ahead.oneOf_mono closes (by simp))
          exact block_complete firstKind lastKind opened
            (Ahead.not_next_of_oneOf (alternatives_follow filled ends) (by decide))
            (alternativeList_leaves_of_atoms atoms filled (by omega) ends
              (Ahead.not_next_of_oneOf closes (by decide)))
      | wildcard firstKind optional =>
          exact ⟨_, _, rfl, fun _ body => wildcard_complete firstKind optional body⟩
      | negation firstKind negated =>
          rw [List.length_cons] at short
          obtain ⟨head, tail, rfl, read⟩ := atoms _ (by omega) negated
          exact ⟨_, _, rfl, fun after body => negation_complete firstKind (read after body)⟩
      | predicate firstKind questionKind optional =>
          exact ⟨_, _, rfl, fun _ body => predicate_complete firstKind questionKind optional body⟩
      | action firstKind => exact ⟨_, _, rfl, fun _ body => action_complete firstKind body⟩
      | charSet firstKind => exact ⟨_, _, rfl, fun _ _ => charSet_complete firstKind⟩

/-- Alternatives are read without fault up to what closes them, or up to the next rule. -/
theorem alternativeList_leaves (derives : Derives (part .alternatives) word)
    (ends : RowEnds rest) (noBar : Ahead.next .pipe rest = false) :
    (alternativeList (word ++ rest)).Leaves rest :=
  alternativeList_leaves_of_atoms (fun _ _ => atomComplete_of_derives) derives
    (Nat.lt_succ_self _) ends noBar

end GrammarDesk.Syntax.Production
