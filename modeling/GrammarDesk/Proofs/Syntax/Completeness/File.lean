import GrammarDesk.Proofs.Syntax.Completeness.Rule
import GrammarDesk.Syntax.Production.File

/-!
Contract: a file of the form of the grammar is read without a fault.

Owns: for every production of a member, that a reader of a word of its phrase finds no fault
and leaves just what follows the word, and where a mode with its rules divides into members.

Main statement: a file that the grammar derives has no problem but its unreadable lexemes
(`unreadable_of_derives`).
-/

namespace GrammarDesk.Syntax.Production

open Reading
open Ebnf
open Ebnf.Phrase

variable {word rest : List Lexeme} {head : Lexeme} {tail : List Lexeme}

/-! ## Members -/

theorem header_leaves (derives : Derives (part .header) word) :
    ∃ head tail, word = head :: tail ∧
      (head.kind = .grammarKeyword ∨
        head.kind ∈ [Kind.lexerKeyword, .parserKeyword] ∧ Ahead.next .grammarKeyword tail = true) ∧
      ∀ rest, (header head (tail ++ rest)).Leaves rest := by
  obtain ⟨_, _, rfl, named, isEnd⟩ := derives_seq_iff.mp (derives_part_iff.mp derives)
  obtain ⟨_, _, rfl, opened, isName⟩ := derives_seq_iff.mp named
  obtain ⟨_, _, rfl, isSort, isGrammar⟩ := derives_seq_iff.mp opened
  obtain ⟨grammar, grammarKind, rfl⟩ := derives_kind_iff.mp isGrammar
  obtain ⟨name, nameKind, rfl⟩ := derives_kind_iff.mp isName
  obtain ⟨close, closeKind, rfl⟩ := derives_kind_iff.mp isEnd
  rcases derives_optional_iff.mp isSort with some | rfl
  · obtain ⟨sort, sortKind, rfl⟩ :=
      exists_of_derives_kinds [.lexerKeyword, .parserKeyword] (by decide) some
    refine ⟨sort, [grammar, name, close], rfl, .inr ⟨sortKind, decide_eq_true grammarKind⟩,
      fun rest => ?_⟩
    have noGrammar : sort.kind ≠ .grammarKeyword := by
      rintro same
      rw [same] at sortKind
      exact absurd sortKind (by decide)
    unfold header
    dsimp only
    rw [if_neg noGrammar]
    refine Leaves.node (Leaves.expect ?_ closeKind)
    exact (leaves_take.expect grammarKind).andThen (name_leaves nameKind)
  · refine ⟨grammar, [name, close], rfl, .inl grammarKind, ?_⟩
    intro rest
    unfold header
    dsimp only
    rw [if_pos grammarKind]
    refine Leaves.node (Leaves.expect ?_ closeKind)
    exact leaves_take.andThen (name_leaves nameKind)

theorem importTarget_leaves (same : head.kind = .identifier) :
    (importTarget (head :: tail)).Leaves tail := by
  unfold importTarget
  dsimp only
  rw [if_pos same]
  exact leaves_take.node.attempt

theorem importItem_leaves (derives : Derives (part .item) word)
    (ends : Ahead.next .equals rest = false) : (importItem (word ++ rest)).Leaves rest := by
  obtain ⟨_, _, rfl, isAlias, isTarget⟩ := derives_seq_iff.mp (derives_part_iff.mp derives)
  obtain ⟨target, targetKind, rfl⟩ := derives_kind_iff.mp isTarget
  rcases derives_optional_iff.mp isAlias with some | rfl
  · obtain ⟨_, _, rfl, isName, isSign⟩ := derives_seq_iff.mp some
    obtain ⟨name, nameKind, rfl⟩ := derives_kind_iff.mp isName
    obtain ⟨sign, signKind, rfl⟩ := derives_kind_iff.mp isSign
    have aliased : (importAlias? (name :: sign :: target :: rest)).Leaves (target :: rest) := by
      unfold importAlias?
      dsimp only
      rw [if_pos ⟨nameKind, decide_eq_true signKind⟩]
      exact leaves_take.node.bump.attempt
    exact (aliased.andThen (importTarget_leaves targetKind)).node
  · have unaliased : (importAlias? (target :: rest)).Leaves (target :: rest) := by
      unfold importAlias?
      dsimp only
      rw [if_neg fun both => absurd both.2 (by rw [ends]; exact Bool.false_ne_true)]
      exact leaves_nothing
    exact (unaliased.andThen (importTarget_leaves targetKind)).node

theorem moreImports_leaves (derives : Derives (many (seq (kind .comma) (part .item))) word)
    (ends : head.kind = .semicolon) :
    (moreImports (word ++ head :: tail)).Leaves (head :: tail) := by
  refine leaves_many (fun later => Ahead.oneOf [.comma, .semicolon] later = true)
    derives (Ahead.oneOf_of_mem (by simp [ends])) ?_ fun first _ follow read => ?_
  · unfold moreImports
    rw [if_neg (by rw [ends]; decide)]
    exact leaves_nothing
  · obtain ⟨_, own, rfl, isComma, isItem⟩ := derives_seq_iff.mp first
    obtain ⟨comma, commaKind, rfl⟩ := derives_kind_iff.mp isComma
    refine ⟨Ahead.oneOf_of_mem (by simp [commaKind]), ?_⟩
    rw [List.append_assoc]
    show (moreImports (comma :: _)).Leaves _
    unfold moreImports
    rw [if_pos commaKind]
    refine Leaves.andThen (Leaves.attempt ?_) read
    exact leaves_take.andThen
      (importItem_leaves isItem (Ahead.not_next_of_oneOf follow (by decide)))

theorem importDecl_leaves (derives : Derives (part .imports) word) :
    ∃ head tail, word = head :: tail ∧ head.kind = .importKeyword ∧
      ∀ rest, (importDecl head (tail ++ rest)).Leaves rest := by
  obtain ⟨_, _, rfl, listed, isEnd⟩ := derives_seq_iff.mp (derives_part_iff.mp derives)
  obtain ⟨_, _, rfl, isHead, items⟩ := derives_seq_iff.mp listed
  obtain ⟨first, more, rfl, isFirst, isMore⟩ := derives_seq_iff.mp items
  obtain ⟨head, headKind, rfl⟩ := derives_kind_iff.mp isHead
  obtain ⟨close, closeKind, rfl⟩ := derives_kind_iff.mp isEnd
  refine ⟨head, first ++ more ++ [close], rfl, headKind, ?_⟩
  intro rest
  have follow : Ahead.oneOf [.comma, .semicolon] (more ++ close :: rest) = true :=
    oneOf_separated isMore (Ahead.oneOf_of_mem (by simp [closeKind]))
  rw [List.append_assoc, List.append_assoc]
  unfold importDecl
  refine Leaves.node (Leaves.expect (Leaves.andThen ?_ (moreImports_leaves isMore closeKind))
    closeKind)
  exact leaves_take.andThen
    (importItem_leaves isFirst (Ahead.not_next_of_oneOf follow (by decide)))

/-! ## Token and channel lists -/

theorem listEntries_leaves {entry : Kind} {name close : Lexeme} {trailing : List Lexeme}
    (named : name.kind = .identifier)
    (derives : Derives (many (seq (kind .comma) (kind .identifier))) word)
    (isTrailing : Derives (optional (kind .comma)) trailing) (ends : close.kind = .rightBrace) :
    (listEntries entry (name :: (word ++ (trailing ++ close :: rest)))).Leaves
      (close :: rest) := by
  obtain ⟨words, rfl, each⟩ := derives_many_iff.mp derives
  clear derives
  induction words generalizing name with
  | nil =>
      rcases derives_optional_iff.mp isTrailing with some | rfl
      · obtain ⟨comma, commaKind, rfl⟩ := derives_kind_iff.mp some
        have closed : (listEntries entry (close :: rest)).Leaves (close :: rest) := by
          unfold listEntries
          rw [if_neg (by rw [ends]; decide)]
          exact leaves_nothing
        show (listEntries entry (name :: comma :: close :: rest)).Leaves _
        unfold listEntries
        dsimp only
        rw [if_pos named, if_pos (leaves_take.node.node.next commaKind)]
        exact leaves_take.node.node.bump.attempt.andThen closed
      · have noComma : Ahead.next .comma (close :: rest) = false :=
          decide_eq_false (by rw [ends]; decide)
        show (listEntries entry (name :: close :: rest)).Leaves _
        unfold listEntries
        dsimp only
        rw [if_pos named, if_neg (leaves_take.node.node.not_next noComma)]
        exact leaves_take.node.node.attempt
  | cons word words inductionHypothesis =>
      obtain ⟨first, others⟩ := List.forall_mem_cons.mp each
      obtain ⟨_, _, rfl, isComma, isNext⟩ := derives_seq_iff.mp first
      obtain ⟨comma, commaKind, rfl⟩ := derives_kind_iff.mp isComma
      obtain ⟨next, nextKind, rfl⟩ := derives_kind_iff.mp isNext
      rw [List.flatten_cons]
      show (listEntries entry
        (name :: comma :: next :: (words.flatten ++ (trailing ++ close :: rest)))).Leaves _
      unfold listEntries
      dsimp only
      rw [if_pos named, if_pos (leaves_take.node.node.next commaKind)]
      exact leaves_take.node.node.bump.attempt.andThen (inductionHypothesis nextKind others)

theorem listRemainder_leaves (ends : head.kind = .rightBrace) :
    (listRemainder (head :: tail)).Leaves (head :: tail) := by
  unfold listRemainder
  dsimp only
  rw [if_pos (.inl ends)]
  exact leaves_nothing

theorem nameList_leaves (derives : Derives (part .names) word) :
    ∃ head tail, word = head :: tail ∧ head.kind ∈ [Kind.tokensKeyword, .channelsKeyword] ∧
      ∀ list entry rest, (nameList list entry head (tail ++ rest)).Leaves rest := by
  obtain ⟨_, _, rfl, listed, isEnd⟩ := derives_seq_iff.mp (derives_part_iff.mp derives)
  obtain ⟨_, names, rfl, opened, isNames⟩ := derives_seq_iff.mp listed
  obtain ⟨_, _, rfl, isHead, isOpen⟩ := derives_seq_iff.mp opened
  obtain ⟨head, headKind, rfl⟩ :=
    exists_of_derives_kinds [.tokensKeyword, .channelsKeyword] (by decide) isHead
  obtain ⟨brace, braceKind, rfl⟩ := derives_kind_iff.mp isOpen
  obtain ⟨close, closeKind, rfl⟩ := derives_kind_iff.mp isEnd
  refine ⟨head, brace :: (names ++ [close]), rfl, headKind, ?_⟩
  intro list entry rest
  have entries : (listEntries entry (names ++ close :: rest)).Leaves (close :: rest) := by
    rcases derives_optional_iff.mp isNames with some | rfl
    · obtain ⟨_, trailing, rfl, separated, isTrailing⟩ := derives_seq_iff.mp some
      obtain ⟨_, more, rfl, isFirst, isMore⟩ := derives_seq_iff.mp separated
      obtain ⟨first, firstKind, rfl⟩ := derives_kind_iff.mp isFirst
      rw [List.append_assoc, List.append_assoc]
      exact listEntries_leaves firstKind isMore isTrailing closeKind
    · show (listEntries entry (close :: rest)).Leaves _
      unfold listEntries
      rw [if_neg (by rw [closeKind]; decide)]
      exact leaves_nothing
  rw [List.cons_append, List.append_assoc]
  unfold nameList
  dsimp only
  rw [if_pos (leaves_take.next braceKind)]
  refine Leaves.node (Leaves.expect (Leaves.andThen ?_ (listRemainder_leaves closeKind)) closeKind)
  exact leaves_take.bump.andThen entries

/-! ## Named actions -/

theorem actionName_starts (derives : Derives (part .actionName) word) :
    ∃ name, word = [name] ∧ ∀ rest, Ahead.actionName (name :: rest) = true := by
  obtain ⟨name, nameKind, rfl⟩ :=
    exists_of_derives_kinds [.identifier, .parserKeyword, .lexerKeyword] (by decide)
      (derives_part_iff.mp derives)
  exact ⟨name, rfl, fun rest => Ahead.oneOf_of_mem nameKind⟩

theorem actionName_leaves {scope : List Lexeme} (derives : Derives (part .actionName) word)
    (isScope : Derives (optional (seq (kind .doubleColon) (part .actionName))) scope)
    (ends : Ahead.next .doubleColon rest = false) :
    (actionName (word ++ (scope ++ rest))).Leaves rest := by
  obtain ⟨name, rfl, starts⟩ := actionName_starts derives
  rcases derives_optional_iff.mp isScope with some | rfl
  · obtain ⟨_, _, rfl, isColons, isName⟩ := derives_seq_iff.mp some
    obtain ⟨colons, colonsKind, rfl⟩ := derives_kind_iff.mp isColons
    obtain ⟨second, rfl, further⟩ := actionName_starts isName
    have opened : (take name (colons :: second :: rest)).bump.Leaves (second :: rest) :=
      leaves_take.bump
    have isSecond : Ahead.actionName (take name (colons :: second :: rest)).bump.rest = true := by
      rw [opened.1]
      exact further rest
    show (actionName (name :: colons :: second :: rest)).Leaves rest
    unfold actionName
    dsimp only
    rw [if_pos (starts _), if_pos (leaves_take.next colonsKind), if_pos isSecond]
    exact opened.bump.node.attempt
  · show (actionName (name :: rest)).Leaves rest
    unfold actionName
    dsimp only
    rw [if_pos (starts _), if_neg (leaves_take.not_next ends)]
    exact leaves_take.node.attempt

theorem namedAction_leaves (derives : Derives (part .namedAction) word) :
    ∃ head tail, word = head :: tail ∧ head.kind = .atSign ∧
      ∀ rest, (namedAction head (tail ++ rest)).Leaves rest := by
  obtain ⟨_, _, rfl, named, isAction⟩ := derives_seq_iff.mp (derives_part_iff.mp derives)
  obtain ⟨_, scope, rfl, signed, isScope⟩ := derives_seq_iff.mp named
  obtain ⟨_, name, rfl, isHead, isName⟩ := derives_seq_iff.mp signed
  obtain ⟨head, headKind, rfl⟩ := derives_kind_iff.mp isHead
  obtain ⟨action, actionKind, rfl⟩ := derives_kind_iff.mp isAction
  refine ⟨head, name ++ scope ++ [action], rfl, headKind, ?_⟩
  intro rest
  have noColons : Ahead.next .doubleColon (action :: rest) = false :=
    decide_eq_false (by rw [actionKind]; decide)
  rw [List.append_assoc, List.append_assoc]
  unfold namedAction
  refine Leaves.node (Leaves.expect ?_ actionKind)
  exact leaves_take.andThen (actionName_leaves isName isScope noColons)

/-! ## How members begin -/

/-- The kinds that members other than rules begin with. -/
def sectionStarts : List Kind :=
  [.grammarKeyword, .lexerKeyword, .parserKeyword, .optionsKeyword, .importKeyword,
    .tokensKeyword, .channelsKeyword, .atSign, .modeKeyword]

theorem mode_shape (derives : Derives (part .mode) word) :
    ∃ head name close, word = [head, name, close] ∧ head.kind = .modeKeyword ∧
      name.kind = .identifier ∧ close.kind = .semicolon := by
  obtain ⟨_, _, rfl, named, isEnd⟩ := derives_seq_iff.mp (derives_part_iff.mp derives)
  obtain ⟨_, _, rfl, isHead, isName⟩ := derives_seq_iff.mp named
  obtain ⟨head, headKind, rfl⟩ := derives_kind_iff.mp isHead
  obtain ⟨name, nameKind, rfl⟩ := derives_kind_iff.mp isName
  obtain ⟨close, closeKind, rfl⟩ := derives_kind_iff.mp isEnd
  exact ⟨head, name, close, rfl, headKind, nameKind, closeKind⟩

/-- Every member but a rule begins with a lexeme that no rule begins with. -/
theorem section_starts {form : Nonterminal} (isForm : form ∈ memberForms) (noRule : form ≠ .rule)
    (derives : Derives (part form) word) :
    ∃ head tail, word = head :: tail ∧ head.kind ∈ sectionStarts ∧
      ∀ rest, Ahead.memberStart (head :: (tail ++ rest)) = true := by
  simp only [memberForms, List.mem_cons, List.not_mem_nil, or_false] at isForm
  rcases isForm with rfl | rfl | rfl | rfl | rfl | rfl | rfl
  · obtain ⟨head, tail, rfl, starts, _⟩ := header_leaves derives
    rcases starts with same | ⟨sortKind, isGrammar⟩
    · refine ⟨head, tail, rfl, by rw [same]; decide, ?_⟩
      intro rest
      simp [Ahead.memberStart, Ahead.oneOf, Ahead.next, same]
    · obtain ⟨grammar, others, rfl, grammarKind⟩ := Ahead.exists_of_next isGrammar
      refine ⟨head, grammar :: others, rfl, ?_, fun rest => ?_⟩
      · exact List.mem_of_mem_tail (List.mem_append_left _ sortKind)
      · simp only [List.mem_cons, List.not_mem_nil, or_false] at sortKind
        rcases sortKind with same | same
        · simp [Ahead.memberStart, Ahead.oneOf, Ahead.second, Ahead.next, same, grammarKind]
        · simp [Ahead.memberStart, Ahead.oneOf, Ahead.second, Ahead.next, same, grammarKind]
  · obtain ⟨head, tail, rfl, same, _⟩ := optionsSpec_leaves derives
    refine ⟨head, tail, rfl, by rw [same]; decide, ?_⟩
    intro rest
    simp [Ahead.memberStart, Ahead.oneOf, Ahead.next, same]
  · obtain ⟨head, tail, rfl, same, _⟩ := importDecl_leaves derives
    refine ⟨head, tail, rfl, by rw [same]; decide, ?_⟩
    intro rest
    simp [Ahead.memberStart, Ahead.oneOf, Ahead.next, same]
  · obtain ⟨head, tail, rfl, listKind, _⟩ := nameList_leaves derives
    simp only [List.mem_cons, List.not_mem_nil, or_false] at listKind
    refine ⟨head, tail, rfl, ?_, fun rest => ?_⟩
    · rcases listKind with same | same
      · rw [same]
        decide
      · rw [same]
        decide
    · rcases listKind with same | same
      · simp [Ahead.memberStart, Ahead.oneOf, Ahead.next, same]
      · simp [Ahead.memberStart, Ahead.oneOf, Ahead.next, same]
  · obtain ⟨head, tail, rfl, same, _⟩ := namedAction_leaves derives
    refine ⟨head, tail, rfl, by rw [same]; decide, ?_⟩
    intro rest
    simp [Ahead.memberStart, Ahead.oneOf, Ahead.next, same]
  · obtain ⟨head, name, close, rfl, same, _⟩ := mode_shape derives
    refine ⟨head, [name, close], rfl, by rw [same]; decide, ?_⟩
    intro rest
    simp [Ahead.memberStart, Ahead.oneOf, Ahead.next, same]
  · exact absurd rfl noRule

theorem member_starts (derives : Derives (part .member) word) :
    Ahead.oneOf (sectionStarts ++ .identifier :: modifierKinds) word = true := by
  obtain ⟨form, isForm, derives⟩ := derives_member_iff.mp derives
  by_cases isRule : form = .rule
  · cases isRule
    obtain ⟨head, tail, rfl, starts, _⟩ := rule_leaves derives
    exact Ahead.oneOf_of_mem (List.mem_append_right _ starts)
  · obtain ⟨head, tail, rfl, starts, _⟩ := section_starts isForm isRule derives
    exact Ahead.oneOf_of_mem (List.mem_append_left _ starts)

theorem handlersEnd_members {words : List (List Lexeme)}
    (each : ∀ word ∈ words, Derives (part .member) word) : HandlersEnd words.flatten := by
  cases words with
  | nil => exact ⟨rfl, rfl⟩
  | cons word words =>
      have starts := Ahead.oneOf_append (member_starts (each word List.mem_cons_self)) words.flatten
      exact ⟨Ahead.not_next_of_oneOf starts (by decide), Ahead.not_next_of_oneOf starts (by decide)⟩

/-- No rule is a header. -/
theorem not_header_of_rule (derives : Derives (part .rule) word) :
    ¬Derives (part .header) word := by
  intro header
  obtain ⟨head, tail, rfl, starts, _⟩ := rule_leaves derives
  obtain ⟨_, _, same, headKind, _⟩ := header_leaves header
  cases same
  have noSort : ∀ kind ∈ [Kind.lexerKeyword, .parserKeyword],
      kind ∉ .identifier :: modifierKinds := by decide
  rcases headKind with same | ⟨sort, _⟩
  · rw [same] at starts
    exact absurd starts (by decide)
  · exact noSort _ sort starts

/-! ## Modes -/

/-- The rules of a mode end before a member that is no rule. -/
theorem modeRules_section {form : Nonterminal} (isForm : form ∈ memberForms) (noRule : form ≠ .rule)
    (derives : Derives (part form) word) :
    (modeRules (word ++ rest)).Leaves (word ++ rest) ∧ (modeRules (word ++ rest)).shapes = [] := by
  obtain ⟨head, tail, rfl, starts, stops⟩ := section_starts isForm noRule derives
  have noRuleStart : ∀ kind ∈ sectionStarts,
      ¬(kind = .identifier ∨ kind.isRuleModifier = true) := by decide
  have readable : ∀ kind ∈ sectionStarts, kind ≠ .error := by decide
  show (modeRules (head :: (tail ++ rest))).Leaves _ ∧
    (modeRules (head :: (tail ++ rest))).shapes = _
  unfold modeRules
  rw [if_neg (noRuleStart _ starts), if_neg (readable _ starts), if_pos (stops _)]
  exact ⟨leaves_nothing, rfl⟩

/-- The rules of a mode are the members after it up to one that is no rule. -/
theorem modeRules_leaves {words : List (List Lexeme)}
    (each : ∀ word ∈ words, Derives (part .member) word) :
    ∃ rules left, words = rules ++ left ∧ (∀ word ∈ rules, Derives (part .rule) word) ∧
      (modeRules words.flatten).Leaves left.flatten := by
  induction words with
  | nil =>
      refine ⟨[], [], rfl, List.forall_mem_nil _, ?_⟩
      show (modeRules []).Leaves []
      unfold modeRules
      exact leaves_nothing
  | cons word words inductionHypothesis =>
      obtain ⟨first, others⟩ := List.forall_mem_cons.mp each
      by_cases isRule : Derives (part .rule) word
      · obtain ⟨rules, left, rfl, areRules, read⟩ := inductionHypothesis others
        obtain ⟨head, tail, rfl, starts, one⟩ := rule_leaves isRule
        refine ⟨(head :: tail) :: rules, left, rfl, List.forall_mem_cons.mpr ⟨isRule, areRules⟩, ?_⟩
        have ruleStarts : head.kind = .identifier ∨ head.kind.isRuleModifier = true :=
          (List.mem_cons.mp starts).imp_right isRuleModifier_of_mem
        show (modeRules (head :: (tail ++ (rules ++ left).flatten))).Leaves left.flatten
        unfold modeRules
        rw [if_pos ruleStarts]
        exact (one _ (handlersEnd_members others)).attempt.andThen read
      · obtain ⟨form, isForm, derives⟩ := derives_member_iff.mp first
        have noRule : form ≠ .rule := fun same => isRule (same ▸ derives)
        exact ⟨[], word :: words, rfl, List.forall_mem_nil _,
          (modeRules_section isForm noRule derives).1⟩

theorem modeSection_leaves {words : List (List Lexeme)} (derives : Derives (part .mode) word)
    (each : ∀ word ∈ words, Derives (part .member) word) :
    ∃ head tail rules left, word = head :: tail ∧ head.kind = .modeKeyword ∧
      words = rules ++ left ∧ (∀ word ∈ rules, Derives (part .rule) word) ∧
      (modeSection head (tail ++ words.flatten)).Leaves left.flatten := by
  obtain ⟨head, name, close, rfl, headKind, nameKind, closeKind⟩ := mode_shape derives
  obtain ⟨rules, left, rfl, areRules, read⟩ := modeRules_leaves each
  refine ⟨head, [name, close], rules, left, rfl, headKind, rfl, areRules, ?_⟩
  unfold modeSection
  exact Leaves.node (Leaves.andThen
    ((leaves_take.andThen (name_leaves nameKind)).expect closeKind) read)

/-! ## The file -/

theorem member_eq_header (derives : Derives (part .header) word) :
    ∃ head tail, word = head :: tail ∧
      ∀ rest, member head (tail ++ rest) = header head (tail ++ rest) := by
  obtain ⟨head, tail, rfl, starts, _⟩ := header_leaves derives
  refine ⟨head, tail, rfl, ?_⟩
  intro rest
  unfold member
  rcases starts with same | ⟨sortKind, isGrammar⟩
  · simp only [same]
  · obtain ⟨grammar, others, rfl, grammarKind⟩ := Ahead.exists_of_next isGrammar
    have next : Ahead.next .grammarKeyword (grammar :: others ++ rest) = true :=
      decide_eq_true grammarKind
    simp only [List.mem_cons, List.not_mem_nil, or_false] at sortKind
    rcases sortKind with same | same
    · simp only [same]
      rw [if_pos next]
    · simp only [same]
      rw [if_pos next]

/-- A member other than a mode is read alone. -/
theorem member_leaves_of_noMode {form : Nonterminal} (isForm : form ∈ memberForms)
    (noMode : form ≠ .mode) (derives : Derives (part form) word) :
    ∃ head tail, word = head :: tail ∧
      ∀ rest, HandlersEnd rest → (member head (tail ++ rest)).Leaves rest := by
  simp only [memberForms, List.mem_cons, List.not_mem_nil, or_false] at isForm
  rcases isForm with rfl | rfl | rfl | rfl | rfl | rfl | rfl
  · obtain ⟨head, tail, rfl, same⟩ := member_eq_header derives
    obtain ⟨_, _, split, _, read⟩ := header_leaves derives
    cases split
    exact ⟨head, tail, rfl, fun rest _ => by rw [same]; exact read rest⟩
  · obtain ⟨head, tail, rfl, same, read⟩ := optionsSpec_leaves derives
    refine ⟨head, tail, rfl, ?_⟩
    intro rest _
    unfold member
    simp only [same]
    exact read rest
  · obtain ⟨head, tail, rfl, same, read⟩ := importDecl_leaves derives
    refine ⟨head, tail, rfl, ?_⟩
    intro rest _
    unfold member
    simp only [same]
    exact read rest
  · obtain ⟨head, tail, rfl, listKind, read⟩ := nameList_leaves derives
    refine ⟨head, tail, rfl, ?_⟩
    intro rest _
    unfold member
    simp only [List.mem_cons, List.not_mem_nil, or_false] at listKind
    rcases listKind with same | same
    · simp only [same]
      exact read _ _ rest
    · simp only [same]
      exact read _ _ rest
  · obtain ⟨head, tail, rfl, same, read⟩ := namedAction_leaves derives
    refine ⟨head, tail, rfl, ?_⟩
    intro rest _
    unfold member
    simp only [same]
    exact read rest
  · exact absurd rfl noMode
  · obtain ⟨head, tail, rfl, starts, read⟩ := rule_leaves derives
    refine ⟨head, tail, rfl, ?_⟩
    intro rest ends
    unfold member
    simp only [modifierKinds, List.mem_cons, List.not_mem_nil, or_false] at starts
    rcases starts with same | same | same | same | same
    all_goals
      simp only [same]
      exact read rest ends

/-- A member is read, and with a mode the rules after it. -/
theorem member_leaves {words : List (List Lexeme)} (derives : Derives (part .member) word)
    (each : ∀ word ∈ words, Derives (part .member) word) :
    ∃ head tail rules left, word = head :: tail ∧ words = rules ++ left ∧
      (∀ word ∈ rules, Derives (part .rule) word) ∧
      (member head (tail ++ words.flatten)).Leaves left.flatten := by
  obtain ⟨form, isForm, derives⟩ := derives_member_iff.mp derives
  by_cases isMode : form = .mode
  · cases isMode
    obtain ⟨head, tail, rules, left, rfl, same, rfl, areRules, read⟩ :=
      modeSection_leaves derives each
    refine ⟨head, tail, rules, left, rfl, rfl, areRules, ?_⟩
    unfold member
    simp only [same]
    exact read
  · obtain ⟨head, tail, rfl, read⟩ := member_leaves_of_noMode isForm isMode derives
    exact ⟨head, tail, [], words, rfl, rfl, fun _ member => absurd member List.not_mem_nil,
      read _ (handlersEnd_members each)⟩

/-- Members are read to the last, and a header among them is found among their shapes. -/
theorem members_leaves {words : List (List Lexeme)}
    (each : ∀ word ∈ words, Derives (part .member) word) :
    (members words.flatten).Leaves [] ∧
      ((∃ word ∈ words, Derives (part .header) word) →
        (members words.flatten).shapes.any (Shape.isNode .header) = true) := by
  induction count : words.length using Nat.strongRecOn generalizing words with
  | ind count inductionHypothesis =>
      cases words with
      | nil =>
          refine ⟨?_, fun ⟨_, member, _⟩ => absurd member List.not_mem_nil⟩
          show (members []).Leaves []
          unfold members
          exact leaves_nothing
      | cons word words =>
          obtain ⟨first, others⟩ := List.forall_mem_cons.mp each
          obtain ⟨head, tail, rules, left, rfl, rfl, areRules, read⟩ := member_leaves first others
          have leftEach : ∀ word ∈ left, Derives (part .member) word := fun word inLeft =>
            others word (List.mem_append_right _ inLeft)
          have later := inductionHypothesis left.length
            (by rw [← count, List.length_cons, List.length_append]; omega) leftEach rfl
          rw [← read.1] at later
          show (members (head :: (tail ++ (rules ++ left).flatten))).Leaves [] ∧ (_ →
            (members (head :: (tail ++ (rules ++ left).flatten))).shapes.any _ = true)
          unfold members
          refine ⟨read.append later.1, fun ⟨word, inWords, isHeader⟩ => ?_⟩
          show ((member head _).shapes ++ (members (member head _).rest).shapes).any _ = true
          rw [List.any_append, Bool.or_eq_true]
          rcases List.mem_cons.mp inWords with rfl | inOthers
          · obtain ⟨_, _, split, same⟩ := member_eq_header isHeader
            cases split
            rw [same]
            exact .inl rfl
          · rcases List.mem_append.mp inOthers with inRules | inLeft
            · exact absurd isHeader (not_header_of_rule (areRules word inRules))
            · exact .inr (later.2 ⟨word, inLeft, isHeader⟩)

/-- A file is members, one of them a header. -/
theorem exists_members (derives : Derives Ebnf.file word) :
    ∃ words : List (List Lexeme), word = words.flatten ∧
      (∀ word ∈ words, Derives (part .member) word) ∧
      ∃ header ∈ words, Derives (part .header) header := by
  obtain ⟨_, _, rfl, both, isAfter⟩ := derives_seq_iff.mp derives
  obtain ⟨_, header, rfl, isBefore, isHeader⟩ := derives_seq_iff.mp both
  obtain ⟨before, rfl, eachBefore⟩ := derives_many_iff.mp isBefore
  obtain ⟨after, rfl, eachAfter⟩ := derives_many_iff.mp isAfter
  have headerMember : Derives (part .member) header :=
    derives_member_iff.mpr ⟨.header, by decide, isHeader⟩
  refine ⟨before ++ header :: after, by simp, ?_, header, by simp, isHeader⟩
  exact List.forall_mem_append.mpr ⟨eachBefore, List.forall_mem_cons.mpr ⟨headerMember, eachAfter⟩⟩

/-- A file that the grammar derives has no problem but its unreadable lexemes. -/
theorem unreadable_of_derives (derives : Derives Ebnf.file word) :
    ∀ problem ∈ (file word).2, problem.isUnreadable = true := by
  obtain ⟨words, rfl, each, header⟩ := exists_members derives
  obtain ⟨read, found⟩ := members_leaves each
  unfold file
  dsimp only
  rw [if_pos (found header)]
  exact read.2

end GrammarDesk.Syntax.Production
