import GrammarDesk.Proofs.Grammar.Rules
import GrammarDesk.Symbol.Declare

/-!
Contract: the rules of a file and the symbols that they declare.

Owns: what the symbol of a rule says about the rule, and the proof that the named rules of a text
and the rules in its table are the same, one by one.

Does not own: how the rules of a file are found (`Grammar`), or symbols of other kinds.

A rule without a name declares nothing, and neither would a rule with an empty name; but no rule
of a text has one.

Main statement: `Declare.forall₂_declares`.
-/

namespace GrammarDesk

open Text Grammar Syntax

/-- A symbol declares a rule of a file: it has the class of the rule, the name and where the name
is written, where the whole rule is written, and what is written before its body. -/
structure Symbol.Declares (symbol : Symbol) (file : File.Id) (rule : Rule) : Prop where
  file : symbol.file = file
  kind : symbol.kind = if rule.isLexer then .lexerRule else .parserRule
  name : rule.name = some ⟨symbol.name, symbol.range⟩
  declaration : symbol.declaration = rule.range
  isFragment : symbol.isFragment = rule.isFragment
  detail : symbol.detail = Declare.detailOf rule

theorem Symbol.Declares.nameText {symbol : Symbol} {file : File.Id} {rule : Rule}
    (declares : symbol.Declares file rule) : rule.nameText = some symbol.name := by
  rw [Rule.nameText, declares.name]
  rfl

namespace Declare

variable (scope : Declare.Scope)

/-- The symbol of a rule that has a name, or nothing. -/
theorem declares_of_ruleSymbols (mode : Option Name) {entry : DocumentedRule}
    (filled : ∀ name, entry.rule.name = some name → name.text ≠ "") :
    if entry.rule.name.isSome then
      ∃ symbol, ruleSymbols scope mode entry = [symbol] ∧ symbol.Declares scope.file entry.rule
    else ruleSymbols scope mode entry = [] := by
  dsimp only [ruleSymbols, Scope.named]
  cases named : entry.rule.name with
  | none => rfl
  | some name =>
      dsimp only
      rw [if_neg (filled name named)]
      exact ⟨_, rfl, rfl, rfl, named, rfl, rfl, rfl⟩

/-! ## Symbols of other kinds -/

theorem isRule_of_mem_named {kind : SymbolKind} (other : kind.isRule = false)
    {name : Option Name} {declaration : Range} {symbol : Symbol}
    (isSymbol : symbol ∈ scope.named kind name declaration) : symbol.kind.isRule = false := by
  unfold Scope.named at isSymbol
  split at isSymbol
  · split at isSymbol
    · cases isSymbol
    · obtain rfl := List.mem_singleton.mp isSymbol
      exact other
  · cases isSymbol

theorem isRule_of_mem_documented {kind : SymbolKind} (other : kind.isRule = false)
    {name : Option Name} {declaration : Range} {doc : Option String} {symbol : Symbol}
    (isSymbol : symbol ∈ (scope.named kind name declaration).map
      fun symbol => { symbol with doc := doc }) : symbol.kind.isRule = false := by
  obtain ⟨plain, isPlain, rfl⟩ := List.mem_map.mp isSymbol
  have noRule : plain.kind.isRule = false := isRule_of_mem_named scope other isPlain
  exact noRule

theorem isRule_of_mem_importSymbols {item : ImportItem} {symbol : Symbol}
    (isSymbol : symbol ∈ importSymbols scope item) : symbol.kind.isRule = false := by
  unfold importSymbols at isSymbol
  split at isSymbol
  · cases isSymbol
  · split at isSymbol
    · exact isRule_of_mem_named scope rfl isSymbol
    · obtain rfl := List.mem_singleton.mp isSymbol
      rfl

theorem isRule_of_mem_entries {kind : SymbolKind} (other : kind.isRule = false)
    {entries : List ListEntry} {symbol : Symbol}
    (isSymbol : symbol ∈ entries.flatMap fun entry => scope.named kind entry.name entry.range) :
    symbol.kind.isRule = false := by
  obtain ⟨entry, _, isSymbol⟩ := List.mem_flatMap.mp isSymbol
  exact isRule_of_mem_named scope other isSymbol

/-- What is neither a rule nor a mode has no rules and declares none. -/
theorem rule_or_mode_or_others (member : Member) :
    (∃ entry, member = .rule entry) ∨ (∃ declared, member = .mode declared) ∨
      member.rules = [] ∧ ∀ symbol ∈ symbolsOf scope member, symbol.kind.isRule = false := by
  cases member with
  | header header =>
      exact .inr (.inr ⟨rfl, fun symbol => isRule_of_mem_documented scope rfl⟩)
  | options range settings => exact .inr (.inr ⟨rfl, List.forall_mem_nil _⟩)
  | imports range items =>
      refine .inr (.inr ⟨rfl, fun symbol isSymbol => ?_⟩)
      obtain ⟨item, _, isSymbol⟩ := List.mem_flatMap.mp isSymbol
      exact isRule_of_mem_importSymbols scope isSymbol
  | tokens range entries =>
      exact .inr (.inr ⟨rfl, fun symbol => isRule_of_mem_entries scope rfl⟩)
  | channels range entries =>
      exact .inr (.inr ⟨rfl, fun symbol => isRule_of_mem_entries scope rfl⟩)
  | namedAction range name =>
      cases name with
      | none => exact .inr (.inr ⟨rfl, List.forall_mem_nil _⟩)
      | some name => exact .inr (.inr ⟨rfl, List.forall_mem_singleton.mpr rfl⟩)
  | rule entry => exact .inl ⟨entry, rfl⟩
  | mode declared => exact .inr (.inl ⟨declared, rfl⟩)

theorem filter_isRule_eq_nil {symbols : List Symbol}
    (others : ∀ symbol ∈ symbols, symbol.kind.isRule = false) :
    (symbols.filter fun symbol => symbol.kind.isRule) = [] :=
  List.filter_eq_nil_iff.mpr fun symbol isSymbol => by simp [others symbol isSymbol]

/-- All symbols of rules are rules. -/
theorem filter_isRule_ruleSymbols (mode : Option Name) (entry : DocumentedRule) :
    ((ruleSymbols scope mode entry).filter fun symbol => symbol.kind.isRule) =
      ruleSymbols scope mode entry := by
  refine List.filter_eq_self.mpr fun symbol isSymbol => ?_
  unfold ruleSymbols Scope.named at isSymbol
  dsimp only at isSymbol
  obtain ⟨plain, isPlain, rfl⟩ := List.mem_map.mp isSymbol
  split at isPlain
  · split at isPlain
    · cases isPlain
    · obtain rfl := List.mem_singleton.mp isPlain
      show SymbolKind.isRule (if entry.rule.isLexer then .lexerRule else .parserRule) = true
      cases entry.rule.isLexer <;> rfl
  · cases isPlain

/-! ## Members -/

/-- The rules with names among some rules are declared by the symbols of these rules. -/
theorem forall₂_declares_rules (mode : Option Name) {entries : List DocumentedRule}
    (filled : ∀ entry ∈ entries, ∀ name, entry.rule.name = some name → name.text ≠ "") :
    List.Forall₂ (fun rule symbol => symbol.Declares scope.file rule)
      ((entries.map DocumentedRule.rule).filter fun rule => rule.name.isSome)
      (entries.flatMap (ruleSymbols scope mode)) := by
  rw [List.filter_map, List.forall₂_map_left_iff]
  exact forall₂_filter_flatMap fun entry isEntry =>
    declares_of_ruleSymbols scope mode (filled entry isEntry)

/-- The rules of a member that have names are declared by the symbols of the member that are
rules. -/
theorem forall₂_declares_member {member : Member}
    (filled : ∀ rule ∈ member.rules, ∀ name, rule.name = some name → name.text ≠ "") :
    List.Forall₂ (fun rule symbol => symbol.Declares scope.file rule)
      (member.rules.filter fun rule => rule.name.isSome)
      ((symbolsOf scope member).filter fun symbol => symbol.kind.isRule) := by
  rcases rule_or_mode_or_others scope member with ⟨entry, rfl⟩ | ⟨declared, rfl⟩ | ⟨none, others⟩
  · have own := forall₂_declares_rules scope none
      (List.forall_mem_singleton.mpr (filled entry.rule List.mem_cons_self))
    rw [List.flatMap_singleton, ← filter_isRule_ruleSymbols] at own
    exact own
  · have modeSymbols : ∀ symbol ∈ (scope.named .mode declared.name declared.range).map
        (fun symbol => { symbol with doc := declared.doc }), symbol.kind.isRule = false :=
      fun symbol => isRule_of_mem_documented scope rfl
    have same : declared.rules.flatMap (fun entry =>
        (ruleSymbols scope declared.name entry).filter fun symbol => symbol.kind.isRule) =
          declared.rules.flatMap (ruleSymbols scope declared.name) :=
      List.flatMap_congr fun entry _ => filter_isRule_ruleSymbols scope declared.name entry
    rw [symbolsOf, List.filter_append, filter_isRule_eq_nil modeSymbols, List.nil_append,
      List.filter_flatMap, same]
    exact forall₂_declares_rules scope declared.name fun entry isEntry =>
      filled entry.rule (List.mem_map_of_mem isEntry)
  · rw [none, filter_isRule_eq_nil others]
    exact .nil

/-- The named rules of a text are declared by the rules of its table, one by one. -/
theorem forall₂_declares {text : String} {parse : Parse} (read : Parse.ofText? text = some parse)
    (file : File.Id) (index : LineIndex) :
    List.Forall₂ (fun rule symbol => symbol.Declares file rule)
      ((rulesOf parse.tree).filter fun rule => rule.name.isSome)
      ((table file index (membersOf parse.tree)).1.symbols.filter
        fun symbol => symbol.kind.isRule) := by
  have members := rulesOf_eq_flatMap (Parse.nested_of_text read) (Parse.isNode_of_text read)
  show List.Forall₂ _ _ (((membersOf parse.tree).flatMap _).filter _)
  rw [members, List.filter_flatMap, List.filter_flatMap]
  refine forall₂_flatMap fun member isMember => ?_
  refine forall₂_declares_member ⟨file, index, _⟩ fun rule isRule name named => ?_
  refine text_ne_empty_of_rule read ?_ named
  rw [members]
  exact List.mem_flatMap.mpr ⟨member, isMember, isRule⟩

end Declare

end GrammarDesk
