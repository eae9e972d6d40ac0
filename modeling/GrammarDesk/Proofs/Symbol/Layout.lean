import GrammarDesk.Proofs.Grammar.Layout
import GrammarDesk.Symbol.Declare

/-!
Contract: what members declare, apart from places and documentation.

Owns: symbols, imports, headers and tables at no place and without documentation, and the
proof that members at no place declare the same, whatever the lines of their text are.

Does not own: which texts have the same members (`Grammar`).

Main statement: members that differ only in places and documentation have tables that
differ only in these (`Declare.table_congr`).
-/

namespace GrammarDesk

open Text Grammar

/-! ## Declarations at no place -/

/-- The symbol at no place and without documentation. -/
def Symbol.unplaced (symbol : Symbol) : Symbol :=
  { symbol with
    range := .emptyAt 0
    span := ⟨⟨0, 0⟩, ⟨0, 0⟩⟩
    declaration := .emptyAt 0
    doc := none }

def ImportClause.unplaced (clause : ImportClause) : ImportClause :=
  { clause with range := .emptyAt 0, span := ⟨⟨0, 0⟩, ⟨0, 0⟩⟩ }

def GrammarHeader.unplaced (header : GrammarHeader) : GrammarHeader :=
  { header with range := .emptyAt 0, span := ⟨⟨0, 0⟩, ⟨0, 0⟩⟩ }

/-- The table at no place and without documentation. -/
def SymbolTable.unplaced (table : SymbolTable) : SymbolTable :=
  ⟨table.symbols.map Symbol.unplaced, table.header.map GrammarHeader.unplaced,
    table.imports.map ImportClause.unplaced⟩

/-! ## What is read off a member -/

theorem Grammar.Rule.singleLiteral_unplaced (rule : Rule) :
    rule.unplaced.singleLiteral = rule.singleLiteral := by
  unfold singleLiteral unplaced
  dsimp only
  match rule.alternatives with
  | [] => rfl
  | [.mk label elements commands] =>
      match elements with
      | [] => rfl
      | [element] => cases element <;> rfl
      | first :: second :: others => cases first <;> rfl
  | .mk _ _ _ :: .mk _ _ _ :: others => rfl

theorem Grammar.vocabularyOf_unplaced (settings : List Setting) :
    vocabularyOf (settings.map Setting.unplaced) =
      (vocabularyOf settings).map Name.unplaced := by
  unfold vocabularyOf
  rw [List.find?_map]
  show Option.bind (Option.map _ (settings.find? fun setting =>
    setting.name = some Setting.vocabulary)) _ = _
  cases settings.find? fun setting => setting.name = some Setting.vocabulary with
  | none => rfl
  | some setting => rfl

theorem Grammar.headerOf?_unplaced (members : List Member) :
    headerOf? (members.map Member.unplaced) = (headerOf? members).map Header.unplaced := by
  unfold headerOf?
  induction members with
  | nil => rfl
  | cons member rest inductionHypothesis =>
      cases member with
      | header header => rfl
      | _ => exact inductionHypothesis

namespace Declare

/-- The scope of a file of no lines. -/
def Scope.unplaced (scope : Scope) : Scope :=
  { scope with index := .ofText "" }

/-! ## Symbols -/

theorem Scope.named_unplaced (scope : Scope) (kind : SymbolKind) (name : Option Name)
    (declaration : Range) :
    (scope.unplaced.named kind (name.map Name.unplaced) (.emptyAt 0)).map Symbol.unplaced =
      (scope.named kind name declaration).map Symbol.unplaced := by
  unfold named
  cases name with
  | none => rfl
  | some name =>
      dsimp only [Option.map_some]
      rw [Name.text_unplaced]
      split
      · rfl
      · rfl

/-- The symbols of a rule, but for their places, are read off the rule without places. -/
theorem ruleSymbols_unplaced (scope : Scope) (mode : Option Name) (entry : DocumentedRule) :
    (ruleSymbols scope.unplaced (mode.map Name.unplaced) entry.unplaced).map Symbol.unplaced =
      (ruleSymbols scope mode entry).map Symbol.unplaced := by
  let kind : SymbolKind := if entry.rule.isLexer then .lexerRule else .parserRule
  -- what the rule adds to the plain symbol of its name, without documentation
  let complete (symbol : Symbol) : Symbol :=
    { symbol with
      isFragment := entry.rule.isFragment
      mode := mode.map fun name => name.text
      literal :=
        if entry.rule.isLexer && !entry.rule.isFragment then entry.rule.singleLiteral else none
      detail := detailOf entry.rule
      doc := none }
  have own : (ruleSymbols scope mode entry).map Symbol.unplaced =
      ((scope.named kind entry.rule.name entry.rule.range).map Symbol.unplaced).map complete := by
    rw [List.map_map]
    exact List.map_map
  have bare : (ruleSymbols scope.unplaced (mode.map Name.unplaced) entry.unplaced).map
        Symbol.unplaced =
      ((scope.unplaced.named kind (entry.rule.name.map Name.unplaced) (.emptyAt 0)).map
        Symbol.unplaced).map complete := by
    unfold ruleSymbols DocumentedRule.unplaced
    dsimp only
    rw [Rule.singleLiteral_unplaced, Option.map_map, List.map_map, List.map_map]
    rfl
  rw [own, bare, Scope.named_unplaced _ _ _ entry.rule.range]

theorem importSymbols_unplaced (scope : Scope) (item : ImportItem) :
    (importSymbols scope.unplaced item.unplaced).map Symbol.unplaced =
      (importSymbols scope item).map Symbol.unplaced := by
  unfold importSymbols ImportItem.unplaced
  cases item.target with
  | none => rfl
  | some target =>
      cases item.alternateName with
      | none => rfl
      | some name => exact scope.named_unplaced .importedGrammar (some name) item.range

theorem symbolsOf_unplaced (scope : Scope) (member : Member) :
    (symbolsOf scope.unplaced member.unplaced).map Symbol.unplaced =
      (symbolsOf scope member).map Symbol.unplaced := by
  cases member with
  | header written =>
      have named := scope.named_unplaced .grammar written.name written.range
      simp only [symbolsOf, Member.unplaced, List.map_map]
      exact named
  | options range settings => rfl
  | imports range items =>
      simp only [symbolsOf, Member.unplaced, List.map_flatMap, List.flatMap_map,
        importSymbols_unplaced]
  | tokens range entries =>
      simp only [symbolsOf, Member.unplaced, List.map_flatMap, List.flatMap_map]
      exact congrArg (entries.flatMap ·)
        (funext fun entry => scope.named_unplaced .virtualToken entry.name entry.range)
  | channels range entries =>
      simp only [symbolsOf, Member.unplaced, List.map_flatMap, List.flatMap_map]
      exact congrArg (entries.flatMap ·)
        (funext fun entry => scope.named_unplaced .channel entry.name entry.range)
  | namedAction range name =>
      cases name with
      | none => rfl
      | some name => rfl
  | rule entry => exact ruleSymbols_unplaced scope none entry
  | mode written =>
      have named := scope.named_unplaced .mode written.name written.range
      simp only [symbolsOf, Member.unplaced, ModeSection.unplaced, List.map_append,
        List.map_flatMap, List.flatMap_map, List.map_map, ruleSymbols_unplaced]
      exact congrArg (· ++ _) named

/-! ## Imports and headers -/

theorem importsOf_unplaced (index : LineIndex) (member : Member) :
    (importsOf (.ofText "") member.unplaced).map ImportClause.unplaced =
      (importsOf index member).map ImportClause.unplaced := by
  cases member with
  | options range settings =>
      simp only [importsOf, Member.unplaced, vocabularyOf_unplaced]
      cases vocabularyOf settings with
      | none => rfl
      | some name => rfl
  | imports range items =>
      simp only [importsOf, Member.unplaced, List.map_filterMap, List.filterMap_map]
      refine congrArg (List.filterMap · items) (funext fun item => ?_)
      cases target : item.target with
      | none => simp [ImportItem.unplaced, target]
      | some name => simp [ImportItem.unplaced, ImportClause.unplaced, target]
  | header written => rfl
  | tokens range entries => rfl
  | channels range entries => rfl
  | namedAction range name => rfl
  | rule entry => rfl
  | mode written => rfl

theorem headerOf_unplaced (index : LineIndex) (members : List Member) :
    (headerOf (.ofText "") (members.map Member.unplaced)).map GrammarHeader.unplaced =
      (headerOf index members).map GrammarHeader.unplaced := by
  unfold headerOf
  rw [headerOf?_unplaced]
  cases headerOf? members with
  | none => rfl
  | some written =>
      show ((written.name.map Name.unplaced).map _).map _ = (written.name.map _).map _
      cases written.name with
      | none => rfl
      | some name => rfl

/-! ## Tables -/

/-- The table of some members, but for its places, is read off the members without places. -/
theorem table_unplaced (file : File.Id) (index : LineIndex) (members : List Member) :
    (table file (.ofText "") (members.map Member.unplaced)).1.unplaced =
      (table file index members).1.unplaced := by
  have header := headerOf_unplaced index members
  have symbols : ∀ kind,
      ((members.map Member.unplaced).flatMap (symbolsOf ⟨file, .ofText "", kind⟩)).map
          Symbol.unplaced =
        (members.flatMap (symbolsOf ⟨file, index, kind⟩)).map Symbol.unplaced := by
    intro kind
    rw [List.flatMap_map, List.map_flatMap, List.map_flatMap]
    exact congrArg (members.flatMap ·) (funext (symbolsOf_unplaced ⟨file, index, kind⟩))
  have imports : ((members.map Member.unplaced).flatMap (importsOf (.ofText ""))).map
        ImportClause.unplaced =
      (members.flatMap (importsOf index)).map ImportClause.unplaced := by
    rw [List.flatMap_map, List.map_flatMap, List.map_flatMap]
    exact congrArg (members.flatMap ·) (funext (importsOf_unplaced index))
  unfold table SymbolTable.unplaced
  dsimp only
  -- the kind that symbols are declared under is that of the header
  generalize headerOf (.ofText "") (members.map Member.unplaced) = bareHeader at header ⊢
  generalize headerOf index members = ownHeader at header ⊢
  cases bareHeader with
  | none =>
      cases ownHeader with
      | none => rw [symbols, imports]
      | some own => cases header
  | some bare =>
      cases ownHeader with
      | none => cases header
      | some own =>
          have same : bare.unplaced = own.unplaced := Option.some.inj header
          have sameKind : bare.unplaced.kind = own.unplaced.kind := by rw [same]
          dsimp only
          rw [header, imports, show bare.kind = own.kind from sameKind, symbols]

/-- Members that are the same apart from places and documentation declare the same apart
from these, in texts of whatever lines. -/
theorem table_congr {left right : List Member}
    (same : left.map Member.unplaced = right.map Member.unplaced) (file : File.Id)
    (leftIndex rightIndex : LineIndex) :
    (table file leftIndex left).1.unplaced = (table file rightIndex right).1.unplaced := by
  rw [← table_unplaced, same, table_unplaced]

end Declare

end GrammarDesk
