import Mathlib.Data.List.Enum
import GrammarDesk.Proofs.Lists
import GrammarDesk.Workspace.Analysis

/-!
Contract: the reports of repeated declarations.

Owns: which symbols of a file repeat an earlier one, and the proof that each of them is
reported once, in order, against the first symbol whose name it repeats.

Does not own: which symbols a member declares (`Declare`).

The reports are made by a pass that keeps the first symbol of each name and namespace. That
symbol is the one that a search through all earlier symbols finds, which gives each report by
the place of its symbol alone.

Main statement: `Declare.table_reports_repeats`.
-/

namespace GrammarDesk

open Text Grammar

/-! ## Namesakes -/

/-- Two symbols have the same name, and are of the same kind or both tokens. -/
def Symbol.Namesake (left right : Symbol) : Prop :=
  left.name = right.name ∧
    (left.kind = right.kind ∨ left.kind.isToken ∧ right.kind.isToken)

theorem SymbolKind.namespace_eq_iff (left right : SymbolKind) :
    left.namespace_ = right.namespace_ ↔ left = right ∨ left.isToken ∧ right.isToken := by
  cases left <;> cases right <;> decide

namespace Symbol

theorem clashes_iff (left right : Symbol) : left.clashes right ↔ left.Namesake right := by
  simp only [clashes, Namesake, Bool.and_eq_true, decide_eq_true_eq,
    SymbolKind.namespace_eq_iff]

/-- Symbols that are in each other's way are in the way of the same symbols. -/
theorem clashes_congr {left right : Symbol} (clash : left.clashes right) :
    left.clashes = right.clashes := by
  simp only [clashes, Bool.and_eq_true, decide_eq_true_eq] at clash
  funext other
  simp only [clashes, clash]

/-- The symbol stands at a place in a list, and `first` is its first namesake before it. -/
structure Repeats (symbols : List Symbol) (place : Nat) (symbol first : Symbol) : Prop where
  here : symbols[place]? = some symbol
  namesake : symbol.Namesake first
  /-- Nothing before `first` is a namesake. -/
  first : ∃ before after, symbols.take place = before ++ first :: after ∧
    ∀ earlier ∈ before, ¬ symbol.Namesake earlier

theorem repeats_iff {symbols : List Symbol} {place : Nat} {symbol first : Symbol}
    (here : symbols[place]? = some symbol) :
    Repeats symbols place symbol first ↔
      (symbols.take place).find? symbol.clashes = some first := by
  rw [List.find?_eq_some_iff_append]
  simp only [Bool.not_eq_true', ← Bool.not_eq_true, clashes_iff]
  constructor
  · intro ⟨_, namesake, before, after, split, others⟩
    exact ⟨namesake, before, after, split, others⟩
  · intro ⟨namesake, before, after, split, others⟩
    exact ⟨here, namesake, before, after, split, others⟩

/-- A repeated symbol and its first namesake stand in this order in the list. -/
theorem Repeats.sublist {symbols : List Symbol} {place : Nat} {symbol first : Symbol}
    (repeats : Repeats symbols place symbol first) : [first, symbol].Sublist symbols := by
  obtain ⟨before, after, split, -⟩ := repeats.first
  have isFirst : [first].Sublist (symbols.take place) :=
    List.singleton_sublist.mpr (split ▸ List.mem_append_right before List.mem_cons_self)
  have inRest : [symbol].Sublist (symbols.drop place) :=
    List.singleton_sublist.mpr
      (List.mem_of_getElem? ((List.getElem?_drop (i := place) (j := 0)).trans repeats.here))
  simpa using isFirst.append inRest

end Symbol

namespace Declare

/-! ## Reports by place -/

/-- With the first symbol of each name and namespace among the `earlier` ones, the pass
reports each symbol against what a search through all symbols before it finds. -/
theorem duplicates_eq_filterMap {earlier firsts : List Symbol} {symbols : List Symbol}
    (same : ∀ symbol : Symbol,
      firsts.find? symbol.clashes = earlier.find? symbol.clashes) :
    duplicates firsts symbols =
      (symbols.zipIdx earlier.length).filterMap fun entry =>
        (((earlier ++ symbols).take entry.2).find? entry.1.clashes).map (duplicate entry.1) := by
  induction symbols generalizing earlier firsts with
  | nil => rfl
  | cons symbol rest inductionHypothesis =>
      -- one symbol further on, the `firsts` that the pass goes on with are still those of the
      -- symbols passed
      have onward : ∀ next : List Symbol, (∀ other : Symbol,
          next.find? other.clashes = (earlier ++ [symbol]).find? other.clashes) →
          duplicates next rest =
            (rest.zipIdx (earlier.length + 1)).filterMap fun entry =>
              (((earlier ++ symbol :: rest).take entry.2).find? entry.1.clashes).map
                (duplicate entry.1) := by
        intro next nextSame
        rw [inductionHypothesis nextSame, List.length_append, List.append_assoc]
        rfl
      have searched : ((earlier ++ symbol :: rest).take earlier.length).find? symbol.clashes =
          firsts.find? symbol.clashes := by
        rw [List.take_left, same]
      rw [List.zipIdx_cons, List.filterMap_cons, searched]
      unfold duplicates
      cases found : firsts.find? symbol.clashes with
      | some first =>
          refine congrArg (_ :: ·) (onward firsts fun other => ?_)
          by_cases clash : other.clashes symbol
          · rw [same, List.find?_append, Symbol.clashes_congr clash, ← same, found]
            rfl
          · rw [same, List.find?_append, List.find?_singleton, if_neg clash, Option.or_none]
      | none =>
          refine onward (symbol :: firsts) fun other => ?_
          rw [List.find?_append, List.find?_singleton, List.find?_cons, ← same]
          by_cases clash : other.clashes symbol
          · rw [if_pos clash, clash, Symbol.clashes_congr clash, found]
            rfl
          · rw [if_neg clash, Bool.eq_false_iff.mpr clash, Option.or_none]

/-! ## The reports of a file -/

/-- The report says that the symbol at a place is declared again after `first`. -/
structure ReportsRepeat (symbols : List Symbol) (place : Nat) (symbol first : Symbol)
    (report : Diagnostic) : Prop where
  repeats : Symbol.Repeats symbols place symbol first
  kind : report.kind = .duplicateDeclaration
  file : report.file = symbol.file
  range : report.range = symbol.range
  span : report.span = symbol.span
  message : report.message =
    "duplicate declaration: " ++ symbol.kind.display ++ " '" ++ symbol.name ++
      "' is already declared"
  related : report.related =
    [⟨first.file, first.range, first.span, "first declaration of '" ++ first.name ++ "'"⟩]
  /-- The first namesake alone decides how severe the repetition is. -/
  severity : report.severity = if symbol.kind = first.kind then .error else .warning
  /-- With earlier namesakes of its own kind only, the repetition is an error. -/
  ownKind : (∀ earlier ∈ symbols.take place, symbol.Namesake earlier →
    earlier.kind = symbol.kind) → report.severity = .error
  /-- With earlier namesakes of the other kind of token only, it is a warning. -/
  otherKind : (∀ earlier ∈ symbols.take place, symbol.Namesake earlier →
    earlier.kind ≠ symbol.kind) → report.severity = .warning

theorem reportsRepeat_duplicate {symbols : List Symbol} {place : Nat} {symbol first : Symbol}
    (repeats : Symbol.Repeats symbols place symbol first) :
    ReportsRepeat symbols place symbol first (duplicate symbol first) := by
  have isEarlier : first ∈ symbols.take place := by
    obtain ⟨before, after, split, -⟩ := repeats.first
    exact split ▸ List.mem_append_right before List.mem_cons_self
  refine ⟨repeats, rfl, rfl, rfl, rfl, rfl, rfl, rfl, fun ownKind => ?_, fun otherKind => ?_⟩
  · exact if_pos (ownKind first isEarlier repeats.namesake).symm
  · exact if_neg (Ne.symm (otherKind first isEarlier repeats.namesake))

/-- The reports are about the symbols with an earlier namesake: each of them is reported once,
in order, and no other symbol. -/
structure RepeatsReported (symbols : List Symbol) (places : List Nat)
    (reports : List Diagnostic) : Prop where
  ordered : places.Pairwise (· < ·)
  repeated : ∀ place, place ∈ places ↔ ∃ symbol, symbols[place]? = some symbol ∧
    ∃ earlier ∈ symbols.take place, symbol.Namesake earlier
  reported : List.Forall₂ (fun place report => ∃ symbol first,
    ReportsRepeat symbols place symbol first report) places reports

/-- The reports of duplicates are about the repeated symbols, whatever the symbols are. -/
theorem exists_repeatsReported (symbols : List Symbol) :
    ∃ places, RepeatsReported symbols places (duplicates [] symbols) := by
  let repeated (entry : Symbol × Nat) : Bool := (symbols.take entry.2).any entry.1.clashes
  have atPlace : ∀ symbol place, (symbol, place) ∈ symbols.zipIdx ↔
      symbols[place]? = some symbol := fun symbol place => List.mem_zipIdx_iff_getElem?
  refine ⟨(symbols.zipIdx.filter repeated).map Prod.snd, ?_, fun place => ?_, ?_⟩
  · have inOrder : (symbols.zipIdx.map Prod.snd).Pairwise (· < ·) := by
      rw [List.zipIdx_map_snd]
      exact List.pairwise_lt_range'
    exact inOrder.sublist (List.filter_sublist.map Prod.snd)
  · simp only [List.mem_map, List.mem_filter, Prod.exists, exists_eq_right, atPlace, repeated,
      List.any_eq_true, Symbol.clashes_iff]
  · rw [List.forall₂_map_left_iff, @duplicates_eq_filterMap [] [] symbols fun _ => rfl]
    refine forall₂_filter_filterMap (fun entry isEntry report isReport => ?_)
      (fun entry _ noReport => ?_)
    · obtain ⟨first, found, rfl⟩ := Option.map_eq_some_iff.mp isReport
      have repeats := (Symbol.repeats_iff ((atPlace entry.1 entry.2).mp isEntry)).mpr found
      exact ⟨List.any_eq_true.mpr ⟨first, List.mem_of_find?_eq_some found,
        List.find?_some found⟩, entry.1, first, reportsRepeat_duplicate repeats⟩
    · have nothing := List.find?_eq_none.mp (Option.map_eq_none_iff.mp noReport)
      exact List.any_eq_false.mpr nothing

/-- Every declared symbol stays in the table, in its order. Each symbol with an earlier
namesake is reported once against the first of them, and the table finds both under their
name, the first one first; no other symbol is reported. -/
theorem table_reports_repeats (file : File.Id) (index : LineIndex) (members : List Member) :
    (table file index members).1.symbols =
        members.flatMap (symbolsOf ⟨file, index, (table file index members).1.grammarKind⟩) ∧
      (∃ places, RepeatsReported (table file index members).1.symbols places
        (table file index members).2) ∧
      ∀ place symbol first,
        Symbol.Repeats (table file index members).1.symbols place symbol first →
          [first, symbol].Sublist ((table file index members).1.lookup symbol.name) := by
  refine ⟨rfl, exists_repeatsReported _, fun place symbol first repeats => ?_⟩
  have named : [first, symbol].filter (fun other => other.name = symbol.name) =
      [first, symbol] := by
    simp [repeats.namesake.1]
  exact named ▸ repeats.sublist.filter _

/-- A lexer rule that repeats an earlier lexer rule is only warned about when a list of tokens
names it before both, since each of them is held against the listed token. -/
theorem redeclared_rule_only_warned :
    let text := "grammar G;tokens\x7bA\x7dA:'a';A:'b';"
    (Syntax.Parse.ofText? text).map (fun parse =>
      let (declared, reports) := declarations 0 (.ofText text) parse
      (declared.symbols.map fun symbol => (symbol.name, symbol.kind, symbol.range),
        reports.map fun report => (report.range, report.severity))) =
      some
        ([("G", .grammar, ⟨8, 9⟩), ("A", .virtualToken, ⟨17, 18⟩),
            ("A", .lexerRule, ⟨19, 20⟩), ("A", .lexerRule, ⟨25, 26⟩)],
          [(⟨19, 20⟩, .warning), (⟨25, 26⟩, .warning)]) := by
  decide +kernel

end Declare

end GrammarDesk
