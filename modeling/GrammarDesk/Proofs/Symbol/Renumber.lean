import GrammarDesk.Diagnostic.Merge
import GrammarDesk.Symbol.Declare

/-!
Contract: declarations and reports when files get other numbers.

Owns: symbols, tables and diagnostics with their files renumbered, and the proof that
neither the declarations of a file nor the order of its diagnostics look at the number
of a file: renumbering first or last is the same.

Does not own: which number a file gets (`File.Table`), or names in other files
(`Reference`).

Main statements: `Declare.table_renumber`, `Diagnostic.merge_renumber`.
-/

namespace GrammarDesk

open Text Grammar

/-! ## Renumbering -/

def Symbol.renumber (rename : File.Id → File.Id) (symbol : Symbol) : Symbol :=
  { symbol with file := rename symbol.file }

/-- The table with all its symbols renumbered; headers and imports carry no number. -/
def SymbolTable.renumber (rename : File.Id → File.Id) (table : SymbolTable) : SymbolTable :=
  { table with symbols := table.symbols.map (Symbol.renumber rename) }

def RelatedPlace.renumber (rename : File.Id → File.Id) (place : RelatedPlace) : RelatedPlace :=
  { place with file := rename place.file }

def Diagnostic.renumber (rename : File.Id → File.Id) (diagnostic : Diagnostic) : Diagnostic :=
  { diagnostic with
    file := rename diagnostic.file
    related := diagnostic.related.map (RelatedPlace.renumber rename) }

/-! ## Diagnostics -/

namespace Diagnostic

variable (rename : File.Id → File.Id)

@[simp] theorem renumber_relatedTo (diagnostic : Diagnostic) (places : List RelatedPlace) :
    (diagnostic.relatedTo places).renumber rename =
      (diagnostic.renumber rename).relatedTo (places.map (RelatedPlace.renumber rename)) := by
  simp [relatedTo, renumber]

/-- The order of diagnostics does not look at their files. -/
theorem merge_renumber (stages : List (List Diagnostic)) :
    merge (stages.map (List.map (renumber rename))) = (merge stages).map (renumber rename) := by
  unfold merge
  rw [← List.map_flatten, List.map_mergeSort]
  intro left _ right _
  rfl

end Diagnostic

/-! ## Declarations -/

namespace Declare

variable (rename : File.Id → File.Id)

def Scope.renumber (scope : Scope) : Scope :=
  { scope with file := rename scope.file }

namespace Scope

theorem named_renumber (scope : Scope) (kind : SymbolKind) (name : Option Name)
    (declaration : Range) :
    (scope.renumber rename).named kind name declaration =
      (scope.named kind name declaration).map (Symbol.renumber rename) := by
  unfold named
  cases name with
  | none => rfl
  | some name =>
      dsimp only
      split
      · rfl
      · rfl

end Scope

theorem ruleSymbols_renumber (scope : Scope) (mode : Option Name) (entry : DocumentedRule) :
    ruleSymbols (scope.renumber rename) mode entry =
      (ruleSymbols scope mode entry).map (Symbol.renumber rename) := by
  simp only [ruleSymbols, Scope.named_renumber, List.map_map]
  rfl

theorem importSymbols_renumber (scope : Scope) (item : ImportItem) :
    importSymbols (scope.renumber rename) item =
      (importSymbols scope item).map (Symbol.renumber rename) := by
  unfold importSymbols
  cases item.target with
  | none => rfl
  | some target =>
      cases item.alternateName with
      | none => rfl
      | some name => exact scope.named_renumber rename .importedGrammar (some name) item.range

theorem symbolsOf_renumber (scope : Scope) (member : Member) :
    symbolsOf (scope.renumber rename) member =
      (symbolsOf scope member).map (Symbol.renumber rename) := by
  cases member with
  | header header =>
      simp only [symbolsOf, Scope.named_renumber, List.map_map]
      rfl
  | options range settings => rfl
  | imports range items =>
      rw [symbolsOf, symbolsOf, List.map_flatMap]
      exact congrArg (items.flatMap ·) (funext (importSymbols_renumber rename scope))
  | tokens range entries => simp only [symbolsOf, Scope.named_renumber, List.map_flatMap]
  | channels range entries => simp only [symbolsOf, Scope.named_renumber, List.map_flatMap]
  | namedAction range name =>
      cases name with
      | none => rfl
      | some name => rfl
  | rule entry => exact ruleSymbols_renumber rename scope none entry
  | mode mode =>
      have rules := funext (ruleSymbols_renumber rename scope mode.name)
      simp only [symbolsOf, Scope.named_renumber, rules, List.map_append, List.map_flatMap,
        List.map_map]
      rfl

/-- Which symbols are reported as duplicates does not depend on the number of their file. -/
theorem duplicates_renumber (firsts symbols : List Symbol) :
    duplicates (firsts.map (Symbol.renumber rename)) (symbols.map (Symbol.renumber rename)) =
      (duplicates firsts symbols).map (Diagnostic.renumber rename) := by
  induction symbols generalizing firsts with
  | nil => rfl
  | cons symbol rest inductionHypothesis =>
      -- whether symbols clash does not depend on their files
      have sameFirst : (firsts.map (Symbol.renumber rename)).find?
          (symbol.renumber rename).clashes =
          (firsts.find? symbol.clashes).map (Symbol.renumber rename) :=
        List.find?_map
      rw [List.map_cons, duplicates, duplicates, sameFirst]
      cases firsts.find? symbol.clashes with
      | none => exact inductionHypothesis (symbol :: firsts)
      | some first =>
          exact congrArg (duplicate (symbol.renumber rename) (first.renumber rename) :: ·)
            (inductionHypothesis firsts)

/-- A file of another number declares the same in it. -/
theorem table_renumber (file : File.Id) (index : LineIndex) (members : List Member) :
    table (rename file) index members =
      ((table file index members).1.renumber rename,
        (table file index members).2.map (Diagnostic.renumber rename)) := by
  have symbols : ∀ kind, members.flatMap (symbolsOf ⟨rename file, index, kind⟩) =
      (members.flatMap (symbolsOf ⟨file, index, kind⟩)).map (Symbol.renumber rename) := by
    intro kind
    rw [List.map_flatMap]
    exact congrArg (members.flatMap ·) (funext (symbolsOf_renumber rename ⟨file, index, kind⟩))
  unfold table
  simp only [symbols]
  exact Prod.ext rfl (duplicates_renumber rename [] _)

end Declare

end GrammarDesk
