import GrammarDesk.Proofs.Check.Renumber
import GrammarDesk.Proofs.Import.Renumber
import GrammarDesk.Proofs.Reference.Renumber
import GrammarDesk.Proofs.Workspace.Linking

/-!
Contract: the loaded files of a workspace under other numbers.

Owns: analyses of one text under two numbers, loaded files that are the same up to their
numbers, links with their files renumbered, and the proof that the links of a file are
then the same up to the numbers.

Does not own: how files come by their numbers (`LoadOrder`).

Main statement: `Linking.ofAnalysis_renumber`.
-/

namespace GrammarDesk

open Import

namespace Analysis

/-! ## One text under two numbers -/

/-- Analyses of one text at one path, however it is spelled and whatever its number. -/
structure Renumbers (rename : File.Id → File.Id) (left right : Analysis) : Prop where
  file : right.file = rename left.file
  path : left.path.same right.path = true
  text : left.text = right.text

namespace Renumbers

variable {rename : File.Id → File.Id} {left right : Analysis}
  (renumbers : left.Renumbers rename right)

include renumbers

theorem parse_eq : right.parse = left.parse := by
  have read := right.parse_eq
  rw [← renumbers.text, left.parse_eq] at read
  exact (Option.some.inj read).symm

theorem index_eq : right.index = left.index := by
  rw [right.index_eq, left.index_eq, renumbers.text]

theorem members_eq : right.members = left.members := by
  unfold members
  rw [renumbers.parse_eq]

theorem stem_eq : right.path.stem = left.path.stem :=
  (File.Path.stem_eq_of_same renumbers.path).symm

theorem table_eq : right.table = left.table.renumber rename := by
  rw [right.table_eq, left.table_eq, renumbers.file, renumbers.index_eq, renumbers.parse_eq]
  exact congrArg Prod.fst (Declare.table_renumber rename _ _ _)

theorem reports_eq : right.reports = left.reports.map (Diagnostic.renumber rename) := by
  have declared := Declare.table_renumber rename left.file left.index
    (Grammar.membersOf left.parse.tree)
  rw [right.reports_eq, left.reports_eq, renumbers.file, renumbers.index_eq, renumbers.parse_eq]
  unfold localReports declarations
  rw [declared, renumbers.stem_eq, ← Diagnostic.merge_renumber]
  simp only [List.map_cons, List.map_nil, List.map_map, ← Check.grammar_renumber]
  rfl

theorem node_eq : right.node = left.node := by
  unfold node
  rw [renumbers.stem_eq, renumbers.table_eq]
  rfl

theorem grammarSymbol_eq : right.grammarSymbol = left.grammarSymbol.renumber rename := by
  have found : (right.table.symbols.find? fun symbol => symbol.kind = .grammar) =
      (left.table.symbols.find? fun symbol => symbol.kind = .grammar).map
        (Symbol.renumber rename) := by
    rw [renumbers.table_eq]
    exact List.find?_map
  unfold grammarSymbol
  rw [found, renumbers.stem_eq, renumbers.file]
  cases left.table.symbols.find? fun symbol => symbol.kind = .grammar with
  | none => rfl
  | some symbol => rfl

end Renumbers

end Analysis

/-! ## Loaded files -/

/-- The same texts are loaded at the same paths, whatever their numbers. -/
structure Sources.Renumbers (rename : File.Id → File.Id) (before after : Sources) : Prop where
  injective : Function.Injective rename
  get? : ∀ file, Option.Rel (Analysis.Renumbers rename) (before.get? file)
    (after.get? (rename file))
  onto : ∀ {file analysis}, after.get? file = some analysis → ∃ earlier, rename earlier = file

namespace Sources.Renumbers

variable {rename : File.Id → File.Id} {before after : Sources}
  (renumbers : before.Renumbers rename after)

include renumbers

/-- What is loaded under two numbers of one file is an analysis of one text. -/
theorem of_get? {file : File.Id} {left right : Analysis} (isLeft : before.get? file = some left)
    (isRight : after.get? (rename file) = some right) : left.Renumbers rename right := by
  have related := renumbers.get? file
  rw [isLeft, isRight] at related
  exact Option.rel_some_some.mp related

/-- What the file of another number tells is what the file told, up to the numbers. -/
theorem map_get? {Told Retold : Type} {tell : Analysis → Told} {retell : Analysis → Retold}
    {change : Told → Retold}
    (told : ∀ {left right : Analysis}, left.Renumbers rename right →
      retell right = change (tell left)) (file : File.Id) :
    (after.get? (rename file)).map retell = ((before.get? file).map tell).map change := by
  have related := renumbers.get? file
  generalize before.get? file = analysis? at related
  generalize after.get? (rename file) = other? at related
  cases related with
  | none => rfl
  | some same => exact congrArg some (told same)

/-- The import graphs hold the same files. -/
theorem graph (precedence : Precedence) :
    Import.Renumbers rename (before.graph precedence) (after.graph precedence) where
  injective := renumbers.injective
  precedence := rfl
  node? file := by
    have told : ∀ {left right : Analysis}, left.Renumbers rename right →
        right.node = id left.node := fun same => same.node_eq
    rw [node?_graph, node?_graph, renumbers.map_get? told, Option.map_id_apply]
  onto known := by
    rw [node?_graph] at known
    obtain ⟨analysis, loaded, _⟩ := Option.map_eq_some_iff.mp known
    exact renumbers.onto loaded

end Sources.Renumbers

namespace Linking

/-! ## Links -/

def renumber (rename : File.Id → File.Id) (linking : Linking) : Linking :=
  { references := linking.references.map (Reference.renumber rename)
    diagnostics := linking.diagnostics.map (Diagnostic.renumber rename)
    closure := linking.closure.renumber rename }

section Renumbering

variable {rename : File.Id → File.Id} {before after : Sources} {precedence : Precedence}
  (renumbers : before.Renumbers rename after)

include renumbers

theorem tables_renumber (closure : Closure) :
    tables after (closure.renumber rename) =
      (tables before closure).map (ImportedTable.renumber rename) := by
  unfold tables Closure.renumber
  rw [List.filterMap_map, List.map_filterMap]
  refine List.filterMap_congr fun member _ => ?_
  exact renumbers.map_get? (fun same => by rw [same.table_eq]; rfl) member.file

theorem grammars_renumber (distinct : (before.graph precedence).Distinct)
    (imports : List ImportClause) :
    grammars after (after.graph precedence).resolve imports =
      (grammars before (before.graph precedence).resolve imports).map
        (Prod.map id (Symbol.renumber rename)) := by
  unfold grammars
  rw [List.map_filterMap]
  refine List.filterMap_congr fun clause _ => ?_
  rw [(renumbers.graph precedence).resolve_eq distinct]
  cases (before.graph precedence).resolve clause.name with
  | none => rfl
  | some target =>
      exact renumbers.map_get? (fun same => by rw [same.grammarSymbol_eq]; rfl) target

theorem cycleReport_renumber (file : File.Id) (cycle : Cycle) :
    cycleReport (rename file) (after.graph precedence) (cycle.renumber rename) =
      (cycleReport file (before.graph precedence) cycle).renumber rename := by
  have names : (cycle.renumber rename).path.map (after.graph precedence).display =
      cycle.path.map (before.graph precedence).display := by
    rw [Cycle.renumber, List.map_map]
    exact List.map_congr_left fun file _ => (renumbers.graph precedence).display_eq file
  unfold cycleReport
  rw [names]
  rfl

/-- A file has the same links under another number, if of the loaded files no two
declare the same grammar or have the same stem. -/
theorem ofAnalysis_renumber (distinct : (before.graph precedence).Distinct)
    {analysis other : Analysis} (loaded : before.get? analysis.file = some analysis)
    (same : analysis.Renumbers rename other) (reportImports : Bool) :
    ofAnalysis after (after.graph precedence).links reportImports other =
      (ofAnalysis before (before.graph precedence).links reportImports analysis).renumber
        rename := by
  have agree := (renumbers.graph precedence).agree distinct
    (Sources.mem_files_graph precedence loaded)
  have closures : (after.graph precedence).links.closure (rename analysis.file) =
      ((before.graph precedence).links.closure analysis.file).renumber rename :=
    closure_renumber agree
  have sameImports : other.table.imports = analysis.table.imports := by
    rw [same.table_eq]
    rfl
  -- the scope of the file is the same up to the numbers
  have scopes : (⟨other.table,
        tables after (((before.graph precedence).links.closure analysis.file).renumber rename),
        grammars after (after.graph precedence).resolve other.table.imports⟩ : Scope) =
      Scope.renumber rename ⟨analysis.table,
        tables before ((before.graph precedence).links.closure analysis.file),
        grammars before (before.graph precedence).resolve analysis.table.imports⟩ := by
    rw [sameImports, same.table_eq, tables_renumber renumbers,
      grammars_renumber renumbers distinct]
    rfl
  have cycles : (((before.graph precedence).links.closure analysis.file).renumber
        rename).cycles.map (cycleReport (rename analysis.file) (after.graph precedence)) =
      (((before.graph precedence).links.closure analysis.file).cycles.map
        (cycleReport analysis.file (before.graph precedence))).map
          (Diagnostic.renumber rename) := by
    rw [Closure.renumber, List.map_map, List.map_map]
    exact List.map_congr_left fun cycle _ => cycleReport_renumber renumbers analysis.file cycle
  have bound := Binder.bind_renumber
    ⟨analysis.file, analysis.index, ⟨analysis.table,
      tables before ((before.graph precedence).links.closure analysis.file),
      grammars before (before.graph precedence).resolve analysis.table.imports⟩, reportImports⟩
    renumbers.injective (Use.ofMembers analysis.members)
  unfold ofAnalysis ofClosure
  simp only [Links.graph_links]
  rw [same.file, same.index_eq, same.members_eq, same.reports_eq, closures, scopes, cycles]
  unfold Binder.renumber at bound
  rw [bound, renumber, ← Diagnostic.merge_renumber]
  rfl

end Renumbering

end Linking

end GrammarDesk
