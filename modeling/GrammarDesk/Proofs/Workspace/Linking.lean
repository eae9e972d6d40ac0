import GrammarDesk.Proofs.Import.Closure
import GrammarDesk.Workspace.Linking

/-!
Contract: which other files the links of a file depend on, and on what of them.

Owns: the view of a file from outside, and the proof that the links of a file stay
as they are when only files change their view to which no import leads it, neither
before nor after.

Does not own: which files an operation changes (`Incremental`).

Main statement: `Linking.ofAnalysis_congr`.
-/

namespace GrammarDesk

open Import

/-- What the files that import a file see of it. -/
structure View where
  file : File.Id
  stem : Option String
  table : SymbolTable
deriving DecidableEq

namespace Analysis

def view (analysis : Analysis) : View :=
  ⟨analysis.file, analysis.path.stem, analysis.table⟩

theorem table_of_view {left right : Analysis} (same : left.view = right.view) :
    left.table = right.table :=
  congrArg View.table same

theorem node_of_view {left right : Analysis} (same : left.view = right.view) :
    left.node = right.node := by
  have stem : left.path.stem = right.path.stem := congrArg View.stem same
  unfold node
  rw [stem, table_of_view same]

theorem grammarSymbol_of_view {left right : Analysis} (same : left.view = right.view) :
    left.grammarSymbol = right.grammarSymbol := by
  have stem : left.path.stem = right.path.stem := congrArg View.stem same
  have file : left.file = right.file := congrArg View.file same
  unfold grammarSymbol
  rw [stem, file, table_of_view same]

/-- Analyses of one file that look the same to importing files have one view. -/
theorem view_eq_of_sameOutside {earlier later : Analysis}
    (file : earlier.file = later.file) (path : earlier.path.same later.path = true)
    (same : earlier.sameOutside later = true) :
    earlier.view = later.view := by
  unfold sameOutside SymbolTable.sameExports at same
  simp only [Bool.and_eq_true, decide_eq_true_eq] at same
  obtain ⟨⟨header, symbols⟩, imports⟩ := same
  have table : earlier.table = later.table := by
    cases earlierTable : earlier.table
    cases laterTable : later.table
    simp_all
  unfold view
  rw [file, File.Path.stem_eq_of_same path, table]

end Analysis

namespace Sources

def view? (sources : Sources) (file : File.Id) : Option View :=
  (sources.get? file).map Analysis.view

theorem node?_graph (sources : Sources) (precedence : Precedence) (file : File.Id) :
    (sources.graph precedence).node? file = (sources.get? file).map Analysis.node :=
  File.Map.get?_map sources Analysis.node file

theorem mem_files_graph {sources : Sources} {file : File.Id} {analysis : Analysis}
    (precedence : Precedence) (loaded : sources.get? file = some analysis) :
    file ∈ (sources.graph precedence).files := by
  refine Graph.mem_files_iff.mpr ⟨analysis.node, ?_⟩
  rw [node?_graph, loaded]
  rfl

theorem leadsTo_import {sources : Sources} {precedence : Precedence} {file target : File.Id}
    {analysis : Analysis} (loaded : sources.get? file = some analysis) {clause : ImportClause}
    (imported : clause ∈ analysis.table.imports)
    (found : (sources.graph precedence).resolve clause.name = some target) :
    (sources.graph precedence).LeadsTo file target := by
  have known : (sources.graph precedence).node? file = some analysis.node := by
    rw [node?_graph, loaded]
    rfl
  have edge := Graph.mem_edges_iff.mpr ⟨analysis.node, known, imported, found⟩
  exact (Graph.LeadsTo.refl _ _).onward (List.mem_map_of_mem edge)

/-- What a loaded file tells other files is read off its view. -/
theorem map_eq_of_view? {Told : Type} {before after : Sources} {file : File.Id}
    (same : before.view? file = after.view? file) {tell : Analysis → Told}
    (told : ∀ {left right : Analysis}, left.view = right.view → tell left = tell right) :
    (before.get? file).map tell = (after.get? file).map tell := by
  unfold view? at same
  cases known : before.get? file with
  | none =>
      rw [known] at same
      rw [Option.map_eq_none_iff.mp same.symm]
  | some analysis =>
      rw [known] at same
      obtain ⟨other, isOther, sameView⟩ := Option.map_eq_some_iff.mp same.symm
      rw [isOther, Option.map_some, Option.map_some, told sameView]

end Sources

namespace Linking

variable {before after : Sources} {precedence : Precedence}

theorem tables_congr {closure : Closure}
    (same : ∀ member ∈ closure.members, before.view? member.file = after.view? member.file) :
    tables before closure = tables after closure := by
  apply List.filterMap_congr
  intro member inClosure
  exact Sources.map_eq_of_view? (same member inClosure) fun sameView => by
    rw [Analysis.table_of_view sameView]

theorem display_congr {file : File.Id} (same : before.view? file = after.view? file) :
    (before.graph precedence).display file = (after.graph precedence).display file := by
  unfold Graph.display
  rw [Sources.node?_graph, Sources.node?_graph,
    Sources.map_eq_of_view? same Analysis.node_of_view]

theorem cycleReport_congr {file : File.Id} {cycle : Cycle}
    (same : ∀ other ∈ cycle.path, before.view? other = after.view? other) :
    cycleReport file (before.graph precedence) cycle =
      cycleReport file (after.graph precedence) cycle := by
  unfold cycleReport
  rw [List.map_congr_left fun other onPath => display_congr (same other onPath)]

/-- The symbols that imports name are the same if the names stand for the same files and these
look the same. -/
theorem grammars_congr {imports : List ImportClause}
    (resolved : ∀ clause ∈ imports, (before.graph precedence).resolve clause.name =
      (after.graph precedence).resolve clause.name)
    (same : ∀ clause ∈ imports, ∀ target,
      (before.graph precedence).resolve clause.name = some target →
      before.view? target = after.view? target) :
    grammars before (before.graph precedence).resolve imports =
      grammars after (after.graph precedence).resolve imports := by
  apply List.filterMap_congr
  intro clause imported
  rw [← resolved clause imported]
  cases found : (before.graph precedence).resolve clause.name with
  | none => rfl
  | some target =>
      exact Sources.map_eq_of_view? (same clause imported target found) fun sameView => by
        rw [Analysis.grammarSymbol_of_view sameView]

/-- The links of a file do not change with files to which no import leads it, among
the loaded files as they were and as they are. -/
theorem ofAnalysis_congr {changed : File.Id → Prop} {analysis : Analysis}
    (same : ∀ file, ¬ changed file → before.view? file = after.view? file)
    (loadedBefore : before.get? analysis.file = some analysis)
    (loadedAfter : after.get? analysis.file = some analysis)
    (avoidsBefore : ∀ file, (before.graph precedence).LeadsTo analysis.file file → ¬ changed file)
    (avoidsAfter : ∀ file, (after.graph precedence).LeadsTo analysis.file file → ¬ changed file)
    (reportImports : Bool) :
    ofAnalysis before (before.graph precedence).links reportImports analysis =
      ofAnalysis after (after.graph precedence).links reportImports analysis := by
  have sameNode : ∀ file, ¬ changed file →
      (before.graph precedence).node? file = (after.graph precedence).node? file := by
    intro file kept
    rw [Sources.node?_graph, Sources.node?_graph]
    exact Sources.map_eq_of_view? (same file kept) Analysis.node_of_view
  have agree : Agree id (before.graph precedence) (after.graph precedence) analysis.file :=
    agree_of_avoids rfl sameNode (Sources.mem_files_graph precedence loadedBefore)
      (Sources.mem_files_graph precedence loadedAfter) avoidsBefore avoidsAfter
  have seen : ∀ file, (before.graph precedence).LeadsTo analysis.file file →
      before.view? file = after.view? file :=
    fun file leads => same file (avoidsBefore file leads)
  have resolved : ∀ clause ∈ analysis.table.imports,
      (before.graph precedence).resolve clause.name =
        (after.graph precedence).resolve clause.name := by
    intro clause imported
    exact Graph.resolve_stable sameNode
      (fun target found => avoidsBefore target (Sources.leadsTo_import loadedBefore imported found))
      (fun target found => avoidsAfter target (Sources.leadsTo_import loadedAfter imported found))
  have sameClosure : (before.graph precedence).links.closure analysis.file =
      (after.graph precedence).links.closure analysis.file := closure_congr agree
  have sameTables : tables before ((before.graph precedence).links.closure analysis.file) =
      tables after ((before.graph precedence).links.closure analysis.file) :=
    tables_congr fun member inClosure => seen _ (Graph.leadsTo_of_mem_members inClosure)
  have sameGrammars := grammars_congr resolved fun clause imported target found =>
    seen target (Sources.leadsTo_import loadedBefore imported found)
  have sameReports : ∀ cycle ∈ ((before.graph precedence).links.closure analysis.file).cycles,
      cycleReport analysis.file (before.graph precedence) cycle =
        cycleReport analysis.file (after.graph precedence) cycle := by
    intro cycle inClosure
    exact cycleReport_congr fun other onPath =>
      seen other (Graph.leadsTo_of_mem_cycles inClosure onPath)
  unfold ofAnalysis ofClosure
  simp only [Links.graph_links]
  rw [sameGrammars, sameTables, List.map_congr_left sameReports, sameClosure]

end Linking

end GrammarDesk
