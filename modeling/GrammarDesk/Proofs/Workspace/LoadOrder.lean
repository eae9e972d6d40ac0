import Mathlib.Data.List.Pairwise
import GrammarDesk.Proofs.Workspace.Loaded
import GrammarDesk.Proofs.Workspace.Renumber

/-!
Contract: what is loaded depends on the files, not on the way they came in.

Owns: the number that a file of one run has in another, the files that a snapshot holds,
files that no import can take for each other, and the comparison of two runs that end
with the same files.

Does not own: links of the same files under other numbers (`Renumber`), or how a run
ends with some files (`Latest`).

Main statement: `loaded_eq_of_same_files`.
-/

namespace GrammarDesk

open Import

namespace File.Table

/-! ## Numbers in two tables -/

/-- The number that a file has in another table. A file that the other table does not
know gets a number of its own, which the other table has not given out. -/
def numberIn (table other : Table) (file : Id) : Id :=
  ((table.path? file).bind other.id?).getD (other.size + file)

/-- A number that a table has given out is less than every other one. -/
theorem lt_size_add {table other : Table} {file number : Id}
    (known : (table.path? file).bind other.id? = some number) (shift : Nat) :
    number < other.size + shift := by
  obtain ⟨path, _, numbered⟩ := Option.bind_eq_some_iff.mp known
  exact Nat.lt_add_right shift (List.findIdx?_eq_some_iff_getElem.mp numbered).1

/-- Different files have different numbers in the other table, those it does not know included.
-/
theorem numberIn_injective (table other : Table) : Function.Injective (table.numberIn other) := by
  intro left right same
  unfold numberIn at same
  cases atLeft : (table.path? left).bind other.id? with
  | none =>
      cases atRight : (table.path? right).bind other.id? with
      | none =>
          rw [atLeft, atRight] at same
          exact Nat.add_left_cancel same
      | some number =>
          rw [atLeft, atRight, Option.getD_none, Option.getD_some] at same
          exact absurd same.symm (Nat.ne_of_lt (lt_size_add atRight left))
  | some number =>
      cases atRight : (table.path? right).bind other.id? with
      | none =>
          rw [atLeft, atRight, Option.getD_none, Option.getD_some] at same
          exact absurd same (Nat.ne_of_lt (lt_size_add atLeft right))
      | some number' =>
          obtain ⟨path, listed, numbered⟩ := Option.bind_eq_some_iff.mp atLeft
          obtain ⟨path', listed', numbered'⟩ := Option.bind_eq_some_iff.mp atRight
          rw [atLeft, atRight, Option.getD_some, Option.getD_some] at same
          subst same
          exact table.eq_of_same listed listed' (other.same_of_id? numbered numbered')

/-- A path that both tables know has the renamed number in the other. -/
theorem numberIn_of_id? {table other : Table} {path : Path} {file number : Id}
    (numbered : table.id? path = some file) (numberedOther : other.id? path = some number) :
    table.numberIn other file = number := by
  obtain ⟨known, listed, same⟩ := (table.id?_eq_some_iff path file).mp numbered
  rw [other.id?_congr same] at numberedOther
  rw [numberIn, listed, Option.bind_some, numberedOther, Option.getD_some]

end File.Table

/-! ## Files that are loaded -/

def declaredName? (text : String) : Option String :=
  (Syntax.Parse.ofText? text).bind fun parse =>
    (Grammar.headerOf? (Grammar.membersOf parse.tree)).bind fun header =>
      header.name.map fun name => name.text

theorem Analysis.grammarName_eq (analysis : Analysis) :
    analysis.table.grammarName = declaredName? analysis.text := by
  rw [declaredName?, analysis.parse_eq, analysis.table_eq]
  show (Declare.headerOf _ _).map _ = _
  unfold Declare.headerOf
  rw [Option.bind_some, Option.map_bind]
  refine congrArg _ (funext fun header => ?_)
  exact Option.map_map _ _ _

/-- Two files with their texts that no import takes for each other: their stems differ,
and so do the names of their grammars. -/
def Apart (left right : File.Path × String) : Prop :=
  (left.1.stem = none ∨ left.1.stem ≠ right.1.stem) ∧
    (declaredName? left.2 = none ∨ declaredName? left.2 ≠ declaredName? right.2)

instance (left right : File.Path × String) : Decidable (Apart left right) :=
  inferInstanceAs (Decidable (_ ∧ _))

theorem differ_symm {left right : Option String} (differ : left = none ∨ left ≠ right) :
    right = none ∨ right ≠ left := by
  rcases differ with rfl | different
  · cases right with
    | none => exact .inl rfl
    | some name => exact .inr (Option.some_ne_none name)
  · exact .inr different.symm

theorem ne_some_of_differ {left right : Option String} {name : String}
    (differ : left = none ∨ left ≠ right) (isLeft : left = some name) : right ≠ some name := by
  subst isLeft
  rcases differ with missing | different
  · cases missing
  · exact different.symm

instance : Std.Symm Apart where
  symm _ _ apart := ⟨differ_symm apart.1, differ_symm apart.2⟩

namespace Snapshot

/-- The snapshot holds these files with these texts, and no others. -/
def Holds (snapshot : Snapshot) (files : List (File.Path × String)) : Prop :=
  (∀ entry ∈ files, snapshot.textAt? entry.1 = some entry.2) ∧
    ∀ source ∈ snapshot.all, ∃ entry ∈ files, entry.1.same source.path = true

instance (snapshot : Snapshot) (files : List (File.Path × String)) :
    Decidable (snapshot.Holds files) :=
  inferInstanceAs (Decidable (_ ∧ _))

end Snapshot

namespace Workspace

variable {workspace : Workspace} {files : List (File.Path × String)}

/-- A loaded file of a snapshot that holds some files is one of them. -/
theorem Coherent.entry_of_loaded (coherent : workspace.Coherent)
    (holds : workspace.snapshot.Holds files) {file : File.Id} {analysis : Analysis}
    (loaded : workspace.snapshot.sources.get? file = some analysis) :
    ∃ entry ∈ files, entry.1.same analysis.path = true ∧ entry.2 = analysis.text ∧
      workspace.table.id? entry.1 = some file := by
  obtain ⟨_, numbered⟩ := coherent.numbered_sources loaded
  have known := loaded
  rw [Snapshot.get?_sources] at known
  obtain ⟨source, isLoaded, rfl⟩ := Option.map_eq_some_iff.mp known
  obtain ⟨entry, among, same⟩ :=
    holds.2 source ((File.Map.mem_values_iff _ source).mpr ⟨file, isLoaded⟩)
  have isFile : workspace.table.id? entry.1 = some file :=
    (workspace.table.id?_congr same).trans numbered
  refine ⟨entry, among, same, ?_, isFile⟩
  have text := holds.1 entry among
  rw [coherent.textAt?_of_id? isFile, loaded] at text
  exact (Option.some.inj text).symm

/-- What a snapshot holds at the path of one of its files. -/
theorem Coherent.source_of_entry (coherent : workspace.Coherent)
    (holds : workspace.snapshot.Holds files) {entry : File.Path × String}
    (among : entry ∈ files) :
    ∃ source, workspace.snapshot.fileAt? entry.1 = some source ∧
      workspace.table.id? entry.1 = some source.file ∧
      workspace.snapshot.file? source.file = some source := by
  obtain ⟨source, atPath, _⟩ := Option.map_eq_some_iff.mp (holds.1 entry among)
  rw [coherent.fileAt?_eq] at atPath
  obtain ⟨file, numbered, loaded⟩ := Option.bind_eq_some_iff.mp atPath
  obtain ⟨rfl, _⟩ := coherent.numbered loaded
  refine ⟨source, ?_, numbered, loaded⟩
  rw [coherent.fileAt?_eq, numbered, Option.bind_some, loaded]

/-- Each of the files that a snapshot holds is loaded at its number. -/
theorem Coherent.loaded_of_entry (coherent : workspace.Coherent)
    (holds : workspace.snapshot.Holds files) {entry : File.Path × String}
    (among : entry ∈ files) :
    ∃ file analysis, workspace.table.id? entry.1 = some file ∧
      workspace.snapshot.sources.get? file = some analysis ∧
      entry.1.same analysis.path = true ∧ entry.2 = analysis.text := by
  obtain ⟨source, atPath, numbered, loaded⟩ := coherent.source_of_entry holds among
  have text := holds.1 entry among
  rw [Snapshot.textAt?, atPath, Option.map_some, Option.some.injEq] at text
  refine ⟨source.file, source.analysis, numbered, ?_,
    workspace.table.same_of_id? numbered (coherent.numbered loaded).2, text.symm⟩
  rw [Snapshot.get?_sources, loaded, Option.map_some]

/-- What is loaded under two numbers is apart if the files that the snapshot holds are. -/
theorem Coherent.apart_of_loaded (coherent : workspace.Coherent)
    (holds : workspace.snapshot.Holds files) (apart : files.Pairwise Apart)
    {left right : File.Id} {analysis analysis' : Analysis}
    (isLeft : workspace.snapshot.sources.get? left = some analysis)
    (isRight : workspace.snapshot.sources.get? right = some analysis') (different : left ≠ right) :
    Apart (analysis.path, analysis.text) (analysis'.path, analysis'.text) := by
  obtain ⟨entry, among, same, text, numbered⟩ := coherent.entry_of_loaded holds isLeft
  obtain ⟨entry', among', same', text', numbered'⟩ := coherent.entry_of_loaded holds isRight
  have notSame : entry ≠ entry' := by
    rintro rfl
    exact different (Option.some.inj (numbered.symm.trans numbered'))
  have entries := apart.forall among among' notSame
  unfold Apart at entries ⊢
  rwa [File.Path.stem_eq_of_same same, File.Path.stem_eq_of_same same', text, text'] at entries

/-- No import takes files that are apart for each other. -/
theorem Coherent.distinct_of_holds (coherent : workspace.Coherent)
    (holds : workspace.snapshot.Holds files) (apart : files.Pairwise Apart)
    (precedence : Precedence) :
    (workspace.snapshot.sources.graph precedence).Distinct := by
  have analysisOf : ∀ {file node},
      (workspace.snapshot.sources.graph precedence).node? file = some node →
      ∃ analysis, workspace.snapshot.sources.get? file = some analysis ∧ analysis.node = node := by
    intro file node known
    rw [Sources.node?_graph] at known
    exact Option.map_eq_some_iff.mp known
  constructor
  · intro left right node node' name known known' isName isName'
    obtain ⟨analysis, isLeft, rfl⟩ := analysisOf known
    obtain ⟨analysis', isRight, rfl⟩ := analysisOf known'
    by_contra different
    have names := (coherent.apart_of_loaded holds apart isLeft isRight different).2
    exact ne_some_of_differ names (analysis.grammarName_eq.symm.trans isName)
      (analysis'.grammarName_eq.symm.trans isName')
  · intro left right node node' name known known' isName isName'
    obtain ⟨analysis, isLeft, rfl⟩ := analysisOf known
    obtain ⟨analysis', isRight, rfl⟩ := analysisOf known'
    by_contra different
    have stems := (coherent.apart_of_loaded holds apart isLeft isRight different).1
    exact ne_some_of_differ stems isName isName'

/-- Workspaces that hold the same files have loaded the same, up to the numbers. -/
theorem Coherent.renumbers_of_holds {before after : Workspace} (coherent : before.Coherent)
    (coherentAfter : after.Coherent) (holds : before.snapshot.Holds files)
    (holdsAfter : after.snapshot.Holds files) :
    before.snapshot.sources.Renumbers (before.table.numberIn after.table)
      after.snapshot.sources := by
  have injective := before.table.numberIn_injective after.table
  have onto : ∀ {number analysis}, after.snapshot.sources.get? number = some analysis →
      ∃ file, (before.snapshot.sources.get? file).isSome = true ∧
        before.table.numberIn after.table file = number := by
    intro number analysis loaded
    obtain ⟨entry, among, _, _, numbered⟩ := coherentAfter.entry_of_loaded holdsAfter loaded
    obtain ⟨file, earlier, numberedBefore, wasLoaded, _, _⟩ := coherent.loaded_of_entry holds among
    exact ⟨file, Option.isSome_of_eq_some wasLoaded,
      File.Table.numberIn_of_id? numberedBefore numbered⟩
  refine ⟨injective, fun file => ?_, fun loaded => ?_⟩
  · cases wasLoaded : before.snapshot.sources.get? file with
    | none =>
        cases loaded : after.snapshot.sources.get? (before.table.numberIn after.table file) with
        | none => exact .none
        | some analysis =>
            obtain ⟨earlier, isSome, sameNumber⟩ := onto loaded
            rw [injective sameNumber, wasLoaded] at isSome
            cases isSome
    | some analysis =>
        obtain ⟨entry, among, same, text, numbered⟩ := coherent.entry_of_loaded holds wasLoaded
        obtain ⟨number, later, numberedAfter, loaded, sameAfter, textAfter⟩ :=
          coherentAfter.loaded_of_entry holdsAfter among
        have isNumber := File.Table.numberIn_of_id? numbered numberedAfter
        rw [isNumber, loaded]
        refine .some ⟨?_, ?_, text.symm.trans textAfter⟩
        · rw [(coherent.numbered_sources wasLoaded).1, isNumber]
          exact (coherentAfter.numbered_sources loaded).1
        · exact File.Path.same_trans (File.Path.same_comm entry.1 analysis.path ▸ same) sameAfter
  · obtain ⟨earlier, _, sameNumber⟩ := onto loaded
    exact ⟨earlier, sameNumber⟩

/-- The links of a file in a workspace that has loaded the same under other numbers. -/
theorem linkingOf_renumber {before after : Workspace} {rename : File.Id → File.Id}
    (sameConfig : after.config = before.config)
    (renumbers : before.snapshot.sources.Renumbers rename after.snapshot.sources)
    (distinct : (before.snapshot.sources.graph before.config.precedence).Distinct)
    {analysis other : Analysis}
    (loaded : before.snapshot.sources.get? analysis.file = some analysis)
    (same : analysis.Renumbers rename other) :
    after.linkingOf other = (before.linkingOf analysis).renumber rename := by
  unfold linkingOf graph
  rw [sameConfig]
  exact Linking.ofAnalysis_renumber renumbers distinct loaded same before.config.reportImports

end Workspace

/-- What is loaded does not depend on the order of loading: two runs with the same
choices, of whatever operations, that end with the same files loaded, of which no two
have the same stem or declare the same grammar, have for each of them the same symbols,
references, diagnostics and import closure, up to the numbers that the two runs gave to
the files. -/
theorem loaded_eq_of_same_files (config : Config) (files : List (File.Path × String))
    (apart : files.Pairwise Apart) (first second : List Operation)
    (firstHolds : ((Session.new config).run first).workspace.snapshot.Holds files)
    (secondHolds : ((Session.new config).run second).workspace.snapshot.Holds files) :
    let before := ((Session.new config).run first).workspace
    let after := ((Session.new config).run second).workspace
    let rename := before.table.numberIn after.table
    Function.Injective rename ∧
      ∀ entry ∈ files, ∃ old new,
        before.snapshot.fileAt? entry.1 = some old ∧
        after.snapshot.fileAt? entry.1 = some new ∧
        before.table.id? entry.1 = some old.file ∧
        after.table.id? entry.1 = some (rename old.file) ∧
        new.symbols = old.symbols.map (Symbol.renumber rename) ∧
        new.references = old.references.map (Reference.renumber rename) ∧
        new.diagnostics = old.diagnostics.map (Diagnostic.renumber rename) ∧
        new.linking.closure = old.linking.closure.renumber rename := by
  intro before after rename
  have coherent : before.Coherent := (Session.coherent_run config first).workspace
  have coherentAfter : after.Coherent := (Session.coherent_run config second).workspace
  have sameConfig : after.config = before.config :=
    ((Session.new config).continues_run second).config.trans
      ((Session.new config).continues_run first).config.symm
  have renumbers := coherent.renumbers_of_holds coherentAfter firstHolds secondHolds
  have distinct := coherent.distinct_of_holds firstHolds apart before.config.precedence
  refine ⟨renumbers.injective, fun entry among => ?_⟩
  obtain ⟨old, isOld, wasNumbered, wasLoaded⟩ := coherent.source_of_entry firstHolds among
  obtain ⟨new, isNew, numbered, loaded⟩ := coherentAfter.source_of_entry secondHolds among
  have isNumber : rename old.file = new.file := File.Table.numberIn_of_id? wasNumbered numbered
  have listed : before.snapshot.sources.get? old.file = some old.analysis := by
    rw [Snapshot.get?_sources, wasLoaded, Option.map_some]
  have listedAfter : after.snapshot.sources.get? (rename old.file) = some new.analysis := by
    rw [Snapshot.get?_sources, isNumber, loaded, Option.map_some]
  have same : old.analysis.Renumbers rename new.analysis := renumbers.of_get? listed listedAfter
  have linked : new.linking = old.linking.renumber rename := by
    rw [coherent.linked wasLoaded, coherentAfter.linked loaded]
    exact Workspace.linkingOf_renumber sameConfig renumbers distinct listed same
  refine ⟨old, new, isOld, isNew, wasNumbered, numbered.trans (congrArg some isNumber.symm),
    ?_, ?_, ?_, ?_⟩
  · exact congrArg SymbolTable.symbols same.table_eq
  · exact congrArg Linking.references linked
  · exact congrArg Linking.diagnostics linked
  · exact congrArg Linking.closure linked

/-- Two grammars that import each other, loaded in one order, and in the other order with
edits after a third file that is closed again. -/
theorem loaded_eq_of_cycle :
    let files : List (File.Path × String) :=
      [(⟨"a.g4"⟩, "lexer grammar A; import B; mode X;"),
        (⟨"b.g4"⟩, "lexer grammar B; import A; mode Y;")]
    let first : List Operation :=
      [.load ⟨"a.g4"⟩ "lexer grammar A; import B; mode X;",
        .load ⟨"b.g4"⟩ "lexer grammar B; import A; mode Y;"]
    let second : List Operation :=
      [.load ⟨"c.g4"⟩ "lexer grammar C;", .edit ⟨"b.g4"⟩ "lexer grammar B; import C;" 0,
        .flush none, .edit ⟨"b.g4"⟩ "lexer grammar B; import A; mode Y;" 5, .close ⟨"c.g4"⟩,
        .load ⟨"a.g4"⟩ "lexer grammar A; import B; mode X;", .flush none]
    let before := ((Session.new .standard).run first).workspace
    let after := ((Session.new .standard).run second).workspace
    let rename := before.table.numberIn after.table
    files.Pairwise Apart ∧ before.snapshot.Holds files ∧ after.snapshot.Holds files ∧
      ∃ old new, before.snapshot.fileAt? ⟨"b.g4"⟩ = some old ∧
        after.snapshot.fileAt? ⟨"b.g4"⟩ = some new ∧
        before.table.id? ⟨"a.g4"⟩ = some 0 ∧ after.table.id? ⟨"a.g4"⟩ = some 2 ∧
        new.symbols = old.symbols.map (Symbol.renumber rename) ∧
        new.references = old.references.map (Reference.renumber rename) ∧
        new.diagnostics = old.diagnostics.map (Diagnostic.renumber rename) ∧
        new.linking.closure = old.linking.closure.renumber rename := by
  intro files first second before after rename
  have apart : files.Pairwise Apart := by decide +kernel
  have firstHolds : before.snapshot.Holds files := by decide +kernel
  have secondHolds : after.snapshot.Holds files := by decide +kernel
  obtain ⟨_, same⟩ := loaded_eq_of_same_files .standard files apart first second firstHolds
    secondHolds
  obtain ⟨old, new, isOld, isNew, _, _, symbols, references, diagnostics, closure⟩ :=
    same (⟨"b.g4"⟩, "lexer grammar B; import A; mode Y;") (.tail _ (.head _))
  exact ⟨apart, firstHolds, secondHolds, old, new, isOld, isNew, by decide +kernel,
    by decide +kernel, symbols, references, diagnostics, closure⟩

end GrammarDesk
