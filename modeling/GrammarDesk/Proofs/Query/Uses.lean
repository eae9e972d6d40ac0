import GrammarDesk.Proofs.Reference.Marks
import GrammarDesk.Proofs.Workspace.Loaded
import GrammarDesk.Proofs.Workspace.Relinking
import GrammarDesk.Query.Uses

/-!
Contract: the order in which uses and declarations are written and found.

Owns: the names of a loaded file, the order of the loaded files, and the order of the places
where a declaration is used.

Does not own: the order in one text (`Mark`), or which uses mean a declaration (`Lenses`).

Main statement: `names_in_order`.
-/

namespace GrammarDesk

open Text Grammar

/-- One use stands in an earlier file than another, or before it in the same file. -/
def UsePlace.Precedes (left right : UsePlace) : Prop :=
  left.file < right.file ∨ left.file = right.file ∧ left.range.start < right.range.start

/-- No use precedes itself. -/
theorem UsePlace.Precedes.ne {left right : UsePlace} (precedes : left.Precedes right) :
    left ≠ right := by
  rintro rfl
  rcases precedes with before | ⟨_, before⟩
  · exact Nat.lt_irrefl _ before
  · exact Nat.lt_irrefl _ before

/-! ## Loaded files -/

namespace Workspace

/-- What a file is bound with among the loaded files. -/
def binderOf (workspace : Workspace) (analysis : Analysis) : Binder :=
  let sources := workspace.snapshot.sources
  let links := workspace.graph.links
  { file := analysis.file
    index := analysis.index
    scope :=
      { table := analysis.table
        closure := Linking.tables sources (links.closure analysis.file)
        grammars := Linking.grammars sources links.graph.resolve analysis.table.imports }
    reportImports := workspace.config.reportImports }

namespace Coherent

variable {workspace : Workspace} (coherent : workspace.Coherent)

include coherent

/-- The references of a loaded file are its uses, bound among the loaded files. -/
theorem references_eq {source : SourceFile} (isLoaded : source ∈ workspace.snapshot.all) :
    source.references =
      (Use.ofMembers source.analysis.members).map
        (workspace.binderOf source.analysis).reference := by
  have linked := coherent.linked ((coherent.mem_all_iff source).mp isLoaded)
  exact congrArg Linking.references linked

theorem namesInOrder {source : SourceFile} (isLoaded : source ∈ workspace.snapshot.all) :
    NamesInOrder source.analysis.members source.references source.symbols := by
  rw [coherent.references_eq isLoaded, SourceFile.symbols, source.analysis.table_eq]
  exact namesInOrder_of_text source.analysis.parse_eq _ _ _

theorem file_of_mem_references {source : SourceFile} (isLoaded : source ∈ workspace.snapshot.all)
    {reference : Reference} (isReference : reference ∈ source.references) :
    reference.file = source.file := by
  rw [coherent.references_eq isLoaded] at isReference
  obtain ⟨used, _, rfl⟩ := List.mem_map.mp isReference
  rfl

/-- The uses of a declaration are found by file and place. -/
theorem usesOf_ordered (symbol : Symbol) :
    (((workspace.snapshot.usesOf symbol).map fun found : SourceFile × Reference =>
      (⟨found.2.file, found.1.path, found.2.range, found.2.span, false⟩ : UsePlace))).Pairwise
        UsePlace.Precedes := by
  unfold Snapshot.usesOf
  rw [List.map_flatMap, List.pairwise_flatMap]
  -- In one file the order is that of the text, between two files that of their numbers.
  refine ⟨fun source isLoaded => ?_, coherent.ascending_all.imp_of_mem ?_⟩
  · rw [List.map_map, List.pairwise_map]
    refine ((coherent.namesInOrder isLoaded).orderedReferences.filter _).imp_of_mem ?_
    intro left right isLeft isRight precedes
    have fileLeft := coherent.file_of_mem_references isLoaded (List.mem_of_mem_filter isLeft)
    have fileRight := coherent.file_of_mem_references isLoaded (List.mem_of_mem_filter isRight)
    exact .inr ⟨fileLeft.trans fileRight.symm, precedes.1⟩
  · intro left right isLeft isRight before place isPlace other isOther
    rw [List.map_map] at isPlace isOther
    obtain ⟨reference, isReference, rfl⟩ := List.mem_map.mp isPlace
    obtain ⟨later, isLater, rfl⟩ := List.mem_map.mp isOther
    refine .inl ?_
    show reference.file < later.file
    rw [coherent.file_of_mem_references isLeft (List.mem_of_mem_filter isReference),
      coherent.file_of_mem_references isRight (List.mem_of_mem_filter isLater)]
    exact before

end Coherent

end Workspace

/-! ## Places -/

namespace Snapshot

variable {snapshot : Snapshot} {path : File.Path} {position : Position}

/-- The places of the name at a position are those of a declaration, or there are none. -/
theorem exists_of_uses {places : List UsePlace}
    (found : snapshot.uses path position = .ok places) :
    places = [] ∨ ∃ symbol, places = snapshot.placesOf symbol := by
  unfold uses at found
  cases isTarget : snapshot.targetAt path position with
  | error => simp [isTarget, bind, Except.bind] at found
  | ok target =>
      rw [isTarget] at found
      simp only [bind, Except.bind] at found
      split at found
      · exact .inl (Except.ok.inj found).symm
      · rename_i symbol _
        exact .inr ⟨symbol, (Except.ok.inj found).symm⟩

end Snapshot

/-- The names of every text that can be read are in order: its references follow one another, and
so do its symbols, whatever the references are bound to; and a reference overlaps a symbol only
where an import without alias is both. After every run of operations the places of a name are its
declaration and then its uses by file and place, none of them twice. -/
theorem names_in_order :
    (∀ text, readable text = true →
      ∃ parse, Syntax.Parse.ofText? text = some parse ∧
        ∀ (binder : Binder) (file : File.Id) (index : LineIndex),
          let members := membersOf parse.tree
          NamesInOrder members (binder.bind (Use.ofMembers members)).1
            (Declare.table file index members).1.symbols) ∧
      ∀ (config : Config) (operations : List Operation) (path : File.Path) (position : Position)
        (declaration : UsePlace) (uses : List UsePlace),
        ((Session.new config).run operations).workspace.snapshot.uses path position =
            .ok (declaration :: uses) →
          declaration.isDefinition = true ∧ (∀ place ∈ uses, place.isDefinition = false) ∧
            uses.Pairwise UsePlace.Precedes ∧ uses.Nodup := by
  constructor
  · intro text isReadable
    have begins : Syntax.Parse.beginsWithTrivia (Syntax.Scan.tokenize text) = false := by
      simpa [readable] using isReadable
    have read := Syntax.Parse.ofText?_eq_some_iff.mpr ⟨begins, rfl⟩
    exact ⟨_, read, fun binder file index => namesInOrder_of_text read binder file index⟩
  · intro config operations path position declaration uses found
    have coherent := (Session.coherent_run config operations).workspace
    rcases Snapshot.exists_of_uses found with none | ⟨symbol, places⟩
    · cases none
    · obtain ⟨rfl, rfl⟩ := List.cons.inj places
      have ordered := coherent.usesOf_ordered symbol
      refine ⟨rfl, fun place isPlace => ?_, ordered, ordered.imp UsePlace.Precedes.ne⟩
      obtain ⟨_, _, rfl⟩ := List.mem_map.mp isPlace
      rfl

/-- A file imports a grammar under its own name and has a rule with two uses of itself. -/
theorem names_in_order_import :
    let text := "grammar G;import B;a:a a;"
    let snapshot := ((Session.new .standard).run [.load ⟨"/g/G.g4"⟩ text]).workspace.snapshot
    readable text = true ∧ (Syntax.Parse.ofText? text).isSome = true ∧
      ∃ declaration uses, snapshot.uses ⟨"/g/G.g4"⟩ ⟨0, 19⟩ = .ok (declaration :: uses) ∧
        uses.map UsePlace.range = [⟨21, 22⟩, ⟨23, 24⟩] ∧ uses.Pairwise UsePlace.Precedes := by
  intro text snapshot
  have isReadable : readable text = true := by decide +kernel
  have ranges : (snapshot.uses ⟨"/g/G.g4"⟩ ⟨0, 19⟩).toOption.map (List.map UsePlace.range) =
      some [⟨19, 20⟩, ⟨21, 22⟩, ⟨23, 24⟩] := by decide +kernel
  obtain ⟨places, found, isPlaces⟩ := Option.map_eq_some_iff.mp ranges
  obtain ⟨declaration, uses, rfl, _, isUses⟩ := List.map_eq_cons_iff.mp isPlaces
  have isAnswer : snapshot.uses ⟨"/g/G.g4"⟩ ⟨0, 19⟩ = .ok (declaration :: uses) := by
    cases answer : snapshot.uses ⟨"/g/G.g4"⟩ ⟨0, 19⟩ with
    | error => simp [answer, Except.toOption] at found
    | ok places => simpa [answer, Except.toOption] using found
  obtain ⟨parse, read, _⟩ := names_in_order.1 text isReadable
  have ordered := names_in_order.2 _ _ _ _ declaration uses isAnswer
  exact ⟨isReadable, Option.isSome_of_eq_some read, declaration, uses, isAnswer, isUses,
    ordered.2.2.1⟩

end GrammarDesk
