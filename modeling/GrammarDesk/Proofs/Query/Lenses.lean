import GrammarDesk.Proofs.Query.Uses
import GrammarDesk.Proofs.Query.Words
import GrammarDesk.Proofs.Text.LineIndex
import GrammarDesk.Proofs.Workspace.Places

/-!
Contract: the number of uses shown above a rule.

Owns: the declarations that references of loaded files mean, the name of a rule as what stands
where it starts, and the proof that the uses counted above a rule are those found from its name.

Does not own: the order of the uses (`Uses`).

The lenses count references by the file and the range of what they mean. From the name of a rule
the way is longer: its position goes to an offset, the offset to the declaration there, and the
declaration to the references that mean it. Both count the same because a file and a range tell a
declaration, and because a reference holds its definition as it is declared now.

Main statement: `lenses_count_uses`.
-/

namespace GrammarDesk

open Text Grammar

/-! ## Definitions -/

namespace Scope

variable {scope : Scope} {kind : ReferenceKind} {name : String} {targets : List Symbol}

/-- What a name is bound to is the grammar of a name or declared in a table of the scope. -/
theorem source_of_mem_targets (found : scope.lookup kind name = .resolved targets)
    {symbol : Symbol} (isTarget : symbol ∈ targets) :
    (∃ name, (name, symbol) ∈ scope.grammars) ∨ symbol ∈ scope.table.symbols ∨
      ∃ entry ∈ scope.closure, symbol ∈ entry.table.symbols := by
  by_cases isGrammar : kind = .grammar
  · have isFound : (scope.grammars.lookup name).toList = targets := by
      unfold lookup at found
      subst isGrammar
      simp only [ReferenceKind.isBuiltIn, Bool.false_eq_true, if_false, if_true] at found
      exact (resolvedTo_eq_resolved_iff.mp found).1
    rw [← isFound, Option.mem_toList] at isTarget
    obtain ⟨before, after, split, _⟩ := List.lookup_eq_some_iff.mp isTarget
    exact .inl ⟨name, by simp [split]⟩
  · rcases source_of_lookup found with ⟨grammar, _⟩ | ⟨_, own | ⟨_, _, imported⟩⟩
    · exact absurd grammar isGrammar
    · exact .inr (.inl (mem_symbols_of_mem_candidates (own ▸ isTarget)))
    · rw [← imported] at isTarget
      obtain ⟨entry, isEntry, isCandidate⟩ := List.mem_flatMap.mp isTarget
      exact .inr (.inr ⟨entry, isEntry, mem_symbols_of_mem_candidates isCandidate⟩)

end Scope

/-- A symbol of a loaded file as it is declared now. -/
def Snapshot.Declares (snapshot : Snapshot) (symbol : Symbol) : Prop :=
  ∃ source ∈ snapshot.all, symbol ∈ source.symbols

namespace Workspace

variable {workspace : Workspace}

/-- What an analysis listed among the sources declares is declared in a loaded file. -/
theorem declares_of_listed {file : File.Id} {analysis : Analysis} {symbol : Symbol}
    (listed : workspace.snapshot.sources.get? file = some analysis)
    (isSymbol : symbol ∈ analysis.table.symbols) : workspace.snapshot.Declares symbol := by
  rw [Snapshot.get?_sources] at listed
  obtain ⟨source, loaded, rfl⟩ := Option.map_eq_some_iff.mp listed
  exact ⟨source, (File.Map.mem_values_iff _ source).mpr ⟨file, loaded⟩, isSymbol⟩

/-- The name of an imported grammar stands for a declaration, or for no place in a text. -/
theorem declares_of_mem_grammars {imports : List ImportClause} {name : String} {symbol : Symbol}
    (isGrammar : (name, symbol) ∈
      Linking.grammars workspace.snapshot.sources workspace.graph.links.graph.resolve
        imports) :
    workspace.snapshot.Declares symbol ∨ symbol.range = .emptyAt 0 := by
  obtain ⟨clause, _, isMade⟩ := List.mem_filterMap.mp isGrammar
  obtain ⟨analysis, isFound, same⟩ := Option.map_eq_some_iff.mp isMade
  obtain ⟨file, _, listed⟩ := Option.bind_eq_some_iff.mp isFound
  obtain ⟨_, rfl⟩ := Prod.mk.inj same
  unfold Analysis.grammarSymbol
  cases header : analysis.table.symbols.find? fun symbol => symbol.kind = .grammar with
  | none => exact .inr rfl
  | some declared => exact .inl (declares_of_listed listed (List.mem_of_find?_eq_some header))

namespace Coherent

variable (coherent : workspace.Coherent)

include coherent

/-- The definition of a reference is declared now, or it is no place in a text. -/
theorem declares_of_definition {source : SourceFile} (isLoaded : source ∈ workspace.snapshot.all)
    {reference : Reference} (isReference : reference ∈ source.references) {symbol : Symbol}
    (means : reference.resolution.definition = some symbol) :
    workspace.snapshot.Declares symbol ∨ symbol.range = .emptyAt 0 := by
  rw [coherent.references_eq isLoaded] at isReference
  obtain ⟨used, _, rfl⟩ := List.mem_map.mp isReference
  have isTarget : symbol ∈ ((workspace.binderOf source.analysis).resolutionOf used).targets :=
    List.mem_of_head? means
  cases resolved : (workspace.binderOf source.analysis).resolutionOf used with
  | builtIn =>
      rw [resolved] at isTarget
      cases isTarget
  | unresolved =>
      rw [resolved] at isTarget
      cases isTarget
  | resolved targets =>
      rw [resolved] at isTarget
      rcases Scope.source_of_mem_targets (Binder.lookup_of_resolved resolved) isTarget with
        ⟨name, isGrammar⟩ | own | ⟨entry, isEntry, imported⟩
      · exact declares_of_mem_grammars isGrammar
      · exact .inl ⟨source, isLoaded, own⟩
      · obtain ⟨file, other, listed, same⟩ := Linking.exists_of_mem_tables isEntry
        exact .inl (declares_of_listed listed (same ▸ imported))

/-- A declared symbol stands in the loaded file of its number. -/
theorem mem_symbols_of_declares {source : SourceFile}
    (isLoaded : source ∈ workspace.snapshot.all) {symbol : Symbol}
    (declares : workspace.snapshot.Declares symbol) (isFile : symbol.file = source.file) :
    symbol ∈ source.symbols := by
  obtain ⟨other, isOther, isSymbol⟩ := declares
  have ofOther := (other.analysis.standsIn_of_mem_symbols isSymbol).1
  have sameFile : other.file = source.file := ofOther.symm.trans isFile
  have loaded := (coherent.mem_all_iff source).mp isLoaded
  have loadedOther := (coherent.mem_all_iff other).mp isOther
  rw [sameFile, loaded] at loadedOther
  exact Option.some.inj loadedOther ▸ isSymbol

/-- A reference to a declaration, told by file and range, has that declaration as its
definition. -/
theorem means_iff {source other : SourceFile} (isLoaded : source ∈ workspace.snapshot.all)
    {symbol : Symbol} (isSymbol : symbol ∈ source.symbols)
    (isOther : other ∈ workspace.snapshot.all) {reference : Reference}
    (isReference : reference ∈ other.references) :
    reference.means symbol = true ↔ reference.resolution.definition = some symbol := by
  unfold Reference.means
  cases means : reference.resolution.definition with
  | none => simp
  | some definition =>
      simp only [Bool.and_eq_true, decide_eq_true_eq, Option.some.injEq]
      refine ⟨fun ⟨sameFile, sameRange⟩ => ?_, fun same => same ▸ ⟨rfl, rfl⟩⟩
      have order := coherent.namesInOrder isLoaded
      have filled := order.filledSymbols symbol isSymbol
      rcases coherent.declares_of_definition isOther isReference means with declares | noPlace
      · have inFile : definition.file = source.file :=
          sameFile.trans (source.analysis.standsIn_of_mem_symbols isSymbol).1
        have isDefinition := coherent.mem_symbols_of_declares isLoaded declares inFile
        refine Range.eq_of_overlaps order.orderedSymbols isDefinition isSymbol ?_
        rw [sameRange]
        exact ⟨filled, filled⟩
      -- The empty range stands for a grammar without a header, and no declaration is empty.
      · rw [← sameRange, noPlace] at filled
        exact absurd filled (Nat.lt_irrefl 0)

end Coherent

end Workspace

/-! ## Counting -/

namespace Snapshot

variable {snapshot : Snapshot} {symbol : Symbol}

/-- A declaration of a file is meant as often as there are uses of it. -/
theorem count_meantIn {file : File.Id} (isFile : symbol.file = file) :
    (snapshot.meantIn file).count symbol.key = (snapshot.usesOf symbol).length := by
  unfold meantIn usesOf
  rw [List.count_flatMap, List.length_flatMap]
  refine congrArg List.sum (List.map_congr_left fun source _ => ?_)
  rw [Function.comp_apply, List.count_filterMap, List.length_map, ← List.countP_eq_length_filter]
  refine List.countP_congr fun reference _ => ?_
  unfold Reference.means
  cases reference.resolution.definition with
  | none => simp
  | some definition =>
      by_cases inFile : definition.file = file
      · simp [inFile, isFile, Symbol.key]
      · simp [inFile, isFile]

end Snapshot

/-! ## The name of a rule -/

namespace SourceFile

variable {source : SourceFile} {symbol : Symbol}

/-- Where the name of a rule starts stands that rule. -/
theorem target?_of_rule
    (order : NamesInOrder source.analysis.members source.references source.symbols)
    (isSymbol : symbol ∈ source.symbols) (isRule : symbol.kind.isRule = true) :
    source.target? symbol.range.start = some (.declaration symbol) := by
  have filled := order.filledSymbols symbol isSymbol
  have noReference : source.references.find? (fun reference =>
      reference.range.contains symbol.range.start) = none := by
    refine List.find?_eq_none.mpr fun reference isReference contains => ?_
    obtain ⟨starts, stops⟩ := (Range.contains_iff _ _).mp contains
    have isImport := (order.meet reference isReference symbol isSymbol
      ⟨Nat.lt_of_le_of_lt starts filled, stops⟩).isImport
    rw [isImport] at isRule
    cases isRule
  have isFirst : source.symbols.find? (fun other => other.range.contains symbol.range.start) =
      some symbol := by
    cases found : source.symbols.find? fun other => other.range.contains symbol.range.start with
    | none =>
        have outside := List.find?_eq_none.mp found symbol isSymbol
        exact absurd ((Range.contains_iff _ _).mpr ⟨Nat.le_refl _, filled⟩) outside
    | some other =>
        have contains : other.range.contains symbol.range.start = true :=
          List.find?_some (p := fun other : Symbol => other.range.contains _) found
        obtain ⟨starts, stops⟩ := (Range.contains_iff _ _).mp contains
        have same := Range.eq_of_overlaps order.orderedSymbols (List.mem_of_find?_eq_some found)
          isSymbol ⟨Nat.lt_of_le_of_lt starts filled, stops⟩
        exact congrArg some same
  unfold target? named?
  rw [noReference, isFirst]
  rfl

/-- The position at which a name starts goes to the offset at which it starts, if that is a 32-bit
number. -/
theorem offset_span_start (isSymbol : symbol ∈ source.symbols)
    (fits : symbol.range.start < Counter.limit) :
    source.offset symbol.span.start = .ok symbol.range.start := by
  obtain ⟨part, before, after, split, start, stop⟩ :=
    (source.analysis.standsIn_of_mem_symbols isSymbol).2.range
  have isRange : symbol.range = ⟨before.utf8ByteSize, before.utf8ByteSize + part.utf8ByteSize⟩ := by
    rw [← start, ← stop]
  have span : symbol.span = source.analysis.index.cutSpan symbol.range := by
    unfold symbols at isSymbol
    rw [source.analysis.table_eq] at isSymbol
    exact Declare.span_of_mem_table isSymbol
  have characters : source.analysis.text.toList = before.toList ++ (part ++ after).toList := by
    rw [split, String.append_assoc, String.toList_append]
  rw [start, ← String.utf8Len_toList] at fits
  rw [offset, span, isRange, source.analysis.index_eq, LineIndex.cutSpan_of_split split]
  dsimp only
  rw [LineIndex.offset_of_cut characters fits, String.utf8Len_toList]

end SourceFile

/-! ## Agreement -/

/-- What a lens says about a symbol of a file: its name and its place, and as a count how many uses
are found from the start of its name, where the first place found is the declaration itself. These
are the references, in whatever file, that have the symbol as their definition. -/
structure Lens.Agrees (lens : Lens) (snapshot : Snapshot) (path : File.Path) (source : SourceFile)
    (symbol : Symbol) : Prop where
  name : lens.name = symbol.name
  range : lens.range = symbol.range
  span : lens.span = symbol.span
  uses : ∃ uses, snapshot.uses path symbol.span.start =
      .ok (⟨source.file, source.path, symbol.range, symbol.span, true⟩ :: uses) ∧
    lens.count = uses.length
  definitions : lens.count = (snapshot.all.flatMap fun other =>
    other.references.filter fun reference =>
      reference.resolution.definition = some symbol).length

namespace Workspace.Coherent

variable {workspace : Workspace} (coherent : workspace.Coherent)
variable {source : SourceFile} {symbol : Symbol}

include coherent

theorem length_usesOf (isLoaded : source ∈ workspace.snapshot.all)
    (isSymbol : symbol ∈ source.symbols) :
    (workspace.snapshot.usesOf symbol).length = (workspace.snapshot.all.flatMap fun other =>
      other.references.filter fun reference =>
        reference.resolution.definition = some symbol).length := by
  unfold Snapshot.usesOf
  rw [List.length_flatMap, List.length_flatMap]
  refine congrArg List.sum (List.map_congr_left fun other isOther => ?_)
  rw [List.length_map]
  refine congrArg List.length (List.filter_congr fun reference isReference => ?_)
  rw [Bool.eq_iff_iff, decide_eq_true_eq]
  exact coherent.means_iff isLoaded isSymbol isOther isReference

/-- From the name of a rule its own place is found, and then those of its uses. -/
theorem uses_of_rule {path : File.Path} (found : workspace.snapshot.fileAt? path = some source)
    (isSymbol : symbol ∈ source.symbols) (isRule : symbol.kind.isRule = true)
    (fits : symbol.range.start < Counter.limit) :
    ∃ uses, workspace.snapshot.uses path symbol.span.start =
        .ok (⟨source.file, source.path, symbol.range, symbol.span, true⟩ :: uses) ∧
      uses.length = (workspace.snapshot.usesOf symbol).length := by
  have isLoaded : source ∈ workspace.snapshot.all := List.mem_of_find?_eq_some found
  have inFile : symbol.file = source.file := (source.analysis.standsIn_of_mem_symbols isSymbol).1
  have isPath : workspace.snapshot.pathOf source.file = source.path := by
    rw [Snapshot.pathOf, Snapshot.path?, (coherent.mem_all_iff source).mp isLoaded]
    rfl
  have target : workspace.snapshot.targetAt path symbol.span.start =
      .ok (some (source, .declaration symbol)) :=
    Snapshot.targetAt_eq_some_iff.mpr ⟨found, _, SourceFile.offset_span_start isSymbol fits,
      SourceFile.target?_of_rule (coherent.namesInOrder isLoaded) isSymbol isRule⟩
  have places : workspace.snapshot.uses path symbol.span.start =
      .ok (workspace.snapshot.placesOf symbol) := by
    rw [Snapshot.uses, target]
    rfl
  rw [places, Snapshot.placesOf, inFile, isPath]
  exact ⟨_, rfl, List.length_map ..⟩

end Workspace.Coherent

/-- After every run of operations each loaded file shows one lens for each of its rules, in their
order, duplicates included; and each lens agrees with what is found from the name of its rule, if
that starts at a 32-bit offset. -/
theorem lenses_count_uses (config : Config) (operations : List Operation) (path : File.Path)
    (source : SourceFile) :
    let snapshot := ((Session.new config).run operations).workspace.snapshot
    snapshot.fileAt? path = some source →
      List.Forall₂
        (fun symbol lens =>
          symbol.range.start < Counter.limit → lens.Agrees snapshot path source symbol)
        (source.symbols.filter fun symbol => symbol.kind.isRule) (snapshot.lenses path) := by
  intro snapshot found
  have coherent := (Session.coherent_run config operations).workspace
  have isLoaded : source ∈ snapshot.all := List.mem_of_find?_eq_some found
  rw [Snapshot.lenses, found]
  refine List.forall₂_map_right_iff.mpr (List.forall₂_same.mpr fun symbol isOwn fits => ?_)
  obtain ⟨isSymbol, isRule⟩ := List.mem_filter.mp isOwn
  have inFile : symbol.file = source.file := (source.analysis.standsIn_of_mem_symbols isSymbol).1
  have count : (snapshot.meantIn source.file).count symbol.key =
      (snapshot.usesOf symbol).length := Snapshot.count_meantIn inFile
  obtain ⟨uses, isFound, size⟩ := coherent.uses_of_rule found isSymbol isRule fits
  exact ⟨rfl, rfl, rfl, ⟨uses, isFound, count.trans size.symm⟩,
    count.trans (coherent.length_usesOf isLoaded isSymbol)⟩

/-- A rule is declared twice, and the file itself and another one use it. -/
theorem lenses_count_uses_duplicate :
    let snapshot := ((Session.new .standard).run
      [.load ⟨"/g/B.g4"⟩ "grammar B;b:'x';b:b;",
        .load ⟨"/g/G.g4"⟩ "grammar G;import B;a:b b;"]).workspace.snapshot
    ∃ source first second firstLens secondLens,
      snapshot.fileAt? ⟨"/g/B.g4"⟩ = some source ∧
        (source.symbols.filter fun symbol => symbol.kind.isRule) = [first, second] ∧
        snapshot.lenses ⟨"/g/B.g4"⟩ = [firstLens, secondLens] ∧
        first.range.start < Counter.limit ∧ second.range.start < Counter.limit ∧
        firstLens.Agrees snapshot ⟨"/g/B.g4"⟩ source first ∧ firstLens.count = 3 ∧
        secondLens.Agrees snapshot ⟨"/g/B.g4"⟩ source second ∧ secondLens.count = 0 := by
  intro snapshot
  have starts : (snapshot.fileAt? ⟨"/g/B.g4"⟩).map (fun source =>
      (source.symbols.filter fun symbol => symbol.kind.isRule).map fun symbol =>
        symbol.range.start) = some [10, 16] := by decide +kernel
  have counts : (snapshot.lenses ⟨"/g/B.g4"⟩).map Lens.count = [3, 0] := by decide +kernel
  obtain ⟨source, found, isStarts⟩ := Option.map_eq_some_iff.mp starts
  obtain ⟨first, rest, rules, firstStart, isRest⟩ := List.map_eq_cons_iff.mp isStarts
  obtain ⟨second, none, rfl, secondStart, isNone⟩ := List.map_eq_cons_iff.mp isRest
  obtain rfl := List.map_eq_nil_iff.mp isNone
  obtain ⟨firstLens, others, lenses, firstCount, isOthers⟩ := List.map_eq_cons_iff.mp counts
  obtain ⟨secondLens, none, rfl, secondCount, isNone⟩ := List.map_eq_cons_iff.mp isOthers
  obtain rfl := List.map_eq_nil_iff.mp isNone
  have agree := lenses_count_uses .standard _ ⟨"/g/B.g4"⟩ source found
  rw [rules, lenses] at agree
  obtain ⟨firstAgrees, rest⟩ := List.forall₂_cons.mp agree
  obtain ⟨secondAgrees, _⟩ := List.forall₂_cons.mp rest
  have firstFits : first.range.start < Counter.limit := by rw [firstStart]; decide
  have secondFits : second.range.start < Counter.limit := by rw [secondStart]; decide
  exact ⟨source, first, second, firstLens, secondLens, found, rules, lenses, firstFits, secondFits,
    firstAgrees firstFits, firstCount, secondAgrees secondFits, secondCount⟩

end GrammarDesk
