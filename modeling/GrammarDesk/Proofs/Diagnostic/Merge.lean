import GrammarDesk.Proofs.Query.Uses

/-!
Contract: the order of merged diagnostics, and merging what was merged before.

Owns: the places that diagnostics have among all that were reported, the one arrangement that
follows start, severity and place, and the proof that it does not matter whether some of the
lists were merged before the others came.

Does not own: which diagnostics there are (`Workspace`).

Diagnostics that start at one offset and are equally serious are tied. Merging keeps tied
diagnostics as they were reported, and a list in order is told by what it does to the tied ones,
so that two merges which agree on these are one.

Main statement: `merge_keeps_report_order`.
-/

namespace GrammarDesk

namespace Diagnostic

variable {stages : List (List Diagnostic)} {left right : List Diagnostic}

/-! ## Ties -/

theorem atMost_iff {first second : Diagnostic} :
    first.atMost second = true ↔ first.range.start < second.range.start ∨
      first.range.start = second.range.start ∧
        first.severity.number ≤ second.severity.number := by
  simp only [atMost, Bool.or_eq_true, Bool.and_eq_true, decide_eq_true_eq]

theorem atMost_trans (first second third : Diagnostic) (former : first.atMost second = true)
    (latter : second.atMost third = true) : first.atMost third = true := by
  rw [atMost_iff] at *
  omega

theorem atMost_total (first second : Diagnostic) :
    (first.atMost second || second.atMost first) = true := by
  rw [Bool.or_eq_true, atMost_iff, atMost_iff]
  omega

theorem atMost_refl (diagnostic : Diagnostic) : diagnostic.atMost diagnostic = true :=
  atMost_iff.mpr (.inr ⟨rfl, Nat.le_refl _⟩)

/-- Neither of two diagnostics comes before the other by start and severity. -/
def tied (first second : Diagnostic) : Bool :=
  first.atMost second && second.atMost first

theorem tied_self (diagnostic : Diagnostic) : diagnostic.tied diagnostic = true :=
  Bool.and_eq_true_iff.mpr ⟨atMost_refl _, atMost_refl _⟩

/-- Tied diagnostics stay as they were reported. -/
theorem filter_tied_merge (diagnostic : Diagnostic) (stages : List (List Diagnostic)) :
    (merge stages).filter diagnostic.tied = stages.flatten.filter diagnostic.tied := by
  have inOrder : (stages.flatten.filter diagnostic.tied).Pairwise fun first second =>
      first.atMost second = true := by
    refine List.pairwise_of_forall_mem_list fun first isFirst second isSecond => ?_
    have tiedFirst := Bool.and_eq_true_iff.mp (List.mem_filter.mp isFirst).2
    have tiedSecond := Bool.and_eq_true_iff.mp (List.mem_filter.mp isSecond).2
    exact atMost_trans _ _ _ tiedFirst.2 tiedSecond.1
  have kept : (stages.flatten.filter diagnostic.tied).Sublist (merge stages) :=
    List.sublist_mergeSort atMost_trans atMost_total inOrder List.filter_sublist
  have keptTied := kept.filter diagnostic.tied
  simp only [List.filter_filter, Bool.and_self] at keptTied
  exact (keptTied.eq_of_length ((merge_perm stages).filter _).length_eq.symm).symm

theorem mem_of_filter_tied
    (same : ∀ diagnostic : Diagnostic,
      left.filter diagnostic.tied = right.filter diagnostic.tied) {diagnostic : Diagnostic}
    (isLeft : diagnostic ∈ left) : diagnostic ∈ right := by
  have isTied := List.mem_filter.mpr ⟨isLeft, diagnostic.tied_self⟩
  rw [same] at isTied
  exact List.mem_of_mem_filter isTied

/-- The first of a list in order is no later than any other. -/
theorem atMost_of_mem {first : Diagnostic} {rest : List Diagnostic}
    (inOrder : (first :: rest).Pairwise fun first second => first.atMost second = true)
    {other : Diagnostic} (isOther : other ∈ first :: rest) : first.atMost other = true := by
  rcases List.mem_cons.mp isOther with rfl | isLater
  · exact atMost_refl _
  · exact List.rel_of_pairwise_cons inOrder isLater

/-- A list in order is told by its tied diagnostics. -/
theorem eq_of_filter_tied
    (leftInOrder : left.Pairwise fun first second => first.atMost second = true)
    (rightInOrder : right.Pairwise fun first second => first.atMost second = true)
    (same : ∀ diagnostic : Diagnostic,
      left.filter diagnostic.tied = right.filter diagnostic.tied) : left = right := by
  induction left generalizing right with
  | nil =>
      refine (List.eq_nil_iff_forall_not_mem.mpr fun other isRight => ?_).symm
      exact List.not_mem_nil (mem_of_filter_tied (fun diagnostic => (same diagnostic).symm) isRight)
  | cons first rest inductionHypothesis =>
      have firstIsRight := mem_of_filter_tied same List.mem_cons_self
      cases right with
      | nil => exact absurd firstIsRight List.not_mem_nil
      | cons other others =>
          -- Each of the two first ones stands in the other list too, so that they are tied.
          have otherIsLeft := mem_of_filter_tied (fun diagnostic => (same diagnostic).symm)
            (List.mem_cons_self : other ∈ other :: others)
          have tiedOther : first.tied other = true := Bool.and_eq_true_iff.mpr
            ⟨atMost_of_mem leftInOrder otherIsLeft, atMost_of_mem rightInOrder firstIsRight⟩
          have firsts := same first
          rw [List.filter_cons_of_pos first.tied_self, List.filter_cons_of_pos tiedOther] at firsts
          obtain rfl := (List.cons.inj firsts).1
          refine congrArg (first :: ·) (inductionHypothesis leftInOrder.of_cons
            rightInOrder.of_cons fun diagnostic => ?_)
          have all := same diagnostic
          rw [List.filter_cons, List.filter_cons] at all
          split at all
          · exact (List.cons.inj all).2
          · exact all

/-! ## Merging in steps -/

/-- What was merged before is merged again as if it had not been. -/
theorem merge_merge_cons (inner outer : List (List Diagnostic)) :
    merge (merge inner :: outer) = merge (inner ++ outer) := by
  refine eq_of_filter_tied (merge_pairwise _) (merge_pairwise _) fun diagnostic => ?_
  rw [filter_tied_merge, filter_tied_merge, List.flatten_cons, List.flatten_append,
    List.filter_append, List.filter_append, filter_tied_merge]

/-! ## Places among all reports -/

/-- A diagnostic that was reported at one place is shown before one that was reported at another:
it starts earlier, or it is more serious, or it was reported earlier. -/
def ShownBefore (left right : Diagnostic × Nat) : Prop :=
  left.1.range.start < right.1.range.start ∨
    left.1.range.start = right.1.range.start ∧
      (left.1.severity.number < right.1.severity.number ∨
        left.1.severity.number = right.1.severity.number ∧ left.2 < right.2)

/-- Diagnostics, each with the place at which it was reported, in the order they are shown. -/
structure Arranges (all : List Diagnostic) (placed : List (Diagnostic × Nat)) : Prop where
  perm : placed.Perm all.zipIdx
  ordered : placed.Pairwise ShownBefore

theorem Arranges.unique {all : List Diagnostic} {placed other : List (Diagnostic × Nat)}
    (arranges : Arranges all placed) (arrangesOther : Arranges all other) : placed = other := by
  refine List.Perm.eq_of_pairwise (fun left right _ _ before after => ?_) arranges.ordered
    arrangesOther.ordered (arranges.perm.trans arrangesOther.perm.symm)
  unfold ShownBefore at before after
  omega

/-- The diagnostics by start, severity and place. -/
def arranged (all : List Diagnostic) : List (Diagnostic × Nat) :=
  all.zipIdx.mergeSort (List.zipIdxLE atMost)

theorem map_fst_arranged (stages : List (List Diagnostic)) :
    (arranged stages.flatten).map Prod.fst = merge stages :=
  List.mergeSort_zipIdx

/-- Sorting the reports with their places arranges them: ties keep the order of the places. -/
theorem arranges_arranged (all : List Diagnostic) : Arranges all (arranged all) := by
  have perm : (arranged all).Perm all.zipIdx := List.mergeSort_perm _ _
  refine ⟨perm, ?_⟩
  have apart : (arranged all).Pairwise fun left right => left.2 ≠ right.2 := by
    have places : ((arranged all).map Prod.snd).Nodup := by
      rw [(perm.map Prod.snd).nodup_iff, List.zipIdx_map_snd]
      exact List.nodup_range'
    exact List.pairwise_map.mp places
  refine ((List.pairwise_mergeSort (List.zipIdxLE_trans atMost_trans)
    (List.zipIdxLE_total atMost_total) all.zipIdx).and apart).imp ?_
  rintro ⟨left, place⟩ ⟨right, other⟩ ⟨before, different⟩
  unfold List.zipIdxLE at before
  simp only [atMost_iff] at before
  unfold ShownBefore
  dsimp only at different ⊢
  split at before
  · split at before
    · have earlier : place ≤ other := of_decide_eq_true before
      omega
    · omega
  · cases before

end Diagnostic

/-! ## The reports of a file -/

/-- What is reported about a file by itself, one list for each stage: its syntax errors, its
duplicate declarations, and the checks of its grammar. -/
def Analysis.stages (analysis : Analysis) : List (List Diagnostic) :=
  let (table, duplicates) := declarations analysis.file analysis.index analysis.parse
  [ analysis.parse.errors.map (Diagnostic.ofSyntaxError analysis.file analysis.index),
    duplicates,
    Check.grammar ⟨analysis.file, analysis.index, table⟩ analysis.members analysis.rules
      analysis.path.stem ]

theorem Analysis.reports_eq_merge (analysis : Analysis) :
    analysis.reports = Diagnostic.merge analysis.stages :=
  analysis.reports_eq

namespace Workspace

/-- What is reported about a file because of the other loaded files, one list for each stage: its
uses and its import cycles. -/
def linkStages (workspace : Workspace) (analysis : Analysis) : List (List Diagnostic) :=
  let links := workspace.graph.links
  [ ((workspace.binderOf analysis).bind (Use.ofMembers analysis.members)).2,
    (links.closure analysis.file).cycles.map
      (Linking.cycleReport analysis.file links.graph) ]

/-- A loaded file shows what is reported about it by itself, merged when it was read, merged with
what is reported because of the other files. -/
theorem Coherent.diagnostics_eq {workspace : Workspace} (coherent : workspace.Coherent)
    {source : SourceFile} (isLoaded : source ∈ workspace.snapshot.all) :
    source.diagnostics =
      Diagnostic.merge (source.analysis.reports :: workspace.linkStages source.analysis) := by
  have linked := coherent.linked ((coherent.mem_all_iff source).mp isLoaded)
  exact congrArg Linking.diagnostics linked

end Workspace

/-- Merging three lists and then two more with the result is merging all five, and gives the one
arrangement of all diagnostics by start, severity and place. After every run of operations each
loaded file, however often it was linked again, shows one merge of all its stages. -/
theorem merge_keeps_report_order :
    (∀ syntaxErrors duplicates checks uses cycles : List Diagnostic,
      let shown := Diagnostic.merge
        [Diagnostic.merge [syntaxErrors, duplicates, checks], uses, cycles]
      shown = Diagnostic.merge [syntaxErrors, duplicates, checks, uses, cycles] ∧
        ∃ placed, shown = placed.map Prod.fst ∧
          ∀ other, Diagnostic.Arranges
            (syntaxErrors ++ duplicates ++ checks ++ uses ++ cycles) other ↔ other = placed) ∧
      ∀ (config : Config) (operations : List Operation) (source : SourceFile),
        let workspace := ((Session.new config).run operations).workspace
        source ∈ workspace.snapshot.all →
          source.diagnostics = Diagnostic.merge
            (source.analysis.stages ++ workspace.linkStages source.analysis) := by
  constructor
  · intro syntaxErrors duplicates checks uses cycles shown
    let stages := [syntaxErrors, duplicates, checks, uses, cycles]
    have atOnce : shown = Diagnostic.merge stages := Diagnostic.merge_merge_cons _ _
    have all : syntaxErrors ++ duplicates ++ checks ++ uses ++ cycles = stages.flatten := by
      simp [stages]
    refine ⟨atOnce, Diagnostic.arranged stages.flatten,
      atOnce.trans (Diagnostic.map_fst_arranged stages).symm, fun other => ?_⟩
    rw [all]
    have arranges := Diagnostic.arranges_arranged stages.flatten
    exact ⟨fun isOther => isOther.unique arranges, fun same => same ▸ arranges⟩
  · intro config operations source workspace isLoaded
    have coherent := (Session.coherent_run config operations).workspace
    rw [coherent.diagnostics_eq isLoaded, source.analysis.reports_eq_merge]
    exact Diagnostic.merge_merge_cons _ _

/-- A file with a syntax error, a duplicate declaration and a use of nothing is linked again when
the file that it imports is loaded. -/
theorem merge_keeps_report_order_relinked :
    let workspace := ((Session.new .standard).run
      [.load ⟨"/g/G.g4"⟩ "grammar G;import B;a:b;a:c",
        .load ⟨"/g/B.g4"⟩ "grammar B;b:'x';"]).workspace
    ∃ source ∈ workspace.snapshot.all, source.resolution = 1 ∧
      (source.analysis.stages ++ workspace.linkStages source.analysis).map
          (List.map Diagnostic.kind) =
        [[.syntaxError], [.duplicateDeclaration], [], [.unresolvedReference], []] ∧
      source.diagnostics = Diagnostic.merge
        (source.analysis.stages ++ workspace.linkStages source.analysis) := by
  intro workspace
  have reported : (workspace.snapshot.all.find? fun source => source.resolution = 1).map
      (fun source => (source.analysis.stages ++ workspace.linkStages source.analysis).map
        (List.map Diagnostic.kind)) =
      some [[.syntaxError], [.duplicateDeclaration], [], [.unresolvedReference], []] := by
    decide +kernel
  obtain ⟨source, found, kinds⟩ := Option.map_eq_some_iff.mp reported
  have isLoaded := List.mem_of_find?_eq_some found
  have relinked := List.find?_some found
  exact ⟨source, isLoaded, of_decide_eq_true relinked, kinds,
    merge_keeps_report_order.2 .standard _ source isLoaded⟩

end GrammarDesk
