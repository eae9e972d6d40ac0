import GrammarDesk.Proofs.Import.Members
import GrammarDesk.Proofs.Workspace.Batches

/-!
Contract: which files are linked again when others are taken in.

Owns: what it means that exactly the right files were linked again, and its proof for
loads and commits.

Does not own: that the links are then right (`Incremental`).

Dependents are found by a search back along imports, closures by a search forward. The
files linked again are told here by the closures alone, in the graph before and in the
graph after.

Main statement: `relinks_closures_of_news`.
-/

namespace GrammarDesk

open Import

namespace Workspace

/-- An analysis shows importing files something new: its file was not loaded, or
declared something else. -/
def ShowsNew (workspace : Workspace) (analysis : Analysis) : Prop :=
  workspace.snapshot.file? analysis.file = none ∨
    ∃ old, workspace.snapshot.file? analysis.file = some old ∧
      (old.analysis.table.header ≠ analysis.table.header ∨
        old.analysis.table.symbols ≠ analysis.table.symbols ∨
        old.analysis.table.imports ≠ analysis.table.imports)

theorem isNews_iff (workspace : Workspace) (analysis : Analysis) :
    workspace.isNews analysis = true ↔ workspace.ShowsNew analysis := by
  unfold isNews ShowsNew
  cases workspace.snapshot.file? analysis.file with
  | none => simp
  | some old =>
      simp only [Analysis.sameOutside, SymbolTable.sameExports, Bool.not_eq_true',
        Bool.and_eq_false_iff, decide_eq_false_iff_not, reduceCtorEq, Option.some.injEq,
        exists_eq_left', false_or, or_assoc, ne_eq]

/-- Exactly those files were linked again, each once and by ascending number, that were
not installed themselves and whose closure holds an installed file that shows something
new, before or after. All other files that were not installed are as they were. -/
structure RelinksExactly (before after : Workspace) (installed : List Analysis)
    (relinked : List SourceFile) : Prop where
  ascending : relinked.Pairwise fun left right => left.file < right.file
  mem_iff : ∀ source, source ∈ relinked ↔
    source ∈ after.snapshot.all ∧ source.file ∉ installed.map Analysis.file ∧
      ∃ analysis ∈ installed, before.ShowsNew analysis ∧
        (before.graph.Brings source.file analysis.file ∨
          after.graph.Brings source.file analysis.file)
  again : ∀ source ∈ relinked, ∃ old, before.snapshot.file? source.file = some old ∧
    source.analysis = old.analysis ∧ source.resolution = old.resolution + 1
  counted : after.counts.relinks = before.counts.relinks + relinked.length
  kept : ∀ file ∉ installed.map Analysis.file, (∀ source ∈ relinked, source.file ≠ file) →
    after.snapshot.file? file = before.snapshot.file? file

/-- Steps that publish nothing may come first. -/
theorem RelinksExactly.of_later {before middle after : Workspace} {installed : List Analysis}
    {relinked : List SourceFile} (exactly : RelinksExactly middle after installed relinked)
    (snapshot : middle.snapshot = before.snapshot) (config : middle.config = before.config)
    (relinks : middle.counts.relinks = before.counts.relinks) :
    RelinksExactly before after installed relinked := by
  have graph : middle.graph = before.graph := by
    unfold Workspace.graph
    rw [snapshot, config]
  have showsNew : middle.ShowsNew = before.ShowsNew := by
    funext analysis
    unfold ShowsNew
    rw [snapshot]
  obtain ⟨ascending, mem_iff, again, counted, kept⟩ := exactly
  rw [graph, showsNew] at mem_iff
  rw [snapshot] at again kept
  rw [relinks] at counted
  exact ⟨ascending, mem_iff, again, counted, kept⟩

/-- Where nothing is installed nothing is linked again. -/
theorem relinksExactly_nil {before after : Workspace} (snapshot : after.snapshot = before.snapshot)
    (relinks : after.counts.relinks = before.counts.relinks) :
    RelinksExactly before after [] [] where
  ascending := .nil
  mem_iff source := by simp
  again source member := absurd member List.not_mem_nil
  counted := relinks
  kept file _ _ := by rw [snapshot]

/-! ## Loaded files in order -/

theorem Coherent.ascending_all {workspace : Workspace} (coherent : workspace.Coherent) :
    workspace.snapshot.all.Pairwise fun left right => left.file < right.file := by
  unfold Snapshot.all File.Map.values
  rw [List.pairwise_map]
  have numbered : ∀ entry ∈ workspace.snapshot.files.entries, entry.2.file = entry.1 := by
    intro entry member
    exact (coherent.numbered ((File.Map.get?_eq_some_iff _ _ _).mpr member)).1
  refine workspace.snapshot.files.ascending.imp_of_mem fun {left right} isLeft isRight lower => ?_
  rw [numbered left isLeft, numbered right isRight]
  exact lower

theorem Coherent.mem_all_iff {workspace : Workspace} (coherent : workspace.Coherent)
    (source : SourceFile) :
    source ∈ workspace.snapshot.all ↔ workspace.snapshot.file? source.file = some source := by
  unfold Snapshot.all
  rw [File.Map.mem_values_iff]
  constructor
  · rintro ⟨file, loaded⟩
    rw [(coherent.numbered loaded).1]
    exact loaded
  · exact fun loaded => ⟨_, loaded⟩

theorem values_sources (snapshot : Snapshot) :
    snapshot.sources.values = snapshot.all.map SourceFile.analysis := by
  simp [Snapshot.sources, Snapshot.all, File.Map.values, File.Map.map]

/-- The files that are linked again when some are taken in. -/
def relinkedBy (workspace : Workspace) (batch : List Analysis) : List SourceFile :=
  let read := batch.map Analysis.file
  let news := (batch.filter workspace.isNews).map Analysis.file
  let after := (workspace.install batch).2
  after.snapshot.all.filter fun source =>
    (workspace.graph.dependents news ++ after.graph.dependents news).contains source.file &&
      !read.contains source.file

section Install

variable {workspace : Workspace} {batch : List Analysis}

theorem Coherent.graph_install (coherent : workspace.Coherent)
    (numbered : ∀ analysis ∈ batch, workspace.table.id? analysis.path = some analysis.file) :
    (workspace.install batch).2.graph =
      (workspace.taken batch).graph workspace.config.precedence := by
  unfold graph
  rw [coherent.sources_install numbered]
  rfl

/-- What an installation reports as linked again are the paths of these files. -/
theorem Coherent.install_relinked (coherent : workspace.Coherent)
    (numbered : ∀ analysis ∈ batch, workspace.table.id? analysis.path = some analysis.file) :
    (workspace.install batch).1 = (workspace.relinkedBy batch).map SourceFile.path ∧
      (workspace.install batch).2.counts.relinks =
        workspace.counts.relinks + (workspace.relinkedBy batch).length := by
  have published : relinkedFiles (workspace.taken batch) (batch.map Analysis.file)
      (workspace.graph.dependents ((batch.filter workspace.isNews).map Analysis.file) ++
        (workspace.install batch).2.graph.dependents
          ((batch.filter workspace.isNews).map Analysis.file)) =
      (workspace.relinkedBy batch).map SourceFile.analysis := by
    unfold relinkedFiles relinkedBy
    rw [← coherent.sources_install numbered, values_sources, List.filter_map]
    rfl
  rw [coherent.graph_install numbered] at published
  constructor
  · exact (congrArg (List.map Analysis.path) published).trans List.map_map
  · have counted := congrArg List.length published
    rw [List.length_map] at counted
    exact congrArg (workspace.counts.relinks + ·) counted

/-- A file is linked again by a batch if it is not in the batch and its closure held or now
holds a file with news. -/
theorem mem_relinkedBy_iff (source : SourceFile) :
    source ∈ workspace.relinkedBy batch ↔
      source ∈ (workspace.install batch).2.snapshot.all ∧
        source.file ∉ batch.map Analysis.file ∧
        ∃ analysis ∈ batch, workspace.ShowsNew analysis ∧
          (workspace.graph.Brings source.file analysis.file ∨
            (workspace.install batch).2.graph.Brings source.file analysis.file) := by
  have news : ∀ file, file ∈ (batch.filter workspace.isNews).map Analysis.file ↔
      ∃ analysis ∈ batch, workspace.ShowsNew analysis ∧ analysis.file = file := by
    intro file
    simp only [List.mem_map, List.mem_filter, isNews_iff, and_assoc]
  unfold relinkedBy
  simp only [List.mem_filter, Bool.and_eq_true, List.contains_iff_mem, List.mem_append,
    Bool.not_eq_true', Bool.eq_false_iff, ne_eq]
  refine and_congr Iff.rfl ?_
  rw [and_comm]
  refine and_congr_right fun notRead => ?_
  have notNews : source.file ∉ (batch.filter workspace.isNews).map Analysis.file := by
    intro isNews
    obtain ⟨analysis, among, _, isFile⟩ := (news _).mp isNews
    exact notRead (isFile ▸ List.mem_map_of_mem among)
  rw [Graph.mem_dependents_iff_brings notNews, Graph.mem_dependents_iff_brings notNews]
  simp only [news]
  constructor
  · rintro (⟨_, ⟨analysis, among, shows, rfl⟩, brings⟩ | ⟨_, ⟨analysis, among, shows, rfl⟩, brings⟩)
    · exact ⟨analysis, among, shows, .inl brings⟩
    · exact ⟨analysis, among, shows, .inr brings⟩
  · rintro ⟨analysis, among, shows, brings | brings⟩
    · exact .inl ⟨_, ⟨analysis, among, shows, rfl⟩, brings⟩
    · exact .inr ⟨_, ⟨analysis, among, shows, rfl⟩, brings⟩

/-- A file that is not installed is linked once more or kept. -/
theorem Coherent.file?_install (coherent : workspace.Coherent)
    (numbered : ∀ analysis ∈ batch, workspace.table.id? analysis.path = some analysis.file)
    {file : File.Id} (notRead : file ∉ batch.map Analysis.file) :
    (∃ old new, workspace.snapshot.file? file = some old ∧
        (workspace.install batch).2.snapshot.file? file = some new ∧
        new ∈ workspace.relinkedBy batch ∧ new.file = file ∧
        new.analysis = old.analysis ∧ new.resolution = old.resolution + 1) ∨
      (∀ source ∈ workspace.relinkedBy batch, source.file ≠ file) ∧
        (workspace.install batch).2.snapshot.file? file = workspace.snapshot.file? file := by
  have installed := coherent.install numbered
  have sameListed : (workspace.taken batch).get? file =
      (workspace.snapshot.file? file).map SourceFile.analysis := by
    rw [← Snapshot.get?_sources]
    rcases workspace.get?_taken batch file with ⟨analysis, member, isFile, _⟩ | ⟨_, found⟩
    · exact absurd (isFile ▸ List.mem_map_of_mem member) notRead
    · exact found
  let news := (batch.filter workspace.isNews).map Analysis.file
  let reached := workspace.graph.dependents news ++
    ((workspace.taken batch).graph workspace.config.precedence).dependents news
  have published : (workspace.install batch).2.snapshot.file? file =
      (workspace.snapshot.file? file).map fun old =>
        workspace.link (workspace.taken batch)
          ((workspace.taken batch).graph workspace.config.precedence).links
          (batch.map Analysis.file) reached old.analysis := by
    have mapped := congrArg (Option.map (workspace.link (workspace.taken batch)
      ((workspace.taken batch).graph workspace.config.precedence).links
      (batch.map Analysis.file) reached)) sameListed
    rw [Option.map_map] at mapped
    exact file?_publish file |>.trans mapped
  have relinks : ∀ source : SourceFile, source ∈ workspace.relinkedBy batch ↔
      source ∈ (workspace.install batch).2.snapshot.all ∧ source.file ∈ reached ∧
        source.file ∉ batch.map Analysis.file := by
    intro source
    unfold relinkedBy
    simp only [List.mem_filter, Bool.and_eq_true, List.contains_iff_mem, Bool.not_eq_true',
      Bool.eq_false_iff, ne_eq, coherent.graph_install numbered]
    exact Iff.rfl
  cases wasLoaded : workspace.snapshot.file? file with
  | none =>
      rw [wasLoaded] at published
      refine .inr ⟨fun source member isFile => ?_, published⟩
      have loaded := (installed.mem_all_iff source).mp ((relinks source).mp member).1
      rw [isFile, published] at loaded
      cases loaded
  | some old =>
      obtain rfl : old.file = file := (coherent.numbered wasLoaded).1
      rw [wasLoaded, Option.map_some, link_of_not_read _ _ wasLoaded notRead] at published
      by_cases isReached : old.file ∈ reached
      · rw [if_pos isReached] at published
        refine .inl ⟨old, _, rfl, published, (relinks _).mpr ⟨?_, isReached, notRead⟩,
          rfl, rfl, rfl⟩
        exact (installed.mem_all_iff _).mpr published
      · rw [if_neg isReached] at published
        refine .inr ⟨fun source member isFile => isReached ?_, published⟩
        exact isFile ▸ ((relinks source).mp member).2.1

/-- Installing links exactly the right files again. -/
theorem Coherent.relinksExactly_install (coherent : workspace.Coherent)
    (numbered : ∀ analysis ∈ batch, workspace.table.id? analysis.path = some analysis.file) :
    RelinksExactly workspace (workspace.install batch).2 batch (workspace.relinkedBy batch) where
  ascending := (coherent.install numbered).ascending_all.filter _
  mem_iff := mem_relinkedBy_iff
  again source member := by
    obtain ⟨isLoaded, notRead, _⟩ := (mem_relinkedBy_iff source).mp member
    rcases coherent.file?_install numbered notRead with
      ⟨old, new, wasLoaded, loaded, _, _, sameAnalysis, next⟩ | ⟨others, _⟩
    · have isNew := ((coherent.install numbered).mem_all_iff source).mp isLoaded
      obtain rfl : new = source := Option.some.inj (loaded.symm.trans isNew)
      exact ⟨old, wasLoaded, sameAnalysis, next⟩
    · exact absurd rfl (others source member)
  counted := (coherent.install_relinked numbered).2
  kept file notRead others := by
    rcases coherent.file?_install numbered notRead with
      ⟨_, new, _, _, member, isFile, _⟩ | ⟨_, same⟩
    · exact absurd isFile (others new member)
    · exact same

end Install

/-! ## Loads and commits -/

def reading? (workspace : Workspace) (path : File.Path) (text : String) : Option Analysis :=
  Analysis.ofText? (workspace.table.intern path).1 path
    (workspace.nextVersion (workspace.table.intern path).1) text

theorem Coherent.relinksExactly_load {workspace : Workspace} (coherent : workspace.Coherent)
    (path : File.Path) (text : String) :
    ∃ relinked, RelinksExactly workspace (workspace.load path text).2
      (workspace.reading? path text).toList relinked := by
  unfold reading?
  rw [workspace.load_eq path text]
  cases read : Analysis.ofText? (workspace.table.intern path).1 path
      (workspace.nextVersion (workspace.table.intern path).1) text with
  | none => exact ⟨[], relinksExactly_nil rfl rfl⟩
  | some analysis =>
      have relinks := (coherent.opened path).relinksExactly_install (numbered_opened read)
      exact ⟨_, relinks.of_later rfl rfl rfl⟩

end Workspace

namespace Session

/-- A commit links again exactly what the installed part of its batch makes it. -/
theorem Regular.relinksExactly_commit {session : Session} (regular : session.Regular)
    {jobs : List Job} {outcomes : List Outcome}
    (member : .computed jobs outcomes ∈ session.batches) :
    ∃ relinked,
      (session.workspace.commit outcomes).1.relinked = relinked.map SourceFile.path ∧
      Workspace.RelinksExactly session.workspace (session.workspace.commit outcomes).2
        (session.workspace.settle outcomes).1 relinked := by
  have settled := regular.coherent.workspace.settled outcomes
  have numbered : ∀ analysis ∈ (session.workspace.settle outcomes).1,
      (session.workspace.settled outcomes).table.id? analysis.path = some analysis.file := by
    intro analysis accepted
    obtain ⟨job, isJob, isRead, _⟩ := regular.waits_of_accepted member accepted
    obtain ⟨isFile, isPath, _⟩ := Analysis.of_ofText? isRead
    rw [isFile, isPath]
    exact (session.workspace.continues_settled outcomes).numbers
      (regular.orderly.numbered _ member job isJob)
  refine ⟨(session.workspace.settled outcomes).relinkedBy (session.workspace.settle outcomes).1,
    (settled.install_relinked numbered).1,
    (settled.relinksExactly_install numbered).of_later ?_ ?_ ?_⟩
  · unfold Workspace.settled
    rw [Workspace.settle_eq]
  · unfold Workspace.settled
    rw [Workspace.settle_eq]
  · unfold Workspace.settled
    rw [Workspace.settle_eq]

end Session

/-- Whatever happened before, a load and a commit link again exactly those loaded files
that they do not install themselves and whose closure holds, before or after, an
installed file that shows something new: each once, by ascending number, and counted. All
other files that they do not install are as they were. -/
theorem relinks_closures_of_news (config : Config) (operations : List Operation) :
    let session := (Session.new config).run operations
    (∀ path text, ∃ relinked,
      Workspace.RelinksExactly session.workspace (session.workspace.load path text).2
        (session.workspace.reading? path text).toList relinked) ∧
    ∀ (number : Nat) (jobs : List Job) (outcomes : List Outcome),
      session.batches[number]? = some (.computed jobs outcomes) →
      ∃ installed relinked,
        (session.workspace.commit outcomes).1.recomputed = installed.map Analysis.path ∧
        (∀ analysis ∈ installed, ∃ job ∈ jobs, job.analysis? = some analysis) ∧
        (session.workspace.commit outcomes).1.relinked = relinked.map SourceFile.path ∧
        Workspace.RelinksExactly session.workspace (session.workspace.commit outcomes).2
          installed relinked := by
  intro session
  have regular : session.Regular := Session.regular_run config operations
  refine ⟨fun path text => regular.coherent.workspace.relinksExactly_load path text, ?_⟩
  intro number jobs outcomes atNumber
  have member := List.mem_of_getElem? atNumber
  obtain ⟨relinked, reported, exactly⟩ := regular.relinksExactly_commit member
  refine ⟨(session.workspace.settle outcomes).1, relinked, rfl, ?_, reported, exactly⟩
  intro analysis accepted
  obtain ⟨job, isJob, isRead, _⟩ := regular.waits_of_accepted member accepted
  exact ⟨job, isJob, isRead⟩

def Batch.report? (workspace : Workspace) : Batch → Option Report
  | .computed _ outcomes => some (workspace.commit outcomes).1
  | .started _ | .spent => none

/-- A file that declares another grammar is news both to those whose import of the old name
it answered and to those whose import of the new name it answers now. -/
theorem relinks_importers_of_renamed :
    let session := (Session.new .standard).run
      [.load ⟨"a.g4"⟩ "grammar A; import B;", .load ⟨"b.g4"⟩ "grammar B;",
        .load ⟨"c.g4"⟩ "grammar C; import D;", .load ⟨"e.g4"⟩ "grammar E;",
        .edit ⟨"b.g4"⟩ "grammar D;" 0, .start none, .compute 0]
    ∃ jobs outcomes installed relinked,
      session.batches[0]? = some (.computed jobs outcomes) ∧
      (session.workspace.commit outcomes).1.recomputed = installed.map Analysis.path ∧
      relinked.map SourceFile.path = [⟨"a.g4"⟩, ⟨"c.g4"⟩] ∧
      Workspace.RelinksExactly session.workspace (session.workspace.commit outcomes).2
        installed relinked := by
  intro session
  have isReported : (session.batches[0]?.bind (Batch.report? session.workspace)).map
      Report.relinked = some [⟨"a.g4"⟩, ⟨"c.g4"⟩] := by
    decide +kernel
  obtain ⟨report, isReport, same⟩ := Option.map_eq_some_iff.mp isReported
  obtain ⟨batch, atNumber, ofBatch⟩ := Option.bind_eq_some_iff.mp isReport
  cases batch with
  | started jobs => cases ofBatch
  | spent => cases ofBatch
  | computed jobs outcomes =>
      obtain rfl : (session.workspace.commit outcomes).1 = report := Option.some.inj ofBatch
      obtain ⟨installed, relinked, recomputed, _, reported, exactly⟩ :=
        (relinks_closures_of_news .standard _).2 0 jobs outcomes atNumber
      exact ⟨jobs, outcomes, installed, relinked, atNumber, recomputed, reported.symm.trans same,
        exactly⟩

/-- A file of a batch whose own reading came too late is linked again like one that is
not of the batch. -/
theorem relinks_late_file :
    let session := (Session.new .standard).run
      [.load ⟨"a.g4"⟩ "grammar A; import B;", .load ⟨"b.g4"⟩ "lexer grammar B;",
        .edit ⟨"a.g4"⟩ "grammar A; import B, C;" 0,
        .edit ⟨"b.g4"⟩ "lexer grammar B; mode M;" 0, .start none,
        .edit ⟨"a.g4"⟩ "grammar A;" 1, .compute 0]
    session.batches[0]?.map (fun batch =>
        (batch.jobs.map Job.path, batch.report? session.workspace)) =
      some ([⟨"a.g4"⟩, ⟨"b.g4"⟩], some ⟨[⟨"b.g4"⟩], [⟨"a.g4"⟩], 1⟩) := by
  decide +kernel

end GrammarDesk
