import GrammarDesk.Proofs.Workspace.Linking
import GrammarDesk.Proofs.Workspace.Session

/-!
Contract: linking some files again is as good as linking all of them anew.

Owns: the links of a loaded file computed from nothing but the loaded files, the
invariant that every loaded file has them, and its proof for every operation.

Does not own: which other files the links of a file depend on (`Linking`).

A file is linked again only if imports lead it to a file that looks different, in
the graph before or in the graph after. Where both avoid what changed, no name that is
imported can have moved either, so that the links kept are the links computed anew.

Main statement: `loaded_linking_eq_anew`.
-/

namespace GrammarDesk

open Import

namespace Snapshot

/-- The import graph built anew, one loaded file after another. -/
def graphAnew (snapshot : Snapshot) (precedence : Precedence) : Import.Graph :=
  snapshot.all.foldl (fun graph source => graph.set source.file source.analysis.node)
    (.empty precedence)

/-- The links of a loaded file computed anew: its names are looked up once, in a graph
built anew and in the current tables of its closure. -/
def linkAnew (snapshot : Snapshot) (config : Config) (source : SourceFile) : Linking :=
  Linking.ofAnalysis snapshot.sources (snapshot.graphAnew config.precedence).links
    config.reportImports source.analysis

theorem get?_sources (snapshot : Snapshot) (file : File.Id) :
    snapshot.sources.get? file = (snapshot.file? file).map SourceFile.analysis :=
  File.Map.get?_map snapshot.files SourceFile.analysis file

theorem graphAnew_eq (snapshot : Snapshot) (precedence : Precedence) :
    snapshot.graphAnew precedence =
      ⟨precedence,
        snapshot.all.foldl (fun nodes source => nodes.put source.file source.analysis.node)
          .empty⟩ := by
  unfold graphAnew Graph.empty
  generalize (File.Map.empty : File.Map Node) = nodes
  induction snapshot.all generalizing nodes with
  | nil => rfl
  | cons source rest inductionHypothesis =>
      rw [List.foldl_cons, List.foldl_cons]
      exact inductionHypothesis _

/-- Where every file stands at its own number, the graph built anew is the graph of
the loaded files. -/
theorem graphAnew_eq_graph {snapshot : Snapshot} (precedence : Precedence)
    (numbered : ∀ {file source}, snapshot.file? file = some source → source.file = file) :
    snapshot.graphAnew precedence = snapshot.sources.graph precedence := by
  rw [graphAnew_eq]
  refine congrArg (Import.Graph.mk precedence) (File.Map.ext_get? fun file => ?_)
  rw [File.Map.get?_map, get?_sources]
  have loaded : ∀ source ∈ snapshot.all, snapshot.file? source.file = some source := by
    intro source member
    obtain ⟨file, found⟩ := (snapshot.files.mem_values_iff source).mp member
    have isFile : source.file = file := numbered found
    rw [isFile]
    exact found
  rcases File.Map.get?_foldl_put SourceFile.file (fun source => source.analysis.node)
    snapshot.all .empty file with ⟨source, member, rfl, found⟩ | ⟨others, found⟩
  · rw [found, loaded source member]
    rfl
  · rw [found, File.Map.get?_empty]
    cases known : snapshot.file? file with
    | none => rfl
    | some source =>
        have member : source ∈ snapshot.all :=
          (snapshot.files.mem_values_iff source).mpr ⟨file, known⟩
        exact absurd (numbered known) (others source member)

end Snapshot

namespace Workspace

/-- The links that an analysis has among the loaded files. -/
def linkingOf (workspace : Workspace) (analysis : Analysis) : Linking :=
  Linking.ofAnalysis workspace.snapshot.sources workspace.graph.links
    workspace.config.reportImports analysis

/-- Every loaded file stands at the number of its path and has the links it should
have. -/
structure Coherent (workspace : Workspace) : Prop where
  numbered : ∀ {file source}, workspace.snapshot.file? file = some source →
    source.file = file ∧ workspace.table.id? source.path = some file
  linked : ∀ {file source}, workspace.snapshot.file? file = some source →
    source.linking = workspace.linkingOf source.analysis

theorem coherent_empty (config : Config) : (empty config).Coherent where
  numbered found := by
    rw [show (empty config).snapshot.file? _ = none from File.Map.get?_empty _] at found
    cases found
  linked found := by
    rw [show (empty config).snapshot.file? _ = none from File.Map.get?_empty _] at found
    cases found

/-- A workspace that differs in neither its loaded files nor its choices. -/
theorem Coherent.of_continues {before after : Workspace} (coherent : before.Coherent)
    (continues : Continues before after) (snapshot : after.snapshot = before.snapshot) :
    after.Coherent where
  numbered {file source} found := by
    obtain ⟨isFile, numbered⟩ := coherent.numbered (snapshot ▸ found)
    exact ⟨isFile, continues.numbers numbered⟩
  linked {file source} found := by
    have linked := coherent.linked (snapshot ▸ found)
    unfold linkingOf graph at *
    rw [snapshot, continues.config]
    exact linked

/-! ## Publishing -/

section Publish

variable {workspace : Workspace} {sources : Sources} {read reached : List File.Id}

theorem file?_publish (file : File.Id) :
    (workspace.publish sources read reached).2.snapshot.file? file =
      (sources.get? file).map (workspace.link sources
        (sources.graph workspace.config.precedence).links read reached) :=
  File.Map.get?_map sources _ file

/-- Only a loaded file is kept that was not just read and is not reached. -/
theorem fate_eq_kept {file : File.Id} {old : SourceFile}
    (isKept : workspace.fate read reached file = .kept old) :
    file ∉ read ∧ file ∉ reached ∧ workspace.snapshot.file? file = some old := by
  unfold fate at isKept
  cases known : workspace.snapshot.file? file with
  | none => simp [known] at isKept
  | some loaded =>
      by_cases isRead : file ∈ read
      · simp [known, isRead] at isKept
      · by_cases isReached : file ∈ reached
        · simp [known, isRead, isReached] at isKept
        · simp only [known, if_neg isRead, if_neg isReached, Fate.kept.injEq] at isKept
          exact ⟨isRead, isReached, congrArg some isKept⟩

/-- A loaded file that is published without having been read is linked again if it is
among those to link, and else kept. -/
theorem link_of_not_read (sources : Sources) (links : Links) {old : SourceFile}
    (known : workspace.snapshot.file? old.file = some old) (notRead : old.file ∉ read) :
    workspace.link sources links read reached old.analysis =
      if old.file ∈ reached then
        ⟨old.analysis, old.resolution + 1,
          Linking.ofAnalysis sources links workspace.config.reportImports old.analysis⟩
      else
        old := by
  have isFate : workspace.fate read reached old.analysis.file =
      if old.file ∈ reached then .linked (old.resolution + 1) else .kept old := by
    have atFile : workspace.snapshot.file? old.analysis.file = some old := known
    rw [fate, atFile]
    exact if_neg notRead
  rw [link, isFate]
  by_cases isReached : old.file ∈ reached
  · rw [if_pos isReached, if_pos isReached]
  · rw [if_neg isReached, if_neg isReached]

/-- A file that is published is one that was linked now, or one that was loaded and is
kept. -/
theorem link_spec (links : Links) (analysis : Analysis) :
    ((workspace.link sources links read reached analysis).analysis = analysis ∧
        (workspace.link sources links read reached analysis).linking =
          Linking.ofAnalysis sources links workspace.config.reportImports analysis) ∨
      analysis.file ∉ read ∧ analysis.file ∉ reached ∧
        workspace.snapshot.file? analysis.file =
          some (workspace.link sources links read reached analysis) := by
  unfold link
  cases isFate : workspace.fate read reached analysis.file with
  | linked resolution => exact .inl ⟨rfl, rfl⟩
  | kept old => exact .inr (fate_eq_kept isFate)

/-- What is published is what was to be published. -/
theorem sources_publish
    (numbered : ∀ {file analysis}, sources.get? file = some analysis → analysis.file = file)
    (kept : ∀ {file analysis}, sources.get? file = some analysis → file ∉ read →
      (workspace.snapshot.file? file).isSome →
      workspace.snapshot.sources.get? file = some analysis) :
    (workspace.publish sources read reached).2.snapshot.sources = sources := by
  apply File.Map.ext_get?
  intro file
  rw [Snapshot.get?_sources, file?_publish]
  cases listed : sources.get? file with
  | none => rfl
  | some analysis =>
      obtain rfl := numbered listed
      rcases workspace.link_spec (sources.graph workspace.config.precedence).links analysis with
        ⟨now, _⟩ | ⟨notRead, _, old⟩
      · exact congrArg some now
      · have wasLoaded := kept listed notRead (Option.isSome_of_eq_some old)
        rw [Snapshot.get?_sources, old] at wasLoaded
        exact wasLoaded

/-- Publishing is right if every file that it keeps has the same analysis as before
and avoids, before and after, what changed its view. -/
theorem Coherent.publish (changed : File.Id → Prop) (coherent : workspace.Coherent)
    (numbered : ∀ {file analysis}, sources.get? file = some analysis →
      analysis.file = file ∧ workspace.table.id? analysis.path = some file)
    (kept : ∀ {file analysis}, sources.get? file = some analysis → file ∉ read →
      (workspace.snapshot.file? file).isSome →
      workspace.snapshot.sources.get? file = some analysis)
    (same : ∀ file, ¬ changed file → workspace.snapshot.sources.view? file = sources.view? file)
    (avoidsBefore : ∀ {file analysis}, sources.get? file = some analysis → file ∉ read →
      file ∉ reached → ∀ other, workspace.graph.LeadsTo file other → ¬ changed other)
    (avoidsAfter : ∀ {file analysis}, sources.get? file = some analysis → file ∉ read →
      file ∉ reached → ∀ other, (sources.graph workspace.config.precedence).LeadsTo file other →
      ¬ changed other) :
    (workspace.publish sources read reached).2.Coherent := by
  -- what is published for an analysis: the analysis itself, with the links it should have
  have published : ∀ {file analysis}, sources.get? file = some analysis →
      (workspace.link sources (sources.graph workspace.config.precedence).links read reached
        analysis).analysis = analysis ∧
      (workspace.link sources (sources.graph workspace.config.precedence).links read reached
        analysis).linking =
          Linking.ofAnalysis sources (sources.graph workspace.config.precedence).links
            workspace.config.reportImports analysis := by
    intro file analysis listed
    obtain ⟨rfl, _⟩ := numbered listed
    rcases link_spec (sources.graph workspace.config.precedence).links analysis with
      now | ⟨notRead, notReached, old⟩
    · exact now
    · have wasLoaded := kept listed notRead (Option.isSome_of_eq_some old)
      have sameAnalysis := wasLoaded
      rw [Snapshot.get?_sources, old, Option.map_some, Option.some.injEq] at sameAnalysis
      refine ⟨sameAnalysis, ?_⟩
      rw [coherent.linked old, sameAnalysis]
      exact Linking.ofAnalysis_congr same wasLoaded listed
        (avoidsBefore listed notRead notReached) (avoidsAfter listed notRead notReached) _
  have samePublished : (workspace.publish sources read reached).2.snapshot.sources = sources :=
    sources_publish (fun listed => (numbered listed).1) kept
  constructor
  · intro file source found
    rw [file?_publish] at found
    obtain ⟨analysis, listed, rfl⟩ := Option.map_eq_some_iff.mp found
    unfold SourceFile.file SourceFile.path
    rw [(published listed).1]
    exact numbered listed
  · intro file source found
    rw [file?_publish] at found
    obtain ⟨analysis, listed, rfl⟩ := Option.map_eq_some_iff.mp found
    unfold linkingOf graph
    rw [(published listed).1, (published listed).2, samePublished]
    rfl

end Publish

/-! ## Taking in and giving up -/

theorem Coherent.numbered_sources {workspace : Workspace} (coherent : workspace.Coherent)
    {file : File.Id} {analysis : Analysis}
    (loaded : workspace.snapshot.sources.get? file = some analysis) :
    analysis.file = file ∧ workspace.table.id? analysis.path = some file := by
  rw [Snapshot.get?_sources] at loaded
  obtain ⟨source, found, rfl⟩ := Option.map_eq_some_iff.mp loaded
  exact coherent.numbered found

/-- The analyses of the loaded files after some have been taken in. -/
def taken (workspace : Workspace) (batch : List Analysis) : Sources :=
  batch.foldl (fun sources analysis => sources.put analysis.file analysis)
    workspace.snapshot.sources

theorem get?_taken (workspace : Workspace) (batch : List Analysis) (file : File.Id) :
    (∃ analysis ∈ batch, analysis.file = file ∧
        (workspace.taken batch).get? file = some analysis) ∨
      (∀ analysis ∈ batch, analysis.file ≠ file) ∧
        (workspace.taken batch).get? file = workspace.snapshot.sources.get? file :=
  File.Map.get?_foldl_put (fun analysis : Analysis => analysis.file) id batch
    workspace.snapshot.sources file

theorem Coherent.numbered_taken {workspace : Workspace} (coherent : workspace.Coherent)
    {batch : List Analysis}
    (numbered : ∀ analysis ∈ batch, workspace.table.id? analysis.path = some analysis.file)
    {file : File.Id} {analysis : Analysis}
    (listed : (workspace.taken batch).get? file = some analysis) :
    analysis.file = file ∧ workspace.table.id? analysis.path = some file := by
  rcases workspace.get?_taken batch file with ⟨read, member, isFile, found⟩ | ⟨_, found⟩
  · obtain rfl : read = analysis := Option.some.inj (found.symm.trans listed)
    exact ⟨isFile, isFile ▸ numbered read member⟩
  · exact coherent.numbered_sources (found.symm.trans listed)

theorem get?_of_taken {workspace : Workspace} {batch : List Analysis} {file : File.Id}
    {analysis : Analysis} (listed : (workspace.taken batch).get? file = some analysis)
    (notRead : file ∉ batch.map fun analysis => analysis.file) :
    workspace.snapshot.sources.get? file = some analysis := by
  rcases workspace.get?_taken batch file with ⟨read, member, isFile, _⟩ | ⟨_, found⟩
  · exact absurd (List.mem_map.mpr ⟨read, member, isFile⟩) notRead
  · exact found.symm.trans listed

/-- What is loaded after analyses have been installed. -/
theorem Coherent.sources_install {workspace : Workspace} (coherent : workspace.Coherent)
    {batch : List Analysis}
    (numbered : ∀ analysis ∈ batch, workspace.table.id? analysis.path = some analysis.file) :
    (workspace.install batch).2.snapshot.sources = workspace.taken batch :=
  sources_publish (fun listed => (coherent.numbered_taken numbered listed).1)
    fun listed notRead _ => get?_of_taken listed notRead

/-- Installing keeps all linkings what they are anew: what is not linked again reaches no file
with news, before or after. -/
theorem Coherent.install {workspace : Workspace} (coherent : workspace.Coherent)
    {batch : List Analysis}
    (numbered : ∀ analysis ∈ batch, workspace.table.id? analysis.path = some analysis.file) :
    (workspace.install batch).2.Coherent := by
  have news : ∀ file, file ∈ (batch.filter workspace.isNews).map (fun analysis => analysis.file) →
      file ∈ batch.map fun analysis => analysis.file := by
    intro file member
    obtain ⟨analysis, among, rfl⟩ := List.mem_map.mp member
    exact List.mem_map_of_mem (List.mem_filter.mp among).1
  refine Coherent.publish
    (· ∈ (batch.filter workspace.isNews).map fun analysis => analysis.file)
    (coherent.of_continues (.of_eq rfl rfl) rfl) ?_ ?_ ?_ ?_ ?_
  · exact coherent.numbered_taken numbered
  · exact fun listed notRead _ => get?_of_taken listed notRead
  · intro file notNews
    unfold Sources.view?
    rcases workspace.get?_taken batch file with ⟨read, member, rfl, found⟩ | ⟨_, found⟩
    · -- the file was read, yet looks to others as it did
      have seen : workspace.isNews read = false := by
        by_contra isNews
        refine notNews (List.mem_map_of_mem (List.mem_filter.mpr ⟨member, ?_⟩))
        simpa using isNews
      unfold isNews at seen
      cases known : workspace.snapshot.file? read.file with
      | none => simp [known] at seen
      | some old =>
          simp only [known, Bool.not_eq_false'] at seen
          obtain ⟨sameFile, oldNumber⟩ := coherent.numbered known
          have samePath := workspace.table.same_of_id? oldNumber (numbered read member)
          have sameView := Analysis.view_eq_of_sameOutside sameFile samePath seen
          refine Eq.trans ?_ (congrArg (Option.map Analysis.view) found.symm)
          show (workspace.snapshot.sources.get? read.file).map Analysis.view = _
          rw [Snapshot.get?_sources, known]
          exact congrArg some sameView
    · exact congrArg (Option.map Analysis.view) found.symm
  · intro file analysis listed notRead notReached other leads isNews
    rcases Graph.mem_or_mem_dependents_of_leadsTo leads isNews with among | depends
    · exact notRead (news file among)
    · exact notReached (List.mem_append_left _ depends)
  · intro file analysis listed notRead notReached other leads isNews
    rcases Graph.mem_or_mem_dependents_of_leadsTo leads isNews with among | depends
    · exact notRead (news file among)
    · exact notReached (List.mem_append_right _ depends)

theorem Coherent.opened {workspace : Workspace} (coherent : workspace.Coherent)
    (path : File.Path) : (workspace.opened path).Coherent :=
  coherent.of_continues ⟨rfl, fun known => workspace.table.id?_intern_of_some path known⟩ rfl

/-- What is read when a path is loaded belongs to the number of the path. -/
theorem numbered_opened {workspace : Workspace} {path : File.Path} {version : Nat} {text : String}
    {analysis : Analysis}
    (read : Analysis.ofText? (workspace.table.intern path).1 path version text = some analysis) :
    ∀ other ∈ [analysis], (workspace.opened path).table.id? other.path = some other.file := by
  obtain ⟨isFile, isPath, _⟩ := Analysis.of_ofText? read
  intro other member
  rw [List.mem_singleton.mp member, isFile, isPath]
  exact workspace.table.id?_intern path

theorem Coherent.load {workspace : Workspace} (coherent : workspace.Coherent)
    (path : File.Path) (text : String) :
    (workspace.load path text).2.Coherent := by
  rw [load_eq]
  split
  · exact coherent.opened path
  · rename_i analysis read
    exact (coherent.opened path).install (numbered_opened read)

/-- Closing keeps all linkings what they are anew: what is not linked again did not reach the
file, and without it no name leads elsewhere. -/
theorem Coherent.close {workspace : Workspace} (coherent : workspace.Coherent)
    (path : File.Path) :
    (workspace.close path).2.Coherent := by
  unfold Workspace.close
  cases workspace.table.id? path with
  | none => exact coherent
  | some file =>
      dsimp only
      split
      · exact coherent.of_continues (.of_eq rfl rfl) rfl
      · have erased := workspace.snapshot.sources.get?_erase file
        have stays : ∀ {other analysis},
            (workspace.snapshot.sources.erase file).get? other = some analysis →
            other ≠ file ∧ workspace.snapshot.sources.get? other = some analysis := by
          intro other analysis listed
          rw [erased] at listed
          by_cases isFile : other = file
          · simp [isFile] at listed
          · rw [if_neg isFile] at listed
            exact ⟨isFile, listed⟩
        refine Coherent.publish (· = file)
          (coherent.of_continues (.of_eq rfl rfl) rfl) ?_ ?_ ?_ ?_ ?_
        · intro other analysis listed
          exact coherent.numbered_sources (stays listed).2
        · intro other analysis listed _ _
          exact (stays listed).2
        · intro other isOther
          unfold Sources.view?
          rw [erased, if_neg isOther]
          rfl
        · rintro other analysis listed _ notReached target leads rfl
          rcases Graph.mem_or_mem_dependents_of_leadsTo leads (List.mem_singleton_self target)
            with among | depends
          · exact (stays listed).1 (List.mem_singleton.mp among)
          · exact notReached depends
        · rintro other analysis listed _ _ target ⟨steps, trail⟩ rfl
          cases steps with
          | zero => exact (stays listed).1 trail
          | succ steps =>
              -- no import leads to a file that is not there
              obtain ⟨_, _, imports⟩ := trail
              obtain ⟨node, known⟩ := Graph.mem_files_iff.mp (Graph.mem_files_of_targets imports).2
              rw [Sources.node?_graph, erased, if_pos rfl] at known
              cases known

theorem Coherent.start {workspace : Workspace} (coherent : workspace.Coherent)
    (now : Option Nat) :
    (workspace.start now).2.Coherent := by
  apply coherent.of_continues (workspace.continues_start now)
  unfold Workspace.start
  rw [startJobs_eq]

theorem Coherent.settled {workspace : Workspace} (coherent : workspace.Coherent)
    (outcomes : List Outcome) :
    (workspace.settled outcomes).Coherent := by
  apply coherent.of_continues (workspace.continues_settled outcomes)
  unfold Workspace.settled
  rw [settle_eq]

theorem Coherent.commit {workspace : Workspace} (coherent : workspace.Coherent)
    {outcomes : List Outcome}
    (numbered : ∀ outcome ∈ outcomes, ∀ analysis, outcome.analysis = some analysis →
      workspace.table.id? analysis.path = some analysis.file) :
    (workspace.commit outcomes).2.Coherent := by
  rw [commit_eq]
  apply (coherent.settled outcomes).install
  intro analysis accepted
  obtain ⟨outcome, member, read⟩ := mem_settle accepted
  exact (workspace.continues_settled outcomes).numbers (numbered outcome member analysis read)

/-- What is read for a job belongs to the file and the path of the job. -/
theorem numbered_of_compute? {workspace later : Workspace} {jobs : List Job}
    {outcomes : List Outcome}
    (numbered : ∀ job ∈ jobs, later.table.id? job.path = some job.file)
    (computed : workspace.compute? jobs = some outcomes) :
    ∀ outcome ∈ outcomes, ∀ analysis, outcome.analysis = some analysis →
      later.table.id? analysis.path = some analysis.file := by
  intro outcome member analysis isRead
  obtain ⟨job, among, read⟩ := mem_of_compute? computed member
  rw [read?_eq] at read
  split at read
  · cases read
    cases isRead
  · obtain ⟨known, ofText, rfl⟩ := Option.map_eq_some_iff.mp read
    obtain rfl : known = analysis := Option.some.inj isRead
    obtain ⟨isFile, isPath, _⟩ := Analysis.of_ofText? ofText
    rw [isFile, isPath]
    exact numbered job among

/-- A flush keeps all linkings what they are anew, whether its batch is computed or not. -/
theorem Coherent.flush {workspace : Workspace} (coherent : workspace.Coherent)
    (now : Option Nat) :
    (workspace.flush now).2.Coherent := by
  have started := coherent.start now
  have numbered : ∀ job ∈ (workspace.start now).1,
      (workspace.start now).2.table.id? job.path = some job.file := by
    intro job isJob
    exact (workspace.continues_start now).numbers (numbered_start isJob)
  rcases workspace.flush_cases now with onlyStarted | ⟨outcomes, computed, flushed⟩
  · rw [onlyStarted]
    exact started
  · rw [flushed]
    exact started.commit (numbered_of_compute? numbered computed)

end Workspace

/-! ## Runs -/

/-- The paths that a batch will install stand at their numbers. -/
def Batch.Numbered (table : File.Table) : Batch → Prop
  | .started jobs => ∀ job ∈ jobs, table.id? job.path = some job.file
  | .computed _ outcomes => ∀ outcome ∈ outcomes, ∀ analysis, outcome.analysis = some analysis →
      table.id? analysis.path = some analysis.file
  | .spent => True

theorem Batch.Numbered.of_continues {before after : Workspace} {batch : Batch}
    (numbered : batch.Numbered before.table) (continues : Workspace.Continues before after) :
    batch.Numbered after.table := by
  cases batch with
  | started jobs => exact fun job member => continues.numbers (numbered job member)
  | computed jobs outcomes =>
      exact fun outcome member analysis read =>
        continues.numbers (numbered outcome member analysis read)
  | spent => trivial

namespace Session

/-- All loaded files have the links they should have, and what is under way keeps it
so. -/
structure Coherent (session : Session) : Prop where
  workspace : session.workspace.Coherent
  batches : ∀ batch ∈ session.batches, batch.Numbered session.workspace.table

theorem coherent_new (config : Config) : (new config).Coherent where
  workspace := Workspace.coherent_empty config
  batches _ member := absurd member List.not_mem_nil

/-- Each operation keeps all linkings what they are anew. -/
theorem Coherent.workspace_perform {session : Session} (coherent : session.Coherent)
    (operation : Operation) :
    (session.perform operation).workspace.Coherent := by
  have continues := session.continues_perform operation
  cases operation with
  | load path text => exact coherent.workspace.load path text
  | edit path text now => exact coherent.workspace.of_continues continues rfl
  | close path => exact coherent.workspace.close path
  | start now => exact coherent.workspace.start now
  | compute number =>
      rcases session.perform_compute_cases number with same | ⟨_, _, computed⟩
      · rw [same]
        exact coherent.workspace
      · rw [computed]
        exact coherent.workspace
  | commit number =>
      rcases session.perform_commit_cases number with same | ⟨_, _, atNumber, committed⟩
      · rw [same]
        exact coherent.workspace
      · rw [committed]
        exact coherent.workspace.commit (coherent.batches _ (List.mem_of_getElem? atNumber))
  | flush now => exact coherent.workspace.flush now
  | takeChanged => exact coherent.workspace.of_continues continues rfl

theorem Coherent.perform {session : Session} (coherent : session.Coherent)
    (operation : Operation) :
    (session.perform operation).Coherent := by
  have continues := session.continues_perform operation
  refine ⟨coherent.workspace_perform operation, ?_⟩
  intro batch member
  rcases mem_batches_perform member with
    before | rfl | ⟨now, rfl, rfl⟩ | ⟨jobs, outcomes, started, computed, rfl⟩
  · exact (coherent.batches batch before).of_continues continues
  · trivial
  · exact fun job isJob => continues.numbers (Workspace.numbered_start isJob)
  · have numbered : Batch.Numbered session.workspace.table (.computed jobs outcomes) :=
      Workspace.numbered_of_compute? (coherent.batches _ started) computed
    exact numbered.of_continues continues

theorem coherent_run (config : Config) (operations : List Operation) :
    ((new config).run operations).Coherent :=
  run_forall (fun _ operation holds => holds.perform operation) (coherent_new config) operations

end Session

/-- After every run of operations, all loaded files have the references, diagnostics
and import closure that one gets by linking them anew. -/
theorem loaded_linking_eq_anew (config : Config) (operations : List Operation) :
    let snapshot := ((Session.new config).run operations).workspace.snapshot
    snapshot.all.map SourceFile.linking = snapshot.all.map (snapshot.linkAnew config) := by
  intro snapshot
  have coherent := Session.coherent_run config operations
  have sameConfig := ((Session.new config).continues_run operations).config
  apply List.map_congr_left
  intro source member
  obtain ⟨file, found⟩ := (snapshot.files.mem_values_iff source).mp member
  have linked := coherent.workspace.linked found
  unfold Snapshot.linkAnew
  rw [Snapshot.graphAnew_eq_graph _ fun loaded => (coherent.workspace.numbered loaded).1, linked]
  unfold Workspace.linkingOf Workspace.graph
  rw [sameConfig]
  rfl

end GrammarDesk
