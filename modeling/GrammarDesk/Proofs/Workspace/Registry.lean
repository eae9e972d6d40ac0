import GrammarDesk.Proofs.Import.Cached
import GrammarDesk.Proofs.Workspace.Loaded
import GrammarDesk.Workspace.Registry

/-!
Contract: a registry that keeps its graph does what a workspace does that reads it off its files.

Owns: the invariant that the graph of a registry is current and says what the loaded files say;
and the proof that every operation keeps it and otherwise does to the workspace what the same
operation does that keeps no graph.

Does not own: what a current graph answers (`Import.CachedGraph.Current`), or what the operations
do to a workspace (`Incremental`, `Relinking`).

What the operations are proved to do rests on closures and importers in the graph of the loaded
files. Here is why a registry finds just these: every closure that it links with, found now or
remembered, and every importer is an answer of a current graph.

Main statement: `RegistrySession.mirrors_run`.
-/

namespace GrammarDesk

open Import

/-! ## Graphs that are told -/

theorem Import.Graph.ext_node? {left right : Graph} (precedence : left.precedence = right.precedence)
    (same : ∀ file, left.node? file = right.node? file) : left = right := by
  have nodes : left.nodes = right.nodes := File.Map.ext_get? same
  cases left
  cases right
  exact congrArg₂ Graph.mk precedence nodes

namespace Sources

/-- To put an analysis in place is to set what the file says in the graph. -/
theorem graph_put (sources : Sources) (precedence : Precedence) (file : File.Id)
    (analysis : Analysis) :
    Sources.graph (File.Map.put sources file analysis) precedence =
      (sources.graph precedence).set file analysis.node := by
  apply Graph.ext_node?
  case precedence => rfl
  intro other
  have set : ((sources.graph precedence).set file analysis.node).node? other =
      if other = file then some analysis.node else (sources.graph precedence).node? other :=
    File.Map.get?_put _ file other analysis.node
  rw [set, node?_graph, node?_graph, File.Map.get?_put]
  by_cases same : other = file
  · simp [same]
  · simp [same]

theorem graph_erase (sources : Sources) (precedence : Precedence) (file : File.Id) :
    Sources.graph (File.Map.erase sources file) precedence =
      (sources.graph precedence).erase file := by
  apply Graph.ext_node?
  case precedence => rfl
  intro other
  have erased : ((sources.graph precedence).erase file).node? other =
      if other = file then none else (sources.graph precedence).node? other :=
    File.Map.get?_erase _ file other
  rw [erased, node?_graph, node?_graph, File.Map.get?_erase]
  by_cases same : other = file
  · simp [same]
  · simp [same]

end Sources

/-- A graph is current and says what some analyses say. -/
structure Import.CachedGraph.Holds (cached : CachedGraph) (sources : Sources)
    (precedence : Precedence) : Prop where
  current : cached.Current
  graph_eq : cached.graph = sources.graph precedence

namespace Import.CachedGraph.Holds

variable {cached : CachedGraph} {sources : Sources} {precedence : Precedence}

theorem set (holds : cached.Holds sources precedence) (file : File.Id) (analysis : Analysis) :
    (cached.set file analysis.node).2.Holds (sources.put file analysis) precedence := by
  refine ⟨holds.current.set file analysis.node, ?_⟩
  have told := cached.graph_set file analysis.node
  rw [Sources.graph_put, ← holds.graph_eq]
  apply Graph.ext_node?
  case precedence => exact told.1
  intro other
  rw [told.2]
  exact (File.Map.get?_put _ file other analysis.node).symm

theorem erase (holds : cached.Holds sources precedence) (file : File.Id) :
    (cached.erase file).2.Holds (sources.erase file) precedence := by
  refine ⟨holds.current.erase file, ?_⟩
  have told := cached.graph_erase file
  rw [Sources.graph_erase, ← holds.graph_eq]
  apply Graph.ext_node?
  case precedence => exact told.1
  intro other
  rw [told.2]
  exact (File.Map.get?_erase _ file other).symm

theorem tell (holds : cached.Holds sources precedence) (batch : List Analysis) :
    (Registry.tell cached batch).Holds
      (batch.foldl (fun sources analysis => sources.put analysis.file analysis) sources)
      precedence := by
  induction batch generalizing cached sources with
  | nil => exact holds
  | cons analysis rest inductionHypothesis =>
      exact inductionHypothesis (holds.set analysis.file analysis)

theorem dependents_eq (holds : cached.Holds sources precedence) (files : List File.Id) :
    cached.dependents files = (sources.graph precedence).dependents files := by
  rw [holds.current.dependents_eq, holds.graph_eq]

/-- What a file is linked with is the closure in the graph of the loaded files, and the graph
that remembers it holds the same files. -/
theorem linking (holds : cached.Holds sources precedence) (reportImports : Bool)
    (analysis : Analysis) :
    (Registry.linking sources reportImports cached analysis).1 =
        Linking.ofAnalysis sources (sources.graph precedence).links reportImports analysis ∧
      (Registry.linking sources reportImports cached analysis).2.Holds sources precedence := by
  have asked := holds.current.closure analysis.file
  have sameGraph : (cached.closure analysis.file).2.graph = sources.graph precedence := by
    rw [graph_closure, holds.graph_eq]
  have resolves : (cached.closure analysis.file).2.resolve = (sources.graph precedence).resolve := by
    funext name
    rw [asked.resolve_eq, sameGraph]
  have closure : (cached.closure analysis.file).1 =
      (sources.graph precedence).closure analysis.file := by
    rw [holds.current.closure_eq, holds.graph_eq]
  refine ⟨?_, asked, sameGraph⟩
  simp only [Registry.linking, Linking.ofAnalysis, Links.graph_links]
  rw [sameGraph, resolves, closure]
  rfl

/-- Linking with the graph that is kept gives what linking with a fresh graph gives, and leaves
it a graph of the same files. -/
theorem link (workspace : Workspace) (holds : cached.Holds sources precedence)
    (read reached : List File.Id) (analysis : Analysis) :
    (Registry.link workspace sources read reached cached analysis).1 =
        workspace.link sources (sources.graph precedence).links read reached analysis ∧
      (Registry.link workspace sources read reached cached analysis).2.Holds sources
        precedence := by
  have linked := holds.linking workspace.config.reportImports analysis
  unfold Registry.link Workspace.link
  cases workspace.fate read reached analysis.file with
  | linked resolution =>
      simp only [linked.1, true_and]
      exact linked.2
  | kept old => exact ⟨rfl, holds⟩

end Import.CachedGraph.Holds

namespace Registry

/-! ## Operations -/

/-- The graph of a registry is current and says what the loaded files say. -/
def Kept (registry : Registry) : Prop :=
  registry.graph.Holds registry.workspace.snapshot.sources registry.workspace.config.precedence

/-- A registry has come to the workspace that is come to without a graph, and has kept its
graph. -/
structure Reaches (registry : Registry) (workspace : Workspace) : Prop where
  workspace_eq : registry.workspace = workspace
  kept : registry.Kept

theorem kept_empty (config : Config) : (empty config).Kept where
  current := CachedGraph.current_empty config.precedence
  graph_eq := rfl

section Operations

variable {workspace : Workspace} {graph : CachedGraph}

/-- To publish is to publish without a graph, if the graph was told what is published. -/
theorem publish_eq {sources : Sources}
    (holds : graph.Holds sources workspace.config.precedence) {read reached : List File.Id}
    (published : (workspace.publish sources read reached).2.snapshot.sources = sources) :
    (publish ⟨workspace, graph⟩ sources read reached).1 =
        (workspace.publish sources read reached).1 ∧
      (publish ⟨workspace, graph⟩ sources read reached).2.Reaches
        (workspace.publish sources read reached).2 := by
  have threaded := File.Map.thread_eq_map
    (fun cached analysis (holds : CachedGraph.Holds cached sources workspace.config.precedence) =>
      holds.link workspace read reached analysis) sources holds
  have same : (publish ⟨workspace, graph⟩ sources read reached).2.workspace =
      (workspace.publish sources read reached).2 := by
    unfold publish Workspace.publish
    dsimp only
    rw [threaded.1]
  refine ⟨?_, same, ?_⟩
  · unfold publish Workspace.publish
    dsimp only
    rw [threaded.1]
  · unfold Kept
    rw [same, published]
    exact threaded.2

variable (kept : graph.Holds workspace.snapshot.sources workspace.config.precedence)

include kept

theorem holds_start (now : Option Nat) :
    graph.Holds (workspace.start now).2.snapshot.sources
      (workspace.start now).2.config.precedence := by
  unfold Workspace.start
  rw [Workspace.startJobs_eq]
  exact kept

theorem holds_settled (outcomes : List Outcome) :
    graph.Holds (workspace.settled outcomes).snapshot.sources
      (workspace.settled outcomes).config.precedence := by
  unfold Workspace.settled
  rw [Workspace.settle_eq]
  exact kept

variable (coherent : workspace.Coherent)

include coherent

theorem install_eq {batch : List Analysis}
    (numbered : ∀ analysis ∈ batch, workspace.table.id? analysis.path = some analysis.file) :
    (install ⟨workspace, graph⟩ batch).1 = (workspace.install batch).1 ∧
      (install ⟨workspace, graph⟩ batch).2.Reaches (workspace.install batch).2 := by
  have told := kept.tell batch
  unfold install
  dsimp only
  rw [kept.dependents_eq, told.dependents_eq]
  apply publish_eq
  · exact told
  · exact coherent.sources_install numbered

theorem load_eq (path : File.Path) (text : String) :
    (load ⟨workspace, graph⟩ path text).1 = (workspace.load path text).1 ∧
      (load ⟨workspace, graph⟩ path text).2.Reaches (workspace.load path text).2 := by
  have stays : graph.Holds (workspace.opened path).snapshot.sources
      (workspace.opened path).config.precedence := kept
  unfold load Workspace.load
  dsimp only
  cases read : Analysis.ofText? (workspace.table.intern path).1 path
      (workspace.nextVersion (workspace.table.intern path).1) text with
  | none => exact ⟨rfl, rfl, kept⟩
  | some analysis =>
      have installed := install_eq stays (coherent.opened path) (Workspace.numbered_opened read)
      exact ⟨rfl, installed.2⟩

theorem close_eq (path : File.Path) :
    (close ⟨workspace, graph⟩ path).1 = (workspace.close path).1 ∧
      (close ⟨workspace, graph⟩ path).2.Reaches (workspace.close path).2 := by
  unfold close Workspace.close
  dsimp only
  cases workspace.table.id? path with
  | none => exact ⟨rfl, rfl, kept⟩
  | some file =>
      dsimp only
      by_cases notLoaded : (workspace.snapshot.file? file).isNone = true
      · rw [if_pos notLoaded, if_pos notLoaded]
        exact ⟨rfl, rfl, kept⟩
      · rw [if_neg notLoaded, if_neg notLoaded, kept.dependents_eq]
        refine ⟨rfl, And.right (publish_eq ?_ ?_)⟩
        · exact kept.erase file
        · exact coherent.sources_closing file _

theorem commit_eq {outcomes : List Outcome}
    (numbered : ∀ outcome ∈ outcomes, ∀ analysis, outcome.analysis = some analysis →
      workspace.table.id? analysis.path = some analysis.file) :
    (commit ⟨workspace, graph⟩ outcomes).1 = (workspace.commit outcomes).1 ∧
      (commit ⟨workspace, graph⟩ outcomes).2.Reaches (workspace.commit outcomes).2 := by
  have accepted : ∀ analysis ∈ (workspace.settle outcomes).1,
      (workspace.settled outcomes).table.id? analysis.path = some analysis.file := by
    intro analysis isAccepted
    obtain ⟨outcome, member, read⟩ := Workspace.mem_settle isAccepted
    exact (workspace.continues_settled outcomes).numbers (numbered outcome member analysis read)
  have installed := install_eq (holds_settled kept outcomes) (coherent.settled outcomes) accepted
  rw [Workspace.commit_eq]
  refine ⟨?_, installed.2⟩
  show (⟨_, (install ⟨workspace.settled outcomes, graph⟩ (workspace.settle outcomes).1).1, _⟩ :
    Report) = _
  rw [installed.1]

theorem flush_eq (now : Option Nat) :
    (flush ⟨workspace, graph⟩ now).1 = (workspace.flush now).1 ∧
      (flush ⟨workspace, graph⟩ now).2.Reaches (workspace.flush now).2 := by
  have started := holds_start kept now
  have numbered : ∀ job ∈ (workspace.start now).1,
      (workspace.start now).2.table.id? job.path = some job.file := by
    intro job isJob
    exact (workspace.continues_start now).numbers (Workspace.numbered_start isJob)
  unfold flush Workspace.flush
  dsimp only
  cases computed : (workspace.start now).2.compute? (workspace.start now).1 with
  | none => exact ⟨rfl, rfl, started⟩
  | some outcomes =>
      have committed := commit_eq started (coherent.start now)
        (Workspace.numbered_of_compute? numbered computed)
      exact ⟨congrArg some committed.1, committed.2⟩

end Operations

end Registry

/-! ## Runs -/

/-- A registry and the batches that were started in it, in order. -/
structure RegistrySession where
  registry : Registry
  batches : List Batch
deriving Repr

namespace RegistrySession

def new (config : Config) : RegistrySession :=
  ⟨.empty config, []⟩

/-- The session after an operation. Edits, the starts of batches, their readings and what is asked
of the workspace leave the graph alone. -/
def perform (session : RegistrySession) : Operation → RegistrySession
  | .load path text => { session with registry := (session.registry.load path text).2 }
  | .edit path text now =>
      { session with
        registry := ⟨session.registry.workspace.edit path text now, session.registry.graph⟩ }
  | .close path => { session with registry := (session.registry.close path).2 }
  | .start now =>
      let (jobs, workspace) := session.registry.workspace.start now
      ⟨⟨workspace, session.registry.graph⟩, session.batches ++ [.started jobs]⟩
  | .compute batch =>
      match session.batches[batch]? with
      | some (.started jobs) =>
          { session with
            batches := session.batches.set batch
              (Session.computeIn session.registry.workspace jobs) }
      | _ => session
  | .commit batch =>
      match session.batches[batch]? with
      | some (.computed _ outcomes) =>
          ⟨(session.registry.commit outcomes).2, session.batches.set batch .spent⟩
      | _ => session
  | .flush now => { session with registry := (session.registry.flush now).2 }
  | .takeChanged =>
      { session with
        registry := ⟨session.registry.workspace.takeChanged.2, session.registry.graph⟩ }

def run (session : RegistrySession) (operations : List Operation) : RegistrySession :=
  operations.foldl perform session

/-- A session that keeps its graph has come as far as one that keeps none, and its graph is
current and says what the loaded files say. -/
structure Mirrors (kept : RegistrySession) (session : Session) : Prop where
  registry : kept.registry.Reaches session.workspace
  batches : kept.batches = session.batches

theorem mirrors_new (config : Config) : (new config).Mirrors (.new config) where
  registry := ⟨rfl, Registry.kept_empty config⟩
  batches := rfl

/-- Each operation of a registry answers as that of the workspace does, and leaves its graph
that of the loaded files. -/
theorem Mirrors.perform {kept : RegistrySession} {session : Session} (mirrors : kept.Mirrors session)
    (coherent : session.Coherent) (operation : Operation) :
    (kept.perform operation).Mirrors (session.perform operation) := by
  obtain ⟨⟨workspace, graph⟩, batches⟩ := kept
  obtain ⟨⟨rfl, holds⟩, rfl⟩ := mirrors
  have loaded := coherent.workspace
  cases operation with
  | load path text => exact ⟨(Registry.load_eq holds loaded path text).2, rfl⟩
  | edit path text now => exact ⟨⟨rfl, holds⟩, rfl⟩
  | close path => exact ⟨(Registry.close_eq holds loaded path).2, rfl⟩
  | start now => exact ⟨⟨rfl, Registry.holds_start holds now⟩, rfl⟩
  | compute number =>
      unfold RegistrySession.perform Session.perform
      dsimp only
      cases session.batches[number]? with
      | none => exact ⟨⟨rfl, holds⟩, rfl⟩
      | some batch => cases batch <;> exact ⟨⟨rfl, holds⟩, rfl⟩
  | commit number =>
      unfold RegistrySession.perform Session.perform
      dsimp only
      cases atNumber : session.batches[number]? with
      | none => exact ⟨⟨rfl, holds⟩, rfl⟩
      | some batch =>
          cases batch with
          | started jobs => exact ⟨⟨rfl, holds⟩, rfl⟩
          | computed jobs outcomes =>
              have numbered := coherent.batches _ (List.mem_of_getElem? atNumber)
              exact ⟨(Registry.commit_eq holds loaded numbered).2, rfl⟩
          | spent => exact ⟨⟨rfl, holds⟩, rfl⟩
  | flush now => exact ⟨(Registry.flush_eq holds loaded now).2, rfl⟩
  | takeChanged => exact ⟨⟨rfl, holds⟩, rfl⟩

/-- After every run a registry that keeps one graph, tells it each file that comes or goes and
links with the closures that it finds or remembers, has the same loaded files with the same links,
and the same batches, as a workspace that reads its graph off its files; and the graph that it
keeps is current and says what these files say. -/
theorem mirrors_run (config : Config) (operations : List Operation) :
    ((new config).run operations).Mirrors ((Session.new config).run operations) := by
  have runs : ∀ {kept : RegistrySession} {session : Session}, kept.Mirrors session →
      session.Coherent → (kept.run operations).Mirrors (session.run operations) := by
    induction operations with
    | nil => exact fun mirrors _ => mirrors
    | cons operation rest inductionHypothesis =>
        exact fun mirrors coherent =>
          inductionHypothesis (mirrors.perform coherent operation) (coherent.perform operation)
  exact runs (mirrors_new config) (Session.coherent_new config)

end RegistrySession

end GrammarDesk
