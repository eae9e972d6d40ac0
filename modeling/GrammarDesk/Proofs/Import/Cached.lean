import Mathlib.Data.List.Induction
import GrammarDesk.Import.Cached
import GrammarDesk.Proofs.Import.Ways

/-!
Contract: what a graph has found stays true.

Owns: the invariant that the tables and the closures kept by an import graph are those of
its files, which every request keeps; what the files say after several requests, told by the
requests alone; and the proof that a graph answers like one that was told this and nothing
else.

Does not own: what the answers mean (`Members`, `Ways`, `Cycles`).

Main statements: `current_perform`, `node?_run_eq_some_iff`, `run_answers_for_present_files`.
-/

namespace GrammarDesk.Import

namespace Names

/-- A name is looked up to the first file that has it. -/
theorem lookup_ofNodes (graph : Graph) (nameOf : Node → Option String) (name : String) :
    (ofNodes nameOf graph.nodes).lookup name =
      (graph.firstPlace fun node => nameOf node = some name).bind
        fun place => graph.files[place]? := by
  have first : ∀ entries : List (File.Id × Node),
      (entries.filterMap fun entry =>
          (nameOf entry.2).map fun name => (name, entry.1)).lookup name =
        (entries.find? fun entry => nameOf entry.2 = some name).map Prod.fst := by
    intro entries
    induction entries with
    | nil => rfl
    | cons entry rest inductionHypothesis =>
        obtain ⟨file, node⟩ := entry
        cases named : nameOf node with
        | none => simp [named, inductionHypothesis]
        | some other =>
            by_cases same : name = other
            · simp [named, same]
            · simp [named, List.lookup_cons, beq_eq_false_iff_ne.mpr same, Ne.symm same,
                inductionHypothesis]
  rw [ofNodes, first, List.find?_eq_bind_findIdx?_getElem?, Option.map_bind]
  refine congrArg (Option.bind _) (funext fun place => ?_)
  exact List.getElem?_map.symm

end Names

namespace CachedGraph

/-! ## The invariant -/

/-- The tables and the closures of a graph are those of its files. -/
structure Current (cached : CachedGraph) : Prop where
  byGrammar : cached.byGrammar = .ofNodes Node.grammar cached.graph.nodes
  byStem : cached.byStem = .ofNodes Node.stem cached.graph.nodes
  closures : ∀ file closure, cached.closures.get? file = some closure →
    closure = cached.graph.closure file

variable {cached : CachedGraph}

theorem current_empty (precedence : Precedence) : (empty precedence).Current where
  byGrammar := rfl
  byStem := rfl
  closures _ _ kept := by simp [empty] at kept

/-- Whatever a graph held, it is current once all is made anew. -/
theorem current_invalidate (cached : CachedGraph) : cached.invalidate.Current where
  byGrammar := rfl
  byStem := rfl
  closures _ _ kept := by simp [invalidate] at kept

namespace Current

/-! ## Answers of a current graph -/

theorem resolve_eq (current : cached.Current) (name : String) :
    cached.resolve name = cached.graph.resolve name := by
  unfold resolve Graph.resolve Graph.placeOf?
  rw [current.byGrammar, current.byStem, Names.lookup_ofNodes, Names.lookup_ofNodes]
  cases first : cached.graph.firstPlace fun node => node.grammar = some name with
  | none => rfl
  | some place =>
      obtain ⟨file, atPlace, _⟩ := Graph.isLeast_of_firstPlace first
      simp [atPlace]

theorem placeOf?_eq (current : cached.Current) (name : String) :
    cached.placeOf? name = cached.graph.placeOf? name := by
  refine Option.ext fun place => ?_
  rw [Graph.placeOf?_eq_some_iff, placeOf?, current.resolve_eq, Option.bind_eq_some_iff]
  refine exists_congr fun file => ?_
  rw [Graph.idxOf?_files_eq_some_iff]
  exact and_comm

theorem links_eq (current : cached.Current) : cached.links = cached.graph.links := by
  have places : cached.placeOf? = cached.graph.placeOf? := funext current.placeOf?_eq
  unfold links
  simp only [places]
  rfl

/-- A closure that was kept, and one that is found now, are the closure in the graph. -/
theorem closure_eq (current : cached.Current) (file : File.Id) :
    (cached.closure file).1 = cached.graph.closure file := by
  unfold closure
  cases kept : cached.closures.get? file with
  | some closure => exact current.closures file closure kept
  | none => rw [current.links_eq]; rfl

theorem dependents_eq (current : cached.Current) (files : List File.Id) :
    cached.dependents files = cached.graph.dependents files := by
  rw [dependents, current.links_eq]
  rfl

/-! ## Requests keep a graph current -/

theorem set (current : cached.Current) (file : File.Id) (node : Node) :
    (cached.set file node).2.Current := by
  unfold CachedGraph.set
  split
  · exact current
  · exact current_invalidate _

theorem erase (current : cached.Current) (file : File.Id) : (cached.erase file).2.Current := by
  unfold CachedGraph.erase
  split
  · exact current
  · exact current_invalidate _

/-- The closure that is kept now is the one in the graph, also of a file that is not in it. -/
theorem closure (current : cached.Current) (file : File.Id) :
    (cached.closure file).2.Current := by
  unfold CachedGraph.closure
  cases kept : cached.closures.get? file with
  | some closure => exact current
  | none =>
      refine ⟨current.byGrammar, current.byStem, fun other closure kept' => ?_⟩
      rw [File.Map.get?_put] at kept'
      by_cases same : other = file
      · rw [if_pos same, current.links_eq] at kept'
        rw [same]
        exact (Option.some.inj kept').symm
      · rw [if_neg same] at kept'
        exact current.closures other closure kept'

end Current

theorem current_perform (current : cached.Current) (request : Request) :
    (cached.perform request).Current := by
  cases request with
  | set file node => exact current.set file node
  | erase file => exact current.erase file
  | closure file => exact current.closure file
  | resolve name => exact current
  | dependents files => exact current

theorem current_run (precedence : Precedence) (requests : List Request) :
    (run precedence requests).Current :=
  List.foldlRecOn requests perform (current_empty precedence)
    fun _ current request _ => current_perform current request

/-! ## What the files say -/

/-- A request changes what a file says, or whether it is there. -/
def Request.Concerns (file : File.Id) : Request → Prop
  | .set other _ => other = file
  | .erase other => other = file
  | .closure _ | .resolve _ | .dependents _ => False

/-- After some requests a file is present and says something: the last request that concerns
it has set it so. -/
def Says (requests : List Request) (file : File.Id) (node : Node) : Prop :=
  ∃ earlier later, requests = earlier ++ .set file node :: later ∧
    ∀ request ∈ later, ¬ request.Concerns file

theorem not_says_nil (file : File.Id) (node : Node) : ¬ Says [] file node := by
  rintro ⟨earlier, later, same, _⟩
  simp at same

/-- A file says what the last request has set, or what it said before that request if this
does not concern it. -/
theorem says_concat_iff {requests : List Request} {request : Request} {file : File.Id}
    {node : Node} :
    Says (requests ++ [request]) file node ↔
      request = .set file node ∨ Says requests file node ∧ ¬ request.Concerns file := by
  constructor
  · rintro ⟨earlier, later, same, unconcerned⟩
    rcases List.eq_nil_or_concat later with rfl | ⟨later, last, rfl⟩
    · exact .inl (List.cons.inj (List.append_inj' same rfl).2).1
    · rw [List.concat_eq_append, ← List.cons_append, ← List.append_assoc] at same
      obtain ⟨rfl, isLast⟩ := List.append_inj' same rfl
      obtain rfl := (List.cons.inj isLast).1
      refine .inr ⟨⟨earlier, later, rfl, fun request member => ?_⟩, ?_⟩
      · exact unconcerned request (by simp [member])
      · exact unconcerned request (by simp)
  · rintro (rfl | ⟨⟨earlier, later, rfl, unconcerned⟩, notConcerned⟩)
    · exact ⟨requests, [], rfl, by simp⟩
    · refine ⟨earlier, later ++ [request], by simp, fun other member => ?_⟩
      rcases List.mem_append.mp member with inLater | isLast
      · exact unconcerned other inLater
      · exact List.mem_singleton.mp isLast ▸ notConcerned

/-- To let a file say what it says already changes nothing. -/
theorem node?_eq_ite (graph : Graph) (file other : File.Id) :
    graph.node? other = if other = file then graph.node? file else graph.node? other :=
  (ite_eq_right_iff.mpr fun same => same ▸ rfl).symm

theorem graph_set (cached : CachedGraph) (file : File.Id) (node : Node) :
    (cached.set file node).2.graph.precedence = cached.graph.precedence ∧
      ∀ other, (cached.set file node).2.graph.node? other =
        if other = file then some node else cached.graph.node? other := by
  unfold set
  split
  case isTrue known =>
    exact ⟨rfl, fun other => (node?_eq_ite cached.graph file other).trans (by rw [known])⟩
  case isFalse new => exact ⟨rfl, fun other => cached.graph.nodes.get?_put file other node⟩

theorem graph_erase (cached : CachedGraph) (file : File.Id) :
    (cached.erase file).2.graph.precedence = cached.graph.precedence ∧
      ∀ other, (cached.erase file).2.graph.node? other =
        if other = file then none else cached.graph.node? other := by
  unfold erase
  cases known : cached.graph.node? file with
  | none => exact ⟨rfl, fun other => (node?_eq_ite cached.graph file other).trans (by rw [known])⟩
  | some node => exact ⟨rfl, fun other => cached.graph.nodes.get?_erase file other⟩

theorem graph_closure (cached : CachedGraph) (file : File.Id) :
    (cached.closure file).2.graph = cached.graph := by
  unfold closure
  split <;> rfl

theorem precedence_perform (cached : CachedGraph) (request : Request) :
    (cached.perform request).graph.precedence = cached.graph.precedence := by
  cases request with
  | set file node => exact (cached.graph_set file node).1
  | erase file => exact (cached.graph_erase file).1
  | closure file => exact congrArg Graph.precedence (cached.graph_closure file)
  | resolve name => rfl
  | dependents files => rfl

/-- A request changes only what the file that it concerns says. -/
theorem node?_perform_eq_some_iff (cached : CachedGraph) (request : Request) (file : File.Id)
    (node : Node) :
    (cached.perform request).graph.node? file = some node ↔
      request = .set file node ∨
        cached.graph.node? file = some node ∧ ¬ request.Concerns file := by
  cases request with
  | set other set =>
      rw [perform, (cached.graph_set other set).2]
      by_cases same : file = other
      · simp [same, Request.Concerns]
      · simp [same, Request.Concerns, Ne.symm same]
  | erase other =>
      rw [perform, (cached.graph_erase other).2]
      by_cases same : file = other
      · simp [same, Request.Concerns]
      · simp [same, Request.Concerns, Ne.symm same]
  | closure other => simp [perform, graph_closure, Request.Concerns]
  | resolve name => simp [perform, Request.Concerns]
  | dependents files => simp [perform, Request.Concerns]

theorem run_concat (precedence : Precedence) (requests : List Request) (request : Request) :
    run precedence (requests ++ [request]) = (run precedence requests).perform request :=
  List.foldl_concat ..

theorem precedence_run (precedence : Precedence) (requests : List Request) :
    (run precedence requests).graph.precedence = precedence := by
  induction requests using List.reverseRecOn with
  | nil => rfl
  | append_singleton requests request inductionHypothesis =>
      rw [run_concat, precedence_perform, inductionHypothesis]

/-- The graph after some requests holds the files that are present, with what they say. -/
theorem node?_run_eq_some_iff (precedence : Precedence) (requests : List Request)
    (file : File.Id) (node : Node) :
    (run precedence requests).graph.node? file = some node ↔ Says requests file node := by
  induction requests using List.reverseRecOn with
  | nil => exact iff_of_false (by simp [run, empty, Graph.empty, Graph.node?]) (not_says_nil _ _)
  | append_singleton requests request inductionHypothesis =>
      rw [run_concat, node?_perform_eq_some_iff, says_concat_iff, inductionHypothesis]

/-- Requests after which the files say the same make the same graph. -/
theorem graph_run_eq (precedence : Precedence) {requests others : List Request}
    (same : ∀ file node, Says requests file node ↔ Says others file node) :
    (run precedence requests).graph = (run precedence others).graph := by
  have nodes : (run precedence requests).graph.nodes = (run precedence others).graph.nodes := by
    refine File.Map.ext_get? fun file => Option.ext fun node => ?_
    exact (node?_run_eq_some_iff precedence requests file node).trans
      ((same file node).trans (node?_run_eq_some_iff precedence others file node).symm)
  have precedences := (precedence_run precedence requests).trans
    (precedence_run precedence others).symm
  cases left : (run precedence requests).graph
  cases right : (run precedence others).graph
  rw [left, right] at nodes precedences
  exact congrArg₂ Graph.mk precedences nodes

/-! ## A graph that is told once -/

/-- The requests that tell a graph, once for each file, what the files say. -/
def telling (said : List (File.Id × Node)) : List Request :=
  said.map fun (file, node) => .set file node

/-- Each file that is present after some requests, once, with what it says. -/
structure Lists (said : List (File.Id × Node)) (requests : List Request) : Prop where
  once : (said.map Prod.fst).Nodup
  complete : ∀ file node, (file, node) ∈ said ↔ Says requests file node

theorem exists_lists (requests : List Request) : ∃ said, Lists said requests := by
  let nodes := (run .first requests).graph.nodes
  refine ⟨nodes.entries, nodes.files_ascending.imp Nat.ne_of_lt, fun file node => ?_⟩
  rw [← node?_run_eq_some_iff .first]
  exact (nodes.get?_eq_some_iff file node).symm

/-- Telling each file once tells what each of them says. -/
theorem says_telling_iff {said : List (File.Id × Node)} (once : (said.map Prod.fst).Nodup)
    (file : File.Id) (node : Node) :
    Says (telling said) file node ↔ (file, node) ∈ said := by
  induction said using List.reverseRecOn with
  | nil => exact iff_of_false (not_says_nil file node) List.not_mem_nil
  | append_singleton said last inductionHypothesis =>
      obtain ⟨other, set⟩ := last
      rw [List.map_append, List.nodup_append] at once
      obtain ⟨once, _, apart⟩ := once
      have others : (file, node) ∈ said → other ≠ file := fun member =>
        (apart file (List.mem_map_of_mem member) other (by simp)).symm
      rw [telling, List.map_append, List.map_singleton, says_concat_iff, ← telling,
        inductionHypothesis once, List.mem_append, List.mem_singleton, or_comm]
      refine or_congr (and_iff_left_of_imp others) ?_
      simp [eq_comm]

/-- A graph that is told what the files say, in whatever order, is the graph after the
requests. -/
theorem graph_telling {said : List (File.Id × Node)} {requests : List Request}
    (lists : Lists said requests) (precedence : Precedence) :
    (run precedence (telling said)).graph = (run precedence requests).graph :=
  graph_run_eq precedence fun file node =>
    (says_telling_iff lists.once file node).trans (lists.complete file node)

/-- A present file whose node satisfies a condition, and no such file has a lesser number. -/
def IsLeastSaying (requests : List Request) (condition : Node → Prop) (file : File.Id) : Prop :=
  (∃ node, Says requests file node ∧ condition node) ∧
    ∀ other node, Says requests other node → condition node → file ≤ other

theorem isLeast_run_iff (precedence : Precedence) (requests : List Request)
    (test : Node → Bool) (file : File.Id) :
    (run precedence requests).graph.IsLeast test file ↔
      IsLeastSaying requests (test · = true) file := by
  simp only [Graph.IsLeast, IsLeastSaying, node?_run_eq_some_iff]

theorem hasNone_run_iff (precedence : Precedence) (requests : List Request)
    (test : Node → Bool) :
    (run precedence requests).graph.HasNone test ↔
      ∀ file node, Says requests file node → ¬ test node = true := by
  simp only [Graph.HasNone, node?_run_eq_some_iff, Bool.not_eq_true]

theorem resolve_run_eq_some_iff (precedence : Precedence) (requests : List Request)
    (name : String) (file : File.Id) :
    (run precedence requests).resolve name = some file ↔
      IsLeastSaying requests (·.grammar = some name) file ∨
        (∀ other node, Says requests other node → node.grammar ≠ some name) ∧
          IsLeastSaying requests (·.stem = some name) file := by
  rw [(current_run precedence requests).resolve_eq, Graph.resolve_eq_some_iff, isLeast_run_iff,
    hasNone_run_iff, isLeast_run_iff]
  simp only [Graph.declares, Graph.isNamed, decide_eq_true_eq, ne_eq]

theorem resolve_run_eq_none_iff (precedence : Precedence) (requests : List Request)
    (name : String) :
    (run precedence requests).resolve name = none ↔
      ∀ file node, Says requests file node →
        node.grammar ≠ some name ∧ node.stem ≠ some name := by
  rw [(current_run precedence requests).resolve_eq, Graph.resolve_eq_none_iff, hasNone_run_iff,
    hasNone_run_iff]
  simp only [Graph.declares, Graph.isNamed, decide_eq_true_eq, ne_eq, forall_and]

/-! ## Requests that change nothing -/

theorem set_of_unchanged {file : File.Id} {node : Node}
    (unchanged : (cached.set file node).1 = false) :
    (cached.set file node).2 = cached := by
  unfold set at *
  split at unchanged
  case isTrue known => rw [if_pos known]
  case isFalse new => simp at unchanged

theorem erase_of_unchanged {file : File.Id} (unchanged : (cached.erase file).1 = false) :
    (cached.erase file).2 = cached := by
  unfold erase at *
  cases known : cached.graph.node? file with
  | none => rfl
  | some node => simp [known] at unchanged

theorem says_concat_of_unchanged {precedence : Precedence} {requests : List Request}
    (request : Request)
    (unchanged : (run precedence requests).perform request = run precedence requests)
    (file : File.Id) (node : Node) :
    Says (requests ++ [request]) file node ↔ Says requests file node := by
  rw [← node?_run_eq_some_iff precedence, run_concat, unchanged, node?_run_eq_some_iff]

/-! ## All answers -/

/-- After whatever was asked of it and changed in it, a graph answers like one that was told
once, in whatever order, what the present files say. A name stands for the least present
file that declares it as its grammar, or else for the least with that stem, or else for
none. A change that is said to be none leaves everything as it was. -/
theorem run_answers_for_present_files (precedence : Precedence) (requests : List Request) :
    (∃ said, Lists said requests) ∧
    (∀ said, Lists said requests →
      (∀ file, ((run precedence requests).closure file).1 =
        ((run precedence (telling said)).closure file).1) ∧
      (∀ name, (run precedence requests).resolve name =
        (run precedence (telling said)).resolve name) ∧
      ∀ files, (run precedence requests).dependents files =
        (run precedence (telling said)).dependents files) ∧
    (∀ name file, (run precedence requests).resolve name = some file ↔
      IsLeastSaying requests (·.grammar = some name) file ∨
        (∀ other node, Says requests other node → node.grammar ≠ some name) ∧
          IsLeastSaying requests (·.stem = some name) file) ∧
    (∀ name, (run precedence requests).resolve name = none ↔
      ∀ file node, Says requests file node →
        node.grammar ≠ some name ∧ node.stem ≠ some name) ∧
    (∀ file node, ((run precedence requests).set file node).1 = false →
      ((run precedence requests).set file node).2 = run precedence requests ∧
        ∀ other said,
          Says (requests ++ [.set file node]) other said ↔ Says requests other said) ∧
    ∀ file, ((run precedence requests).erase file).1 = false →
      ((run precedence requests).erase file).2 = run precedence requests ∧
        ∀ other said,
          Says (requests ++ [.erase file]) other said ↔ Says requests other said := by
  refine ⟨exists_lists requests, fun said lists => ?_, resolve_run_eq_some_iff precedence requests,
    resolve_run_eq_none_iff precedence requests, fun file node unchanged => ?_,
    fun file unchanged => ?_⟩
  · have current := current_run precedence requests
    have currentFresh := current_run precedence (telling said)
    have sameGraph := graph_telling lists precedence
    refine ⟨fun file => ?_, fun name => ?_, fun files => ?_⟩
    · rw [current.closure_eq, currentFresh.closure_eq, sameGraph]
    · rw [current.resolve_eq, currentFresh.resolve_eq, sameGraph]
    · rw [current.dependents_eq, currentFresh.dependents_eq, sameGraph]
  · have same := set_of_unchanged unchanged
    exact ⟨same, says_concat_of_unchanged (.set file node) same⟩
  · have same := erase_of_unchanged unchanged
    exact ⟨same, says_concat_of_unchanged (.erase file) same⟩

-- closures that were kept before the imported file came are not answers any more
example :
    let clause : ImportClause := ⟨"L", .delegate, .emptyAt 0, ⟨⟨0, 0⟩, ⟨0, 0⟩⟩⟩
    let early := [.closure 0, .set 0 ⟨none, some "P", [clause]⟩, .closure 0]
    ((run .first (early ++ [.set 1 ⟨some "L", none, []⟩])).closure 0).1.members =
      [⟨1, .all, 1⟩] := by
  decide +kernel

end CachedGraph

end GrammarDesk.Import
