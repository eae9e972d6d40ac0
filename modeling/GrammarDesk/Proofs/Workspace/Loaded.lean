import GrammarDesk.Proofs.Syntax.Lossless
import GrammarDesk.Proofs.Workspace.Edits
import GrammarDesk.Proofs.Workspace.Incremental

/-!
Contract: what is loaded at a path, and what loading and closing do to it.

Owns: which texts can be read, the text and the edits of the file that a path names,
said by the number of the path, and the loaded analyses after a load and after a close.

Does not own: commits (`Batches`), or links (`Incremental`).
-/

namespace GrammarDesk

/-- Whether a text can be read: it begins neither with whitespace nor with a comment. -/
def readable (text : String) : Bool :=
  !Syntax.Parse.beginsWithTrivia (Syntax.Scan.tokenize text)

/-- A text has an analysis exactly if it is readable. -/
theorem Analysis.isSome_ofText? (file : File.Id) (path : File.Path) (version : Nat)
    (text : String) :
    (Analysis.ofText? file path version text).isSome = readable text := by
  have parsed : (Syntax.Parse.ofText? text).isSome = readable text := by
    rw [Syntax.Parse.ofText?_eq]
    unfold readable
    cases Syntax.Parse.beginsWithTrivia (Syntax.Scan.tokenize text) with
    | true => rfl
    | false => rfl
  rw [← parsed]
  unfold Analysis.ofText?
  split
  · rename_i unread
    rw [Option.isSome_eq_false_iff.mpr (Option.isNone_iff_eq_none.mpr unread)]
    rfl
  · rename_i parse isParse
    exact (Option.isSome_of_eq_some isParse).symm

namespace Snapshot

def textAt? (snapshot : Snapshot) (path : File.Path) : Option String :=
  (snapshot.fileAt? path).map fun source => source.analysis.text

end Snapshot

namespace Workspace

/-- The edits of the file that a path names. A path that was never seen has none. -/
def editsAt (workspace : Workspace) (path : File.Path) : Edit.State :=
  match workspace.table.id? path with
  | some file => workspace.editsOf file
  | none => .new

/-! ## By number -/

theorem editsAt_of_id? {workspace : Workspace} {path : File.Path} {file : File.Id}
    (numbered : workspace.table.id? path = some file) :
    workspace.editsAt path = workspace.editsOf file := by
  rw [editsAt, numbered]

theorem editsAt_of_unknown {workspace : Workspace} {path : File.Path}
    (unknown : workspace.table.id? path = none) :
    workspace.editsAt path = .new := by
  rw [editsAt, unknown]

/-- The file loaded at a path is the one loaded at the number of the path. -/
theorem Coherent.fileAt?_eq {workspace : Workspace} (coherent : workspace.Coherent)
    (path : File.Path) :
    workspace.snapshot.fileAt? path =
      (workspace.table.id? path).bind workspace.snapshot.file? := by
  cases found : workspace.snapshot.fileAt? path with
  | some source =>
      obtain ⟨file, loaded⟩ :=
        (File.Map.mem_values_iff _ source).mp (List.mem_of_find?_eq_some found)
      have names : path.same source.path = true := by
        unfold Snapshot.fileAt? at found
        exact List.find?_some (p := fun source : SourceFile => path.same source.path) found
      obtain ⟨_, numbered⟩ := coherent.numbered loaded
      rw [← workspace.table.id?_congr names] at numbered
      rw [numbered]
      exact loaded.symm
  | none =>
      cases numbered : workspace.table.id? path with
      | none => rfl
      | some file =>
          cases loaded : workspace.snapshot.file? file with
          | none => exact loaded.symm
          | some source =>
              have names : path.same source.path = true :=
                workspace.table.same_of_id? numbered (coherent.numbered loaded).2
              have member : source ∈ workspace.snapshot.all :=
                (File.Map.mem_values_iff _ source).mpr ⟨file, loaded⟩
              exact absurd names (List.find?_eq_none.mp found source member)

/-- What is loaded at a path can be told by the number that the path has later. -/
theorem Coherent.fileAt?_of_later {before after : Workspace} (coherent : before.Coherent)
    (continues : Continues before after) {path : File.Path} {file : File.Id}
    (numbered : after.table.id? path = some file) :
    before.snapshot.fileAt? path = before.snapshot.file? file := by
  rw [coherent.fileAt?_eq]
  cases known : before.table.id? path with
  | some other =>
      obtain rfl : other = file := Option.some.inj ((continues.numbers known).symm.trans numbered)
      rfl
  | none =>
      cases loaded : before.snapshot.file? file with
      | none => rfl
      | some source =>
          have ofSource := (coherent.numbered loaded).2
          have names : path.same source.path = true :=
            after.table.same_of_id? numbered (continues.numbers ofSource)
          rw [before.table.id?_congr names, ofSource] at known
          cases known

theorem Coherent.textAt?_of_id? {workspace : Workspace} (coherent : workspace.Coherent)
    {path : File.Path} {file : File.Id} (numbered : workspace.table.id? path = some file) :
    workspace.snapshot.textAt? path =
      (workspace.snapshot.sources.get? file).map fun analysis => analysis.text := by
  rw [Snapshot.textAt?, coherent.fileAt?_eq, numbered, Snapshot.get?_sources, Option.map_map]
  rfl

theorem Coherent.textAt?_of_unknown {workspace : Workspace} (coherent : workspace.Coherent)
    {path : File.Path} (unknown : workspace.table.id? path = none) :
    workspace.snapshot.textAt? path = none := by
  rw [Snapshot.textAt?, coherent.fileAt?_eq, unknown]
  rfl

/-! ## Loading and closing -/

/-- A load replaces what is loaded at its path, unless the text cannot be read. -/
theorem Coherent.sources_load {workspace : Workspace} (coherent : workspace.Coherent)
    (path : File.Path) (text : String) (file : File.Id) :
    (workspace.load path text).2.snapshot.sources.get? file =
      if file = (workspace.table.intern path).1 then
        (Analysis.ofText? file path (workspace.nextVersion file) text).or
          (workspace.snapshot.sources.get? file)
      else
        workspace.snapshot.sources.get? file := by
  rw [load_eq]
  split
  · rename_i unreadable
    by_cases here : file = (workspace.table.intern path).1
    · rw [if_pos here, here, unreadable]
      rfl
    · rw [if_neg here]
      rfl
  · rename_i analysis read
    have isFile := (Analysis.of_ofText? read).1
    rw [(coherent.opened path).sources_install (numbered_opened read)]
    show (File.Map.put _ analysis.file analysis).get? _ = _
    rw [File.Map.get?_put, isFile]
    by_cases here : file = (workspace.table.intern path).1
    · rw [if_pos here, if_pos here, here, read]
      rfl
    · rw [if_neg here, if_neg here]
      rfl

def closing (workspace : Workspace) (file : File.Id) : Workspace :=
  { workspace.resetEdits file with changed := (workspace.changed ++ [file]).eraseDups }

/-- Closing publishes only if the file is loaded; else it forgets the edits of a known file. -/
theorem close_eq (workspace : Workspace) (path : File.Path) :
    (workspace.close path).2 =
      match workspace.table.id? path with
      | none => workspace
      | some file =>
          if (workspace.snapshot.file? file).isNone then
            workspace.resetEdits file
          else
            ((workspace.closing file).publish (workspace.snapshot.sources.erase file) []
              (workspace.graph.dependents [file])).2 := by
  unfold Workspace.close
  cases workspace.table.id? path with
  | none => rfl
  | some file =>
      dsimp only
      split
      · rfl
      · rfl

theorem get?_of_erase {workspace : Workspace} {closed file : File.Id} {analysis : Analysis}
    (listed : (workspace.snapshot.sources.erase closed).get? file = some analysis) :
    file ≠ closed ∧ workspace.snapshot.sources.get? file = some analysis := by
  rw [File.Map.get?_erase] at listed
  by_cases isClosed : file = closed
  · simp [isClosed] at listed
  · rw [if_neg isClosed] at listed
    exact ⟨isClosed, listed⟩

/-- What is loaded once a file has been closed, whatever else is linked then. -/
theorem Coherent.sources_closing {workspace : Workspace} (coherent : workspace.Coherent)
    (closed : File.Id) (reached : List File.Id) :
    ((workspace.closing closed).publish (workspace.snapshot.sources.erase closed) []
      reached).2.snapshot.sources = workspace.snapshot.sources.erase closed :=
  sources_publish (fun listed => (coherent.numbered_sources (get?_of_erase listed).2).1)
    fun listed _ _ => (get?_of_erase listed).2

/-- A close takes away what is loaded at its path and nothing else. -/
theorem Coherent.sources_close {workspace : Workspace} (coherent : workspace.Coherent)
    (path : File.Path) (file : File.Id) :
    (workspace.close path).2.snapshot.sources.get? file =
      if workspace.table.id? path = some file then
        none
      else
        workspace.snapshot.sources.get? file := by
  rw [close_eq]
  cases workspace.table.id? path with
  | none => rfl
  | some closed =>
      simp only [Option.some.injEq]
      split
      · rename_i notLoaded
        have notListed : workspace.snapshot.sources.get? closed = none := by
          rw [Snapshot.get?_sources, Option.isNone_iff_eq_none.mp notLoaded]
          rfl
        by_cases here : closed = file
        · rw [if_pos here, ← here]
          exact notListed
        · rw [if_neg here]
          rfl
      · rw [coherent.sources_closing, File.Map.get?_erase]
        simp only [eq_comm]

end Workspace

end GrammarDesk
