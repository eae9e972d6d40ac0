import Mathlib.Data.List.Basic
import GrammarDesk.Proofs.Symbol.Renumber
import GrammarDesk.Reference.Bind

/-!
Contract: the references of a file when files get other numbers.

Owns: resolutions, references and scopes with their files renumbered, and the proof that
binding looks at the numbers of files only to count the files that declare a name.

Does not own: the import closure that a scope is made of (`Import`).

Main statement: `Binder.bind_renumber`.
-/

namespace GrammarDesk

open Text

/-! ## Renumbering -/

def Resolution.renumber (rename : File.Id → File.Id) : Resolution → Resolution
  | .resolved targets => .resolved (targets.map (Symbol.renumber rename))
  | .builtIn => .builtIn
  | .unresolved => .unresolved

def Reference.renumber (rename : File.Id → File.Id) (reference : Reference) : Reference :=
  { reference with
    file := rename reference.file
    resolution := reference.resolution.renumber rename }

def ImportedTable.renumber (rename : File.Id → File.Id) (entry : ImportedTable) :
    ImportedTable :=
  { entry with
    file := rename entry.file
    table := entry.table.renumber rename }

def Scope.renumber (rename : File.Id → File.Id) (scope : Scope) : Scope :=
  { table := scope.table.renumber rename
    closure := scope.closure.map (ImportedTable.renumber rename)
    grammars := scope.grammars.map (Prod.map id (Symbol.renumber rename)) }

def Binder.renumber (rename : File.Id → File.Id) (binder : Binder) : Binder :=
  { binder with
    file := rename binder.file
    scope := binder.scope.renumber rename }

/-! ## Lookups -/

theorem lookup_map_snd {Value Other : Type} (change : Value → Other) (name : String)
    (entries : List (String × Value)) :
    (entries.map (Prod.map id change)).lookup name = (entries.lookup name).map change := by
  induction entries with
  | nil => rfl
  | cons entry rest inductionHypothesis =>
      obtain ⟨key, value⟩ := entry
      rw [List.map_cons, List.lookup_cons, Prod.map_apply, id_eq, List.lookup_cons,
        inductionHypothesis]
      cases name == key with
      | true => rfl
      | false => rfl

namespace Scope

variable (rename : File.Id → File.Id)

theorem accepts_renumber (kind : ReferenceKind) (symbol : Symbol) :
    kind.accepts (symbol.renumber rename) = kind.accepts symbol := by
  cases kind with
  | _ => rfl

theorem shows_renumber (visibility : Visibility) (symbol : Symbol) :
    visibility.shows (symbol.renumber rename) = visibility.shows symbol := by
  cases visibility with
  | _ => rfl

theorem candidates_renumber (table : SymbolTable) (visibility : Visibility)
    (kind : ReferenceKind) (name : String) :
    candidates (table.renumber rename) visibility kind name =
      (candidates table visibility kind name).map (Symbol.renumber rename) := by
  have filtered : ∀ symbols : List Symbol,
      (symbols.map (Symbol.renumber rename)).filter
          (fun symbol => kind.accepts symbol && visibility.shows symbol) =
        (symbols.filter fun symbol => kind.accepts symbol && visibility.shows symbol).map
          (Symbol.renumber rename) := by
    intro symbols
    rw [List.filter_map]
    congr 2
    funext symbol
    rw [Function.comp_apply, accepts_renumber, shows_renumber]
  -- what a symbol is called does not depend on its file
  have named : (table.renumber rename).lookup name =
      (table.lookup name).map (Symbol.renumber rename) := List.filter_map
  have literal : (table.renumber rename).lookupLiteral name =
      (table.lookupLiteral name).map (Symbol.renumber rename) := List.filter_map
  unfold candidates
  dsimp only
  rw [named, literal]
  cases kind with
  | _ => exact filtered _

theorem resolvedTo_renumber (targets : List Symbol) :
    resolvedTo (targets.map (Symbol.renumber rename)) =
      (resolvedTo targets).renumber rename := by
  cases targets with
  | nil => rfl
  | cons target rest => rfl

theorem lookup_renumber (scope : Scope) (kind : ReferenceKind) (name : String) :
    (scope.renumber rename).lookup kind name = (scope.lookup kind name).renumber rename := by
  have own : candidates (scope.renumber rename).table .all kind name =
      (candidates scope.table .all kind name).map (Symbol.renumber rename) :=
    candidates_renumber rename scope.table .all kind name
  have imported : ((scope.renumber rename).closure.flatMap fun entry =>
      candidates entry.table entry.visibility kind name) =
      (scope.closure.flatMap fun entry =>
        candidates entry.table entry.visibility kind name).map (Symbol.renumber rename) := by
    show (scope.closure.map (ImportedTable.renumber rename)).flatMap _ = _
    rw [List.flatMap_map, List.map_flatMap]
    exact List.flatMap_congr fun entry _ =>
      candidates_renumber rename entry.table entry.visibility kind name
  have grammar : ((scope.renumber rename).grammars.lookup name).toList =
      (scope.grammars.lookup name).toList.map (Symbol.renumber rename) := by
    show ((scope.grammars.map (Prod.map id (Symbol.renumber rename))).lookup name).toList = _
    rw [lookup_map_snd]
    cases scope.grammars.lookup name with
    | none => rfl
    | some symbol => rfl
  unfold lookup
  rw [own, imported, grammar, resolvedTo_renumber, resolvedTo_renumber]
  split
  · rfl
  · split
    · rfl
    · cases candidates scope.table .all kind name with
      | nil => rfl
      | cons first rest => rfl

end Scope

/-! ## Counting files -/

namespace Resolution

variable {rename : File.Id → File.Id}

theorem eraseDups_map (injective : Function.Injective rename) :
    ∀ files : List File.Id, (files.map rename).eraseDups = files.eraseDups.map rename
  | [] => rfl
  | file :: rest => by
      have sameTest : (fun other => !other == rename file) ∘ rename =
          fun other => !other == file := by
        funext other
        simp [injective.eq_iff]
      rw [List.map_cons, List.eraseDups_cons, List.eraseDups_cons, List.filter_map, sameTest,
        eraseDups_map injective, List.map_cons]
termination_by files => files.length
decreasing_by exact Nat.lt_succ_of_le (List.length_filter_le _ _)

theorem files_renumber (injective : Function.Injective rename) (resolution : Resolution) :
    (resolution.renumber rename).files = resolution.files.map rename := by
  cases resolution with
  | resolved targets =>
      have sameFiles : ((targets.map (Symbol.renumber rename)).map fun symbol => symbol.file) =
          (targets.map fun symbol => symbol.file).map rename := by
        rw [List.map_map, List.map_map]
        rfl
      exact (congrArg List.eraseDups sameFiles).trans (eraseDups_map injective _)
  | builtIn => rfl
  | unresolved => rfl

theorem targets_renumber (resolution : Resolution) :
    (resolution.renumber rename).targets =
      resolution.targets.map (Symbol.renumber rename) := by
  cases resolution with
  | resolved targets => rfl
  | builtIn => rfl
  | unresolved => rfl

theorem renumber_eq_unresolved_iff (resolution : Resolution) :
    resolution.renumber rename = .unresolved ↔ resolution = .unresolved := by
  cases resolution with
  | resolved targets => simp [renumber]
  | builtIn => simp [renumber]
  | unresolved => simp [renumber]

end Resolution

/-! ## Binding -/

namespace Binder

variable {rename : File.Id → File.Id} (binder : Binder) (use : Use)

theorem report_renumber (kind : DiagnosticKind) (message : String) :
    (binder.renumber rename).report use kind message =
      (binder.report use kind message).renumber rename := rfl

theorem resolutionOf_renumber :
    (binder.renumber rename).resolutionOf use =
      (binder.resolutionOf use).renumber rename := by
  have found : (binder.renumber rename).scope.lookup use.kind use.name.text =
      (binder.scope.lookup use.kind use.name.text).renumber rename :=
    Scope.lookup_renumber rename binder.scope use.kind use.name.text
  have sameKind : (binder.renumber rename).scope.table.grammarKind =
      binder.scope.table.grammarKind := rfl
  unfold resolutionOf
  dsimp only
  rw [found, sameKind]
  simp only [Resolution.renumber_eq_unresolved_iff]
  split
  · rfl
  · rfl

theorem reference_renumber :
    (binder.renumber rename).reference use = (binder.reference use).renumber rename := by
  unfold reference
  rw [resolutionOf_renumber]
  rfl

theorem unresolvedReports_renumber :
    (binder.renumber rename).unresolvedReports use =
      (binder.unresolvedReports use).map (Diagnostic.renumber rename) := by
  have sameChoice : (binder.renumber rename).reportImports = binder.reportImports := rfl
  unfold unresolvedReports
  rw [sameChoice]
  cases use.kind with
  | grammar =>
      dsimp only
      split
      · rfl
      · rfl
  | literal => rfl
  | rule => rfl
  | token => rfl
  | mode => rfl
  | channel => rfl

theorem ambiguityReports_renumber (injective : Function.Injective rename)
    (resolution : Resolution) :
    (binder.renumber rename).ambiguityReports use (resolution.renumber rename) =
      (binder.ambiguityReports use resolution).map (Diagnostic.renumber rename) := by
  have sameCount : (resolution.renumber rename).files.length = resolution.files.length := by
    rw [Resolution.files_renumber injective, List.length_map]
  unfold ambiguityReports Resolution.isAmbiguous
  dsimp only
  rw [sameCount, Resolution.targets_renumber, List.map_map]
  split
  · simp only [List.map_cons, List.map_nil, Diagnostic.renumber_relatedTo, List.map_map,
      report_renumber]
    rfl
  · rfl

theorem misuseReports_renumber (resolution : Resolution) :
    (binder.renumber rename).misuseReports use (resolution.renumber rename) =
      (binder.misuseReports use resolution).map (Diagnostic.renumber rename) := by
  have definition : (resolution.renumber rename).definition =
      resolution.definition.map (Symbol.renumber rename) := by
    rw [Resolution.definition, Resolution.targets_renumber, List.head?_map]
    rfl
  unfold misuseReports
  rw [definition]
  cases resolution.definition with
  | none =>
      cases use.kind with
      | _ => rfl
  | some target =>
      have sameFragment : (target.renumber rename).isFragment = target.isFragment := rfl
      have sameKind : (target.renumber rename).kind = target.kind := rfl
      cases kind : use.kind with
      | grammar => rfl
      | literal => rfl
      | _ =>
          simp only [Option.map_some, sameFragment, sameKind]
          split
          · rfl
          · split
            · rfl
            · rfl

theorem reports_renumber (injective : Function.Injective rename) :
    (binder.renumber rename).reports use =
      (binder.reports use).map (Diagnostic.renumber rename) := by
  unfold reports
  rw [resolutionOf_renumber]
  cases binder.resolutionOf use with
  | unresolved => exact unresolvedReports_renumber binder use
  | builtIn => rfl
  | resolved targets =>
      have ambiguity := ambiguityReports_renumber binder use injective (.resolved targets)
      have misuse : (binder.renumber rename).misuseReports use _ = _ :=
        misuseReports_renumber binder use (.resolved targets)
      dsimp only [Resolution.renumber] at ambiguity misuse ⊢
      rw [ambiguity, misuse]
      split
      · rfl
      · exact List.map_append.symm

/-- A file whose scope is renumbered binds its names to the renumbered declarations, and
reports the same. -/
theorem bind_renumber (injective : Function.Injective rename) (uses : List Use) :
    (binder.renumber rename).bind uses =
      ((binder.bind uses).1.map (Reference.renumber rename),
        (binder.bind uses).2.map (Diagnostic.renumber rename)) := by
  unfold bind
  rw [List.map_map, List.map_flatMap]
  refine Prod.ext ?_ ?_
  · exact List.map_congr_left fun use _ => reference_renumber binder use
  · exact List.flatMap_congr fun use _ => reports_renumber binder use injective

end Binder

end GrammarDesk
