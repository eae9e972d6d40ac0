import Mathlib.Data.Finset.Card
import GrammarDesk.Proofs.Graph.Search
import GrammarDesk.Proofs.Lists
import GrammarDesk.Proofs.Reference.Sites
import GrammarDesk.Reference.Bind
import GrammarDesk.Workspace.Analysis

/-!
Contract: the references of a file and the reports about them, told by the sites of its tree.

Owns: which reports a reference warrants, and the proof that binding the uses of a text gives
one reference for each of its sites, and just the reports that these references warrant.

Does not own: where the sites of a tree are (`Sites`).

Main statement: `Binder.bind_matches`.
-/

namespace GrammarDesk

open Text Grammar Syntax

/-! ## What is to be reported -/

namespace Resolution

def SeveralFiles (resolution : Resolution) : Prop :=
  ∃ left ∈ resolution.targets, ∃ right ∈ resolution.targets, left.file ≠ right.file

end Resolution

namespace Reference

def Warrants (reference : Reference) (inLexerRule reportImports : Bool) : DiagnosticKind → Prop
  | .unresolvedReference =>
      reference.resolution = .unresolved ∧
        (reference.kind = .rule ∨ reference.kind = .token ∨ reference.kind = .mode ∨
          reference.kind = .channel)
  | .unresolvedImport =>
      reference.resolution = .unresolved ∧ reference.kind = .grammar ∧ reportImports = true
  | .implicitTokenInParser => reference.resolution = .unresolved ∧ reference.kind = .literal
  | .ambiguousReference => reference.resolution.SeveralFiles
  | .fragmentInParserRule =>
      inLexerRule = false ∧ reference.kind = .token ∧
        ∃ target, reference.resolution.definition = some target ∧ target.isFragment = true
  | .parserRuleInLexerRule =>
      inLexerRule = true ∧
        ∃ target, reference.resolution.definition = some target ∧ target.kind = .parserRule
  | _ => False

end Reference

def SymbolTable.DeclaredIn (table : SymbolTable) (file : File.Id) : Prop :=
  ∀ symbol ∈ table.symbols, symbol.file = file

/-- The own table has no declaration of the name, and the definition is the first that the
earliest table of the closure shows in which there is any. -/
structure Scope.Imports (scope : Scope) (kind : ReferenceKind) (name : String)
    (resolution : Resolution) : Prop where
  own : candidates scope.table .all kind name = []
  definition : ∃ before entry after target others,
    scope.closure = before ++ entry :: after ∧
      (∀ earlier ∈ before, candidates earlier.table earlier.visibility kind name = []) ∧
      candidates entry.table entry.visibility kind name = target :: others ∧
      resolution.definition = some target

namespace Binder

/-- The reference is the one that a site makes, bound to what its name means. -/
structure Refers (binder : Binder) (site : Use) (reference : Reference) : Prop where
  file : reference.file = binder.file
  kind : reference.kind = site.kind
  name : reference.name = site.name.text
  range : reference.range = site.name.range
  span : reference.span = binder.index.cutSpan site.name.range
  rule : reference.rule = site.rule
  resolution : reference.resolution = binder.resolutionOf site

/-- There is one report of each wanted kind and no other, all at the place of a site. -/
structure ReportsEach (binder : Binder) (site : Use) (wanted : DiagnosticKind → Prop)
    (reports : List Diagnostic) : Prop where
  once : (reports.map Diagnostic.kind).Nodup
  kinds : ∀ kind, kind ∈ reports.map Diagnostic.kind ↔ wanted kind
  places : ∀ report ∈ reports, report.file = binder.file ∧ report.range = site.name.range ∧
    report.span = binder.index.cutSpan site.name.range

/-- The reports about a reference are those that it warrants at its site. -/
def Reported (binder : Binder) (made : Use × Reference) (reports : List Diagnostic) : Prop :=
  binder.ReportsEach made.1 (made.2.Warrants made.1.inLexerRule binder.reportImports) reports

/-- The references and reports of a tree match its sites. -/
structure Matches (binder : Binder) (tree : ParseTree)
    (bound : List Reference × List Diagnostic) : Prop where
  references : List.Forall₂ binder.Refers (Use.sites tree) bound.1
  reports : ∃ groups, bound.2 = groups.flatten ∧
    List.Forall₂ binder.Reported ((Use.sites tree).zip bound.1) groups
  literals : ∀ reference ∈ bound.1, reference.kind = .literal →
    reference.resolution = .unresolved → binder.scope.table.grammarKind = .parser
  ambiguous : ∀ reference ∈ bound.1, reference.resolution.SeveralFiles →
    binder.scope.Imports reference.kind reference.name reference.resolution

end Binder

/-! ## Sites in lexer rules -/

namespace Use

theorem argumentKind?_ne {word : String} {kind : ReferenceKind}
    (means : argumentKind? word = some kind) : kind ≠ .literal ∧ kind ≠ .grammar := by
  unfold argumentKind? at means
  split at means
  case h_5 => cases means
  all_goals
    obtain rfl := Option.some.inj means
    exact ⟨nofun, nofun⟩

/-- In a lexer rule only rules, tokens, modes and channels are referred to. -/
theorem kind_of_mem_bodySites {tree : ParseTree} {site : ReferenceKind × Name}
    (isSite : site ∈ bodySites true tree) : site.1 ≠ .literal ∧ site.1 ≠ .grammar := by
  induction tree using ParseTree.induction with
  | leaf token => cases isSite
  | node kind range parts inductionHypothesis =>
      rw [bodySites.eq_def] at isSite
      dsimp only at isSite
      split at isSite
      case h_1 =>
        obtain ⟨token, _, rfl⟩ := List.mem_map.mp isSite
        exact ⟨nofun, nofun⟩
      case h_2 =>
        obtain ⟨token, _, rfl⟩ := List.mem_map.mp isSite
        exact ⟨nofun, nofun⟩
      case h_3 => cases isSite
      case h_4 =>
        have isCommand := Option.mem_toList.mp isSite
        simp only [commandSite?, Option.bind_eq_bind,
          Option.bind_eq_some_iff] at isCommand
        obtain ⟨word, _, kind, means, name, _, isPair⟩ := isCommand
        obtain rfl := Option.some.inj isPair
        exact argumentKind?_ne means
      case h_5 =>
        rw [bodySitesOf_eq_flatMap] at isSite
        obtain ⟨part, isPart, isSite⟩ := List.mem_flatMap.mp isSite
        exact inductionHypothesis part isPart isSite

/-- What a lexer rule uses is neither a literal nor a grammar. -/
theorem kind_of_mem_sites {tree : ParseTree} {site : Use} (isSite : site ∈ sites tree)
    (inLexerRule : site.inLexerRule = true) : site.kind ≠ .literal ∧ site.kind ≠ .grammar := by
  induction tree using ParseTree.induction with
  | leaf token => cases isSite
  | node kind range parts inductionHypothesis =>
      rw [sites.eq_def] at isSite
      dsimp only at isSite
      split at isSite
      case h_1 =>
        obtain ⟨use, _, rfl⟩ := List.mem_map.mp isSite
        cases inLexerRule
      case h_2 =>
        obtain ⟨use, isUse, rfl⟩ := List.mem_map.mp isSite
        rw [bodySitesOf_eq_flatMap] at isUse
        obtain ⟨part, _, isUse⟩ := List.mem_flatMap.mp isUse
        exact kind_of_mem_bodySites isUse
      case h_3 =>
        obtain ⟨name, _, rfl⟩ := List.mem_map.mp isSite
        cases inLexerRule
      case h_4 =>
        obtain ⟨name, _, rfl⟩ := List.mem_map.mp isSite
        cases inLexerRule
      case h_5 =>
        rw [sitesOf_eq_flatMap] at isSite
        obtain ⟨part, isPart, isSite⟩ := List.mem_flatMap.mp isSite
        exact inductionHypothesis part isPart isSite

end Use

/-! ## Lookups -/

namespace Resolution

theorem isAmbiguous_iff (resolution : Resolution) :
    resolution.isAmbiguous = true ↔ resolution.SeveralFiles := by
  have distinct : resolution.files.Nodup := Graph.nodup_eraseDups _
  unfold isAmbiguous
  rw [decide_eq_true_eq, ← List.toFinset_card_of_nodup distinct, Finset.one_lt_card]
  simp only [files, List.mem_toFinset, List.mem_eraseDups, List.mem_map, SeveralFiles,
    exists_exists_and_eq_and]

theorem not_severalFiles_of_file {resolution : Resolution} {file : File.Id}
    (declared : ∀ target ∈ resolution.targets, target.file = file) :
    ¬ resolution.SeveralFiles := by
  rintro ⟨left, isLeft, right, isRight, differ⟩
  exact differ ((declared left isLeft).trans (declared right isRight).symm)

/-- A single definition lies in a single file. -/
theorem not_severalFiles_of_single {resolution : Resolution}
    (single : resolution.targets.length ≤ 1) : ¬ resolution.SeveralFiles := by
  rintro ⟨left, isLeft, right, isRight, differ⟩
  cases targets : resolution.targets with
  | nil =>
      rw [targets] at isLeft
      cases isLeft
  | cons target others =>
      rw [targets] at single isLeft isRight
      obtain rfl := List.eq_nil_of_length_eq_zero (Nat.le_zero.mp (Nat.le_of_succ_le_succ single))
      obtain rfl := List.mem_singleton.mp isLeft
      obtain rfl := List.mem_singleton.mp isRight
      exact differ rfl

end Resolution

namespace Scope

variable {scope : Scope} {kind : ReferenceKind} {name : String} {targets : List Symbol}

theorem resolvedTo_eq_resolved_iff {found : List Symbol} :
    resolvedTo found = .resolved targets ↔ found = targets ∧ targets ≠ [] := by
  cases found with
  | nil =>
      constructor
      · intro resolved
        cases resolved
      · rintro ⟨rfl, nonempty⟩
        exact absurd rfl nonempty
  | cons first others =>
      constructor
      · intro resolved
        obtain rfl := Resolution.resolved.inj resolved
        exact ⟨rfl, List.cons_ne_nil _ _⟩
      · rintro ⟨rfl, _⟩
        rfl

/-- Where what was found comes from: the grammar of a name, the own table, or else the
closure. -/
theorem source_of_lookup (found : scope.lookup kind name = .resolved targets) :
    (kind = .grammar ∧ targets.length ≤ 1) ∨
      (kind ≠ .grammar ∧
        (candidates scope.table .all kind name = targets ∨
          (candidates scope.table .all kind name = [] ∧ targets ≠ [] ∧
            (scope.closure.flatMap fun entry =>
              candidates entry.table entry.visibility kind name) = targets))) := by
  unfold lookup at found
  split at found
  · cases found
  · split at found
    case isTrue isGrammar =>
      obtain ⟨rfl, _⟩ := resolvedTo_eq_resolved_iff.mp found
      cases scope.grammars.lookup name with
      | none => exact .inl ⟨isGrammar, Nat.zero_le _⟩
      | some symbol => exact .inl ⟨isGrammar, Nat.le_refl _⟩
    case isFalse noGrammar =>
      refine .inr ⟨noGrammar, ?_⟩
      split at found
      case h_1 none =>
        obtain ⟨isFound, nonempty⟩ := resolvedTo_eq_resolved_iff.mp found
        exact .inr ⟨none, nonempty, isFound⟩
      case h_2 => exact .inl (Resolution.resolved.inj found)

theorem length_le_of_lookup_grammar (found : scope.lookup .grammar name = .resolved targets) :
    targets.length ≤ 1 := by
  obtain ⟨_, single⟩ | ⟨noGrammar, _⟩ := source_of_lookup found
  · exact single
  · exact absurd rfl noGrammar

theorem mem_symbols_of_mem_candidates {table : SymbolTable} {visibility : Visibility}
    {symbol : Symbol} (isCandidate : symbol ∈ candidates table visibility kind name) :
    symbol ∈ table.symbols := by
  have isNamed := (List.mem_filter.mp isCandidate).1
  cases kind
  all_goals exact (List.mem_filter.mp isNamed).1

/-- What several files declare is not declared in the own file, but in the closure. -/
theorem imports_of_several {file : File.Id} (declared : scope.table.DeclaredIn file)
    (found : scope.lookup kind name = .resolved targets)
    (several : (Resolution.resolved targets).SeveralFiles) :
    scope.Imports kind name (.resolved targets) := by
  obtain ⟨_, single⟩ | ⟨_, own | ⟨none, nonempty, imported⟩⟩ := source_of_lookup found
  · exact absurd several (Resolution.not_severalFiles_of_single single)
  · have inFile : ∀ target ∈ targets, target.file = file := fun target isTarget =>
      declared target (mem_symbols_of_mem_candidates (own ▸ isTarget))
    exact absurd several (Resolution.not_severalFiles_of_file inFile)
  · obtain ⟨target, others, rfl⟩ := List.exists_cons_of_ne_nil nonempty
    obtain ⟨before, entry, after, rest, whole, nothing, isFirst⟩ :=
      exists_first_of_flatMap imported
    exact ⟨none, before, entry, after, target, rest, whole, nothing, isFirst, rfl⟩

end Scope

namespace Declare

variable {scope : Declare.Scope}

/-- A symbol that is declared in the file of the scope, at the span of its name. -/
structure Scope.Places (scope : Declare.Scope) (symbol : Symbol) : Prop where
  file : symbol.file = scope.file
  span : symbol.span = scope.index.cutSpan symbol.range

theorem places_of_mem_named {kind : SymbolKind} {name : Option Name} {declaration : Range}
    {symbol : Symbol} (isSymbol : symbol ∈ scope.named kind name declaration) :
    scope.Places symbol := by
  unfold Declare.Scope.named at isSymbol
  split at isSymbol
  · split at isSymbol
    · cases isSymbol
    · obtain rfl := List.mem_singleton.mp isSymbol
      exact ⟨rfl, rfl⟩
  · cases isSymbol

theorem places_of_mem_ruleSymbols {mode : Option Name} {entry : DocumentedRule} {symbol : Symbol}
    (isSymbol : symbol ∈ ruleSymbols scope mode entry) : scope.Places symbol := by
  obtain ⟨plain, isPlain, rfl⟩ := List.mem_map.mp isSymbol
  obtain ⟨file, span⟩ := places_of_mem_named isPlain
  exact ⟨file, span⟩

/-- A symbol of a member stands in the file of its scope, at the place of its name there. -/
theorem places_of_mem_symbolsOf {member : Member} {symbol : Symbol}
    (isSymbol : symbol ∈ symbolsOf scope member) : scope.Places symbol := by
  cases member with
  | header written =>
      obtain ⟨plain, isPlain, rfl⟩ := List.mem_map.mp isSymbol
      obtain ⟨file, span⟩ := places_of_mem_named isPlain
      exact ⟨file, span⟩
  | options range settings => cases isSymbol
  | imports range items =>
      obtain ⟨item, _, isSymbol⟩ := List.mem_flatMap.mp isSymbol
      unfold importSymbols at isSymbol
      split at isSymbol
      · cases isSymbol
      · split at isSymbol
        · exact places_of_mem_named isSymbol
        · obtain rfl := List.mem_singleton.mp isSymbol
          exact ⟨rfl, rfl⟩
  | tokens range entries =>
      obtain ⟨entry, _, isSymbol⟩ := List.mem_flatMap.mp isSymbol
      exact places_of_mem_named isSymbol
  | channels range entries =>
      obtain ⟨entry, _, isSymbol⟩ := List.mem_flatMap.mp isSymbol
      exact places_of_mem_named isSymbol
  | namedAction range name =>
      cases name with
      | none => cases isSymbol
      | some name =>
          obtain rfl := List.mem_singleton.mp isSymbol
          exact ⟨rfl, rfl⟩
  | rule entry => exact places_of_mem_ruleSymbols isSymbol
  | mode written =>
      rcases List.mem_append.mp isSymbol with isMode | isRule
      · obtain ⟨plain, isPlain, rfl⟩ := List.mem_map.mp isMode
        obtain ⟨file, span⟩ := places_of_mem_named isPlain
        exact ⟨file, span⟩
      · obtain ⟨entry, _, isSymbol⟩ := List.mem_flatMap.mp isRule
        exact places_of_mem_ruleSymbols isSymbol

/-- What the members of a file declare is declared in that file. -/
theorem declaredIn_table (file : File.Id) (index : LineIndex) (members : List Member) :
    (table file index members).1.DeclaredIn file := by
  intro symbol isSymbol
  obtain ⟨member, _, isSymbol⟩ := List.mem_flatMap.mp isSymbol
  exact (places_of_mem_symbolsOf isSymbol).file

theorem span_of_mem_table {file : File.Id} {index : LineIndex} {members : List Member}
    {symbol : Symbol} (isSymbol : symbol ∈ (table file index members).1.symbols) :
    symbol.span = index.cutSpan symbol.range := by
  obtain ⟨member, _, isSymbol⟩ := List.mem_flatMap.mp isSymbol
  exact (places_of_mem_symbolsOf isSymbol).span

end Declare

/-! ## Reports of one site -/

namespace Binder

variable {binder : Binder} {site : Use}

theorem lookup_of_resolved {targets : List Symbol}
    (resolved : binder.resolutionOf site = .resolved targets) :
    binder.scope.lookup site.kind site.name.text = .resolved targets := by
  unfold resolutionOf at resolved
  dsimp only at resolved
  split at resolved
  · cases resolved
  · exact resolved

/-- A literal that nothing declares defines its own token, except in a parser grammar. -/
theorem grammarKind_of_unresolved (isLiteral : site.kind = .literal)
    (unresolved : binder.resolutionOf site = .unresolved) :
    binder.scope.table.grammarKind = .parser := by
  unfold resolutionOf at unresolved
  dsimp only at unresolved
  split at unresolved
  · cases unresolved
  case isFalse declared =>
    by_contra noParser
    exact declared ⟨isLiteral, unresolved, noParser⟩

/-! ### Wanted reports -/

theorem ReportsEach.congr {wanted other : DiagnosticKind → Prop} {reports : List Diagnostic}
    (each : binder.ReportsEach site wanted reports) (same : ∀ kind, wanted kind ↔ other kind) :
    binder.ReportsEach site other reports :=
  ⟨each.once, fun kind => (each.kinds kind).trans (same kind), each.places⟩

theorem reportsEach_nil {wanted : DiagnosticKind → Prop} (nothing : ∀ kind, ¬ wanted kind) :
    binder.ReportsEach site wanted [] :=
  ⟨List.nodup_nil, fun kind => iff_of_false List.not_mem_nil (nothing kind),
    List.forall_mem_nil _⟩

theorem reportsEach_one (kind : DiagnosticKind) (message : String)
    (places : List RelatedPlace) :
    binder.ReportsEach site (fun other => other = kind)
      [(binder.report site kind message).relatedTo places] :=
  ⟨List.nodup_singleton _, fun _ => List.mem_singleton,
    List.forall_mem_singleton.mpr ⟨rfl, rfl, rfl⟩⟩

/-- Reports of kinds that exclude each other may be put one after the other. -/
theorem ReportsEach.append {wanted others : DiagnosticKind → Prop} {left right : List Diagnostic}
    (eachLeft : binder.ReportsEach site wanted left)
    (eachRight : binder.ReportsEach site others right)
    (apart : ∀ kind, wanted kind → ¬ others kind) :
    binder.ReportsEach site (fun kind => wanted kind ∨ others kind) (left ++ right) where
  once := by
    rw [List.map_append, List.nodup_append]
    refine ⟨eachLeft.once, eachRight.once, fun left isLeft right isRight same => ?_⟩
    subst same
    exact apart left ((eachLeft.kinds left).mp isLeft) ((eachRight.kinds left).mp isRight)
  kinds := by
    intro kind
    rw [List.map_append, List.mem_append, eachLeft.kinds, eachRight.kinds]
  places := List.forall_mem_append.mpr ⟨eachLeft.places, eachRight.places⟩

/-! ### Warranted reports -/

theorem warrants_of_unresolved {reference : Reference} {inLexerRule reportImports : Bool}
    (unresolved : reference.resolution = .unresolved) (kind : DiagnosticKind) :
    reference.Warrants inLexerRule reportImports kind ↔
      match reference.kind with
      | .grammar => kind = .unresolvedImport ∧ reportImports = true
      | .literal => kind = .implicitTokenInParser
      | _ => kind = .unresolvedReference := by
  cases kind
  all_goals
    cases own : reference.kind <;>
      simp [Reference.Warrants, unresolved, own, Resolution.SeveralFiles, Resolution.targets,
        Resolution.definition]

theorem not_warrants_of_builtIn {reference : Reference} {inLexerRule reportImports : Bool}
    (builtIn : reference.resolution = .builtIn) (kind : DiagnosticKind) :
    ¬ reference.Warrants inLexerRule reportImports kind := by
  cases kind <;>
    simp [Reference.Warrants, builtIn, Resolution.SeveralFiles, Resolution.targets,
      Resolution.definition]

/-- What is to be reported about the definition of a reference. -/
def Misused (site : Use) (resolution : Resolution) (kind : DiagnosticKind) : Prop :=
  (kind = .fragmentInParserRule ∧ site.inLexerRule = false ∧ site.kind = .token ∧
      ∃ target, resolution.definition = some target ∧ target.isFragment = true) ∨
    kind = .parserRuleInLexerRule ∧ site.inLexerRule = true ∧
      ∃ target, resolution.definition = some target ∧ target.kind = .parserRule

theorem warrants_of_resolved {targets : List Symbol}
    (resolved : binder.resolutionOf site = .resolved targets) (kind : DiagnosticKind) :
    (binder.reference site).Warrants site.inLexerRule binder.reportImports kind ↔
      (kind = .ambiguousReference ∧ (Resolution.resolved targets).SeveralFiles) ∨
        Misused site (.resolved targets) kind := by
  have isResolved : (binder.reference site).resolution = .resolved targets := resolved
  have isKind : (binder.reference site).kind = site.kind := rfl
  cases kind <;> simp [Reference.Warrants, isResolved, isKind, Misused]

/-- Of what means nothing only that is reported, and only where it is warranted. -/
theorem reported_unresolved (unresolved : binder.resolutionOf site = .unresolved) :
    binder.Reported (site, binder.reference site) (binder.unresolvedReports site) := by
  have warrants := @warrants_of_unresolved (binder.reference site) site.inLexerRule
    binder.reportImports unresolved
  have isKind : (binder.reference site).kind = site.kind := rfl
  rw [isKind] at warrants
  unfold unresolvedReports
  cases own : site.kind
  case grammar =>
    rw [own] at warrants
    dsimp only
    split
    case isTrue flag =>
      exact (reportsEach_one .unresolvedImport _ []).congr fun kind =>
        (and_iff_left flag).symm.trans (warrants kind).symm
    case isFalse flag =>
      exact reportsEach_nil fun kind warranted => flag ((warrants kind).mp warranted).2
  case literal =>
    rw [own] at warrants
    exact (reportsEach_one .implicitTokenInParser _ []).congr fun kind => (warrants kind).symm
  all_goals
    rw [own] at warrants
    exact (reportsEach_one .unresolvedReference _ []).congr fun kind => (warrants kind).symm

/-- A reference is reported as ambiguous when its definitions lie in several files. -/
theorem reportsEach_ambiguityReports (resolution : Resolution) :
    binder.ReportsEach site
      (fun kind => kind = .ambiguousReference ∧ resolution.SeveralFiles)
      (binder.ambiguityReports site resolution) := by
  unfold ambiguityReports
  split
  case isTrue ambiguous =>
    have several := resolution.isAmbiguous_iff.mp ambiguous
    exact (reportsEach_one .ambiguousReference _ _).congr fun kind =>
      (and_iff_left several).symm
  case isFalse unambiguous =>
    have single := fun several => unambiguous (resolution.isAmbiguous_iff.mpr several)
    exact reportsEach_nil fun kind both => single both.2

/-- There is no misuse where nothing is used as a token or in a lexer rule. -/
theorem not_misused {resolution : Resolution} (noToken : site.kind ≠ .token)
    (noLexerRule : site.inLexerRule ≠ true) (kind : DiagnosticKind) :
    ¬ Misused site resolution kind := by
  rintro (⟨_, _, isToken, _⟩ | ⟨_, inLexerRule, _⟩)
  · exact noToken isToken
  · exact noLexerRule inLexerRule

/-- A reference is reported for what its definition may not be used for where it stands. -/
theorem reportsEach_misuseReports (resolution : Resolution)
    (outside : site.inLexerRule = true → site.kind ≠ .literal ∧ site.kind ≠ .grammar) :
    binder.ReportsEach site (Misused site resolution) (binder.misuseReports site resolution) := by
  unfold misuseReports
  dsimp only
  split
  case h_1 isGrammar =>
    exact reportsEach_nil
      (not_misused (by rw [isGrammar]; nofun) fun inside => (outside inside).2 isGrammar)
  case h_2 isLiteral =>
    exact reportsEach_nil
      (not_misused (by rw [isLiteral]; nofun) fun inside => (outside inside).1 isLiteral)
  case h_3 none _ _ =>
    exact reportsEach_nil fun kind => by simp [Misused, none]
  case h_4 target isTarget _ _ =>
    split
    case isTrue isFragment =>
      simp only [Bool.and_eq_true, Bool.not_eq_true', decide_eq_true_eq] at isFragment
      exact (reportsEach_one .fragmentInParserRule _ []).congr fun kind => by
        simp [Misused, isTarget, isFragment]
    case isFalse noFragment =>
      simp only [Bool.and_eq_true, Bool.not_eq_true', decide_eq_true_eq] at noFragment
      split
      case isTrue isParserRule =>
        simp only [Bool.and_eq_true, decide_eq_true_eq] at isParserRule
        exact (reportsEach_one .parserRuleInLexerRule _ []).congr fun kind => by
          simp [Misused, isTarget, isParserRule]
      case isFalse noParserRule =>
        simp only [Bool.and_eq_true, decide_eq_true_eq] at noParserRule
        refine reportsEach_nil ?_
        intro kind misused
        obtain ⟨_, outsideRule, isToken, _, isOther, isFragment⟩ |
          ⟨_, insideRule, _, isOther, isParserRule⟩ := misused
        · obtain rfl := Option.some.inj (isTarget.symm.trans isOther)
          exact noFragment ⟨⟨outsideRule, isToken⟩, isFragment⟩
        · obtain rfl := Option.some.inj (isTarget.symm.trans isOther)
          exact noParserRule ⟨insideRule, isParserRule⟩

/-- The reports about a site are those that its reference warrants. -/
theorem reported_reports
    (outside : site.inLexerRule = true → site.kind ≠ .literal ∧ site.kind ≠ .grammar) :
    binder.Reported (site, binder.reference site) (binder.reports site) := by
  unfold reports
  split
  case h_1 unresolved => exact reported_unresolved unresolved
  case h_2 builtIn =>
    exact reportsEach_nil (not_warrants_of_builtIn builtIn)
  case h_3 targets resolved =>
    have warrants := warrants_of_resolved resolved
    split
    case isTrue isGrammar =>
      have found := lookup_of_resolved resolved
      rw [isGrammar] at found
      have single := @Resolution.not_severalFiles_of_single (.resolved targets)
        (Scope.length_le_of_lookup_grammar found)
      have noMisuse := @not_misused site (.resolved targets)
        (by rw [isGrammar]; nofun) (fun inside => (outside inside).2 isGrammar)
      refine reportsEach_nil fun kind warranted => ?_
      obtain ⟨_, several⟩ | misused := (warrants kind).mp warranted
      · exact single several
      · exact noMisuse kind misused
    case isFalse =>
      have ambiguity := @reportsEach_ambiguityReports binder site (.resolved targets)
      have misuse := @reportsEach_misuseReports binder site (.resolved targets) outside
      refine (ambiguity.append misuse ?_).congr fun kind => (warrants kind).symm
      rintro kind ⟨rfl, _⟩ (⟨isOther, _⟩ | ⟨isOther, _⟩)
      all_goals cases isOther

/-! ## All sites -/

/-- Definitions in several files all come from the closure, since the own table is one file's.
-/
theorem imports_of_ambiguous {file : File.Id}
    (declared : binder.scope.table.DeclaredIn file)
    (several : (binder.resolutionOf site).SeveralFiles) :
    binder.scope.Imports site.kind site.name.text (binder.resolutionOf site) := by
  cases resolved : binder.resolutionOf site with
  | unresolved =>
      obtain ⟨_, isTarget, _⟩ := resolved ▸ several
      cases isTarget
  | builtIn =>
      obtain ⟨_, isTarget, _⟩ := resolved ▸ several
      cases isTarget
  | resolved targets =>
      exact Scope.imports_of_several declared (lookup_of_resolved resolved) (resolved ▸ several)

/-- Of every text, whatever is imported and whatever grammars are known, binding makes one
reference for each site of the tree, in the order of the text, and the reports that these
references warrant, each once; only a parser grammar has unresolved literals, and what several
files declare is not declared in the file itself. -/
theorem bind_matches {text : String} {parse : Parse} {file : File.Id} (binder : Binder)
    (read : Parse.ofText? text = some parse) (declared : binder.scope.table.DeclaredIn file) :
    binder.Matches parse.tree (binder.bind (Use.ofMembers (membersOf parse.tree))) := by
  rw [Use.ofMembers_eq_sites read]
  have outside := fun site => @Use.kind_of_mem_sites parse.tree site
  refine ⟨?references, ⟨(Use.sites parse.tree).map binder.reports, ?grouped, ?reported⟩,
    ?literals, ?ambiguous⟩
  case references =>
    exact List.forall₂_map_right_iff.mpr
      (List.forall₂_same.mpr fun site _ => ⟨rfl, rfl, rfl, rfl, rfl, rfl, rfl⟩)
  case grouped => exact List.flatMap_def
  case reported =>
    show List.Forall₂ _ ((Use.sites parse.tree).zip ((Use.sites parse.tree).map _)) _
    rw [← List.map_prod_left_eq_zip]
    refine List.forall₂_map_left_iff.mpr (List.forall₂_map_right_iff.mpr
      (List.forall₂_same.mpr fun site isSite => ?_))
    exact reported_reports (outside site isSite)
  case literals =>
    intro reference isReference isLiteral unresolved
    obtain ⟨site, _, rfl⟩ := List.mem_map.mp isReference
    exact grammarKind_of_unresolved isLiteral unresolved
  case ambiguous =>
    intro reference isReference several
    obtain ⟨site, _, rfl⟩ := List.mem_map.mp isReference
    exact imports_of_ambiguous declared several

/-- A binder for a parsed file that imports what some texts declare, numbered from one. -/
def importing (imports : List String) (text : String) (parse : Parse) : Binder :=
  let tableOf (file : File.Id) (text : String) (parse : Parse) : SymbolTable :=
    (declarations file (.ofText text) parse).1
  { file := 0
    index := .ofText text
    scope :=
      { table := tableOf 0 text parse
        closure := (imports.zipIdx 1).filterMap fun (imported, file) =>
          (Parse.ofText? imported).map fun parse => ⟨file, tableOf file imported parse, .all, 1⟩
        grammars := [] }
    reportImports := true }

/-- A literal that two imported files declare is ambiguous, and a token that none declares is
unresolved. -/
theorem bind_matches_twice_declared :
    let imports := ["lexer grammar A;X:'x';", "lexer grammar B;Y:'x';"]
    let text := "parser grammar P;a:'x'B;"
    ∃ parse, Parse.ofText? text = some parse ∧
      (importing imports text parse).scope.table.DeclaredIn 0 ∧
      (importing imports text parse).Matches parse.tree
        ((importing imports text parse).bind (Use.ofMembers (membersOf parse.tree))) ∧
      ((importing imports text parse).bind (Use.ofMembers (membersOf parse.tree))).2.map
        Diagnostic.kind = [.ambiguousReference, .unresolvedReference] := by
  intro imports text
  have kinds : (Parse.ofText? text).map (fun parse =>
      ((importing imports text parse).bind (Use.ofMembers (membersOf parse.tree))).2.map
        Diagnostic.kind) = some [.ambiguousReference, .unresolvedReference] := by
    decide +kernel
  obtain ⟨parse, read, kinds⟩ := Option.map_eq_some_iff.mp kinds
  have declared : (importing imports text parse).scope.table.DeclaredIn 0 :=
    Declare.declaredIn_table 0 _ _
  exact ⟨parse, read, declared, bind_matches _ read declared, kinds⟩

def vocabularies : Member → List Name
  | .options _ settings =>
      (settings.filter fun setting => setting.name = some Setting.vocabulary).filterMap
        fun setting => setting.value
  | _ => []

/-- Of two vocabulary options in one block only the first is a use, and only its missing grammar
is reported. -/
theorem second_vocabulary_unused :
    let text := "parser grammar P;options\x7btokenVocab=A;tokenVocab=B;\x7d"
    (Parse.ofText? text).map (fun parse =>
      let members := membersOf parse.tree
      let (references, reports) := (importing [] text parse).bind (Use.ofMembers members)
      ((members.flatMap vocabularies).map Name.text, references.map Reference.name,
        reports.map Diagnostic.kind)) =
      some (["A", "B"], ["A"], [.unresolvedImport]) := by
  decide +kernel

end Binder

end GrammarDesk
