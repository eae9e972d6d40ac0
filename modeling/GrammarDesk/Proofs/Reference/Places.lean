import GrammarDesk.Proofs.Grammar.Places
import GrammarDesk.Proofs.Reference.Reports

/-!
Contract: where references and the reports about them are written.

Owns: the proof that every use of a text is written in it, and where the reports about a use
and the places they point to lie.

Does not own: which reports there are (`Reports`).

Main statements: `Use.writtenIn_of_text`, `Binder.isAbout_of_mem_reports`.
-/

namespace GrammarDesk

open Text Grammar Syntax

/-! ## Uses -/

namespace Use

variable {text : String} {parse : Parse}

/-- A site inside a rule is written in the text. -/
theorem writtenIn_of_mem_bodySites (read : Parse.ofText? text = some parse) {tree : ParseTree}
    (below : parse.tree.Below tree) {inLexerRule : Bool} {site : ReferenceKind × Name}
    (isSite : site ∈ bodySites inLexerRule tree) : site.2.WrittenIn text := by
  induction tree using ParseTree.induction with
  | leaf token => cases isSite
  | node kind range parts inductionHypothesis =>
      have ofToken : ∀ {own : Kind} {wanted : ReferenceKind}, own.isTrivia = false →
          (site ∈ (tokenOf? own parts).toList.map fun token => (wanted, Name.ofToken token)) →
            site.2.WrittenIn text := by
        intro own wanted significant isSite
        obtain ⟨token, isToken, rfl⟩ := List.mem_map.mp isSite
        exact writtenIn_of_tokenOf? read below (Option.mem_toList.mp isToken) significant
      rw [bodySites.eq_def] at isSite
      dsimp only at isSite
      split at isSite
      case h_1 => exact ofToken rfl isSite
      case h_2 => exact ofToken rfl isSite
      case h_3 =>
        split at isSite
        · cases isSite
        · exact ofToken rfl isSite
      case h_4 =>
        have isCommand := Option.mem_toList.mp isSite
        simp only [commandSite?, Option.bind_eq_bind, Option.bind_eq_some_iff] at isCommand
        obtain ⟨word, _, wanted, _, name, found, isPair⟩ := isCommand
        obtain rfl := Option.some.inj isPair
        exact writtenIn_of_nameOf? read below found
      case h_5 =>
        rw [bodySitesOf_eq_flatMap] at isSite
        obtain ⟨part, isPart, isSite⟩ := List.mem_flatMap.mp isSite
        exact inductionHypothesis part isPart (below.child isPart) isSite

theorem writtenIn_of_mem_ruleSites (read : Parse.ofText? text = some parse) {node : ParseTree}
    (below : parse.tree.Below node) {inLexerRule : Bool} {site : Use}
    (isSite : site ∈ ruleSites inLexerRule node.children) : site.name.WrittenIn text := by
  obtain ⟨inBody, isInBody, rfl⟩ := List.mem_map.mp isSite
  rw [bodySitesOf_eq_flatMap] at isInBody
  obtain ⟨part, isPart, isInPart⟩ := List.mem_flatMap.mp isInBody
  exact writtenIn_of_mem_bodySites read (below.child isPart) isInPart

/-- The vocabulary that some options name is the value of one of them. -/
theorem writtenIn_of_vocabularyOf (read : Parse.ofText? text = some parse) {node : ParseTree}
    (below : parse.tree.Below node) {name : Name}
    (named : vocabularyOf (Member.settingsOf node.children) = some name) :
    name.WrittenIn text := by
  obtain ⟨setting, found, value⟩ := Option.bind_eq_some_iff.mp named
  obtain ⟨option, isOption, rfl⟩ := List.mem_map.mp (List.mem_of_find?_eq_some found)
  exact writtenIn_of_nameOf? read (below.child (List.mem_of_mem_filter isOption)) value

/-- A site is written in the text. -/
theorem writtenIn_of_mem_sites (read : Parse.ofText? text = some parse) {tree : ParseTree}
    (below : parse.tree.Below tree) {site : Use} (isSite : site ∈ sites tree) :
    site.name.WrittenIn text := by
  induction tree using ParseTree.induction with
  | leaf token => cases isSite
  | node kind range parts inductionHypothesis =>
      rw [sites.eq_def] at isSite
      dsimp only at isSite
      split at isSite
      case h_1 => exact writtenIn_of_mem_ruleSites read below isSite
      case h_2 => exact writtenIn_of_mem_ruleSites read below isSite
      case h_3 =>
        obtain ⟨name, isName, rfl⟩ := List.mem_map.mp isSite
        exact writtenIn_of_vocabularyOf read below (Option.mem_toList.mp isName)
      case h_4 =>
        obtain ⟨name, isName, rfl⟩ := List.mem_map.mp isSite
        exact writtenIn_of_nameOf? read below (Option.mem_toList.mp isName)
      case h_5 =>
        rw [sitesOf_eq_flatMap] at isSite
        obtain ⟨part, isPart, isSite⟩ := List.mem_flatMap.mp isSite
        exact inductionHypothesis part isPart (below.child isPart) isSite

/-- Every use of a text is written in it. -/
theorem writtenIn_of_text (read : Parse.ofText? text = some parse) {use : Use}
    (isUse : use ∈ ofMembers (membersOf parse.tree)) : use.name.WrittenIn text := by
  rw [ofMembers_eq_sites read] at isUse
  exact writtenIn_of_mem_sites read .self isUse

/-- An import of a file is written as the use of a grammar. -/
theorem exists_of_mem_importsOf {index : LineIndex} {members : List Member}
    {clause : ImportClause} (isClause : clause ∈ members.flatMap (Declare.importsOf index)) :
    ∃ use ∈ ofMembers members, clause.range = use.name.range := by
  obtain ⟨member, isMember, isClause⟩ := List.mem_flatMap.mp isClause
  have ofMember {use : Use} (isUse : use ∈ ofMember member) : use ∈ ofMembers members :=
    List.mem_flatMap.mpr ⟨member, isMember, isUse⟩
  unfold Declare.importsOf at isClause
  split at isClause
  · rename_i settings
    split at isClause
    · rename_i name named
      obtain rfl := List.mem_singleton.mp isClause
      refine ⟨ofGrammar name, ofMember ?_, rfl⟩
      rw [Use.ofMember, named]
      exact List.mem_singleton_self _
    · cases isClause
  · obtain ⟨item, isItem, isName⟩ := List.mem_filterMap.mp isClause
    obtain ⟨name, isTarget, rfl⟩ := Option.map_eq_some_iff.mp isName
    exact ⟨ofGrammar name,
      ofMember (List.mem_map_of_mem (List.mem_filterMap.mpr ⟨item, isItem, isTarget⟩)), rfl⟩
  · cases isClause

end Use

/-! ## Reports -/

namespace Binder

variable {binder : Binder} {use : Use} {report : Diagnostic}

/-- A report is about a use, and points to nothing or to symbols that the scope of the file
has. -/
structure IsAbout (binder : Binder) (report : Diagnostic) (use : Use) : Prop where
  range : report.range = use.name.range
  related : ∀ place ∈ report.related, ∃ table, (table = binder.scope.table ∨
    ∃ entry ∈ binder.scope.closure, table = entry.table) ∧
      ∃ symbol ∈ table.symbols, place.file = symbol.file ∧ place.range = symbol.range

theorem isAbout_report (kind : DiagnosticKind) (message : String) :
    binder.IsAbout (binder.report use kind message) use :=
  ⟨rfl, List.forall_mem_nil _⟩

theorem isAbout_of_mem_unresolvedReports (isReport : report ∈ binder.unresolvedReports use) :
    binder.IsAbout report use := by
  unfold unresolvedReports at isReport
  split at isReport
  · split at isReport
    · obtain rfl := List.mem_singleton.mp isReport
      exact isAbout_report _ _
    · cases isReport
  · obtain rfl := List.mem_singleton.mp isReport
    exact isAbout_report _ _
  · obtain rfl := List.mem_singleton.mp isReport
    exact isAbout_report _ _

theorem isAbout_of_mem_misuseReports {resolution : Resolution}
    (isReport : report ∈ binder.misuseReports use resolution) : binder.IsAbout report use := by
  unfold misuseReports at isReport
  dsimp only at isReport
  split at isReport
  · cases isReport
  · cases isReport
  · cases isReport
  · split at isReport
    · obtain rfl := List.mem_singleton.mp isReport
      exact isAbout_report _ _
    · split at isReport
      · obtain rfl := List.mem_singleton.mp isReport
        exact isAbout_report _ _
      · cases isReport

/-- The candidates of an ambiguous name are symbols of the closure or of the own table. -/
theorem isAbout_of_mem_ambiguityReports {targets : List Symbol}
    (resolved : binder.resolutionOf use = .resolved targets) (noGrammar : use.kind ≠ .grammar)
    (isReport : report ∈ binder.ambiguityReports use (.resolved targets)) :
    binder.IsAbout report use := by
  unfold ambiguityReports at isReport
  split at isReport
  · obtain rfl := List.mem_singleton.mp isReport
    refine ⟨rfl, fun place isPlace => ?_⟩
    obtain ⟨symbol, isTarget, rfl⟩ := List.mem_map.mp isPlace
    rcases Scope.source_of_lookup (lookup_of_resolved resolved) with
      ⟨isGrammar, _⟩ | ⟨_, own | ⟨_, _, imported⟩⟩
    · exact absurd isGrammar noGrammar
    · exact ⟨_, .inl rfl, symbol, Scope.mem_symbols_of_mem_candidates (own ▸ isTarget), rfl, rfl⟩
    · have isFound : symbol ∈ binder.scope.closure.flatMap fun entry =>
          Scope.candidates entry.table entry.visibility use.kind use.name.text :=
        imported ▸ isTarget
      obtain ⟨entry, isEntry, isCandidate⟩ := List.mem_flatMap.mp isFound
      exact ⟨_, .inr ⟨entry, isEntry, rfl⟩, symbol,
        Scope.mem_symbols_of_mem_candidates isCandidate, rfl, rfl⟩
  · cases isReport

theorem isAbout_of_mem_reports (isReport : report ∈ binder.reports use) :
    binder.IsAbout report use := by
  unfold reports at isReport
  split at isReport
  · exact isAbout_of_mem_unresolvedReports isReport
  · cases isReport
  · rename_i targets resolved
    split at isReport
    · cases isReport
    · rename_i noGrammar
      rcases List.mem_append.mp isReport with isAmbiguity | isMisuse
      · exact isAbout_of_mem_ambiguityReports resolved noGrammar isAmbiguity
      · exact isAbout_of_mem_misuseReports isMisuse

end Binder

end GrammarDesk
