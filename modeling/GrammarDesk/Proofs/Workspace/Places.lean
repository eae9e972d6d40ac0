import GrammarDesk.Proofs.Reference.Places
import GrammarDesk.Proofs.Symbol.Places
import GrammarDesk.Proofs.Workspace.Loaded
import GrammarDesk.Proofs.Workspace.Relinking

/-!
Contract: the places that a loaded file reports.

Owns: where the syntax errors, the checks and all other reports of a file are written, and the
proof that after every run every place that a loaded file reports lies in a text: its own, or,
for a related place, the text of the loaded file that it names.

Does not own: lines and columns (`LineIndex`).

Main statement: `places_are_real`.
-/

namespace GrammarDesk

open Text Grammar Syntax

variable {text : String} {parse : Parse}

/-! ## Syntax errors -/

namespace Syntax

/-- Every place of a problem is a place in the text. -/
theorem Place.liesIn_range {backward : Array Token}
    (tokens : ∀ token ∈ backward, token ∈ Scan.tokenize text) (place : Place) :
    (place.range backward text.utf8ByteSize).LiesIn text := by
  cases place with
  | fileStart => exact Range.liesIn_start text
  | fileEnd => exact Range.liesIn_stop text
  | lexeme later =>
      rw [Place.range]
      cases found : backward[later]? with
      | none => exact Range.liesIn_start text
      | some token =>
          exact (holds_of_mem_tokenize (tokens token (Array.mem_of_getElem? found))).liesIn
  | after later =>
      rw [Place.range]
      cases found : backward[later]? with
      | none => exact Range.liesIn_start text
      | some token =>
          exact (holds_of_mem_tokenize (tokens token (Array.mem_of_getElem? found))).liesIn.stop

/-- Every syntax error of a text lies in it. -/
theorem Parse.liesIn_of_error (read : Parse.ofText? text = some parse) {error : SyntaxError}
    (isError : error ∈ parse.errors) : error.range.LiesIn text := by
  obtain ⟨_, rfl⟩ := Parse.ofText?_eq_some_iff.mp read
  obtain ⟨problem, _, rfl⟩ := List.mem_map.mp isError
  refine problem.place.liesIn_range fun token isToken => ?_
  have isSignificant : token ∈ (Scan.tokenize text).filter fun token =>
      !token.kind.isTrivia := by simpa using isToken
  exact List.mem_of_mem_filter isSignificant

end Syntax

/-! ## Reports of a file by itself -/

/-- The report lies in the text, and points only to places in the same file. -/
structure Diagnostic.StaysIn (report : Diagnostic) (file : File.Id) (text : String) : Prop where
  range : report.range.LiesIn text
  related : ∀ place ∈ report.related, place.file = file ∧ place.range.LiesIn text

theorem Diagnostic.staysIn_ofKind {kind : DiagnosticKind} {file other : File.Id} {range : Range}
    {span : Span} {message : String} (lies : range.LiesIn text) :
    (Diagnostic.ofKind kind other range span message).StaysIn file text :=
  ⟨lies, List.forall_mem_nil _⟩

/-- Reports of duplicates stay where the symbols are. -/
theorem Declare.staysIn_of_mem_duplicates {file : File.Id} {firsts symbols : List Symbol}
    (placed : ∀ symbol ∈ firsts ++ symbols, symbol.file = file ∧ symbol.range.LiesIn text)
    {report : Diagnostic} (isReport : report ∈ duplicates firsts symbols) :
    report.StaysIn file text := by
  induction symbols generalizing firsts with
  | nil => cases isReport
  | cons symbol rest inductionHypothesis =>
      obtain ⟨ofFirsts, ofSymbols⟩ := List.forall_mem_append.mp placed
      obtain ⟨ofSymbol, ofRest⟩ := List.forall_mem_cons.mp ofSymbols
      unfold duplicates at isReport
      split at isReport
      · rename_i first found
        rcases List.mem_cons.mp isReport with rfl | isReport
        · exact ⟨ofSymbol.2, List.forall_mem_singleton.mpr
            (ofFirsts first (List.mem_of_find?_eq_some found))⟩
        · exact inductionHypothesis (List.forall_mem_append.mpr ⟨ofFirsts, ofRest⟩) isReport
      · exact inductionHypothesis (List.forall_mem_append.mpr
          ⟨List.forall_mem_cons.mpr ⟨ofSymbol, ofFirsts⟩, ofRest⟩) isReport

namespace Check

variable {subject : Subject} {file : File.Id} {report : Diagnostic}

theorem staysIn_of_mem_ruleClass {rule : Rule}
    (written : ∀ name, rule.name = some name → name.WrittenIn text)
    (isReport : report ∈ ruleClass subject rule) : report.StaysIn file text := by
  unfold ruleClass at isReport
  dsimp only at isReport
  split at isReport
  · cases isReport
  · rename_i name named
    have lies := (written name named).liesIn
    split at isReport
    · obtain rfl := List.mem_singleton.mp isReport
      exact Diagnostic.staysIn_ofKind lies
    · split at isReport
      · obtain rfl := List.mem_singleton.mp isReport
        exact Diagnostic.staysIn_ofKind lies
      · cases isReport

/-- What is reported of a member in the wrong place stands at the member, in the text. -/
theorem staysIn_of_mem_placement (read : Parse.ofText? text = some parse) {member : Member}
    (isMember : member ∈ membersOf parse.tree) (isReport : report ∈ placement subject member) :
    report.StaysIn file text := by
  obtain ⟨tree, isTree, doc, isRead⟩ := exists_of_mem_membersOf isMember
  have below : parse.tree.Below tree := .child .self isTree
  have ofRule {node : ParseTree} (belowRule : parse.tree.Below node)
      (isReport : report ∈ ruleClass subject (Rule.ofTree node)) : report.StaysIn file text :=
    staysIn_of_mem_ruleClass (fun _ named => writtenIn_of_nameOf? read belowRule named) isReport
  cases tree with
  | leaf token => cases isRead
  | node kind range parts =>
      unfold Member.ofTree? at isRead
      dsimp only at isRead
      split at isRead
      case h_7 =>
        obtain rfl := Option.some.inj isRead
        exact ofRule below isReport
      case h_8 =>
        obtain rfl := Option.some.inj isRead
        exact ofRule below isReport
      case h_9 =>
        obtain rfl := Option.some.inj isRead
        rcases List.mem_append.mp isReport with isMode | isRule
        · split at isMode
          · cases isMode
          · obtain rfl := List.mem_singleton.mp isMode
            refine Diagnostic.staysIn_ofKind ?_
            split
            · exact (writtenIn_of_nameOf? read below ‹_›).liesIn
            · exact (Parse.holds_of_below read below).liesIn
        · obtain ⟨entry, isEntry, isReport⟩ := List.mem_flatMap.mp isRule
          obtain ⟨rule, isPart, _, same⟩ := exists_of_mem_modeRulesOf isEntry
          rw [same] at isReport
          exact ofRule (below.child isPart) isReport
      case h_10 => cases isRead
      all_goals
        obtain rfl := Option.some.inj isRead
        cases isReport

/-! ### Left recursion -/

theorem mem_of_mem_firsts {taken : List String} {nodes : List RuleNode} {node : RuleNode}
    (isFirst : node ∈ RuleNode.firsts taken nodes) : node ∈ nodes := by
  induction nodes generalizing taken with
  | nil => cases isFirst
  | cons first rest inductionHypothesis =>
      unfold RuleNode.firsts at isFirst
      split at isFirst
      · exact List.mem_cons_of_mem _ (inductionHypothesis isFirst)
      · rcases List.mem_cons.mp isFirst with rfl | isFirst
        · exact List.mem_cons_self
        · exact List.mem_cons_of_mem _ (inductionHypothesis isFirst)

/-- A rule on a cycle is one of the rules. -/
theorem mem_of_mem_ofNodes {nodes : List RuleNode} {entry : LoopNode}
    (isEntry : entry ∈ LoopNode.ofNodes nodes) : entry.node ∈ nodes := by
  obtain ⟨⟨⟨node, ahead⟩, place⟩, isIndexed, isMade⟩ := List.mem_filterMap.mp isEntry
  dsimp only at isMade
  split at isMade
  · obtain rfl := Option.some.inj isMade
    exact (List.of_mem_zip (List.fst_mem_of_mem_zipIdx isIndexed)).1
  · cases isMade

/-- The name of a rule on a cycle is written in the text. -/
theorem writtenIn_of_mem_entries (read : Parse.ofText? text = some parse) {index : LineIndex}
    {entry : LoopNode × RelatedPlace}
    (isEntry : entry ∈ (Loops.ofRules file index (rulesOf parse.tree)).entries) :
    entry.1.node.name.WrittenIn text ∧
      entry.2 = Loops.declared file index entry.1.node := by
  obtain ⟨loop, isLoop, rfl⟩ := List.mem_map.mp isEntry
  obtain ⟨rule, isRule, isNode⟩ :=
    List.mem_filterMap.mp (mem_of_mem_firsts (mem_of_mem_ofNodes isLoop))
  obtain ⟨name, named, same⟩ := Option.map_eq_some_iff.mp isNode
  obtain ⟨node, below, rfl⟩ := exists_of_mem_rulesOf .self isRule
  refine ⟨?_, rfl⟩
  rw [← same]
  exact writtenIn_of_nameOf? read below named

/-- What is reported of left recursion stands at rules of the text, its related places
included. -/
theorem staysIn_of_mem_leftRecursion (read : Parse.ofText? text = some parse)
    {index : LineIndex} (isReport : report ∈ leftRecursion file index (rulesOf parse.tree)) :
    report.StaysIn file text := by
  obtain ⟨entry, isEntry, isReport⟩ := List.mem_flatMap.mp isReport
  have lies := (writtenIn_of_mem_entries read isEntry).1.liesIn
  unfold Loops.reports at isReport
  dsimp only at isReport
  split at isReport
  · split at isReport
    · obtain rfl := List.mem_singleton.mp isReport
      exact Diagnostic.staysIn_ofKind lies
    · cases isReport
  · obtain rfl := List.mem_singleton.mp isReport
    refine ⟨lies, fun place isPlace => ?_⟩
    obtain ⟨partner, isPartner, rfl⟩ := List.mem_map.mp isPlace
    obtain ⟨written, declared⟩ := writtenIn_of_mem_entries read (List.mem_of_mem_filter isPartner)
    rw [declared]
    exact ⟨rfl, written.liesIn⟩

/-! ### The header -/

/-- The name of a grammar is written in the text. -/
theorem liesIn_of_header (read : Parse.ofText? text = some parse) {index : LineIndex}
    {header : GrammarHeader}
    (isHeader : Declare.headerOf index (membersOf parse.tree) = some header) :
    header.range.LiesIn text := by
  obtain ⟨written, isFirst, isNamed⟩ := Option.bind_eq_some_iff.mp isHeader
  obtain ⟨name, named, rfl⟩ := Option.map_eq_some_iff.mp isNamed
  obtain ⟨member, isMember, found⟩ := List.exists_of_findSome?_eq_some isFirst
  obtain ⟨tree, isTree, doc, isRead⟩ := exists_of_mem_membersOf isMember
  split at found
  · obtain rfl := Option.some.inj found
    cases tree with
    | leaf token => cases isRead
    | node kind range parts =>
        unfold Member.ofTree? at isRead
        dsimp only at isRead
        split at isRead
        case h_1 =>
          obtain rfl := Member.header.inj (Option.some.inj isRead)
          exact (writtenIn_of_nameOf? read (.child .self isTree) named).liesIn
        all_goals cases isRead
  · cases found

/-- What the checks report of a file stays in the file. -/
theorem staysIn_of_mem_grammar (read : Parse.ofText? text = some parse) {index : LineIndex}
    {stem : Option String}
    (isReport : report ∈ grammar ⟨file, index, (declarations file index parse).1⟩
      (membersOf parse.tree) (rulesOf parse.tree) stem) :
    report.StaysIn file text := by
  unfold grammar at isReport
  simp only [List.mem_append] at isReport
  obtain ((isPlacement | isRecursion) | isName) | isEmpty := isReport
  · obtain ⟨member, isMember, isReport⟩ := List.mem_flatMap.mp isPlacement
    exact staysIn_of_mem_placement read isMember isReport
  · exact staysIn_of_mem_leftRecursion read isRecursion
  · unfold grammarName at isName
    split at isName
    · rename_i header known isHeader
      split at isName
      · cases isName
      · obtain rfl := List.mem_singleton.mp isName
        exact Diagnostic.staysIn_ofKind (liesIn_of_header read isHeader)
    · cases isName
  · unfold emptyGrammar at isEmpty
    split at isEmpty
    · rename_i header isHeader
      split at isEmpty
      · obtain rfl := List.mem_singleton.mp isEmpty
        exact Diagnostic.staysIn_ofKind (liesIn_of_header read isHeader)
      · cases isEmpty
    · cases isEmpty

end Check

/-! ## Loaded files -/

theorem Diagnostic.mem_merge_iff {stages : List (List Diagnostic)} {report : Diagnostic} :
    report ∈ merge stages ↔ ∃ stage ∈ stages, report ∈ stage := by
  rw [(merge_perm stages).mem_iff, List.mem_flatten]

namespace Analysis

variable (analysis : Analysis)

theorem standsIn_of_mem_symbols {symbol : Symbol} (isSymbol : symbol ∈ analysis.table.symbols) :
    symbol.file = analysis.file ∧ symbol.StandsIn analysis.text := by
  rw [analysis.table_eq] at isSymbol
  exact ⟨Declare.declaredIn_table _ _ _ symbol isSymbol,
    Declare.standsIn_of_text analysis.parse_eq _ _ isSymbol⟩

/-- What is wrong with a file by itself stays in the file. -/
theorem staysIn_of_mem_reports {report : Diagnostic} (isReport : report ∈ analysis.reports) :
    report.StaysIn analysis.file analysis.text := by
  have read := analysis.parse_eq
  rw [analysis.reports_eq] at isReport
  obtain ⟨stage, isStage, isReport⟩ := Diagnostic.mem_merge_iff.mp isReport
  simp only [List.mem_cons, List.not_mem_nil, or_false] at isStage
  obtain rfl | rfl | rfl := isStage
  · obtain ⟨error, isError, rfl⟩ := List.mem_map.mp isReport
    exact Diagnostic.staysIn_ofKind (Parse.liesIn_of_error read isError)
  · refine Declare.staysIn_of_mem_duplicates (fun symbol isSymbol => ?_) isReport
    have isDeclared : symbol ∈ analysis.table.symbols := by
      rw [analysis.table_eq]
      exact isSymbol
    obtain ⟨inFile, stands⟩ := analysis.standsIn_of_mem_symbols isDeclared
    exact ⟨inFile, stands.range⟩
  · exact Check.staysIn_of_mem_grammar read isReport

theorem writtenIn_of_mem_uses {use : Use} (isUse : use ∈ Use.ofMembers analysis.members) :
    use.name.WrittenIn analysis.text :=
  Use.writtenIn_of_text analysis.parse_eq isUse

/-- The imports of a file are written in it. -/
theorem liesIn_of_mem_imports {clause : ImportClause}
    (isClause : clause ∈ analysis.table.imports) : clause.range.LiesIn analysis.text := by
  rw [analysis.table_eq] at isClause
  obtain ⟨use, isUse, same⟩ := Use.exists_of_mem_importsOf isClause
  rw [same]
  exact (analysis.writtenIn_of_mem_uses isUse).liesIn

end Analysis

/-- A report of a file lies in its text, and each place it points to lies in the text of the
loaded file that the place names. -/
structure Diagnostic.LiesAmong (report : Diagnostic) (sources : Sources) (text : String) :
    Prop where
  range : report.range.LiesIn text
  related : ∀ place ∈ report.related,
    ∃ other, sources.get? place.file = some other ∧ place.range.LiesIn other.text

namespace Linking

variable {sources : Sources} {precedence : Import.Precedence} {reportImports : Bool}
variable {analysis : Analysis}

/-- A table of a closure is the table of a loaded file. -/
theorem exists_of_mem_tables {closure : Import.Closure} {entry : ImportedTable}
    (isEntry : entry ∈ tables sources closure) :
    ∃ file other, sources.get? file = some other ∧ entry.table = other.table := by
  obtain ⟨member, _, isMade⟩ := List.mem_filterMap.mp isEntry
  obtain ⟨other, loaded, rfl⟩ := Option.map_eq_some_iff.mp isMade
  exact ⟨member.file, other, loaded, rfl⟩

/-- The import that starts a cycle is an import of the file. -/
theorem mem_imports_of_cycle (loaded : sources.get? analysis.file = some analysis)
    {cycle : Import.Cycle}
    (isCycle : cycle ∈ ((sources.graph precedence).closure analysis.file).cycles) :
    cycle.start ∈ analysis.table.imports := by
  have isFile := Sources.mem_files_graph precedence loaded
  obtain ⟨place, atPlace⟩ := List.mem_iff_getElem?.mp isFile
  rw [Import.Graph.closure_of_place atPlace] at isCycle
  obtain ⟨edge, isEdge, _, _, rfl⟩ := Import.Links.mem_cycles_iff.mp isCycle
  have isImport := Import.Links.map_edgesAt atPlace ▸ List.mem_map_of_mem isEdge
  obtain ⟨node, known, isClause, _⟩ := Import.Graph.mem_edges_iff.mp isImport
  rw [Sources.node?_graph, loaded] at known
  obtain rfl := Option.some.inj known
  exact isClause

/-- What is reported of a loaded file stays in loaded files: places in other files are those of
symbols and imports there. -/
theorem liesAmong_of_mem_diagnostics
    (numbered : ∀ {file other}, sources.get? file = some other → other.file = file)
    (loaded : sources.get? analysis.file = some analysis) {report : Diagnostic}
    (isReport : report ∈
      (ofAnalysis sources (sources.graph precedence).links reportImports analysis).diagnostics) :
    report.LiesAmong sources analysis.text := by
  have ofFile : ∀ {file : File.Id} {other : Analysis}, sources.get? file = some other →
      ∀ symbol ∈ other.table.symbols,
        ∃ own, sources.get? symbol.file = some own ∧ symbol.range.LiesIn own.text := by
    intro file other isLoaded symbol isSymbol
    obtain ⟨inFile, stands⟩ := other.standsIn_of_mem_symbols isSymbol
    refine ⟨other, ?_, stands.range⟩
    rw [inFile, numbered isLoaded, isLoaded]
  obtain ⟨stage, isStage, isReport⟩ := Diagnostic.mem_merge_iff.mp isReport
  simp only [List.mem_cons, List.not_mem_nil, or_false] at isStage
  obtain rfl | rfl | rfl := isStage
  · obtain ⟨lies, related⟩ := analysis.staysIn_of_mem_reports isReport
    refine ⟨lies, fun place isPlace => ⟨analysis, ?_, (related place isPlace).2⟩⟩
    rw [(related place isPlace).1, loaded]
  · obtain ⟨use, isUse, isReport⟩ := List.mem_flatMap.mp isReport
    have about := Binder.isAbout_of_mem_reports isReport
    refine ⟨?_, fun place isPlace => ?_⟩
    · rw [about.range]
      exact (analysis.writtenIn_of_mem_uses isUse).liesIn
    · obtain ⟨table, isTable, symbol, isSymbol, file, range⟩ := about.related place isPlace
      rw [file, range]
      rcases isTable with rfl | ⟨entry, isEntry, rfl⟩
      · exact ofFile loaded symbol isSymbol
      · obtain ⟨other, own, isLoaded, same⟩ := exists_of_mem_tables isEntry
        exact ofFile isLoaded symbol (same ▸ isSymbol)
  · obtain ⟨cycle, isCycle, rfl⟩ := List.mem_map.mp isReport
    exact ⟨analysis.liesIn_of_mem_imports (mem_imports_of_cycle loaded isCycle),
      List.forall_mem_nil _⟩

end Linking

/-- A reference is written in a text at its range: its name is what the tokens there spell,
once the trivia among them are left out. -/
def Reference.WrittenIn (reference : Reference) (text : String) : Prop :=
  (⟨reference.name, reference.range⟩ : Name).WrittenIn text

/-- The places that a loaded file reports are real: syntax errors, references and diagnostics
lie in its text, symbols stand in it and references are written there; and a place that a
diagnostic points to lies in the text of the loaded file that it names. -/
structure SourceFile.PlacesAreReal (source : SourceFile) (snapshot : Snapshot) : Prop where
  errors : ∀ error ∈ source.analysis.parse.errors, error.range.LiesIn source.analysis.text
  symbols : ∀ symbol ∈ source.symbols, symbol.StandsIn source.analysis.text
  references : ∀ reference ∈ source.references,
    reference.range.LiesIn source.analysis.text ∧ reference.WrittenIn source.analysis.text
  diagnostics : ∀ report ∈ source.diagnostics,
    report.LiesAmong snapshot.sources source.analysis.text

namespace Workspace

/-- The places of a loaded file are real, because its linking is what it is anew. -/
theorem Coherent.placesAreReal {workspace : Workspace} (coherent : workspace.Coherent)
    {source : SourceFile} (isLoaded : source ∈ workspace.snapshot.all) :
    source.PlacesAreReal workspace.snapshot := by
  have loaded := (coherent.mem_all_iff source).mp isLoaded
  have listed : workspace.snapshot.sources.get? source.analysis.file = some source.analysis := by
    rw [Snapshot.get?_sources]
    exact congrArg (Option.map SourceFile.analysis) loaded
  have linked := coherent.linked loaded
  refine ⟨fun error isError => Parse.liesIn_of_error source.analysis.parse_eq isError,
    fun symbol isSymbol => (source.analysis.standsIn_of_mem_symbols isSymbol).2,
    fun reference isReference => ?_, fun report isReport => ?_⟩
  · unfold SourceFile.references at isReference
    rw [linked] at isReference
    obtain ⟨use, isUse, rfl⟩ := List.mem_map.mp isReference
    have written := source.analysis.writtenIn_of_mem_uses isUse
    exact ⟨written.liesIn, written⟩
  · unfold SourceFile.diagnostics at isReport
    rw [linked] at isReport
    exact Linking.liesAmong_of_mem_diagnostics
      (fun isListed => (coherent.numbered_sources isListed).1) listed isReport

/-- A readable text is loaded at its path. -/
theorem Coherent.exists_of_load {workspace : Workspace} (coherent : workspace.Coherent)
    (path : File.Path) {text : String} (isReadable : readable text = true) :
    ∃ source ∈ (workspace.load path text).2.snapshot.all, source.analysis.text = text := by
  have isRead := Analysis.isSome_ofText? (workspace.table.intern path).1 path
    (workspace.nextVersion (workspace.table.intern path).1) text
  rw [isReadable, Option.isSome_iff_exists] at isRead
  obtain ⟨analysis, isRead⟩ := isRead
  have listed := coherent.sources_load path text (workspace.table.intern path).1
  rw [if_pos rfl, isRead, Option.some_or, Snapshot.get?_sources] at listed
  obtain ⟨source, loaded, same⟩ := Option.map_eq_some_iff.mp listed
  refine ⟨source, (File.Map.mem_values_iff _ source).mpr ⟨_, loaded⟩, ?_⟩
  rw [same]
  exact (Analysis.of_ofText? isRead).2.2.2

end Workspace

/-- After every run of operations, the places that every loaded file reports are real; and
every text that does not begin with trivia can be loaded, so that this holds of its places
among whatever other files are loaded. -/
theorem places_are_real (config : Config) (operations : List Operation) :
    let workspace := ((Session.new config).run operations).workspace
    (∀ source ∈ workspace.snapshot.all, source.PlacesAreReal workspace.snapshot) ∧
      ∀ path text, readable text = true →
        let loaded := (workspace.load path text).2.snapshot
        ∃ source ∈ loaded.all, source.analysis.text = text ∧ source.PlacesAreReal loaded := by
  intro workspace
  have coherent := (Session.coherent_run config operations).workspace
  refine ⟨fun source isLoaded => coherent.placesAreReal isLoaded,
    fun path text isReadable => ?_⟩
  obtain ⟨source, isLoaded, isText⟩ := coherent.exists_of_load path isReadable
  exact ⟨source, isLoaded, isText, (coherent.load path text).placesAreReal isLoaded⟩

end GrammarDesk
