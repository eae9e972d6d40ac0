import Mathlib.Data.List.Basic
import GrammarDesk.Proofs.Syntax.Lossless
import GrammarDesk.Symbol.Indexed
import GrammarDesk.Workspace.Analysis

/-!
Contract: indexes of symbols lead to all that matches and to nothing else.

Owns: the invariant that both indexes of a table hold the places of their symbols, the proof that
a symbol that is declared first and completed afterwards leaves the table as if it had been put in
complete, and lookups through the indexes against lookups that filter.

Does not own: which symbols a file declares (`Declare`).

Main statements: `IndexedTable.ofMembers_eq`, `IndexedTable.Exact.insert`,
`IndexedScope.lookup?_eq`, `indexed_lookups_exact`.
-/

namespace GrammarDesk

open Grammar Text

/-! ## Indexes -/

/-- A place is added behind the others of its key, and other keys keep theirs. -/
theorem Index.places_push (key : String) (place : Nat) (index : Index) (other : String) :
    (index.push key place).places other =
      if other = key then index.places other ++ [place] else index.places other := by
  induction index with
  | nil =>
      by_cases same : other = key
      · simp [push, places, same]
      · simp [push, places, List.lookup_cons, beq_eq_false_iff_ne.mpr same, same]
  | cons entry rest inductionHypothesis =>
      obtain ⟨known, places⟩ := entry
      unfold Index.places at inductionHypothesis
      unfold push Index.places
      by_cases isKey : known = key
      · subst isKey
        by_cases same : other = known
        · simp [same]
        · simp [List.lookup_cons, beq_eq_false_iff_ne.mpr same, same]
      · rw [if_neg isKey]
        by_cases isKnown : other = known
        · subst isKnown
          simp [isKey]
        · simpa [List.lookup_cons, beq_eq_false_iff_ne.mpr isKnown] using inductionHypothesis

/-- The entries at the places where a test passes are those that pass it. -/
theorem mapM_findIdxs {Entry : Type} (test : Entry → Bool) (entries : List Entry) :
    ((entries.findIdxs test).mapM fun place => entries[place]?) =
      some (entries.filter test) := by
  -- the search starts behind the entries that it has passed
  have behind : ∀ passed rest : List Entry,
      ((rest.findIdxs test passed.length).mapM fun place => (passed ++ rest)[place]?) =
        some (rest.filter test) := by
    intro passed rest
    induction rest generalizing passed with
    | nil => rfl
    | cons entry rest inductionHypothesis =>
        have onward := inductionHypothesis (passed ++ [entry])
        rw [List.length_append, List.append_assoc] at onward
        rw [List.findIdxs_cons]
        by_cases passes : test entry = true
        · rw [if_pos passes, List.mapM_cons, List.filter_cons_of_pos passes]
          simp only [List.getElem?_append_right (Nat.le_refl _), Nat.sub_self]
          exact congrArg (fun found => found.bind fun found => some (entry :: found)) onward
        · rw [if_neg passes, List.filter_cons_of_neg passes]
          exact onward
  exact behind [] entries

namespace IndexedTable

/-! ## Symbols that are completed after they were declared -/

theorem revise_insert (table : IndexedTable) {symbol : Symbol} {change : Symbol → Symbol}
    (name : (change symbol).name = symbol.name)
    (literal : (change symbol).literal = symbol.literal) :
    (table.insert symbol).revise table.symbols.length change = table.insert (change symbol) := by
  have symbols : (table.symbols ++ [symbol]).modify table.symbols.length change =
      table.symbols ++ [change symbol] := by
    rw [List.modify_eq_set_getElem?]
    simp
  unfold insert revise
  dsimp only
  rw [symbols, name, literal]

theorem setLiteral_insert (table : IndexedTable) {symbol : Symbol} (unset : symbol.literal = none)
    (literal : String) :
    (table.insert symbol).setLiteral table.symbols.length literal =
      table.insert { symbol with literal := some literal } := by
  have symbols : (table.symbols ++ [symbol]).modify table.symbols.length
      (fun symbol => { symbol with literal := some literal }) =
        table.symbols ++ [{ symbol with literal := some literal }] := by
    rw [List.modify_eq_set_getElem?]
    simp
  unfold setLiteral insert revise
  dsimp only
  rw [symbols, unset]

/-- The table with more symbols, each put in as a whole, and with more imports. -/
def extend (table : IndexedTable) (symbols : List Symbol) (imports : List ImportClause) :
    IndexedTable :=
  { symbols.foldl insert table with imports := table.imports ++ imports }

theorem foldl_insert_imports (table : IndexedTable) (symbols : List Symbol)
    (imports : List ImportClause) :
    symbols.foldl insert { table with imports } =
      { symbols.foldl insert table with imports } := by
  induction symbols generalizing table with
  | nil => rfl
  | cons symbol rest inductionHypothesis => exact inductionHypothesis (table.insert symbol)

theorem extend_nil (table : IndexedTable) : table.extend [] [] = table := by
  unfold extend
  rw [List.append_nil]
  rfl

theorem extend_singleton (table : IndexedTable) (symbol : Symbol) :
    table.extend [symbol] [] = table.insert symbol := by
  unfold extend
  rw [List.append_nil]
  rfl

theorem extend_append (table : IndexedTable) (symbols more : List Symbol)
    (imports moreImports : List ImportClause) :
    table.extend (symbols ++ more) (imports ++ moreImports) =
      (table.extend symbols imports).extend more moreImports := by
  unfold extend
  rw [List.foldl_append, ← List.append_assoc,
    foldl_insert_imports (symbols.foldl insert table) more (table.imports ++ imports)]

/-- What every step adds to a table is added to it by all of them. -/
theorem foldl_extend {Item : Type} {step : IndexedTable → Item → IndexedTable}
    {symbols : Item → List Symbol} {imports : Item → List ImportClause}
    (step_eq : ∀ table item, step table item = table.extend (symbols item) (imports item))
    (table : IndexedTable) (items : List Item) :
    items.foldl step table = table.extend (items.flatMap symbols) (items.flatMap imports) := by
  induction items generalizing table with
  | nil => exact table.extend_nil.symm
  | cons item rest inductionHypothesis =>
      rw [List.foldl_cons, inductionHypothesis, step_eq, List.flatMap_cons, List.flatMap_cons,
        extend_append]

theorem foldl_extend_symbols {Item : Type} {step : IndexedTable → Item → IndexedTable}
    {symbols : Item → List Symbol}
    (step_eq : ∀ table item, step table item = table.extend (symbols item) [])
    (table : IndexedTable) (items : List Item) :
    items.foldl step table = table.extend (items.flatMap symbols) [] := by
  have added := foldl_extend step_eq table items
  rwa [List.flatMap_eq_nil_iff.mpr fun _ _ => rfl] at added

/-! ## What the parts of a file add -/

variable (table : IndexedTable) (scope : Declare.Scope)

/-- A name that is there gets a symbol of which only its name, kind and places are known; any other
declares nothing. -/
theorem declare?_cases (kind : SymbolKind) (name : Option Name) (declaration : Range) :
    (scope.named kind name declaration = [] ∧
        table.declare? scope kind name declaration = none) ∨
      ∃ own, scope.named kind name declaration = [scope.symbol kind own declaration] ∧
        table.declare? scope kind name declaration =
          some (table.insert (scope.symbol kind own declaration), table.symbols.length) := by
  unfold Declare.Scope.named declare?
  cases name with
  | none => exact .inl ⟨rfl, rfl⟩
  | some own =>
      by_cases empty : own.text = ""
      · exact .inl ⟨if_pos empty, if_pos empty⟩
      · exact .inr ⟨own, if_neg empty, if_neg empty⟩

theorem declare_eq (kind : SymbolKind) (name : Option Name) (declaration : Range) :
    table.declare scope kind name declaration =
      table.extend (scope.named kind name declaration) [] := by
  unfold declare
  rcases table.declare?_cases scope kind name declaration with
    ⟨named, declared⟩ | ⟨own, named, declared⟩
  · rw [named, declared, extend_nil]
  · rw [named, declared, extend_singleton]

theorem declareDocumented_eq (kind : SymbolKind) (name : Option Name) (declaration : Range)
    (doc : Option String) :
    table.declareDocumented scope kind name declaration doc =
      table.extend ((scope.named kind name declaration).map fun symbol => { symbol with doc })
        [] := by
  unfold declareDocumented
  rcases table.declare?_cases scope kind name declaration with
    ⟨named, declared⟩ | ⟨own, named, declared⟩
  · rw [named, declared, List.map_nil, extend_nil]
  · rw [named, declared, List.map_singleton, extend_singleton]
    exact table.revise_insert rfl rfl

/-- Declaring a rule puts its symbols behind those of the table and tells no import. -/
theorem declareRule_eq (mode : Option Name) (entry : DocumentedRule) :
    declareRule scope mode table entry =
      table.extend (Declare.ruleSymbols scope mode entry) [] := by
  unfold declareRule Declare.ruleSymbols
  dsimp only
  generalize isKind : (if entry.rule.isLexer then SymbolKind.lexerRule else .parserRule) = kind
  rcases table.declare?_cases scope kind entry.rule.name entry.rule.range with
    ⟨named, declared⟩ | ⟨own, named, declared⟩
  · rw [named, declared, List.map_nil, extend_nil]
  · rw [named, declared, List.map_singleton, extend_singleton]
    dsimp only
    rw [table.revise_insert rfl rfl]
    have lexer : (kind = .lexerRule) ↔ entry.rule.isLexer = true := by
      rw [← isKind]
      cases entry.rule.isLexer <;> simp
    have detail : (if entry.rule.signatureParts.isEmpty then none
        else some (" ".intercalate entry.rule.signatureParts)) = Declare.detailOf entry.rule := rfl
    by_cases holdsLiteral : (entry.rule.isLexer && !entry.rule.isFragment) = true
    · have isLexer : decide (kind = .lexerRule) = entry.rule.isLexer := by simp [lexer]
      rw [isLexer, if_pos holdsLiteral, if_pos holdsLiteral]
      cases isLiteral : entry.rule.singleLiteral with
      | none => rfl
      | some literal => exact table.setLiteral_insert rfl literal
    · have isLexer : decide (kind = .lexerRule) = entry.rule.isLexer := by simp [lexer]
      rw [isLexer, if_neg holdsLiteral, if_neg holdsLiteral]
      rfl

theorem declareImport_eq (item : ImportItem) :
    declareImport scope table item =
      table.extend (Declare.importSymbols scope item)
        (item.target.map fun name =>
          (⟨name.text, .delegate, name.range, scope.index.cutSpan name.range⟩ : ImportClause)).toList := by
  unfold declareImport Declare.importSymbols
  cases item.target with
  | none => exact table.extend_nil.symm
  | some target =>
      dsimp only
      cases item.alternateName with
      | none =>
          exact (extend_singleton _ _).symm.trans (table.extend_append [] _ _ []).symm
      | some name => exact (declare_eq _ _ _ _ _).trans (table.extend_append [] _ _ []).symm

theorem declareEntries_eq (kind : SymbolKind) (entries : List ListEntry) :
    table.declareEntries scope kind entries =
      table.extend (entries.flatMap fun entry => scope.named kind entry.name entry.range) [] :=
  foldl_extend_symbols (fun table entry => table.declare_eq scope kind entry.name entry.range)
    table entries

/-- A member adds the symbols that it declares and the imports that it writes. -/
theorem declareMember_eq (member : Member) :
    declareMember scope table member =
      table.extend (Declare.symbolsOf scope member) (Declare.importsOf scope.index member) := by
  cases member with
  | header header => exact table.declareDocumented_eq scope _ _ _ _
  | options range settings =>
      simp only [declareMember, Declare.symbolsOf, Declare.importsOf]
      cases vocabularyOf settings with
      | none => exact table.extend_nil.symm
      | some name => rfl
  | imports range items =>
      simp only [declareMember, Declare.symbolsOf, Declare.importsOf]
      rw [List.filterMap_eq_flatMap_toList]
      exact foldl_extend (fun table => table.declareImport_eq scope) table items
  | tokens range entries => exact table.declareEntries_eq scope .virtualToken entries
  | channels range entries => exact table.declareEntries_eq scope .channel entries
  | namedAction range name =>
      cases name with
      | none => exact table.extend_nil.symm
      | some name => exact (table.extend_singleton _).symm
  | rule rule => exact table.declareRule_eq scope none rule
  | mode mode =>
      simp only [declareMember, Declare.symbolsOf, Declare.importsOf]
      rw [declareDocumented_eq,
        foldl_extend_symbols fun table => table.declareRule_eq scope mode.name]
      exact (table.extend_append _ _ [] []).symm

/-- Filling a table member by member is putting in all that the file declares and writes. -/
theorem ofMembers_eq (file : File.Id) (index : LineIndex) (members : List Member) :
    ofMembers file index members =
      { empty with header := Declare.headerOf index members }.extend
        (Declare.table file index members).1.symbols
        (Declare.table file index members).1.imports :=
  foldl_extend (fun table => table.declareMember_eq _) _ members

/-- Without its indexes, a table that is extended has the new symbols and imports behind the
old ones. -/
theorem plain_extend (symbols : List Symbol) (imports : List ImportClause) :
    (table.extend symbols imports).plain =
      ⟨table.symbols ++ symbols, table.header, table.imports ++ imports⟩ := by
  have inserted : ∀ (start : IndexedTable), (symbols.foldl insert start).symbols =
      start.symbols ++ symbols ∧ (symbols.foldl insert start).header = start.header := by
    induction symbols with
    | nil => exact fun start => ⟨(List.append_nil _).symm, rfl⟩
    | cons symbol rest inductionHypothesis =>
        intro start
        obtain ⟨symbols, header⟩ := inductionHypothesis (start.insert symbol)
        refine ⟨symbols.trans ?_, header⟩
        exact List.append_assoc start.symbols [symbol] rest
  obtain ⟨isSymbols, isHeader⟩ := inserted table
  unfold extend plain
  dsimp only
  rw [isSymbols, isHeader]

/-- Without its indexes the table of a file is the list of its declarations. -/
theorem plain_ofMembers (file : File.Id) (index : LineIndex) (members : List Member) :
    (ofMembers file index members).plain = (Declare.table file index members).1 := by
  rw [ofMembers_eq, plain_extend]
  rfl

/-! ## Exact indexes -/

/-- The indexes hold the places of all symbols, by name and by literal, in their order. -/
structure Exact (table : IndexedTable) : Prop where
  byName : ∀ name, table.byName.places name =
    table.symbols.findIdxs fun symbol => symbol.name = name
  byLiteral : ∀ literal, table.byLiteral.places literal =
    table.symbols.findIdxs fun symbol => symbol.literal = some literal

namespace Exact

variable {table : IndexedTable}

/-- One more symbol leaves the indexes exact: it is pushed on the keys that it has. -/
theorem insert (exact : table.Exact) (symbol : Symbol) : (table.insert symbol).Exact where
  byName name := by
    unfold IndexedTable.insert
    dsimp only
    rw [Index.places_push, exact.byName, List.findIdxs_append, List.findIdxs_singleton,
      Nat.zero_add]
    by_cases isName : name = symbol.name
    · simp [isName]
    · simp [isName, Ne.symm isName]
  byLiteral literal := by
    unfold IndexedTable.insert
    dsimp only
    rw [List.findIdxs_append, List.findIdxs_singleton, Nat.zero_add, ← exact.byLiteral]
    cases isLiteral : symbol.literal with
    | none => simp
    | some own =>
        dsimp only
        rw [Index.places_push]
        by_cases same : literal = own
        · simp [same]
        · simp [same, Ne.symm same]

theorem extend (exact : table.Exact) (symbols : List Symbol) (imports : List ImportClause) :
    (table.extend symbols imports).Exact := by
  have inserted : (symbols.foldl IndexedTable.insert table).Exact := by
    induction symbols generalizing table with
    | nil => exact exact
    | cons symbol rest inductionHypothesis => exact inductionHypothesis (exact.insert symbol)
  exact ⟨inserted.byName, inserted.byLiteral⟩

theorem lookup?_eq (exact : table.Exact) (name : String) :
    table.lookup? name = some (table.plain.lookup name) := by
  unfold lookup? at?
  rw [exact.byName]
  exact mapM_findIdxs _ _

theorem lookupLiteral?_eq (exact : table.Exact) (literal : String) :
    table.lookupLiteral? literal = some (table.plain.lookupLiteral literal) := by
  unfold lookupLiteral? at?
  rw [exact.byLiteral]
  exact mapM_findIdxs _ _

theorem candidates?_eq (exact : table.Exact) (visibility : Visibility) (kind : ReferenceKind)
    (name : String) :
    table.candidates? visibility kind name =
      some (Scope.candidates table.plain visibility kind name) := by
  unfold candidates? Scope.candidates
  cases kind <;> simp only [exact.lookup?_eq, exact.lookupLiteral?_eq, Option.map_some]

end Exact

theorem exact_ofMembers (file : File.Id) (index : LineIndex) (members : List Member) :
    (ofMembers file index members).Exact := by
  have empty : { empty with header := Declare.headerOf index members }.Exact :=
    ⟨fun _ => rfl, fun _ => rfl⟩
  exact ofMembers_eq file index members ▸ empty.extend _ _

def IsOfText (table : IndexedTable) : Prop :=
  ∃ file text, ofText? file text = some table

theorem exact_of_text {table : IndexedTable} (isOfText : table.IsOfText) : table.Exact := by
  obtain ⟨file, text, read⟩ := isOfText
  obtain ⟨parse, _, rfl⟩ := Option.map_eq_some_iff.mp read
  exact exact_ofMembers _ _ _

/-- What importing files see decides the candidates for every name. -/
theorem candidates?_congr {left right : IndexedTable} (leftExact : left.Exact)
    (rightExact : right.Exact) (same : left.plain.sameExports right.plain = true)
    (visibility : Visibility) (kind : ReferenceKind) (name : String) :
    left.candidates? visibility kind name = right.candidates? visibility kind name := by
  unfold SymbolTable.sameExports at same
  simp only [Bool.and_eq_true, decide_eq_true_eq] at same
  rw [leftExact.candidates?_eq, rightExact.candidates?_eq]
  unfold Scope.candidates SymbolTable.lookup SymbolTable.lookupLiteral
  rw [same.2]

end IndexedTable

/-! ## Lookups in a scope -/

/-- With tables of texts, lookups through the indexes find what a search through all symbols
finds. -/
theorem IndexedScope.lookup?_eq {scope : IndexedScope} (own : scope.table.IsOfText)
    (imported : ∀ entry ∈ scope.closure, entry.table.IsOfText) (kind : ReferenceKind)
    (name : String) :
    scope.lookup? kind name = some (scope.plain.lookup kind name) := by
  have through : (scope.closure.mapM fun entry =>
      entry.table.candidates? entry.visibility kind name) =
        some (scope.closure.map fun entry =>
          Scope.candidates entry.table.plain entry.visibility kind name) := by
    generalize scope.closure = closure at imported
    induction closure with
    | nil => rfl
    | cons entry rest inductionHypothesis =>
        obtain ⟨first, others⟩ := List.forall_mem_cons.mp imported
        rw [List.mapM_cons, inductionHypothesis others,
          (IndexedTable.exact_of_text first).candidates?_eq]
        rfl
  unfold lookup? Scope.lookup
  rw [(IndexedTable.exact_of_text own).candidates?_eq]
  split
  · rfl
  split
  · rfl
  unfold plain
  dsimp only
  cases Scope.candidates scope.table.plain .all kind name with
  | cons first rest => rfl
  | nil =>
      dsimp only
      rw [through, Option.map_some, List.flatMap_map]
      rfl

/-- A text that does not begin with trivia has a table, in which a lookup always succeeds and finds
the symbols of the name, or those that are the literal, each once and in the order of their
declarations. A file that has the table, among imported tables of texts, is bound as by a search
through all their symbols. In the place of an imported table any other that looks the same to
importing files gives the same result of every lookup, whatever the other tables are. -/
theorem indexed_lookups_exact (file : File.Id) {text : String}
    (readable : Syntax.Parse.beginsWithTrivia (Syntax.Scan.tokenize text) = false) :
    ∃ table parse, IndexedTable.ofText? file text = some table ∧
      Syntax.Parse.ofText? text = some parse ∧
      table.plain = (declarations file (.ofText text) parse).1 ∧
      (∀ name, table.lookup? name =
        some (table.symbols.filter fun symbol => symbol.name = name)) ∧
      (∀ literal, table.lookupLiteral? literal =
        some (table.symbols.filter fun symbol => symbol.literal = some literal)) ∧
      (∀ closure grammars kind name, (∀ entry ∈ closure, entry.table.IsOfText) →
        (IndexedScope.mk table closure grammars).lookup? kind name =
          some ((IndexedScope.mk table closure grammars).plain.lookup kind name)) ∧
      ∀ other : IndexedTable, other.IsOfText → table.plain.sameExports other.plain = true →
        ∀ own before imported visibility depth after grammars kind name,
          (IndexedScope.mk own (before ++ ⟨imported, table, visibility, depth⟩ :: after)
              grammars).lookup? kind name =
            (IndexedScope.mk own (before ++ ⟨imported, other, visibility, depth⟩ :: after)
              grammars).lookup? kind name := by
  obtain ⟨parse, parsed⟩ : ∃ parse, Syntax.Parse.ofText? text = some parse :=
    ⟨_, Syntax.Parse.ofText?_eq_some_iff.mpr ⟨readable, rfl⟩⟩
  have read : IndexedTable.ofText? file text =
      some (.ofMembers file (.ofText text) (membersOf parse.tree)) :=
    congrArg (Option.map _) parsed
  have isOfText : (IndexedTable.ofMembers file (.ofText text) (membersOf parse.tree)).IsOfText :=
    ⟨file, text, read⟩
  have exact := IndexedTable.exact_of_text isOfText
  refine ⟨_, _, read, parsed, IndexedTable.plain_ofMembers _ _ _, exact.lookup?_eq,
    exact.lookupLiteral?_eq, fun closure grammars kind name imported => ?_,
    fun other otherOfText same own before imported visibility depth after grammars kind name => ?_⟩
  · exact IndexedScope.lookup?_eq isOfText imported kind name
  · have candidates := IndexedTable.candidates?_congr exact
      (IndexedTable.exact_of_text otherOfText) same visibility kind name
    unfold IndexedScope.lookup?
    simp only [List.mapM_append, List.mapM_cons, candidates]

/-- Two rules of one name and one literal, and a text that differs inside another rule only. -/
theorem indexed_lookups_exact_twice :
    ∃ table other, IndexedTable.ofText? 0 "grammar L;A:'x';A:'x';a:A;" = some table ∧
      IndexedTable.ofText? 0 "grammar L;A:'x';A:'x';a:B;" = some other ∧
      (table.lookup? "A").map (List.map Symbol.range) = some [⟨10, 11⟩, ⟨16, 17⟩] ∧
      (table.lookupLiteral? "'x'").map (List.map Symbol.range) = some [⟨10, 11⟩, ⟨16, 17⟩] ∧
      ∀ own, (IndexedScope.mk own [⟨0, table, .tokensOnly, 1⟩] []).lookup? .literal "'x'" =
        (IndexedScope.mk own [⟨0, other, .tokensOnly, 1⟩] []).lookup? .literal "'x'" := by
  have bothRead : ((IndexedTable.ofText? 0 "grammar L;A:'x';A:'x';a:A;").bind fun table =>
      (IndexedTable.ofText? 0 "grammar L;A:'x';A:'x';a:B;").map fun other =>
        table.plain.sameExports other.plain) = some true := by decide +kernel
  obtain ⟨own, ownRead, otherRead⟩ := Option.bind_eq_some_iff.mp bothRead
  obtain ⟨other, otherRead, same⟩ := Option.map_eq_some_iff.mp otherRead
  obtain ⟨table, _, read, _, _, named, literal, _, replaced⟩ :=
    @indexed_lookups_exact 0 "grammar L;A:'x';A:'x';a:A;" (by decide +kernel)
  obtain rfl := Option.some.inj (ownRead.symm.trans read)
  have found : (IndexedTable.ofText? 0 "grammar L;A:'x';A:'x';a:A;").map (fun table =>
      ((table.symbols.filter fun symbol => symbol.name = "A").map Symbol.range,
        (table.symbols.filter fun symbol => symbol.literal = some "'x'").map Symbol.range)) =
      some ([⟨10, 11⟩, ⟨16, 17⟩], [⟨10, 11⟩, ⟨16, 17⟩]) := by decide +kernel
  rw [read, Option.map_some, Option.some.injEq, Prod.mk.injEq] at found
  refine ⟨own, other, read, otherRead, ?_, ?_, fun own => ?_⟩
  · rw [named, Option.map_some, found.1]
  · rw [literal, Option.map_some, found.2]
  · exact replaced other ⟨0, _, otherRead⟩ same own [] 0 .tokensOnly 1 [] [] .literal "'x'"

end GrammarDesk
