import GrammarDesk.Proofs.Reference.Sites
import GrammarDesk.Proofs.Symbol.Places
import GrammarDesk.Proofs.Syntax.Rows
import GrammarDesk.Reference.Bind

/-!
Contract: the names of a file, used and declared, in one row.

Owns: the marks of a file, which are its uses and its declarations in the order of the text, and
the proof that their ranges are a row.

Does not own: what a use is bound to (`Bind`).

Uses and declarations are found by two walks over the members of a file. In the marks they stand
side by side, so that the order of the one list tells the order of both and where a use meets a
declaration: only in the name of a grammar that is imported under its own name, which is one mark.

Main statement: `Mark.row_of_text`.
-/

namespace GrammarDesk

open Grammar Syntax Text Range

/-! ## Names in a tree -/

namespace Syntax.ParseTree.SolidParts

variable {start stop : Nat} {parts : List ParseTree} (solid : SolidParts start parts stop)
variable {kind : Kind}

include solid

theorem row_name {name : Name} (isName : kind = .name ∨ kind = .nameRef)
    (found : nameOf? kind parts = some name) : Row start [name.range] stop := by
  obtain ⟨part, isPart, isNode, rfl⟩ := exists_of_nameOf? found
  have some : part.tokens ≠ [] := by
    refine Declare.tokens_ne_nil_of_name (solid.solid part isPart).nested ?_
    rcases isName with rfl | rfl
    · exact .inl isNode
    · exact .inr isNode
  exact solid.row_part isPart some

theorem row_token {token : Token} (found : tokenOf? kind parts = some token) :
    Row start [(Name.ofToken token).range] stop :=
  solid.row_part (exists_of_tokenOf? found).1 (List.cons_ne_nil token [])

end Syntax.ParseTree.SolidParts

namespace Use

section Parts

variable {start stop : Nat} {parts : List ParseTree}
variable (solid : ParseTree.SolidParts start parts stop)

include solid

theorem row_tokenSites (own : Kind) (wanted : ReferenceKind) :
    Row start (((tokenOf? own parts).toList.map fun token => (wanted, Name.ofToken token)).map
      fun site => site.2.range) stop := by
  cases found : tokenOf? own parts with
  | none => exact solid.le
  | some token => exact solid.row_token found

theorem row_commandSites :
    Row start ((commandSite? parts).toList.map fun site => site.2.range) stop := by
  cases found : commandSite? parts with
  | none => exact solid.le
  | some site =>
      simp only [commandSite?, Option.bind_eq_bind, Option.bind_eq_some_iff] at found
      obtain ⟨word, _, wanted, _, name, isName, isSite⟩ := found
      obtain rfl := Option.some.inj isSite
      exact solid.row_name (.inr rfl) isName

end Parts

/-- The names used in a tree inside a rule are in a row. -/
theorem row_bodySites {tree : ParseTree} (solid : tree.Solid) (inLexerRule : Bool) :
    Row tree.range.start ((bodySites inLexerRule tree).map fun site => site.2.range)
      tree.range.stop := by
  induction tree using ParseTree.induction with
  | leaf token => exact solid.start_le_stop
  | node kind range parts inductionHypothesis =>
      rw [bodySites.eq_def]
      dsimp only
      split
      case h_1 => exact row_tokenSites solid.parts .identifier .rule
      case h_2 => exact row_tokenSites solid.parts .identifier .token
      case h_3 =>
        split
        · exact solid.start_le_stop
        · exact row_tokenSites solid.parts .string .literal
      case h_4 => exact row_commandSites solid.parts
      case h_5 =>
        rw [bodySitesOf_eq_flatMap, List.map_flatMap]
        exact solid.parts.row_flatMap inductionHypothesis

end Use

/-! ## Marks -/

/-- A name that is used, declared, or both. -/
inductive Mark where
  | use (used : Use)
  | declaration (symbol : Symbol)
  /-- The target of an import without alias, which declares a name of its own. -/
  | imported (scope : Declare.Scope) (target : Name) (written : Range)

namespace Mark

def range : Mark → Range
  | .use used => used.name.range
  | .declaration symbol => symbol.range
  | .imported _ target _ => target.range

/-- The use that the name is. -/
def use? : Mark → Option Use
  | .use used => some used
  | .declaration _ => none
  | .imported _ target _ => some (Use.ofGrammar target)

/-- The symbol that the name declares. -/
def symbol? : Mark → Option Symbol
  | .use _ => none
  | .declaration symbol => some symbol
  | .imported scope target written => some (scope.symbol .importedGrammar target written)

theorem range_of_use? {mark : Mark} {used : Use} (isUse : mark.use? = some used) :
    mark.range = used.name.range := by
  cases mark with
  | declaration symbol => cases isUse
  | use _ | imported _ _ _ =>
      cases isUse
      rfl

theorem range_of_symbol? {mark : Mark} {symbol : Symbol} (isSymbol : mark.symbol? = some symbol) :
    mark.range = symbol.range := by
  cases mark with
  | use _ => cases isSymbol
  | declaration _ | imported _ _ _ =>
      cases isSymbol
      rfl

def ofImport (scope : Declare.Scope) (item : ImportItem) : List Mark :=
  match item.target with
  | none => []
  | some target =>
      match item.alternateName with
      | some name =>
          (scope.named .importedGrammar (some name) item.range).map .declaration ++
            [.use (Use.ofGrammar target)]
      | none => [.imported scope target item.range]

/-- The marks of a rule: its name, and then the names in its body. -/
def ofRule (scope : Declare.Scope) (mode : Option Name) (entry : DocumentedRule) : List Mark :=
  (Declare.ruleSymbols scope mode entry).map .declaration ++ (Use.ofRule entry.rule).map .use

def ofMember (scope : Declare.Scope) (member : Member) : List Mark :=
  match member with
  | .header _ | .tokens _ _ | .channels _ _ | .namedAction _ _ =>
      (Declare.symbolsOf scope member).map .declaration
  | .options _ _ => (Use.ofMember member).map .use
  | .imports _ items => items.flatMap (ofImport scope)
  | .rule entry => ofRule scope none entry
  | .mode mode =>
      ((scope.named .mode mode.name mode.range).map fun symbol =>
          .declaration { symbol with doc := mode.doc }) ++
        mode.rules.flatMap (ofRule scope mode.name)

@[simp] theorem use?_use (used : Use) : (use used).use? = some used := rfl

@[simp] theorem use?_declaration (symbol : Symbol) : (declaration symbol).use? = none := rfl

@[simp] theorem symbol?_use (used : Use) : (use used).symbol? = none := rfl

@[simp] theorem symbol?_declaration (symbol : Symbol) :
    (declaration symbol).symbol? = some symbol := rfl

theorem filterMap_use?_ofRule (scope : Declare.Scope) (mode : Option Name)
    (entry : DocumentedRule) :
    (ofRule scope mode entry).filterMap use? = Use.ofRule entry.rule := by
  simp [ofRule, Function.comp_def]

theorem filterMap_symbol?_ofRule (scope : Declare.Scope) (mode : Option Name)
    (entry : DocumentedRule) :
    (ofRule scope mode entry).filterMap symbol? = Declare.ruleSymbols scope mode entry := by
  simp [ofRule, Function.comp_def]

theorem filterMap_use?_ofImport (scope : Declare.Scope) (item : ImportItem) :
    (ofImport scope item).filterMap use? = item.target.toList.map Use.ofGrammar := by
  unfold ofImport
  cases item.target with
  | none => rfl
  | some target =>
      cases item.alternateName with
      | none => rfl
      | some name => simp [Function.comp_def]

theorem filterMap_symbol?_ofImport (scope : Declare.Scope) (item : ImportItem) :
    (ofImport scope item).filterMap symbol? = Declare.importSymbols scope item := by
  unfold ofImport Declare.importSymbols
  cases item.target with
  | none => rfl
  | some target =>
      cases item.alternateName with
      | none => rfl
      | some name => simp [Function.comp_def]

/-- The uses of a member are those of its marks. -/
theorem filterMap_use?_ofMember (scope : Declare.Scope) (member : Member) :
    (ofMember scope member).filterMap use? = Use.ofMember member := by
  cases member with
  | header header => simp [ofMember, Function.comp_def, Use.ofMember]
  | options range settings => simp [ofMember, Function.comp_def]
  | imports range items =>
      unfold ofMember Use.ofMember
      dsimp only
      rw [List.filterMap_flatMap, List.map_filterMap, List.filterMap_eq_flatMap_toList]
      refine List.flatMap_congr fun item _ => ?_
      rw [filterMap_use?_ofImport, Option.toList_map]
  | tokens range entries => simp [ofMember, Function.comp_def, Use.ofMember]
  | channels range entries => simp [ofMember, Function.comp_def, Use.ofMember]
  | namedAction range name => simp [ofMember, Function.comp_def, Use.ofMember]
  | rule entry => exact filterMap_use?_ofRule ..
  | mode mode =>
      simp [ofMember, Function.comp_def, Use.ofMember, List.filterMap_flatMap,
        filterMap_use?_ofRule]

/-- The declarations of a member are those of its marks. -/
theorem filterMap_symbol?_ofMember (scope : Declare.Scope) (member : Member) :
    (ofMember scope member).filterMap symbol? = Declare.symbolsOf scope member := by
  cases member with
  | header header => simp [ofMember, Function.comp_def]
  | options range settings => simp [ofMember, Function.comp_def, Declare.symbolsOf]
  | imports range items =>
      simp [ofMember, Declare.symbolsOf, List.filterMap_flatMap, filterMap_symbol?_ofImport]
  | tokens range entries => simp [ofMember, Function.comp_def]
  | channels range entries => simp [ofMember, Function.comp_def]
  | namedAction range name => simp [ofMember, Function.comp_def]
  | rule entry => exact filterMap_symbol?_ofRule ..
  | mode mode =>
      simp [ofMember, Function.comp_def, Declare.symbolsOf, List.filterMap_flatMap,
        filterMap_symbol?_ofRule]

end Mark

/-! ## Marks in a row -/

namespace Syntax

/-- Where no slot takes a node of a kind, no name of that kind is found. -/
theorem Fits.nameOf?_eq_none {slots : List Slot} {parts : List ParseTree} {kind : Kind}
    (fits : Fits slots (Part.ofTrees parts))
    (absent : slots.all (fun slot => slot.parts.all fun part => part ≠ .node kind) = true) :
    nameOf? kind parts = none := by
  refine Option.map_eq_none_iff.mpr (List.find?_eq_none.mpr fun tree isPart isNode => ?_)
  obtain ⟨range, children, rfl⟩ := Use.eq_node_of_isNode isNode
  have other := fits.forall_mem absent (.node kind) (List.mem_filterMap.mpr ⟨_, isPart, rfl⟩)
  exact of_decide_eq_true other rfl

/-- Parts that fill slots one after another come in two pieces, and the name is found in the
first if the slots of the second take none. -/
theorem Fits.exists_name_first {first rest : List Slot} {parts : List ParseTree}
    (fits : Fits (first ++ rest) (Part.ofTrees parts))
    (absent : rest.all (fun slot => slot.parts.all fun part => part ≠ .node .name) = true) :
    ∃ left right, parts = left ++ right ∧ Fits first (Part.ofTrees left) ∧
      nameOf? .name parts = nameOf? .name left := by
  obtain ⟨partsLeft, partsRight, split, fitsLeft, fitsRight⟩ := fits.split
  obtain ⟨left, right, rfl, rfl, rfl⟩ := List.filterMap_eq_append_iff.mp split
  refine ⟨left, right, rfl, fitsLeft, ?_⟩
  have none := Option.map_eq_none_iff.mp (Fits.nameOf?_eq_none fitsRight absent)
  unfold nameOf?
  rw [List.find?_append, none, Option.or_none]

end Syntax

namespace Mark

variable {start stop : Nat} {parts : List ParseTree} (scope : Declare.Scope)

theorem row_named (solid : ParseTree.SolidParts start parts stop) (kind : SymbolKind)
    (declaration : Range) :
    Row start ((scope.named kind (nameOf? .name parts) declaration).map fun symbol =>
      symbol.range) stop := by
  cases found : nameOf? .name parts with
  | none => exact solid.le
  | some name =>
      unfold Declare.Scope.named
      dsimp only
      split
      · exact solid.le
      · exact solid.row_name (.inl rfl) found

theorem row_named_tree {tree : ParseTree} (solid : tree.Solid) (kind : SymbolKind) :
    Row tree.range.start ((scope.named kind (nameOf? .name tree.children) tree.range).map
      fun symbol => symbol.range) tree.range.stop := by
  cases tree with
  | leaf token => exact solid.start_le_stop
  | node own range parts => exact row_named scope solid.parts kind range

/-- A name that only the first slots take stands before all parts that fill the other slots. -/
theorem exists_row_named (solid : ParseTree.SolidParts start parts stop) {first rest : List Slot}
    (fits : Fits (first ++ rest) (Part.ofTrees parts))
    (absent : rest.all (fun slot => slot.parts.all fun part => part ≠ .node .name) = true) :
    ∃ left right middle, parts = left ++ right ∧ Fits first (Part.ofTrees left) ∧
      ParseTree.SolidParts start left middle ∧ ParseTree.SolidParts middle right stop ∧
      ∀ kind declaration, Row start ((scope.named kind (nameOf? .name parts) declaration).map
        fun symbol => symbol.range) middle := by
  obtain ⟨left, right, rfl, fitsLeft, isFirst⟩ := Fits.exists_name_first fits absent
  obtain ⟨middle, solidLeft, solidRight⟩ := solid.split
  refine ⟨left, right, middle, rfl, fitsLeft, solidLeft, solidRight, fun kind declaration => ?_⟩
  rw [isFirst]
  exact row_named scope solidLeft kind declaration

/-- The names of a list are in a row. -/
theorem row_entries (solid : ParseTree.SolidParts start parts stop) (kind : SymbolKind)
    (own : Kind) :
    Row start (((Member.entriesOf own parts).flatMap fun entry =>
      scope.named kind entry.name entry.range).map fun symbol => symbol.range) stop := by
  unfold Member.entriesOf
  rw [List.flatMap_map, List.map_flatMap]
  exact solid.row_filter _ fun tree _ isSolid _ => row_named_tree scope isSolid kind

/-- The alias of an import stands before its target. -/
theorem row_ofImport {tree : ParseTree} (solid : tree.Solid)
    (isItem : tree.isNode .importItem = true) :
    Row tree.range.start ((ofImport scope ⟨tree.range, nameOf? .name tree.children,
      nameOf? .nameRef tree.children⟩).map range) tree.range.stop := by
  obtain ⟨own, parts, rfl⟩ := Use.eq_node_of_isNode isItem
  have slots : Kind.contents .importItem =
      [.optional [.node .name], .optional [.token .equals]] ++ [.optional [.node .nameRef]] := rfl
  obtain ⟨left, right, middle, rfl, fitsLeft, solidLeft, solidRight, named⟩ :=
    exists_row_named scope solid.parts (slots ▸ solid.nested.1) (by decide)
  have isLast : nameOf? .nameRef (left ++ right) = nameOf? .nameRef right := by
    have noTarget : nameOf? .nameRef left = none := fitsLeft.nameOf?_eq_none (by decide)
    have none := Option.map_eq_none_iff.mp noTarget
    unfold nameOf?
    rw [List.find?_append, none, Option.none_or]
  have former := named .importedGrammar own
  show Row own.start ((ofImport scope ⟨own, nameOf? .name (left ++ right),
    nameOf? .nameRef (left ++ right)⟩).map range) own.stop
  rw [isLast]
  unfold ofImport
  dsimp only
  cases target : nameOf? .nameRef right with
  | none => exact solid.start_le_stop
  | some name =>
      have latter : Row middle [name.range] own.stop := solidRight.row_name (.inr rfl) target
      cases alternate : nameOf? .name (left ++ right) with
      | none => exact latter.widen solidLeft.le (Nat.le_refl _)
      | some alternateName =>
          rw [alternate] at former
          dsimp only
          rw [List.map_append, List.map_map]
          exact former.append latter

/-- The name of a rule stands before its body. -/
theorem row_ofRule {tree : ParseTree} (solid : tree.Solid) (isRule : Rule.isRule tree = true)
    (mode : Option Name) (doc : Option String) :
    Row tree.range.start ((ofRule scope mode ⟨Rule.ofTree tree, doc⟩).map range)
      tree.range.stop := by
  cases tree with
  | leaf token => cases isRule
  | node kind own parts =>
      have slots : kind.contents = ruleSlots := by
        rcases Kind.eq_of_isRule isRule with rfl | rfl <;> rfl
      have split : ruleSlots = [.many modifierParts, .optional [.node .name]] ++ ruleSlots.drop 2 :=
        rfl
      have sites := Use.ruleSites_eq_ofRule slots solid.nested
      obtain ⟨left, right, middle, rfl, fitsLeft, solidLeft, solidRight, named⟩ :=
        exists_row_named scope solid.parts (split ▸ slots ▸ solid.nested.1) (by decide)
      -- What may stand before the name uses nothing, so all uses are in the parts behind it.
      have silent : left.flatMap (Use.bodySites (decide (kind = .lexerRule))) = [] := by
        refine List.flatMap_eq_nil_iff.mpr fun part isPart => ?_
        exact Use.bodySites_of_silent (solidLeft.solid part isPart).nested
          (Use.isTreeAmong_of_fits fitsLeft (by decide) part isPart)
      have former : Row own.start ((Declare.ruleSymbols scope mode
          ⟨Rule.ofTree (.node kind own (left ++ right)), doc⟩).map fun symbol => symbol.range)
          middle := by
        unfold Declare.ruleSymbols
        rw [List.map_map]
        exact named (if decide (kind = .lexerRule) then .lexerRule else .parserRule) own
      have latter : Row middle ((Use.ofRule (Rule.ofTree (.node kind own (left ++ right)))).map
          fun used => used.name.range) own.stop := by
        rw [← sites, Use.ruleSites, List.map_map, Use.bodySitesOf_eq_flatMap,
          List.flatMap_append, silent, List.nil_append]
        show Row middle ((right.flatMap _).map fun site : ReferenceKind × Name => site.2.range)
          own.stop
        rw [List.map_flatMap]
        exact solidRight.row_flatMap fun part _ isSolid => Use.row_bodySites isSolid _
      unfold ofRule
      rw [List.map_append, List.map_map, List.map_map]
      exact former.append latter

/-- The first vocabulary that some options name is a row by itself. -/
theorem row_vocabularyOf (solid : ParseTree.SolidParts start parts stop) :
    Row start ((vocabularyOf (Member.settingsOf parts)).toList.map fun name => name.range)
      stop := by
  cases named : vocabularyOf (Member.settingsOf parts) with
  | none => exact solid.le
  | some name =>
      obtain ⟨setting, found, value⟩ := Option.bind_eq_some_iff.mp named
      obtain ⟨option, isOption, rfl⟩ := List.mem_map.mp (List.mem_of_find?_eq_some found)
      have among : ([option].map id).Sublist parts :=
        List.singleton_sublist.mpr (List.mem_of_mem_filter isOption)
      have own : ∀ part ∈ [option], part.Solid →
          Row part.range.start [name.range] part.range.stop := by
        refine List.forall_mem_singleton.mpr fun isSolid => ?_
        cases option with
        | leaf token => cases value
        | node kind range children => exact isSolid.parts.row_name (.inr rfl) value
      exact solid.row among own

/-- The name of a mode stands before its rules. -/
theorem row_mode {own : Range} (solid : (ParseTree.node .modeSection own parts).Solid)
    (doc : Option String) :
    Row own.start ((ofMember scope (.mode ⟨own, nameOf? .name parts, doc,
      Member.modeRulesOf parts⟩)).map range) own.stop := by
  have split : Kind.contents .modeSection =
      [.one [.token .modeKeyword], .optional [.node .name]] ++
        (Kind.contents .modeSection).drop 2 := rfl
  obtain ⟨left, right, middle, rfl, fitsLeft, _, solidRight, named⟩ :=
    exists_row_named scope solid.parts (split ▸ solid.nested.1) (by decide)
  have noRule : left.filter Rule.isRule = [] := by
    refine List.filter_eq_nil_iff.mpr fun part isPart isRule => ?_
    have among : Use.isTreeAmong [.name] part = true :=
      Use.isTreeAmong_of_fits fitsLeft (by decide) part isPart
    cases part with
    | leaf token => cases isRule
    | node kind range children =>
        obtain rfl := List.mem_singleton.mp (of_decide_eq_true among)
        cases isRule
  have documented := DocComment.map_fst_documented Rule.isRule [] (left ++ right)
  rw [List.filter_append, noRule, List.nil_append] at documented
  have among : ((DocComment.documented Rule.isRule [] (left ++ right)).map Prod.fst).Sublist
      right := documented ▸ List.filter_sublist
  have latter : Row middle (((Member.modeRulesOf (left ++ right)).flatMap
      (ofRule scope (nameOf? .name (left ++ right)))).map range) own.stop := by
    unfold Member.modeRulesOf
    rw [List.flatMap_map, List.map_flatMap]
    refine solidRight.row among fun entry isEntry isSolid => ?_
    have isRule : entry.1 ∈ right.filter Rule.isRule := documented ▸ List.mem_map_of_mem isEntry
    exact row_ofRule scope isSolid (List.mem_filter.mp isRule).2 _ _
  unfold ofMember
  rw [List.map_append, List.map_map]
  exact (named .mode own).append latter

/-- The marks of a member are in a row. -/
theorem row_ofMember {tree : ParseTree} (solid : tree.Solid) {doc : Option String}
    {member : Member} (read : Member.ofTree? tree doc = some member) :
    Row tree.range.start ((ofMember scope member).map range) tree.range.stop := by
  cases tree with
  | leaf token => cases read
  | node kind own parts =>
      unfold Member.ofTree? at read
      dsimp only at read
      split at read
      all_goals cases read
      case h_1 =>
        unfold ofMember Declare.symbolsOf
        rw [List.map_map, List.map_map]
        exact row_named scope solid.parts .grammar own
      case h_2 =>
        unfold ofMember Use.ofMember
        rw [List.map_map, List.map_map]
        exact row_vocabularyOf solid.parts
      case h_3 =>
        unfold ofMember Member.importItemsOf
        dsimp only
        rw [List.flatMap_map, List.map_flatMap]
        exact solid.parts.row_filter _ fun item _ isSolid isItem =>
          row_ofImport scope isSolid isItem
      case h_4 =>
        unfold ofMember
        rw [List.map_map]
        exact row_entries scope solid.parts .virtualToken .tokenDecl
      case h_5 =>
        unfold ofMember
        rw [List.map_map]
        exact row_entries scope solid.parts .channel .channelDecl
      case h_6 =>
        cases named : nameOf? .name parts with
        | none => exact solid.start_le_stop
        | some name => exact solid.parts.row_name (.inl rfl) named
      case h_7 => exact row_ofRule scope solid rfl none doc
      case h_8 => exact row_ofRule scope solid rfl none doc
      case h_9 => exact row_mode scope solid doc

/-- The marks of a text are in a row. -/
theorem row_of_text {text : String} {parse : Parse} (read : Parse.ofText? text = some parse) :
    ∃ start stop, Row start (((membersOf parse.tree).flatMap (ofMember scope)).map range) stop := by
  have solid := Parse.solid_of_text read
  obtain ⟨own, parts, isTree⟩ := Use.eq_node_of_isNode (Parse.isNode_of_text read)
  rw [isTree] at solid ⊢
  have documented := DocComment.map_fst_documented Member.isMember [] parts
  have among : ((DocComment.documented Member.isMember [] parts).map Prod.fst).Sublist parts :=
    documented ▸ List.filter_sublist
  refine ⟨own.start, own.stop, ?_⟩
  unfold membersOf
  rw [List.filterMap_eq_flatMap_toList, List.flatMap_assoc, List.map_flatMap]
  refine solid.parts.row among fun entry _ isSolid => ?_
  show Row _ (((Member.ofTree? entry.1 entry.2).toList.flatMap (ofMember scope)).map range) _
  cases isRead : Member.ofTree? entry.1 entry.2 with
  | none => exact isSolid.start_le_stop
  | some member =>
      rw [Option.toList_some, List.flatMap_singleton]
      exact row_ofMember scope isSolid isRead

end Mark

/-! ## Uses and declarations -/

/-- An import without alias uses and declares the name of a grammar at once: the reference is to
its target and the symbol is what it declares. -/
structure ImportedUnderOwnName (members : List Member) (reference : Reference) (symbol : Symbol) :
    Prop where
  isGrammar : reference.kind = .grammar
  isImport : symbol.kind = .importedGrammar
  name : symbol.name = reference.name
  range : symbol.range = reference.range
  item : ∃ own items, .imports own items ∈ members ∧ ∃ item ∈ items,
    item.alternateName = none ∧ item.target = some ⟨reference.name, reference.range⟩ ∧
      symbol.declaration = item.range

/-- The references and the symbols of a file are written in its order, none where another one
is, and no reference where a symbol is but one to an import without alias. -/
structure NamesInOrder (members : List Member) (references : List Reference)
    (symbols : List Symbol) : Prop where
  filledReferences : ∀ reference ∈ references, reference.range.start < reference.range.stop
  filledSymbols : ∀ symbol ∈ symbols, symbol.range.start < symbol.range.stop
  orderedReferences : references.Pairwise fun left right => left.range.Precedes right.range
  orderedSymbols : symbols.Pairwise fun left right => left.range.Precedes right.range
  meet : ∀ reference ∈ references, ∀ symbol ∈ symbols, reference.range.Overlaps symbol.range →
    ImportedUnderOwnName members reference symbol

namespace Mark

variable {members : List Member}

/-- Where a name is used and declared at once stands the target of an import without alias. -/
theorem exists_of_imported {scope own : Declare.Scope} {target : Name} {written : Range}
    (isMark : .imported own target written ∈ members.flatMap (ofMember scope)) :
    ∃ range items, .imports range items ∈ members ∧ ∃ item ∈ items,
      item.alternateName = none ∧ item.target = some target ∧ written = item.range := by
  obtain ⟨member, isMember, isMark⟩ := List.mem_flatMap.mp isMark
  cases member with
  | imports range items =>
      obtain ⟨item, isItem, isMark⟩ := List.mem_flatMap.mp isMark
      refine ⟨range, items, isMember, item, isItem, ?_⟩
      unfold ofImport at isMark
      cases isTarget : item.target with
      | none => simp [isTarget] at isMark
      | some name =>
          cases isAlternate : item.alternateName with
          | some alternateName => simp [isTarget, isAlternate] at isMark
          | none =>
              simp only [isTarget, isAlternate, List.mem_singleton] at isMark
              cases isMark
              exact ⟨rfl, rfl, rfl⟩
  | mode mode => simp [ofMember, ofRule] at isMark
  | rule entry => simp [ofMember, ofRule] at isMark
  | _ => simp [ofMember] at isMark

variable {marks : List Mark}

/-- Of marks in order the uses are in order. -/
theorem pairwise_use? (ordered : marks.Pairwise fun left right => left.range.Precedes right.range) :
    (marks.filterMap use?).Pairwise fun left right =>
      left.name.range.Precedes right.name.range := by
  rw [List.pairwise_filterMap]
  refine ordered.imp fun precedes used isUse other isOther => ?_
  rwa [range_of_use? isUse, range_of_use? isOther] at precedes

/-- Of marks in order the declarations are in order. -/
theorem pairwise_symbol?
    (ordered : marks.Pairwise fun left right => left.range.Precedes right.range) :
    (marks.filterMap symbol?).Pairwise fun left right => left.range.Precedes right.range := by
  rw [List.pairwise_filterMap]
  refine ordered.imp fun precedes symbol isSymbol other isOther => ?_
  rwa [range_of_symbol? isSymbol, range_of_symbol? isOther] at precedes

/-- Of marks in order a use and a declaration overlap only in one mark, which is both. -/
theorem exists_imported_of_overlaps
    (ordered : marks.Pairwise fun left right => left.range.Precedes right.range)
    {used : Use} {symbol : Symbol} (isUsed : used ∈ marks.filterMap use?)
    (isSymbol : symbol ∈ marks.filterMap symbol?)
    (overlaps : used.name.range.Overlaps symbol.range) :
    ∃ scope target written, .imported scope target written ∈ marks ∧
      used = Use.ofGrammar target ∧
        symbol = scope.symbol .importedGrammar target written := by
  obtain ⟨mark, isMark, isUse⟩ := List.mem_filterMap.mp isUsed
  obtain ⟨other, isOther, declares⟩ := List.mem_filterMap.mp isSymbol
  have same : mark = other := by
    refine Range.eq_of_overlaps ordered isMark isOther ?_
    rw [range_of_use? isUse, range_of_symbol? declares]
    exact overlaps
  subst same
  cases mark with
  | use _ => cases declares
  | declaration _ => cases isUse
  | imported scope target written =>
      cases isUse
      cases declares
      exact ⟨scope, target, written, isMark, rfl, rfl⟩

theorem filterMap_use?_ofMembers (scope : Declare.Scope) (members : List Member) :
    (members.flatMap (ofMember scope)).filterMap use? = Use.ofMembers members := by
  rw [List.filterMap_flatMap]
  exact List.flatMap_congr fun member _ => filterMap_use?_ofMember scope member

theorem filterMap_symbol?_ofMembers (scope : Declare.Scope) (members : List Member) :
    (members.flatMap (ofMember scope)).filterMap symbol? =
      members.flatMap (Declare.symbolsOf scope) := by
  rw [List.filterMap_flatMap]
  exact List.flatMap_congr fun member _ => filterMap_symbol?_ofMember scope member

end Mark

/-- The names of a text are in order, whatever its references are bound to. -/
theorem namesInOrder_of_text {text : String} {parse : Parse}
    (read : Parse.ofText? text = some parse) (binder : Binder) (file : File.Id)
    (index : LineIndex) :
    NamesInOrder (membersOf parse.tree) (binder.bind (Use.ofMembers (membersOf parse.tree))).1
      (Declare.table file index (membersOf parse.tree)).1.symbols := by
  let members := membersOf parse.tree
  obtain ⟨scope, declared⟩ : ∃ scope, (Declare.table file index members).1.symbols =
      members.flatMap (Declare.symbolsOf scope) := ⟨_, rfl⟩
  let marks := members.flatMap (Mark.ofMember scope)
  obtain ⟨start, stop, row⟩ := Mark.row_of_text scope read
  have ordered : marks.Pairwise fun left right => left.range.Precedes right.range :=
    List.pairwise_map.mp row.pairwise
  have filled : ∀ mark ∈ marks, mark.range.start < mark.range.stop :=
    fun mark isMark => (row.forall_mem _ (List.mem_map_of_mem isMark)).2
  have symbols : (Declare.table file index members).1.symbols = marks.filterMap Mark.symbol? :=
    declared.trans (Mark.filterMap_symbol?_ofMembers scope members).symm
  have references : (binder.bind (Use.ofMembers members)).1 =
      (marks.filterMap Mark.use?).map binder.reference := by
    rw [Mark.filterMap_use?_ofMembers]
    rfl
  show NamesInOrder members (binder.bind (Use.ofMembers members)).1
    (Declare.table file index members).1.symbols
  rw [symbols, references]
  refine ⟨?_, ?_, List.pairwise_map.mpr (Mark.pairwise_use? ordered),
    Mark.pairwise_symbol? ordered, ?_⟩
  · intro reference isReference
    obtain ⟨used, isUsed, rfl⟩ := List.mem_map.mp isReference
    obtain ⟨mark, isMark, isUse⟩ := List.mem_filterMap.mp isUsed
    have nonempty := filled mark isMark
    rwa [Mark.range_of_use? isUse] at nonempty
  · intro symbol isSymbol
    obtain ⟨mark, isMark, declares⟩ := List.mem_filterMap.mp isSymbol
    exact Mark.range_of_symbol? declares ▸ filled mark isMark
  · intro reference isReference symbol isSymbol overlaps
    obtain ⟨used, isUsed, rfl⟩ := List.mem_map.mp isReference
    obtain ⟨own, target, written, isMark, rfl, rfl⟩ :=
      Mark.exists_imported_of_overlaps ordered isUsed isSymbol overlaps
    obtain ⟨range, items, isImport, item, isItem, noAlternate, isTarget, rfl⟩ :=
      Mark.exists_of_imported isMark
    exact ⟨rfl, rfl, rfl, rfl, range, items, isImport, item, isItem, noAlternate, isTarget, rfl⟩

end GrammarDesk
