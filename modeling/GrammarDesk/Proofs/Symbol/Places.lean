import GrammarDesk.Proofs.Grammar.Places
import GrammarDesk.Proofs.Syntax.Names
import GrammarDesk.Symbol.Declare

/-!
Contract: where symbols and declarations are written.

Owns: symbols that stand in a text, the nodes that the symbols of a file are read off, and the
proof that every symbol of a text stands in it, and so do the reports of duplicates.

Does not own: other reports about a file (`Workspace`).

Main statement: `Declare.standsIn_of_text`.
-/

namespace GrammarDesk

open Text Grammar Syntax

/-- A symbol stands in a text: its name and its declaration lie in the text, the name inside
the declaration; the declaration starts at a token that is no trivia; and, unless it is a named
action, the text shows just its name at the range of the name. -/
structure Symbol.StandsIn (symbol : Symbol) (text : String) : Prop where
  range : symbol.range.LiesIn text
  declaration : symbol.declaration.LiesIn text
  inside : symbol.range.Inside symbol.declaration
  starts : ∃ token ∈ Scan.tokenize text,
    token.kind.isTrivia = false ∧ token.offset = symbol.declaration.start
  named : symbol.kind ≠ .namedAction → symbol.range.Shows text symbol.name

namespace Declare

/-! ## The nodes that symbols are read off -/

/-- A node directly in a file or in one of its members. -/
def Near (root node : ParseTree) : Prop :=
  node ∈ root.children ∨ ∃ member ∈ root.children, node ∈ member.children

/-- A symbol is read off a node and a name in it, which it has as declaration and as range. -/
structure ReadOff (symbol : Symbol) (node name : ParseTree) : Prop where
  isChild : name ∈ node.children
  isName : name.isNode .name = true ∨ name.isNode .nameRef = true
  range : symbol.range = name.range
  declaration : symbol.declaration = node.range
  named : symbol.kind ≠ .namedAction →
    symbol.name = name.significantText ∧ ∃ kind, node.isNode kind = true ∧ kind.declares = true

/-- A symbol is read off some node near the root of a tree. -/
def IsReadOff (root : ParseTree) (symbol : Symbol) : Prop :=
  ∃ node name, Near root node ∧ ReadOff symbol node name

section Members

variable {root node : ParseTree} (scope : Declare.Scope) {symbol : Symbol}

/-- The symbol of a name that is found in a node. -/
theorem isReadOff_symbol {kind : SymbolKind} {own : Kind} {name : Name}
    (near : Near root node) (declares : ∃ kind, node.isNode kind = true ∧ kind.declares = true)
    (isName : own = .name ∨ own = .nameRef) (found : nameOf? own node.children = some name) :
    IsReadOff root (scope.symbol kind name node.range) := by
  obtain ⟨tree, isPart, isOwn, rfl⟩ := exists_of_nameOf? found
  refine ⟨node, tree, near, isPart, ?_, rfl, rfl, fun _ => ⟨rfl, declares⟩⟩
  rcases isName with rfl | rfl
  · exact .inl isOwn
  · exact .inr isOwn

theorem isReadOff_of_mem_named {kind : SymbolKind} (near : Near root node)
    (declares : ∃ kind, node.isNode kind = true ∧ kind.declares = true)
    (isSymbol : symbol ∈ scope.named kind (nameOf? .name node.children) node.range) :
    IsReadOff root symbol := by
  unfold Declare.Scope.named at isSymbol
  split at isSymbol
  · rename_i name found
    split at isSymbol
    · cases isSymbol
    · obtain rfl := List.mem_singleton.mp isSymbol
      exact isReadOff_symbol scope near declares (.inl rfl) found
  · cases isSymbol

/-- What is added to a symbol besides its name and places does not matter. -/
theorem IsReadOff.congr {other : Symbol} (isReadOff : IsReadOff root symbol)
    (range : other.range = symbol.range) (declaration : other.declaration = symbol.declaration)
    (name : other.name = symbol.name) (kind : other.kind = symbol.kind) :
    IsReadOff root other := by
  obtain ⟨node, tree, near, readOff⟩ := isReadOff
  refine ⟨node, tree, near, readOff.isChild, readOff.isName, range.trans readOff.range,
    declaration.trans readOff.declaration, fun other => ?_⟩
  rw [name]
  exact readOff.named (kind ▸ other)

theorem isReadOff_of_mem_ruleSymbols {mode : Option Name} {entry : DocumentedRule}
    (near : Near root node) (isRule : Rule.isRule node = true)
    (isEntry : entry.rule = Rule.ofTree node) (isSymbol : symbol ∈ ruleSymbols scope mode entry) :
    IsReadOff root symbol := by
  obtain ⟨plain, isPlain, rfl⟩ := List.mem_map.mp isSymbol
  rw [isEntry] at isPlain
  exact (isReadOff_of_mem_named scope near (declares_of_isRule isRule) isPlain).congr rfl rfl rfl
    rfl

theorem isReadOff_of_mem_importSymbols (near : Near root node)
    (isItem : node.isNode .importItem = true)
    (isSymbol : symbol ∈ importSymbols scope
      ⟨node.range, nameOf? .name node.children, nameOf? .nameRef node.children⟩) :
    IsReadOff root symbol := by
  have declares : ∃ kind, node.isNode kind = true ∧ kind.declares = true := ⟨_, isItem, rfl⟩
  unfold importSymbols at isSymbol
  dsimp only at isSymbol
  split at isSymbol
  · cases isSymbol
  · rename_i target found
    split at isSymbol
    · rename_i name aliased
      rw [← aliased] at isSymbol
      exact isReadOff_of_mem_named scope near declares isSymbol
    · obtain rfl := List.mem_singleton.mp isSymbol
      exact isReadOff_symbol scope near declares (.inr rfl) found

theorem isReadOff_of_mem_entries {member : ParseTree} {own : Kind} {kind : SymbolKind}
    (isMember : member ∈ root.children) (declares : own.declares = true)
    (isSymbol : symbol ∈ (Member.entriesOf own member.children).flatMap fun entry =>
      scope.named kind entry.name entry.range) :
    IsReadOff root symbol := by
  obtain ⟨entry, isEntry, isSymbol⟩ := List.mem_flatMap.mp isSymbol
  obtain ⟨tree, isTree, rfl⟩ := List.mem_map.mp isEntry
  obtain ⟨isPart, isOwn⟩ := List.mem_filter.mp isTree
  exact isReadOff_of_mem_named scope (.inr ⟨member, isMember, isPart⟩) ⟨own, isOwn, declares⟩
    isSymbol

/-- Every symbol that a member declares is read off a node in it. -/
theorem isReadOff_of_mem_symbolsOf {member : Member} (isMember : member ∈ membersOf root)
    (isSymbol : symbol ∈ symbolsOf scope member) : IsReadOff root symbol := by
  obtain ⟨tree, isTree, doc, isRead⟩ := exists_of_mem_membersOf isMember
  cases tree with
  | leaf token => cases isRead
  | node kind range parts =>
      unfold Member.ofTree? at isRead
      dsimp only at isRead
      split at isRead
      case h_1 =>
        obtain rfl := Option.some.inj isRead
        obtain ⟨plain, isPlain, rfl⟩ := List.mem_map.mp isSymbol
        exact (isReadOff_of_mem_named scope (.inl isTree) ⟨_, decide_eq_true rfl, rfl⟩
          isPlain).congr rfl rfl rfl rfl
      case h_2 =>
        obtain rfl := Option.some.inj isRead
        cases isSymbol
      case h_3 =>
        obtain rfl := Option.some.inj isRead
        obtain ⟨item, isItem, isSymbol⟩ := List.mem_flatMap.mp isSymbol
        obtain ⟨part, isPart, rfl⟩ := List.mem_map.mp isItem
        obtain ⟨isPart, isNode⟩ := List.mem_filter.mp isPart
        exact isReadOff_of_mem_importSymbols scope (.inr ⟨_, isTree, isPart⟩) isNode isSymbol
      case h_4 =>
        obtain rfl := Option.some.inj isRead
        exact isReadOff_of_mem_entries scope isTree rfl isSymbol
      case h_5 =>
        obtain rfl := Option.some.inj isRead
        exact isReadOff_of_mem_entries scope isTree rfl isSymbol
      case h_6 =>
        obtain rfl := Option.some.inj isRead
        unfold symbolsOf at isSymbol
        dsimp only at isSymbol
        split at isSymbol
        · cases isSymbol
        · rename_i name found
          obtain rfl := List.mem_singleton.mp isSymbol
          obtain ⟨name, isPart, isName, rfl⟩ := exists_of_nameOf? found
          exact ⟨_, name, .inl isTree, isPart, .inl isName, rfl, rfl, fun other => absurd rfl other⟩
      case h_7 =>
        obtain rfl := Option.some.inj isRead
        exact isReadOff_of_mem_ruleSymbols scope (.inl isTree) rfl rfl isSymbol
      case h_8 =>
        obtain rfl := Option.some.inj isRead
        exact isReadOff_of_mem_ruleSymbols scope (.inl isTree) rfl rfl isSymbol
      case h_9 =>
        obtain rfl := Option.some.inj isRead
        rcases List.mem_append.mp isSymbol with isMode | isRule
        · obtain ⟨plain, isPlain, rfl⟩ := List.mem_map.mp isMode
          exact (isReadOff_of_mem_named scope (.inl isTree) ⟨_, decide_eq_true rfl, rfl⟩
            isPlain).congr rfl rfl rfl rfl
        · obtain ⟨entry, isEntry, isSymbol⟩ := List.mem_flatMap.mp isRule
          obtain ⟨rule, isPart, isRule, sameRule⟩ := exists_of_mem_modeRulesOf isEntry
          exact isReadOff_of_mem_ruleSymbols scope (.inr ⟨_, isTree, isPart⟩) isRule sameRule
            isSymbol
      case h_10 => cases isRead

end Members

/-! ## Symbols of a text -/

variable {text : String} {parse : Parse}

/-- A name in the tree of a text has a token. -/
theorem tokens_ne_nil_of_name {name : ParseTree} (nested : name.Nested)
    (isName : name.isNode .name = true ∨ name.isNode .nameRef = true) : name.tokens ≠ [] := by
  have word : ∀ (words : List Kind) {slots : List Slot} {parts : List ParseTree},
      Fits (.one (words.map Part.token) :: slots) (Part.ofTrees parts) →
        ParseTree.tokensOf parts ≠ [] := by
    intro words slots parts fits
    obtain ⟨part, isPart, isWord⟩ := fits.exists_mem List.mem_cons_self
    obtain ⟨kind, _, rfl⟩ := List.mem_map.mp isWord
    obtain ⟨tree, isTree, isToken⟩ := List.mem_filterMap.mp isPart
    obtain ⟨before, after, rfl⟩ := List.append_of_mem isTree
    cases tree with
    | node own range children => cases isToken
    | leaf token => simp [Weave.tokensOf_append]
  cases name with
  | leaf token => rcases isName with isName | isName <;> cases isName
  | node kind range children =>
      have named : kind = .name ∨ kind = .nameRef := by simpa [ParseTree.isNode] using isName
      rcases named with rfl | rfl
      · exact word [.identifier, .parserKeyword, .lexerKeyword] nested.1
      · exact word [.identifier] nested.1

/-- What is read off the tree of a text stands in the text: ranges and spans are cut from its
tokens. -/
theorem standsIn_of_readOff (read : Parse.ofText? text = some parse) {symbol : Symbol}
    (isReadOff : IsReadOff parse.tree symbol) : symbol.StandsIn text := by
  obtain ⟨node, name, near, readOff⟩ := isReadOff
  have below : parse.tree.Below node := by
    rcases near with isMember | ⟨member, isMember, inMember⟩
    · exact .child .self isMember
    · exact (ParseTree.Below.self.child isMember).child inMember
  have belowName := below.child readOff.isChild
  have holds := Parse.holds_of_below read belowName
  have holdsNode := Parse.holds_of_below read below
  have tiled := Parse.tiled_of_below read below
  have nonempty := tokens_ne_nil_of_name
    ((Parse.nested_of_text read).of_below belowName) readOff.isName
  rw [← readOff.range] at holds
  rw [← readOff.declaration] at holdsNode
  refine ⟨holds.liesIn, holdsNode.liesIn, ?_, ?_, fun other => ?_⟩
  · rw [readOff.range, readOff.declaration]
    exact tiled.inside readOff.isChild
  · obtain ⟨_, before, after, tokens, _⟩ := tiled.child readOff.isChild
    have some : node.tokens ≠ [] := by simp [tokens, nonempty]
    obtain ⟨first, others, isFirst⟩ := List.exists_cons_of_ne_nil some
    rw [isFirst] at holdsNode
    exact ⟨first, holdsNode.begins.1, tiled.begins readOff.isChild isFirst, holdsNode.begins.2⟩
  · obtain ⟨isText, declares⟩ := readOff.named other
    obtain ⟨token, isToken, significant⟩ :=
      Parse.token_of_declared_name read near declares readOff.isChild readOff.isName
    have shown := holds.shows
    rw [isToken, Token.spell_singleton] at shown
    rw [isText]
    unfold ParseTree.significantText ParseTree.significantTokens
    rw [isToken, List.filter_cons_of_pos (by simp [significant])]
    simpa using shown

/-- Every symbol of a text stands in it. -/
theorem standsIn_of_text (read : Parse.ofText? text = some parse) (file : File.Id)
    (index : LineIndex) {symbol : Symbol}
    (isSymbol : symbol ∈ (table file index (membersOf parse.tree)).1.symbols) :
    symbol.StandsIn text := by
  obtain ⟨member, isMember, isSymbol⟩ := List.mem_flatMap.mp isSymbol
  exact standsIn_of_readOff read (isReadOff_of_mem_symbolsOf _ isMember isSymbol)

end Declare

end GrammarDesk
