import GrammarDesk.Proofs.Syntax.Layout
import GrammarDesk.Proofs.Syntax.Lossless

/-!
Contract: where the nodes of a tree stand in the text.

Owns: the text that a range shows, the tokens of a text that stand at a range, and the proof
that every node of a woven tree stands where its tokens do: its parts follow one another
without a gap, and it begins with no trivia.

Does not own: which nodes there are (`Nesting`), or what they say (`Grammar`).

Main statements: `Parse.tiled_of_text`, `Parse.holds_of_below`.
-/

namespace GrammarDesk

open Text

/-! ## Ranges of a text -/

namespace Text.Range

/-- The text shows a part at the range: so many bytes stand before the part, and so many
bytes it takes. -/
def Shows (range : Range) (text part : String) : Prop :=
  ∃ before after, text = before ++ part ++ after ∧ range.start = before.utf8ByteSize ∧
    range.stop = range.start + part.utf8ByteSize

/-- The range lies in the text, with both ends on a character boundary. -/
def LiesIn (range : Range) (text : String) : Prop :=
  ∃ part, range.Shows text part

def Inside (inner outer : Range) : Prop :=
  outer.start ≤ inner.start ∧ inner.stop ≤ outer.stop

theorem liesIn_emptyAt {text before after : String} (split : text = before ++ after) :
    (emptyAt before.utf8ByteSize).LiesIn text :=
  ⟨"", before, after, by simpa using split, rfl, rfl⟩

/-- The end of a range that lies in a text is a place in the text. -/
theorem LiesIn.stop {range : Range} {text : String} (lies : range.LiesIn text) :
    (emptyAt range.stop).LiesIn text := by
  obtain ⟨part, before, after, split, start, stop⟩ := lies
  rw [stop, start, ← String.utf8ByteSize_append]
  exact liesIn_emptyAt split

theorem liesIn_start (text : String) : (emptyAt 0).LiesIn text :=
  liesIn_emptyAt String.empty_append.symm

theorem liesIn_stop (text : String) : (emptyAt text.utf8ByteSize).LiesIn text :=
  liesIn_emptyAt String.append_empty.symm

end Text.Range

namespace Syntax

/-! ## Tokens of a text -/

namespace Token

def spell (tokens : List Token) : String :=
  String.join (tokens.map fun token => token.text)

theorem spell_append (left right : List Token) :
    spell (left ++ right) = spell left ++ spell right := by
  unfold spell
  rw [List.map_append, String.join_append]

@[simp] theorem spell_nil : spell [] = "" := rfl

theorem spell_singleton (token : Token) : spell [token] = token.text := by
  simp [spell]

def sizeOf (tokens : List Token) : Nat :=
  (spell tokens).utf8ByteSize

theorem sizeOf_append (left right : List Token) :
    sizeOf (left ++ right) = sizeOf left + sizeOf right := by
  unfold sizeOf
  rw [spell_append, String.utf8ByteSize_append]

@[simp] theorem sizeOf_nil : sizeOf [] = 0 := rfl

theorem sizeOf_singleton (token : Token) : sizeOf [token] = token.size := by
  unfold sizeOf
  rw [spell_singleton]
  rfl

/-- The tokens follow one another without a gap from one offset to another. -/
def Tile : Nat → List Token → Nat → Prop
  | start, [], stop => start = stop
  | start, token :: rest, stop => token.offset = start ∧ Tile token.stop rest stop

theorem tile_place (offset : Nat) (lexemes : List Lexeme) :
    Tile offset (place offset lexemes) (offset + sizeOf (place offset lexemes)) := by
  induction lexemes generalizing offset with
  | nil => rfl
  | cons lexeme rest inductionHypothesis =>
      refine ⟨rfl, ?_⟩
      have later := inductionHypothesis (offset + lexeme.size)
      rw [place, ← List.singleton_append, sizeOf_append, sizeOf_singleton, ← Nat.add_assoc]
      exact later

/-- A token stands where the tokens before it end. -/
theorem Tile.offset_eq {start stop : Nat} {before after : List Token} {token : Token}
    (tile : Tile start (before ++ token :: after) stop) :
    token.offset = start + sizeOf before := by
  induction before generalizing start with
  | nil => exact tile.1
  | cons first rest inductionHypothesis =>
      have later := inductionHypothesis tile.2
      rw [← List.singleton_append, sizeOf_append, sizeOf_singleton, later, ← tile.1,
        ← Nat.add_assoc]
      rfl

end Token

namespace Scan

/-- The tokens of a text go from its start to its end. -/
theorem tile_tokenize (text : String) :
    Token.Tile 0 (tokenize text) text.utf8ByteSize := by
  have placed := Token.tile_place 0 (lexemes none text.toList)
  have size : Token.sizeOf (tokenize text) = text.utf8ByteSize :=
    congrArg String.utf8ByteSize (join_tokenize text)
  rw [← size, ← Nat.zero_add (Token.sizeOf (tokenize text))]
  exact placed

end Scan

/-- Some tokens of a text stand at the range. -/
def Holds (range : Range) (text : String) (own : List Token) : Prop :=
  ∃ before after, Scan.tokenize text = before ++ own ++ after ∧
    range.start = Token.sizeOf before ∧ range.stop = range.start + Token.sizeOf own

theorem Holds.shows {range : Range} {text : String} {own : List Token}
    (holds : Holds range text own) : range.Shows text (Token.spell own) := by
  obtain ⟨before, after, split, start, stop⟩ := holds
  refine ⟨Token.spell before, Token.spell after, ?_, start, stop⟩
  rw [← Token.spell_append, ← Token.spell_append, ← split]
  exact (Scan.join_tokenize text).symm

theorem Holds.liesIn {range : Range} {text : String} {own : List Token}
    (holds : Holds range text own) : range.LiesIn text :=
  ⟨_, holds.shows⟩

/-- Where some tokens stand, the first of them begins. -/
theorem Holds.begins {range : Range} {text : String} {first : Token} {others : List Token}
    (holds : Holds range text (first :: others)) :
    first ∈ Scan.tokenize text ∧ first.offset = range.start := by
  obtain ⟨before, after, split, start, _⟩ := holds
  have tile := Scan.tile_tokenize text
  rw [split, List.append_assoc] at tile
  refine ⟨by simp [split], ?_⟩
  rw [start, tile.offset_eq, Nat.zero_add]

/-- A token of a text stands at its range. -/
theorem holds_of_mem_tokenize {text : String} {token : Token}
    (member : token ∈ Scan.tokenize text) : Holds ⟨token.offset, token.stop⟩ text [token] := by
  obtain ⟨before, after, split⟩ := List.append_of_mem member
  have tile := Scan.tile_tokenize text
  rw [split] at tile
  refine ⟨before, after, by simp [split], ?_, ?_⟩
  · rw [tile.offset_eq, Nat.zero_add]
  · rw [Token.sizeOf_singleton]
    rfl

/-! ## Tiled trees -/

namespace ParseTree

mutual

/-- In every node the parts follow one another without a gap and fill the range of the node;
and no node begins with trivia. -/
def Tiled : ParseTree → Prop
  | .leaf _ => True
  | .node _ range children =>
      Tile range.start children range.stop ∧
        ∀ token ∈ (tokensOf children).head?, token.kind.isTrivia = false

/-- The trees are tiled and follow one another without a gap from one offset to another. -/
def Tile : Nat → List ParseTree → Nat → Prop
  | start, [], stop => start = stop
  | start, tree :: rest, stop =>
      tree.range.start = start ∧ tree.Tiled ∧ Tile tree.range.stop rest stop

end

theorem Tile.append {start middle stop : Nat} {left right : List ParseTree}
    (former : Tile start left middle) (latter : Tile middle right stop) :
    Tile start (left ++ right) stop := by
  induction left generalizing start with
  | nil =>
      obtain rfl : start = middle := former
      exact latter
  | cons tree rest inductionHypothesis =>
      exact ⟨former.1, former.2.1, inductionHypothesis former.2.2⟩

theorem Tile.split {start stop : Nat} {left right : List ParseTree}
    (tile : Tile start (left ++ right) stop) :
    ∃ middle, Tile start left middle ∧ Tile middle right stop := by
  induction left generalizing start with
  | nil => exact ⟨start, rfl, tile⟩
  | cons tree rest inductionHypothesis =>
      obtain ⟨middle, former, latter⟩ := inductionHypothesis tile.2.2
      exact ⟨middle, ⟨tile.1, tile.2.1, former⟩, latter⟩

theorem tile_map_leaf {start stop : Nat} {tokens : List Token}
    (tile : Token.Tile start tokens stop) : Tile start (tokens.map .leaf) stop := by
  induction tokens generalizing start with
  | nil => exact tile
  | cons token rest inductionHypothesis =>
      exact ⟨tile.1, trivial, inductionHypothesis tile.2⟩

mutual

/-- A tiled tree is as long as its tokens. -/
theorem Tiled.stop_eq {tree : ParseTree} (tiled : tree.Tiled) :
    tree.range.stop = tree.range.start + Token.sizeOf tree.tokens := by
  match tree with
  | .leaf token =>
      rw [tokens_leaf, Token.sizeOf_singleton]
      rfl
  | .node kind range children => exact tiled.1.stop_eq

theorem Tile.stop_eq {start stop : Nat} {trees : List ParseTree} (tile : Tile start trees stop) :
    stop = start + Token.sizeOf (tokensOf trees) := by
  match trees with
  | [] => exact Eq.symm tile
  | tree :: rest =>
      have first := tile.2.1.stop_eq
      have later := tile.2.2.stop_eq
      rw [tokensOf_cons, Token.sizeOf_append, ← tile.1]
      omega

end

/-- A child of a tiled node is tiled and stands where the tokens before it end. -/
theorem Tiled.child {tree child : ParseTree} (tiled : tree.Tiled)
    (isChild : child ∈ tree.children) :
    child.Tiled ∧ ∃ before after, tree.tokens = before ++ child.tokens ++ after ∧
      child.range.start = tree.range.start + Token.sizeOf before := by
  cases tree with
  | leaf token => cases isChild
  | node kind range children =>
      obtain ⟨before, after, rfl⟩ := List.append_of_mem isChild
      obtain ⟨middle, former, latter⟩ := tiled.1.split
      refine ⟨latter.2.1, tokensOf before, tokensOf after, ?_, ?_⟩
      · rw [tokens_node, Weave.tokensOf_append, tokensOf_cons, List.append_assoc]
      · rw [latter.1]
        exact former.stop_eq

theorem Tiled.inside {tree child : ParseTree} (tiled : tree.Tiled)
    (isChild : child ∈ tree.children) : child.range.Inside tree.range := by
  obtain ⟨tiledChild, before, after, tokens, start⟩ := tiled.child isChild
  have stop := tiled.stop_eq
  have stopChild := tiledChild.stop_eq
  rw [tokens, Token.sizeOf_append, Token.sizeOf_append] at stop
  unfold Range.Inside
  omega

/-- A tiled node begins with no trivia. -/
theorem Tiled.begins {tree child : ParseTree} (tiled : tree.Tiled)
    (isChild : child ∈ tree.children) {first : Token} {others : List Token}
    (tokens : tree.tokens = first :: others) : first.kind.isTrivia = false := by
  cases tree with
  | leaf token => cases isChild
  | node kind range children =>
      rw [tokens_node] at tokens
      exact tiled.2 first (by rw [tokens]; rfl)

/-- The trees of a tree: itself, and those of its children. -/
inductive Below (root : ParseTree) : ParseTree → Prop where
  | self : Below root root
  | child {parent child : ParseTree} (below : Below root parent)
      (isChild : child ∈ parent.children) : Below root child

/-- Every tree of a tiled tree that stands at its range does so too. -/
theorem Tiled.holds_of_below {text : String} {root tree : ParseTree} (tiled : root.Tiled)
    (holds : Holds root.range text root.tokens) (below : root.Below tree) :
    tree.Tiled ∧ Holds tree.range text tree.tokens := by
  induction below with
  | self => exact ⟨tiled, holds⟩
  | child below isChild inductionHypothesis =>
      obtain ⟨tiledParent, before, after, split, start, stop⟩ := inductionHypothesis
      obtain ⟨tiledChild, inner, outer, tokens, startChild⟩ := tiledParent.child isChild
      refine ⟨tiledChild, before ++ inner, outer ++ after, ?_, ?_, tiledChild.stop_eq⟩
      · rw [split, tokens]
        simp
      · rw [startChild, start, Token.sizeOf_append]

end ParseTree

/-! ## Woven trees -/

namespace Weave

open ParseTree

variable {length start : Nat} {tokens : List Token}

theorem offsetOf_of_tile (tile : Token.Tile start tokens length) :
    offsetOf length tokens = start := by
  cases tokens with
  | nil => exact Eq.symm tile
  | cons token rest => exact tile.1

/-- Trivia split off the front tile up to where the rest begins. -/
theorem tile_splitTrivia (tile : Token.Tile start tokens length) :
    ∃ middle, ParseTree.Tile start ((splitTrivia tokens).1.map .leaf) middle ∧
      Token.Tile middle (splitTrivia tokens).2 length := by
  unfold splitTrivia
  rw [List.span_eq_takeWhile_dropWhile]
  dsimp only
  induction tokens generalizing start with
  | nil => exact ⟨start, rfl, tile⟩
  | cons token rest inductionHypothesis =>
      cases isTrivia : token.kind.isTrivia with
      | false =>
          rw [List.takeWhile_cons_of_neg (by simp [isTrivia]),
            List.dropWhile_cons_of_neg (by simp [isTrivia])]
          exact ⟨start, rfl, tile⟩
      | true =>
          obtain ⟨middle, former, latter⟩ := inductionHypothesis tile.2
          refine ⟨middle, ?_, ?_⟩
          · rw [List.takeWhile_cons_of_pos (by simpa using isTrivia)]
            exact ⟨tile.1, trivial, former⟩
          · rw [List.dropWhile_cons_of_pos (by simpa using isTrivia)]
            exact latter

mutual

/-- The trees that a shape is woven into take the next tokens without a gap. -/
theorem tile_tree {length start : Nat} {tokens : List Token} (shape : Shape)
    (tile : Token.Tile start tokens length) :
    ∃ middle, ParseTree.Tile start (tree length tokens shape).1 middle ∧
      Token.Tile middle (tree length tokens shape).2 length := by
  obtain ⟨middle, trivia, own⟩ := tile_splitTrivia tile
  match shape with
  | .leaf lexeme =>
      unfold tree
      generalize splitTrivia tokens = parts at trivia own
      obtain ⟨before, own'⟩ := parts
      cases own' with
      | nil => exact ⟨middle, trivia, own⟩
      | cons token rest => exact ⟨token.stop, trivia.append ⟨own.1, trivial, rfl⟩, own.2⟩
  | .node kind children =>
      have begins := (splitTrivia_spec tokens).2.2
      unfold tree
      generalize splitTrivia tokens = parts at trivia own begins
      obtain ⟨before, own'⟩ := parts
      obtain ⟨stop, inner, rest⟩ := tile_trees children own
      have whole := tokens_trees length own' children
      refine ⟨stop, trivia.append ⟨?_, ⟨?_, ?_⟩, ?_⟩, rest⟩
      · exact offsetOf_of_tile own
      · dsimp only
        rw [offsetOf_of_tile own, offsetOf_of_tile rest]
        exact inner
      · intro token isFirst
        obtain ⟨others, isInner⟩ := List.head?_eq_some_iff.mp isFirst
        refine begins token (others ++ (trees length own' children).2) ?_
        rw [isInner] at whole
        exact whole.symm
      · exact offsetOf_of_tile rest

theorem tile_trees {length start : Nat} {tokens : List Token} (shapes : List Shape)
    (tile : Token.Tile start tokens length) :
    ∃ middle, ParseTree.Tile start (trees length tokens shapes).1 middle ∧
      Token.Tile middle (trees length tokens shapes).2 length := by
  match shapes with
  | [] => exact ⟨start, rfl, tile⟩
  | shape :: others =>
      obtain ⟨between, first, left⟩ := tile_tree shape tile
      obtain ⟨middle, later, rest⟩ := tile_trees others left
      exact ⟨middle, first.append later, rest⟩

end

/-- A whole tree is tiled, if the text does not begin with trivia. -/
theorem tiled_root (kind : Kind) (members : List Shape) (tile : Token.Tile 0 tokens length)
    (begins : ∀ token ∈ tokens.head?, token.kind.isTrivia = false) :
    (root length tokens kind members).Tiled := by
  obtain ⟨middle, inner, rest⟩ := tile_trees members tile
  have whole := tokens_root length tokens kind members
  refine ⟨?_, fun token isFirst => begins token ?_⟩
  · dsimp only
    rw [offsetOf_of_tile tile]
    exact inner.append (tile_map_leaf rest)
  · rw [← whole]
    exact isFirst

end Weave

/-! ## The tree of a text -/

namespace Parse

variable {text : String} {parse : Parse} {tree : ParseTree}

/-- The tree of a text is tiled and holds all of its tokens. -/
theorem tiled_of_text (read : ofText? text = some parse) :
    parse.tree.Tiled ∧ Holds parse.tree.range text parse.tree.tokens := by
  obtain ⟨begins, rfl⟩ := ofText?_eq_some_iff.mp read
  have tile := Scan.tile_tokenize text
  have notTrivia : ∀ token ∈ (Scan.tokenize text).head?, token.kind.isTrivia = false := by
    intro token isFirst
    obtain ⟨rest, tokens⟩ := List.head?_eq_some_iff.mp isFirst
    rw [tokens] at begins
    exact begins
  have tiled : (ofTokens text.utf8ByteSize (Scan.tokenize text)).tree.Tiled :=
    Weave.tiled_root .sourceFile _ tile notTrivia
  refine ⟨tiled, [], [], ?_, Weave.offsetOf_of_tile tile, tiled.stop_eq⟩
  rw [List.nil_append, List.append_nil]
  exact (Weave.tokens_root _ _ _ _).symm

/-- Every tree in the tree of a text stands in the text where its tokens do. -/
theorem holds_of_below (read : ofText? text = some parse) (below : parse.tree.Below tree) :
    Holds tree.range text tree.tokens :=
  ((tiled_of_text read).1.holds_of_below (tiled_of_text read).2 below).2

theorem tiled_of_below (read : ofText? text = some parse) (below : parse.tree.Below tree) :
    tree.Tiled :=
  ((tiled_of_text read).1.holds_of_below (tiled_of_text read).2 below).1

end Parse

end Syntax

end GrammarDesk
