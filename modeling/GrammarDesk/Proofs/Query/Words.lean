import GrammarDesk.Proofs.Syntax.Partition
import GrammarDesk.Proofs.Text.Word
import GrammarDesk.Proofs.Workspace.Session
import GrammarDesk.Query.Target

/-!
Contract: words of target code as what stands under a cursor.

Owns: the braces of a block of target code, the token that an offset selects, and where a word
lies that a position selects when no name does.

Does not own: what an editor is told about the word (`Hover`, `Definition`, `Uses`).

The token decides whether there is a word to look for, and the text around the offset decides
how far it goes. No word reaches over a brace, so a word that is looked for behind the opening
brace of a block lies in the block. Just before that brace the block is the token after the
cursor too, and there the word is the one that ends at the brace.

Main statement: `words_of_blocks`.
-/

namespace GrammarDesk

open Text Syntax
open String (utf8Len utf8Len_nil utf8Len_cons utf8Len_append utf8Len_toList)

/-! ## Blocks of target code -/

/-- What follows a token in a row goes on where the token ends. -/
theorem Syntax.Token.Tile.after {start stop : Nat} {before after : List Token} {token : Token}
    (tile : Token.Tile start (before ++ token :: after) stop) :
    Token.Tile token.stop after stop := by
  induction before generalizing start with
  | nil => exact tile.2
  | cons first rest inductionHypothesis => exact inductionHypothesis tile.2

namespace Syntax.Scan

/-- Only an opening brace begins a block of target code. -/
theorem block_of_classify {previous : Option Kind} {first : Char} {rest : List Char} :
    (classify previous first rest).1 = .action →
      first = '{' ∧ ActionBlock.length? rest = some (classify previous first rest).2 := by
  have noWord (word : String) : wordKind word ≠ .action := wordKind_ne rfl (by decide) word
  fun_cases classify previous first rest <;> grind

/-- A block of target code stands between braces. -/
theorem exists_braces {text : String} {before after : List Token} {token : Token}
    (split : tokenize text = before ++ token :: after) (isAction : token.kind = .action) :
    ∃ inside, token.text.toList = '{' :: (inside ++ ['}']) := by
  obtain ⟨first, rest, length, _, _, _, read, isText, _⟩ := exists_read_token split
  have block := @block_of_classify ((significantOf before).getLast?.map Lexeme.kind) first rest
  rw [read] at block
  obtain ⟨rfl, closed⟩ := block isAction
  obtain ⟨after, found, rfl⟩ := Option.map_eq_some_iff.mp closed
  obtain ⟨inside, rfl⟩ := ActionBlock.afterBlock?_suffix found
  have split : inside ++ '}' :: after = inside ++ ['}'] ++ after := by simp
  refine ⟨inside, ?_⟩
  rw [isText, String.toList_ofList, split, List.length_append, Nat.add_sub_cancel_right,
    List.take_left]

/-- A block of target code shows its braces in the text, at its start and before its end. -/
theorem shows_braces {text : String} {token : Token} (isToken : token ∈ tokenize text)
    (isAction : token.kind = .action) :
    ∃ front inside back, text.toList = front ++ '{' :: (inside ++ '}' :: back) ∧
      utf8Len front = token.offset ∧ utf8Len front + 1 + utf8Len inside + 1 = token.stop := by
  obtain ⟨_, _, split⟩ := List.append_of_mem isToken
  obtain ⟨inside, braces⟩ := exists_braces split isAction
  obtain ⟨before, after, whole, start, stop⟩ := (holds_of_mem_tokenize isToken).shows
  rw [Token.spell_singleton] at whole stop
  have size := congrArg utf8Len braces
  rw [utf8Len_toList, utf8Len_cons, utf8Len_append, utf8Len_cons, utf8Len_nil] at size
  refine ⟨before.toList, inside, after.toList, ?_, (utf8Len_toList before).trans start.symm, ?_⟩
  · rw [whole, String.toList_append, String.toList_append, braces]
    simp
  · have brace : '{'.utf8Size = 1 ∧ '}'.utf8Size = 1 := by decide
    dsimp only at start stop
    rw [utf8Len_toList]
    omega

/-- Behind a token that does not end the text there is another one. -/
theorem exists_next {text : String} {token : Token} (isToken : token ∈ tokenize text)
    (more : token.stop < text.utf8ByteSize) : ∃ next ∈ tokenize text, next.offset = token.stop := by
  obtain ⟨before, after, split⟩ := List.append_of_mem isToken
  have tile := (split ▸ tile_tokenize text).after
  cases after with
  | nil => exact absurd tile (Nat.ne_of_lt more)
  | cons next after => exact ⟨next, by simp [split], tile.1⟩

end Syntax.Scan

namespace SourceFile

variable {source : SourceFile} {offset : Nat}

/-- The token after an offset is the last one that touches it. -/
theorem le_of_tokenAfter? {token other : Token} (found : source.tokenAfter? offset = some token)
    (isToken : other ∈ source.analysis.parse.tree.tokens) (starts : other.offset ≤ offset)
    (stops : offset ≤ other.stop) : other.offset ≤ token.offset := by
  have ordered := Scan.tokenize_pairwise source.analysis.text
  rw [← Parse.tokens_of_text source.analysis.parse_eq] at ordered
  obtain ⟨former, isLast⟩ := List.getLast?_eq_some_iff.mp found
  have isTouching : other ∈ former ++ [token] := by
    rw [← isLast]
    exact List.mem_filter.mpr ⟨isToken, (Range.touches_iff _ _).mpr ⟨starts, stops⟩⟩
  have orderedLast := isLast ▸ ordered.filter _
  rcases List.mem_append.mp isTouching with isFormer | isSame
  · exact Nat.le_of_lt ((List.pairwise_append.mp orderedLast).2.2 other isFormer token
      (List.mem_singleton_self token))
  · exact Nat.le_of_eq (congrArg Token.offset (List.mem_singleton.mp isSame))

theorem named?_eq_none_iff {test : Range → Bool} :
    source.named? test = none ↔ (∀ reference ∈ source.references, test reference.range = false) ∧
      ∀ symbol ∈ source.symbols, test symbol.range = false := by
  unfold named?
  simp

theorem named?_ne_word {test : Range → Bool} {symbol : Symbol} {range : Range} :
    source.named? test ≠ some (.word symbol range) := by
  unfold named?
  simp

/-- A word stands at an offset only if no name does and a block of target code is the token after
it; it is the word around the offset and names the symbol. -/
theorem of_target?_eq_word {symbol : Symbol} {range : Range}
    (found : source.target? offset = some (.word symbol range)) :
    source.named? (fun range => range.touches offset) = none ∧
      ∃ token, source.tokenAfter? offset = some token ∧ token.kind = .action ∧
        wordRangeAt source.analysis.text offset = some range ∧ symbol ∈ source.symbols ∧
          symbol.name = slice source.analysis.text range := by
  unfold target? at found
  rcases Option.or_eq_some_iff.mp found with named | ⟨noName, isWord⟩
  · rcases Option.or_eq_some_iff.mp named with named | ⟨_, named⟩
    · exact absurd named named?_ne_word
    · exact absurd named named?_ne_word
  · unfold actionWord? at isWord
    obtain ⟨token, after, isWord⟩ := Option.bind_eq_some_iff.mp isWord
    refine ⟨(Option.or_eq_none_iff.mp noName).2, token, after, ?_⟩
    by_cases isAction : token.kind = .action
    · rw [if_neg (not_not_intro isAction)] at isWord
      obtain ⟨wordRange, around, isWord⟩ := Option.bind_eq_some_iff.mp isWord
      obtain ⟨named, isFirst, isWord⟩ := Option.bind_eq_some_iff.mp isWord
      cases isWord
      have isNamed := List.mem_filter.mp (List.mem_of_head? isFirst)
      exact ⟨isAction, around, isNamed.1, by simpa using isNamed.2⟩
    · rw [if_pos isAction] at isWord
      cases isWord

/-- Where a word stands that an offset selects: between the braces of a block of target code that
touches the offset, unless the block begins at the offset and the word ends there. -/
structure WordStands (source : SourceFile) (offset : Nat) (token : Token) (range : Range) :
    Prop where
  shows : range.Shows source.analysis.text (slice source.analysis.text range)
  touches : range.touches offset = true
  isToken : token ∈ Scan.tokenize source.analysis.text
  starts : token.offset ≤ offset
  stops : offset ≤ token.stop
  place : if offset = token.offset then range.stop = token.offset
    else token.offset < range.start ∧ range.stop < token.stop

/-- The word around an offset stands in the block of target code after the offset. -/
theorem wordStands_of_tokenAfter? {token : Token} {range : Range}
    (found : source.tokenAfter? offset = some token) (isAction : token.kind = .action)
    (around : wordRangeAt source.analysis.text offset = some range) :
    source.WordStands offset token range := by
  obtain ⟨cut, some, rfl⟩ := wordRangeAt_eq_some_iff.mp around
  obtain ⟨isToken, touches⟩ := List.mem_filter.mp (List.mem_of_getLast? found)
  rw [Parse.tokens_of_text source.analysis.parse_eq] at isToken
  obtain ⟨starts, stops⟩ := (Range.touches_iff _ _).mp touches
  dsimp only at starts stops
  obtain ⟨front, inside, back, split, isOffset, isStop⟩ := Scan.shows_braces isToken isAction
  have brace : '{'.utf8Size = 1 ∧ '}'.utf8Size = 1 := by decide
  have opening := cut.apart split (by decide +kernel)
  have splitBehind : source.analysis.text.toList = (front ++ '{' :: inside) ++ '}' :: back := by
    simpa using split
  have closing := cut.apart splitBehind (by decide +kernel)
  rw [utf8Len_append, utf8Len_cons] at closing
  have aroundOffset := cut.touches
  have notEmpty := cut.start_lt_stop some
  have inText := cut.stop_le
  -- A word behind the block would begin another token there, which is nearer to the offset.
  have notBehind : cut.range.start < token.stop := by
    by_contra! behind
    have atStop : offset = token.stop := by omega
    obtain ⟨next, isNext, nextOffset⟩ := Scan.exists_next isToken (by omega)
    rw [← Parse.tokens_of_text source.analysis.parse_eq] at isNext
    have reaches : offset ≤ next.stop := atStop ▸ nextOffset ▸ Nat.le_add_right _ _
    have nearer := le_of_tokenAfter? found isNext (by omega) reaches
    omega
  refine ⟨?_, (Range.touches_iff _ _).mpr cut.touches, isToken, starts, stops, ?_⟩
  · rw [cut.slice_eq, cut.range_eq]
    exact ⟨_, _, cut.text_eq, rfl, rfl⟩
  · split
    · omega
    · omega

end SourceFile

namespace Snapshot

variable {snapshot : Snapshot} {path : File.Path} {position : Position}

/-- A target is found at a position if the file is loaded, the position has an offset, and the
target is found there. -/
theorem targetAt_eq_some_iff {source : SourceFile} {target : Target} :
    snapshot.targetAt path position = .ok (some (source, target)) ↔
      snapshot.fileAt? path = some source ∧
        ∃ offset, source.offset position = .ok offset ∧ source.target? offset = some target := by
  unfold targetAt
  cases snapshot.fileAt? path with
  | none => simp
  | some loaded =>
      dsimp only
      cases isOffset : loaded.offset position with
      | error =>
          refine ⟨nofun, ?_⟩
          rintro ⟨isLoaded, offset, found, _⟩
          cases isLoaded
          rw [isOffset] at found
          cases found
      | ok offset =>
          constructor
          · intro found
            obtain ⟨standing, isTarget, same⟩ := Option.map_eq_some_iff.mp (Except.ok.inj found)
            cases same
            exact ⟨rfl, offset, isOffset, isTarget⟩
          · rintro ⟨isLoaded, other, found, isTarget⟩
            cases isLoaded
            cases isOffset.symm.trans found
            exact congrArg Except.ok (Option.map_eq_some_iff.mpr ⟨target, isTarget, rfl⟩)

/-- The word of target code that a position selects, with the text it is found in. -/
def wordAt? (snapshot : Snapshot) (path : File.Path) (position : Position) :
    Option (String × Symbol × Range) :=
  match snapshot.targetAt path position with
  | .ok (some (source, .word symbol range)) => some (source.analysis.text, symbol, range)
  | _ => none

theorem exists_of_wordAt? {text : String} {symbol : Symbol} {range : Range}
    (found : snapshot.wordAt? path position = some (text, symbol, range)) :
    ∃ source, snapshot.targetAt path position = .ok (some (source, .word symbol range)) ∧
      source.analysis.text = text := by
  unfold wordAt? at found
  split at found
  · cases found
    exact ⟨_, ‹_›, rfl⟩
  · cases found

end Snapshot

/-- A word of target code is what a position of a loaded file selects only where no reference and
no declaration touches the offset. It is the text at its range, touches the offset and names a
symbol of the file. The offset stands in a block of target code or at one of its ends, and the word
stands between the braces of the block, unless the block begins at the offset and the word ends
there. -/
theorem words_of_blocks {snapshot : Snapshot} {path : File.Path} {position : Position}
    {source : SourceFile} {symbol : Symbol} {range : Range}
    (found : snapshot.targetAt path position = .ok (some (source, .word symbol range))) :
    snapshot.fileAt? path = some source ∧
      ∃ offset, source.offset position = .ok offset ∧
        (∀ reference ∈ source.references, reference.range.touches offset = false) ∧
        (∀ other ∈ source.symbols, other.range.touches offset = false) ∧
        symbol ∈ source.symbols ∧ range.Shows source.analysis.text symbol.name ∧
        range.touches offset = true ∧
        ∃ token ∈ Scan.tokenize source.analysis.text, token.kind = .action ∧
          token.offset ≤ offset ∧ offset ≤ token.stop ∧
          if offset = token.offset then range.stop = token.offset
          else token.offset < range.start ∧ range.stop < token.stop := by
  obtain ⟨isLoaded, offset, isOffset, isWord⟩ := Snapshot.targetAt_eq_some_iff.mp found
  obtain ⟨noName, token, after, isAction, around, isSymbol, isName⟩ :=
    SourceFile.of_target?_eq_word isWord
  obtain ⟨noReference, noSymbol⟩ := SourceFile.named?_eq_none_iff.mp noName
  have shown := SourceFile.wordStands_of_tokenAfter? after isAction around
  rw [isName]
  exact ⟨isLoaded, offset, isOffset, noReference, noSymbol, isSymbol, shown.shows, shown.touches,
    token, shown.isToken, isAction, shown.starts, shown.stops, shown.place⟩

/-- The cursor stands in a block before the name of a rule. -/
theorem words_of_blocks_inside :
    let text := "grammar G;a:{$a};"
    let snapshot := ((Session.new .standard).run [.load ⟨"/g/G.g4"⟩ text]).workspace.snapshot
    ∃ source symbol range,
      snapshot.targetAt ⟨"/g/G.g4"⟩ ⟨0, 14⟩ = .ok (some (source, .word symbol range)) ∧
        source.analysis.text = text ∧ range = ⟨14, 15⟩ ∧ range.Shows text symbol.name := by
  intro text snapshot
  have reached : (snapshot.wordAt? ⟨"/g/G.g4"⟩ ⟨0, 14⟩).map (fun found => (found.1, found.2.2)) =
      some (text, ⟨14, 15⟩) := by decide +kernel
  obtain ⟨⟨own, symbol, range⟩, isWord, same⟩ := Option.map_eq_some_iff.mp reached
  obtain ⟨rfl, rfl⟩ : own = text ∧ range = _ := Prod.mk.inj same
  obtain ⟨source, found, isText⟩ := Snapshot.exists_of_wordAt? isWord
  obtain ⟨_, _, _, _, _, _, shows, _⟩ := words_of_blocks found
  exact ⟨source, symbol, _, found, isText, rfl, isText ▸ shows⟩

/-- The name of an action stands right before its block. With the cursor between them the word is
that name, which is no part of any block. -/
theorem word_before_block :
    let text := "grammar G;a@init{x}:'x';init:'y';"
    let snapshot := ((Session.new .standard).run [.load ⟨"/g/A.g4"⟩ text]).workspace.snapshot
    ∃ source symbol range,
      snapshot.targetAt ⟨"/g/A.g4"⟩ ⟨0, 16⟩ = .ok (some (source, .word symbol range)) ∧
        ¬∃ token ∈ Scan.tokenize source.analysis.text, token.kind = .action ∧
          range.Inside ⟨token.offset, token.stop⟩ := by
  intro text snapshot
  have reached : (snapshot.wordAt? ⟨"/g/A.g4"⟩ ⟨0, 16⟩).map (fun found => (found.1, found.2.2)) =
      some (text, ⟨12, 16⟩) := by decide +kernel
  obtain ⟨⟨own, symbol, range⟩, isWord, same⟩ := Option.map_eq_some_iff.mp reached
  obtain ⟨rfl, rfl⟩ : own = text ∧ range = _ := Prod.mk.inj same
  obtain ⟨source, found, isText⟩ := Snapshot.exists_of_wordAt? isWord
  refine ⟨source, symbol, _, found, ?_⟩
  rw [isText]
  unfold Range.Inside
  decide +kernel

end GrammarDesk
