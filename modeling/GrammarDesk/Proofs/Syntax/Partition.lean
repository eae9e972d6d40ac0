import GrammarDesk.Proofs.Syntax.ActionBytes
import GrammarDesk.Text.Counter
import Mathlib.Algebra.GroupWithZero.Nat

/-!
Contract: the tokens of a text partition it.

Owns: offsets told by a 32-bit counter, how many characters a class of tokens may ask for, and
the proof that every text is cut into tokens without a gap, an overlap or an empty piece.

Does not own: where a class of tokens ends (`Scan`, `ActionBlock`).

Main statements: no class asks for characters that are not there (`classify_le`); the tokens of
a text partition it (`tokens_partition`).
-/

namespace GrammarDesk.Syntax

open Text

/-! ## Offsets -/

namespace Token

theorem sizeOf_eq_sum (tokens : List Token) :
    sizeOf tokens = (tokens.map fun token => token.size).sum := by
  induction tokens with
  | nil => rfl
  | cons token rest inductionHypothesis =>
      rw [← List.singleton_append, sizeOf_append, sizeOf_singleton, inductionHypothesis]
      rfl

/-- Lexemes placed one after another by a counter, which each of them moves by its size. -/
def count (counter : Nat) : List Lexeme → Checked (List Token)
  | [] => return []
  | lexeme :: rest => do
      let next ← Counter.add counter lexeme.size
      let later ← count next rest
      return ⟨lexeme, counter⟩ :: later

/-- The counter places lexemes as they stand, if their end is within its range. -/
theorem count_eq_place {counter : Nat} {lexemes : List Lexeme}
    (small : counter + sizeOf (place counter lexemes) < Counter.limit) :
    count counter lexemes = .ok (place counter lexemes) := by
  induction lexemes generalizing counter with
  | nil => rfl
  | cons lexeme rest inductionHypothesis =>
      rw [place, ← List.singleton_append, sizeOf_append, sizeOf_singleton, ← Nat.add_assoc] at small
      have next : Counter.add counter lexeme.size = .ok (counter + lexeme.size) :=
        Counter.add_eq_ok_iff.mpr ⟨Nat.lt_of_le_of_lt (Nat.le_add_right _ _) small, rfl⟩
      rw [count, next]
      change (count (counter + lexeme.size) rest >>= _) = _
      rw [inductionHypothesis small]
      rfl

end Token

/-! ## Lengths -/

namespace Scan

variable {previous : Option Kind} {first : Char} {rest : List Char}

theorem runLength_le (class_ : Char → Bool) (characters : List Char) :
    runLength class_ characters ≤ characters.length :=
  (List.takeWhile_prefix class_).length_le

theorem delimited_le (closing : Char) (stops : Char → Bool) (characters : List Char) :
    (delimited closing stops characters).1 ≤ characters.length := by
  fun_induction delimited closing stops characters <;> grind

theorem length?_le {length : Nat} (closed : ActionBlock.length? rest = some length) :
    length ≤ rest.length := by
  obtain ⟨after, _, rfl⟩ := Option.map_eq_some_iff.mp closed
  exact Nat.sub_le _ _

/-- No class of tokens asks for more characters than there are behind the first. -/
theorem classify_le (previous : Option Kind) (first : Char) (rest : List Char) :
    (classify previous first rest).2 ≤ rest.length := by
  have run := runLength_le
  have bounded := delimited_le
  have block := @length?_le rest
  fun_cases classify previous first rest <;> grind

theorem size_pos_of_mem_tokenize {text : String} {token : Token}
    (isToken : token ∈ tokenize text) : 0 < token.size := by
  have isLexeme : token.toLexeme ∈ lexemes none text.toList := by
    rw [← Token.map_toLexeme_place 0 (lexemes none text.toList)]
    exact List.mem_map_of_mem isToken
  exact size_pos_of_mem_lexemes isLexeme

/-- The tokens of a text partition it: none is empty, and one after another they are the text.
Each stands where the sizes of those before it add up to, which is where a 32-bit counter has
come that each token moves by its size; the counter never leaves its range. And a token is of
the class that is found there: it takes the first character that is left and as many more as
the class asks for, all of which are there. -/
theorem tokens_partition (text : String) (small : text.utf8ByteSize < Counter.limit) :
    (∀ token ∈ tokenize text, token.text ≠ "") ∧
      String.join ((tokenize text).map fun token => token.text) = text ∧
      (∀ before token after, tokenize text = before ++ token :: after →
        token.offset = (before.map fun token => token.size).sum ∧
          ∃ first rest length,
            text = Token.spell before ++ String.ofList (first :: rest) ∧
              classify ((significantOf before).getLast?.map Lexeme.kind) first rest =
                (token.kind, length) ∧
              token.text.toList = first :: rest.take length ∧ length ≤ rest.length) ∧
      Token.count 0 (lexemes none text.toList) = .ok (tokenize text) := by
  refine ⟨fun token isToken empty => ?_, join_tokenize text, fun before token after split => ?_,
    Token.count_eq_place ?_⟩
  · have positive : 0 < token.size := size_pos_of_mem_tokenize isToken
    rw [Lexeme.size, empty] at positive
    exact Nat.lt_irrefl 0 positive
  · obtain ⟨first, rest, length, _, whole, offset, read, isText, _⟩ := exists_read_token split
    refine ⟨offset.trans (Token.sizeOf_eq_sum before), first, rest, length, whole, read, ?_, ?_⟩
    · rw [isText, String.toList_ofList]
    · have bound := classify_le ((significantOf before).getLast?.map Lexeme.kind) first rest
      rw [read] at bound
      exact bound
  · have whole : Token.sizeOf (tokenize text) = text.utf8ByteSize :=
      congrArg String.utf8ByteSize (join_tokenize text)
    rw [Nat.zero_add]
    exact whole ▸ small

/-- A string that its line ends and a block that the text ends are tokens like all others. -/
theorem tokens_partition_unended :
    "'b\n\x7bé".utf8ByteSize < Counter.limit ∧
      Token.count 0 (lexemes none "'b\n\x7bé".toList) =
        .ok [⟨⟨.error, "'b"⟩, 0⟩, ⟨⟨.whitespace, "\n"⟩, 2⟩, ⟨⟨.error, "\x7bé"⟩, 3⟩] := by
  have small : "'b\n\x7bé".utf8ByteSize < Counter.limit := by decide
  have tokens : tokenize "'b\n\x7bé" =
      [⟨⟨.error, "'b"⟩, 0⟩, ⟨⟨.whitespace, "\n"⟩, 2⟩, ⟨⟨.error, "\x7bé"⟩, 3⟩] := by
    decide +kernel
  refine ⟨small, ?_⟩
  rw [← tokens]
  exact (tokens_partition _ small).2.2.2

end Scan

/-- The tokens of a text are those of its tree. -/
theorem Parse.tokens_of_text {text : String} {parse : Parse}
    (read : ofText? text = some parse) : parse.tree.tokens = Scan.tokenize text := by
  obtain ⟨_, rfl⟩ := ofText?_eq_some_iff.mp read
  exact Weave.tokens_root _ _ _ _

end GrammarDesk.Syntax
