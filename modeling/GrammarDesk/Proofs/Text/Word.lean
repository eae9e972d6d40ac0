import GrammarDesk.Text.Word
import Mathlib.Data.List.TakeWhile
import Mathlib.Data.String.Basic

/-!
Contract: the word that touches an offset.

Owns: a text cut at an offset and at both ends of the word around it, the proof that the range
of the word is found this way and no other, the slice of a text at a range, and the words of a
text told without any offset.

Does not own: which characters are word characters (`IdentifierContinue`).

Main statements: `wordRangeAt_eq_some_iff`; a word does not reach over a character that is none
of its own (`WordCut.apart`); what is found at an offset is the longest word there, and the same
one at each offset that touches it (`word_at_offset_maximal`).
-/

namespace GrammarDesk.Text

open String (utf8Len utf8Len_nil utf8Len_cons utf8Len_append utf8Len_reverse utf8Len_toList
  utf8Len_eq_zero)

/-! ## Cutting at an offset -/

theorem byteLength_eq (characters : List Char) : byteLength characters = utf8Len characters := by
  induction characters with
  | nil => rfl
  | cons character rest inductionHypothesis =>
      rw [utf8Len_cons, ← inductionHypothesis, Nat.add_comm]
      rfl

theorem splitAtOffset_append (before taken rest : List Char) :
    splitAtOffset before (utf8Len taken) (taken ++ rest) =
      some (taken.reverse ++ before, rest) := by
  induction taken generalizing before with
  | nil => cases rest <;> rfl
  | cons character taken inductionHypothesis =>
      have positive := character.utf8Size_pos
      rw [List.cons_append, splitAtOffset, utf8Len_cons, if_neg (by omega), if_pos (by omega),
        Nat.add_sub_cancel, inductionHypothesis, List.reverse_cons, List.append_assoc]
      rfl

/-- A text is split behind the characters that take up the offset. -/
theorem exists_of_splitAtOffset {before characters left right : List Char} {offset : Nat}
    (found : splitAtOffset before offset characters = some (left, right)) :
    ∃ taken, characters = taken ++ right ∧ utf8Len taken = offset ∧
      left = taken.reverse ++ before := by
  fun_induction splitAtOffset before offset characters with
  | case1 before =>
      cases found
      exact ⟨[], rfl, rfl, rfl⟩
  | case2 => cases found
  | case3 before character rest =>
      cases found
      exact ⟨[], rfl, rfl, rfl⟩
  | case4 before offset character rest _ enough inductionHypothesis =>
      obtain ⟨taken, rfl, size, rfl⟩ := inductionHypothesis found
      refine ⟨character :: taken, rfl, ?_, by simp⟩
      rw [utf8Len_cons, size]
      exact Nat.sub_add_cancel enough
  | case5 => cases found

theorem slice_of_split {text before part after : String} (split : text = before ++ part ++ after) :
    slice text ⟨before.utf8ByteSize, before.utf8ByteSize + part.utf8ByteSize⟩ = part := by
  have characters : text.toList = before.toList ++ (part.toList ++ after.toList) := by
    rw [split, String.toList_append, String.toList_append, List.append_assoc]
  unfold slice
  dsimp only
  rw [characters, ← utf8Len_toList, splitAtOffset_append]
  dsimp only
  rw [Nat.add_sub_cancel_left, ← utf8Len_toList, splitAtOffset_append]
  dsimp only
  rw [List.append_nil, List.reverse_reverse, String.ofList_toList]

/-! ## Runs of characters -/

theorem eq_false_of_head?_dropWhile {test : Char → Bool} {characters : List Char}
    {character : Char} (isFirst : character ∈ (characters.dropWhile test).head?) :
    test character = false := by
  have fails := List.head?_dropWhile_not test characters
  rw [isFirst] at fails
  exact fails

/-- A run goes as far as the test passes. -/
theorem takeWhile_of_ends {test : Char → Bool} {own rest : List Char}
    (passes : ∀ character ∈ own, test character = true)
    (ends : ∀ character ∈ rest.head?, test character = false) :
    (own ++ rest).takeWhile test = own := by
  rw [List.takeWhile_append_of_pos passes]
  cases rest with
  | nil => exact List.append_nil own
  | cons first rest =>
      rw [List.takeWhile_cons_of_neg (by simp [ends first rfl]), List.append_nil]

/-- Of two ways to cut a list the one that cuts off no more bytes comes first. -/
theorem exists_between {first second front back : List Char}
    (same : first ++ second = front ++ back) (shorter : utf8Len first ≤ utf8Len front) :
    ∃ between, front = first ++ between ∧ second = between ++ back := by
  rcases List.append_eq_append_iff.mp same with found | ⟨between, rfl, rfl⟩
  · exact found
  · rw [utf8Len_append] at shorter
    obtain rfl := utf8Len_eq_zero.mp (show utf8Len between = 0 by omega)
    exact ⟨[], by simp, rfl⟩

/-- A character that stands where a part begins, or behind, and before the part ends is one of
its characters. -/
theorem mem_of_reaches {before own after front back : List Char} {mark : Char}
    (same : before ++ (own ++ after) = front ++ mark :: back)
    (begun : utf8Len before ≤ utf8Len front)
    (reaches : utf8Len front < utf8Len before + utf8Len own) : mark ∈ own := by
  obtain ⟨between, rfl, rest⟩ := exists_between same begun
  rw [utf8Len_append] at reaches
  obtain ⟨more, rfl, isRest⟩ := exists_between rest.symm (by omega)
  cases more with
  | nil => simp at reaches
  | cons first more =>
      obtain ⟨rfl, _⟩ := List.cons.inj isRest
      simp

/-! ## The word around an offset -/

/-- A text cut at an offset, and before and after it where its word characters end. -/
structure WordCut (text : String) (offset : Nat) where
  before : List Char
  left : List Char
  right : List Char
  after : List Char
  split : text.toList = before ++ (left ++ right ++ after)
  offset_eq : utf8Len before + utf8Len left = offset
  isWord : ∀ character ∈ left ++ right, isWordCharacter character = true
  endsBefore : ∀ character ∈ before.getLast?, isWordCharacter character = false
  endsAfter : ∀ character ∈ after.head?, isWordCharacter character = false

namespace WordCut

variable {text : String} {offset : Nat}

/-- Every offset between two characters cuts the text. -/
theorem exists_of_split {taken rest : List Char} (split : text.toList = taken ++ rest) :
    Nonempty (WordCut text (utf8Len taken)) := by
  have halves : (taken.reverse.dropWhile isWordCharacter).reverse ++
      (taken.reverse.takeWhile isWordCharacter).reverse = taken := by
    rw [← List.reverse_append, List.takeWhile_append_dropWhile, List.reverse_reverse]
  refine ⟨⟨(taken.reverse.dropWhile isWordCharacter).reverse,
    (taken.reverse.takeWhile isWordCharacter).reverse, rest.takeWhile isWordCharacter,
    rest.dropWhile isWordCharacter, ?_, ?_, ?_, ?_, fun _ => eq_false_of_head?_dropWhile⟩⟩
  · rw [List.append_assoc, ← List.append_assoc, halves, List.takeWhile_append_dropWhile, split]
  · rw [← utf8Len_append, halves]
  · intro character isOwn
    rcases List.mem_append.mp isOwn with isLeft | isRight
    · exact List.mem_takeWhile_imp (List.mem_reverse.mp isLeft)
    · exact List.mem_takeWhile_imp isRight
  · intro character isLast
    rw [List.getLast?_reverse] at isLast
    exact eq_false_of_head?_dropWhile isLast

variable (cut : WordCut text offset)

def word : List Char :=
  cut.left ++ cut.right

def range : Range :=
  ⟨utf8Len cut.before, utf8Len cut.before + utf8Len cut.word⟩

/-- The word touches the offset. -/
theorem touches : cut.range.start ≤ offset ∧ offset ≤ cut.range.stop := by
  have start := cut.offset_eq
  have size : utf8Len cut.word = utf8Len cut.left + utf8Len cut.right := utf8Len_append ..
  unfold range
  dsimp only
  omega

/-- The word around an offset is what stands between the nearest characters on both sides that
are none of a word. -/
theorem wordRangeAt_eq :
    wordRangeAt text offset = if cut.word = [] then none else some cut.range := by
  have found := splitAtOffset_append [] (cut.before ++ cut.left) (cut.right ++ cut.after)
  have split : text.toList = (cut.before ++ cut.left) ++ (cut.right ++ cut.after) := by
    simp [cut.split]
  rw [← split, utf8Len_append, cut.offset_eq] at found
  have left : ((cut.before ++ cut.left).reverse ++ []).takeWhile isWordCharacter =
      cut.left.reverse := by
    rw [List.append_nil, List.reverse_append]
    refine takeWhile_of_ends (fun character isLeft => ?_) ?_
    · exact cut.isWord character (List.mem_append_left _ (List.mem_reverse.mp isLeft))
    · rw [List.head?_reverse]
      exact cut.endsBefore
  have right : (cut.right ++ cut.after).takeWhile isWordCharacter = cut.right :=
    takeWhile_of_ends (fun character isRight =>
      cut.isWord character (List.mem_append_right _ isRight)) cut.endsAfter
  have start := cut.offset_eq
  have size : utf8Len cut.word = utf8Len cut.left + utf8Len cut.right := utf8Len_append ..
  have empty : cut.word = [] ↔ utf8Len cut.word = 0 := utf8Len_eq_zero.symm
  unfold wordRangeAt
  rw [found]
  dsimp only
  rw [left, right, byteLength_eq, byteLength_eq, utf8Len_reverse]
  by_cases isEmpty : cut.word = []
  · have none := empty.mp isEmpty
    rw [if_pos isEmpty, if_neg (by omega)]
  · have some := mt empty.mpr isEmpty
    rw [if_neg isEmpty, if_pos (by omega), range]
    congr 2 <;> omega

/-- The word does not reach over a character that is none of its own. -/
theorem apart {front back : List Char} {mark : Char} (split : text.toList = front ++ mark :: back)
    (noWord : isWordCharacter mark = false) :
    cut.range.stop ≤ utf8Len front ∨ utf8Len front + mark.utf8Size ≤ cut.range.start := by
  have same := cut.split.symm.trans split
  rcases Nat.lt_or_ge (utf8Len front) (utf8Len cut.before) with startsAfter | startsBefore
  · obtain ⟨between, isBefore, rest⟩ := exists_between same.symm (Nat.le_of_lt startsAfter)
    have size := congrArg utf8Len isBefore
    rw [utf8Len_append] at size
    cases between with
    | nil =>
        rw [utf8Len_nil] at size
        omega
    | cons first between =>
        obtain ⟨rfl, _⟩ := List.cons.inj rest
        rw [utf8Len_cons] at size
        have start : cut.range.start = utf8Len cut.before := rfl
        exact .inr (by omega)
  · refine .inl ?_
    by_contra! reaches
    have isOwn : mark ∈ cut.word := mem_of_reaches same startsBefore reaches
    rw [cut.isWord mark isOwn] at noWord
    cases noWord

theorem text_eq :
    text = String.ofList cut.before ++ String.ofList cut.word ++ String.ofList cut.after := by
  rw [← String.ofList_append, ← String.ofList_append, List.append_assoc, word, ← cut.split,
    String.ofList_toList]

theorem range_eq :
    cut.range = ⟨(String.ofList cut.before).utf8ByteSize,
      (String.ofList cut.before).utf8ByteSize + (String.ofList cut.word).utf8ByteSize⟩ := by
  rw [String.utf8ByteSize_ofList, String.utf8ByteSize_ofList, range]

theorem slice_eq : slice text cut.range = String.ofList cut.word := by
  rw [cut.range_eq]
  exact slice_of_split cut.text_eq

theorem start_lt_stop (some : cut.word ≠ []) : cut.range.start < cut.range.stop := by
  have size := mt utf8Len_eq_zero.mp some
  unfold range
  dsimp only
  omega

theorem stop_le : cut.range.stop ≤ text.utf8ByteSize := by
  have size := congrArg String.utf8ByteSize cut.text_eq
  rw [String.utf8ByteSize_append, String.utf8ByteSize_append] at size
  rw [cut.range_eq, size]
  exact Nat.le_add_right _ _

end WordCut

/-- The range of a word at an offset is the one around the word characters next to it, if there
are any. -/
theorem wordRangeAt_eq_some_iff {text : String} {offset : Nat} {range : Range} :
    wordRangeAt text offset = some range ↔
      ∃ cut : WordCut text offset, cut.word ≠ [] ∧ range = cut.range := by
  constructor
  · intro found
    have isCut : ∃ taken rest, text.toList = taken ++ rest ∧ utf8Len taken = offset := by
      cases cuts : splitAtOffset [] offset text.toList with
      | none => simp [wordRangeAt, cuts] at found
      | some halves =>
          obtain ⟨taken, split, size, _⟩ := exists_of_splitAtOffset cuts
          exact ⟨taken, _, split, size⟩
    obtain ⟨taken, rest, split, rfl⟩ := isCut
    obtain ⟨cut⟩ := WordCut.exists_of_split split
    rw [cut.wordRangeAt_eq] at found
    split at found
    · cases found
    · exact ⟨cut, ‹_›, (Option.some.inj found).symm⟩
  · rintro ⟨cut, some, rfl⟩
    rw [cut.wordRangeAt_eq, if_neg some]

/-! ## Words and the offsets that touch them -/

/-- The offset is between two characters of the text or at one of its ends. -/
def IsBoundary (text : String) (offset : Nat) : Prop :=
  ∃ before after, text.toList = before ++ after ∧ utf8Len before = offset

/-- The offset is a boundary, and the character right before or right after it is a word
character. -/
def TouchesWord (text : String) (offset : Nat) : Prop :=
  ∃ before after, text.toList = before ++ after ∧ utf8Len before = offset ∧
    ((∃ character ∈ before.getLast?, isWordCharacter character = true) ∨
      ∃ character ∈ after.head?, isWordCharacter character = true)

/-- A word of a text stands at the range: some characters, all of them word characters, with none
right before them and none right after. -/
def IsWord (text : String) (range : Range) : Prop :=
  ∃ before word after, text.toList = before ++ (word ++ after) ∧
    range = ⟨utf8Len before, utf8Len before + utf8Len word⟩ ∧ word ≠ [] ∧
    (∀ character ∈ word, isWordCharacter character = true) ∧
    (∀ character ∈ before.getLast?, isWordCharacter character = false) ∧
    ∀ character ∈ after.head?, isWordCharacter character = false

namespace WordCut

variable {text : String} {offset : Nat}

theorem isBoundary (cut : WordCut text offset) : IsBoundary text offset :=
  ⟨cut.before ++ cut.left, cut.right ++ cut.after, by simp [cut.split],
    by rw [utf8Len_append, cut.offset_eq]⟩

theorem isWord_range (cut : WordCut text offset) (some : cut.word ≠ []) :
    IsWord text cut.range :=
  ⟨cut.before, cut.word, cut.after, cut.split, rfl, some, cut.isWord, cut.endsBefore,
    cut.endsAfter⟩

/-- Where an offset touches a word, the text is cut at both ends of that word. -/
theorem exists_of_isWord {range : Range} (isWord : IsWord text range)
    (boundary : IsBoundary text offset) (begun : range.start ≤ offset)
    (within : offset ≤ range.stop) :
    ∃ cut : WordCut text offset, cut.word ≠ [] ∧ range = cut.range := by
  obtain ⟨before, word, after, split, rfl, some, passes, endsBefore, endsAfter⟩ := isWord
  obtain ⟨taken, rest, cuts, rfl⟩ := boundary
  dsimp only at begun within
  obtain ⟨left, rfl, behind⟩ := exists_between (split.symm.trans cuts) begun
  rw [utf8Len_append] at within
  obtain ⟨right, rfl, _⟩ := exists_between behind.symm (by omega)
  refine ⟨⟨before, left, right, after, split, (utf8Len_append ..).symm, passes, endsBefore,
    endsAfter⟩, some, rfl⟩

/-- The word around an offset is empty only where neither neighbour is a word character. -/
theorem touchesWord_iff (cut : WordCut text offset) : TouchesWord text offset ↔ cut.word ≠ [] := by
  constructor
  · rintro ⟨before, after, split, size, touched⟩ isEmpty
    obtain ⟨noLeft, noRight⟩ := List.append_eq_nil_iff.mp isEmpty
    have same := cut.split.symm.trans split
    rw [noLeft, noRight, List.append_nil, List.nil_append] at same
    have start := cut.offset_eq
    rw [noLeft, utf8Len_nil] at start
    obtain ⟨between, isBefore, isAfter⟩ := exists_between same (by omega)
    have noMore := congrArg utf8Len isBefore
    rw [utf8Len_append] at noMore
    obtain rfl := utf8Len_eq_zero.mp (show utf8Len between = 0 by omega)
    rw [List.append_nil] at isBefore
    rw [List.nil_append] at isAfter
    rcases touched with ⟨character, isLast, isOwn⟩ | ⟨character, isFirst, isOwn⟩
    · rw [cut.endsBefore character (isBefore ▸ isLast)] at isOwn
      cases isOwn
    · rw [cut.endsAfter character (isAfter ▸ isFirst)] at isOwn
      cases isOwn
  · intro some
    refine ⟨cut.before ++ cut.left, cut.right ++ cut.after, by simp [cut.split],
      by rw [utf8Len_append, cut.offset_eq], ?_⟩
    rcases List.eq_nil_or_concat cut.left with noLeft | ⟨others, last, isLeft⟩
    · right
      cases isRight : cut.right with
      | nil => exact absurd (by rw [word, noLeft, isRight, List.append_nil]) some
      | cons first others =>
          exact ⟨first, rfl, cut.isWord first (by simp [isRight])⟩
    · left
      refine ⟨last, ?_, cut.isWord last (by simp [isLeft])⟩
      rw [isLeft, List.concat_eq_append, ← List.append_assoc, List.getLast?_concat]
      rfl

end WordCut

/-- The word that is found at an offset is the one that stands in the text and touches it. -/
theorem wordRangeAt_eq_some_iff_touches {text : String} {offset : Nat} {range : Range} :
    wordRangeAt text offset = some range ↔
      IsWord text range ∧ IsBoundary text offset ∧ range.start ≤ offset ∧
        offset ≤ range.stop := by
  rw [wordRangeAt_eq_some_iff]
  constructor
  · rintro ⟨cut, some, rfl⟩
    exact ⟨cut.isWord_range some, cut.isBoundary, cut.touches⟩
  · rintro ⟨isWord, boundary, begun, within⟩
    exact WordCut.exists_of_isWord isWord boundary begun within

theorem isSome_wordRangeAt_iff {text : String} {offset : Nat} :
    (wordRangeAt text offset).isSome = true ↔ TouchesWord text offset := by
  constructor
  · intro found
    obtain ⟨range, found⟩ := Option.isSome_iff_exists.mp found
    obtain ⟨cut, some, _⟩ := wordRangeAt_eq_some_iff.mp found
    exact cut.touchesWord_iff.mpr some
  · intro touched
    obtain ⟨before, after, split, rfl, _⟩ := id touched
    obtain ⟨cut⟩ := WordCut.exists_of_split split
    rw [cut.wordRangeAt_eq, if_neg (cut.touchesWord_iff.mp touched)]
    rfl

/-- An offset has a word exactly where it is a boundary with a word character right before or
right after it. The word is one that stands in the text and reaches the offset, and the offsets
that have the same word are exactly the boundaries that it reaches. -/
theorem word_at_offset_maximal (text : String) (offset : Nat) :
    ((wordRangeAt text offset).isSome = true ↔ TouchesWord text offset) ∧
      ∀ range, wordRangeAt text offset = some range →
        IsWord text range ∧ range.start ≤ offset ∧ offset ≤ range.stop ∧
          ∀ other, wordRangeAt text other = some range ↔
            IsBoundary text other ∧ range.start ≤ other ∧ other ≤ range.stop := by
  refine ⟨isSome_wordRangeAt_iff, fun range found => ?_⟩
  obtain ⟨isWord, _, begun, within⟩ := wordRangeAt_eq_some_iff_touches.mp found
  refine ⟨isWord, begun, within, fun other => ?_⟩
  rw [wordRangeAt_eq_some_iff_touches]
  exact and_iff_right isWord

/-- Between two letters of two bytes each, and at the end of their word. -/
theorem word_at_offset_maximal_wide :
    wordRangeAt "x = größe;" 8 = some ⟨4, 11⟩ ∧ IsWord "x = größe;" ⟨4, 11⟩ ∧
      wordRangeAt "x = größe;" 11 = some ⟨4, 11⟩ := by
  have found : wordRangeAt "x = größe;" 8 = some ⟨4, 11⟩ := by decide +kernel
  obtain ⟨isWord, _, _, offsets⟩ := (word_at_offset_maximal "x = größe;" 8).2 ⟨4, 11⟩ found
  exact ⟨found, isWord, (offsets 11).mpr
    ⟨⟨"x = größe".toList, ";".toList, rfl, by decide +kernel⟩, by decide, by decide⟩⟩

end GrammarDesk.Text
