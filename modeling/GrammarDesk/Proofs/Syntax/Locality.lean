import GrammarDesk.Proofs.Syntax.Tiling

/-!
Contract: how far a lexeme depends on what follows it.

Owns: the skips of target code and comments that end before a mark, lexemes that do, and what
becomes of the lexemes of a text when a semicolon in it is replaced by a blank.

Does not own: how the lexemes are read (`Production`).

A mark is any character at which no lexeme before it goes on. Everything that ends before a
mark ends there whatever stands from the mark on; only whitespace may go on into it.

Main statements: a lexeme that ends before a mark does not depend on what follows
(`lexemes_local`); a blank in the place of a semicolon leaves the other significant lexemes as
they were (`tokenize_blank`).
-/

namespace GrammarDesk.Syntax

/-- The first character belongs to what is before the mark, if anything is. -/
theorem own_of_pos {own behind rest : List Char} {mark first : Char}
    (split : own ++ mark :: behind = first :: rest) (some : 0 < own.length) :
    ∃ others, own = first :: others ∧ rest = others ++ mark :: behind := by
  cases own with
  | nil => cases some
  | cons head others =>
      obtain ⟨rfl, rfl⟩ := List.cons.inj split
      exact ⟨others, rfl, rfl⟩

/-! ## Skips -/

namespace ActionBlock

variable {own behind after : List Char} {mark : Char} {depth : Nat}

/-- What leaves more than what is behind the mark took the first of what is before it. -/
theorem own_of_inside {first : Char} {rest : List Char}
    (split : own ++ mark :: behind = first :: rest) (inside : behind.length < rest.length) :
    ∃ others, own = first :: others ∧ rest = others ++ mark :: behind := by
  refine own_of_pos split ?_
  have size := congrArg List.length split
  rw [List.length_append, List.length_cons, List.length_cons] at size
  omega

theorem own_ne_nil_of_inside (shorter : after.length < (own ++ mark :: behind).length)
    (inside : behind.length < after.length) : own ≠ [] := by
  rintro rfl
  rw [List.nil_append, List.length_cons] at shorter
  omega

/-- The next of some characters is the next whatever follows them. -/
theorem next_of_own {other rest : List Char} {next : Char} (some : own ≠ [])
    (isNext : own ++ other = next :: rest) (others : List Char) :
    ∃ rest, own ++ others = next :: rest := by
  cases own with
  | nil => exact absurd rfl some
  | cons head own =>
      obtain ⟨rfl, _⟩ := List.cons.inj isNext
      exact ⟨_, rfl⟩

theorem afterLine_local (inside : behind.length < (afterLine (own ++ mark :: behind)).length) :
    ∃ left, ∀ other, afterLine (own ++ other) = left ++ other := by
  generalize split : own ++ mark :: behind = characters at inside
  fun_induction afterLine characters generalizing own with
  | case1 => cases inside
  | case2 rest =>
      obtain ⟨others, rfl, rfl⟩ := own_of_inside split inside
      exact ⟨others, fun other => by simp [afterLine]⟩
  | case3 first rest ordinary inductionHypothesis =>
      obtain ⟨others, rfl, rfl⟩ :=
        own_of_inside split (Nat.lt_of_lt_of_le inside (afterLine_length_le rest))
      obtain ⟨left, same⟩ := inductionHypothesis rfl inside
      exact ⟨left, fun other => by simp [afterLine, ordinary, same]⟩

/-- A quote that is closed before a mark is closed at the same place whatever follows the mark.
-/
theorem afterQuoted_local {quote : Char}
    (inside : behind.length < (afterQuoted quote (own ++ mark :: behind)).length) :
    ∃ left, ∀ other, afterQuoted quote (own ++ other) = left ++ other := by
  have plain_of {first : Char} {others : List Char}
      (plain : ∀ next rest, first = '\\' → others ++ mark :: behind = next :: rest → False) :
      first ≠ '\\' := by
    intro escapes
    cases others with
    | nil => exact plain _ _ escapes rfl
    | cons next others => exact plain _ _ escapes rfl
  generalize split : own ++ mark :: behind = characters at inside
  fun_induction afterQuoted quote characters generalizing own with
  | case1 => cases inside
  | case2 escaped rest inductionHypothesis =>
      have shorter := Nat.lt_of_lt_of_le inside (afterQuoted_length_le quote rest)
      obtain ⟨others, rfl, more⟩ := own_of_inside split (Nat.lt_succ_of_lt shorter)
      obtain ⟨others, rfl, rfl⟩ := own_of_inside more.symm shorter
      obtain ⟨left, same⟩ := inductionHypothesis rfl inside
      exact ⟨left, fun other => by simp [afterQuoted, same]⟩
  | case3 first rest plain closes =>
      obtain ⟨others, rfl, rfl⟩ := own_of_inside split inside
      exact ⟨others, fun other => by simp [afterQuoted, plain_of plain, closes]⟩
  | case4 first rest plain ordinary inductionHypothesis =>
      obtain ⟨others, rfl, rfl⟩ :=
        own_of_inside split (Nat.lt_of_lt_of_le inside (afterQuoted_length_le quote rest))
      obtain ⟨left, same⟩ := inductionHypothesis rfl inside
      exact ⟨left, fun other => by simp [afterQuoted, plain_of plain, ordinary, same]⟩

/-- A comment that is closed before a mark is closed at the same place whatever follows the
mark. -/
theorem afterComment?_local (found : afterComment? (own ++ mark :: behind) = some after)
    (inside : behind.length < after.length) :
    ∃ left, ∀ other, afterComment? (own ++ other) = some (left ++ other) := by
  generalize split : own ++ mark :: behind = characters at found
  fun_induction afterComment? characters generalizing own with
  | case1 => cases found
  | case2 rest =>
      cases found
      obtain ⟨others, rfl, more⟩ := own_of_inside split (Nat.lt_succ_of_lt inside)
      obtain ⟨others, rfl, rfl⟩ := own_of_inside more.symm inside
      exact ⟨others, fun other => rfl⟩
  | case3 first rest ordinary inductionHypothesis =>
      have shorter := Nat.lt_trans inside (afterComment?_length_lt found)
      obtain ⟨others, rfl, rfl⟩ := own_of_inside split shorter
      obtain ⟨left, same⟩ := inductionHypothesis rfl found
      refine ⟨left, fun other => ?_⟩
      have some := own_ne_nil_of_inside (afterComment?_length_lt found) inside
      rw [List.cons_append, afterComment?.eq_3, same]
      intro rest isStar isNext
      exact (next_of_own some isNext _).elim fun rest isNext => ordinary rest isStar isNext

theorem afterBlock?_comment (depth : Nat) (rest : List Char) :
    afterBlock? depth ('/' :: '*' :: rest) = (afterComment? rest).bind (afterBlock? depth) := by
  rw [afterBlock?.eq_7]
  split
  · rename_i unclosed
    rw [unclosed]
    rfl
  · rename_i closed
    rw [closed]
    rfl

/-- The scan of a block passes at least one character, its closing brace. -/
theorem afterBlock?_length_lt (found : afterBlock? depth own = some after) :
    after.length < own.length := by
  fun_induction afterBlock? depth own with
  | case1 => cases found
  | case2 depth rest inductionHypothesis => exact Nat.lt_succ_of_lt (inductionHypothesis found)
  | case3 depth rest closes =>
      cases found
      exact Nat.lt_succ_self _
  | case4 depth rest nested inductionHypothesis =>
      exact Nat.lt_succ_of_lt (inductionHypothesis found)
  | case5 depth rest inductionHypothesis | case6 depth rest inductionHypothesis =>
      have shorter := Nat.lt_of_lt_of_le (inductionHypothesis found) (afterQuoted_length_le _ rest)
      exact Nat.lt_succ_of_lt shorter
  | case7 depth rest inductionHypothesis =>
      have shorter := Nat.lt_of_lt_of_le (inductionHypothesis found) (afterLine_length_le rest)
      exact Nat.lt_succ_of_lt (Nat.lt_succ_of_lt shorter)
  | case8 => cases found
  | case9 depth rest later closed inductionHypothesis =>
      have shorter := Nat.lt_trans (inductionHypothesis found) (afterComment?_length_lt closed)
      exact Nat.lt_succ_of_lt (Nat.lt_succ_of_lt shorter)
  | case10 depth first rest _ _ _ _ _ _ inductionHypothesis =>
      exact Nat.lt_succ_of_lt (inductionHypothesis found)

/-- A block that is closed before a mark is closed at the same place whatever follows the mark.
The quotes and comments in it are closed before the mark too. -/
theorem afterBlock?_local (found : afterBlock? depth (own ++ mark :: behind) = some after)
    (inside : behind.length < after.length) :
    ∃ left, ∀ other, afterBlock? depth (own ++ other) = some (left ++ other) := by
  generalize split : own ++ mark :: behind = characters at found
  fun_induction afterBlock? depth characters generalizing own with
  | case1 => cases found
  | case2 depth rest inductionHypothesis =>
      obtain ⟨others, rfl, rfl⟩ :=
        own_of_inside split (Nat.lt_trans inside (afterBlock?_length_lt found))
      obtain ⟨left, same⟩ := inductionHypothesis rfl found
      exact ⟨left, fun other => by simp [afterBlock?, same]⟩
  | case3 depth rest closes =>
      cases found
      obtain ⟨others, rfl, rfl⟩ := own_of_inside split inside
      exact ⟨others, fun other => by simp [afterBlock?, closes]⟩
  | case4 depth rest nested inductionHypothesis =>
      obtain ⟨others, rfl, rfl⟩ :=
        own_of_inside split (Nat.lt_trans inside (afterBlock?_length_lt found))
      obtain ⟨left, same⟩ := inductionHypothesis rfl found
      exact ⟨left, fun other => by simp [afterBlock?, nested, same]⟩
  | case5 depth rest inductionHypothesis | case6 depth rest inductionHypothesis =>
      have skipped := Nat.lt_trans inside (afterBlock?_length_lt found)
      obtain ⟨others, rfl, rfl⟩ :=
        own_of_inside split (Nat.lt_of_lt_of_le skipped (afterQuoted_length_le _ rest))
      obtain ⟨middle, quoted⟩ := afterQuoted_local skipped
      obtain ⟨left, same⟩ := inductionHypothesis (quoted _).symm found
      exact ⟨left, fun other => by simp [afterBlock?, quoted, same]⟩
  | case7 depth rest inductionHypothesis =>
      have skipped := Nat.lt_trans inside (afterBlock?_length_lt found)
      have shorter := Nat.lt_of_lt_of_le skipped (afterLine_length_le rest)
      obtain ⟨others, rfl, more⟩ := own_of_inside split (Nat.lt_succ_of_lt shorter)
      obtain ⟨others, rfl, rfl⟩ := own_of_inside more.symm shorter
      obtain ⟨middle, line⟩ := afterLine_local skipped
      obtain ⟨left, same⟩ := inductionHypothesis (line _).symm found
      exact ⟨left, fun other => by simp [afterBlock?, line, same]⟩
  | case8 => cases found
  | case9 depth rest later closed inductionHypothesis =>
      have skipped := Nat.lt_trans inside (afterBlock?_length_lt found)
      have shorter := Nat.lt_trans skipped (afterComment?_length_lt closed)
      obtain ⟨others, rfl, more⟩ := own_of_inside split (Nat.lt_succ_of_lt shorter)
      obtain ⟨others, rfl, rfl⟩ := own_of_inside more.symm shorter
      obtain ⟨middle, comment⟩ := afterComment?_local closed skipped
      obtain ⟨left, same⟩ :=
        inductionHypothesis (Option.some.inj ((comment _).symm.trans closed)) found
      exact ⟨left, fun other => by simp [afterBlock?_comment, comment, same]⟩
  | case10 depth first rest noOpen noClose noQuote noTick noLine noComment inductionHypothesis =>
      have shorter := Nat.lt_trans inside (afterBlock?_length_lt found)
      obtain ⟨others, rfl, rfl⟩ := own_of_inside split shorter
      obtain ⟨left, same⟩ := inductionHypothesis rfl found
      refine ⟨left, fun other => ?_⟩
      have some := own_ne_nil_of_inside (afterBlock?_length_lt found) inside
      rw [List.cons_append, afterBlock?.eq_8 _ _ _ noOpen noClose noQuote noTick, same]
      · intro rest isSlash isNext
        exact (next_of_own some isNext _).elim fun rest isNext => noLine rest isSlash isNext
      · intro rest isSlash isNext
        exact (next_of_own some isNext _).elim fun rest isNext => noComment rest isSlash isNext

theorem length?_local {other : Char} {later : List Char} {length : Nat}
    (closed : length? (own ++ mark :: behind) = some length) (inside : length ≤ own.length) :
    length? (own ++ other :: later) = some length := by
  obtain ⟨after, found, rfl⟩ := Option.map_eq_some_iff.mp closed
  have shorter := afterBlock?_length_lt found
  rw [List.length_append, List.length_cons] at inside shorter
  have isInside : behind.length < after.length := by omega
  obtain ⟨left, same⟩ := afterBlock?_local found isInside
  obtain rfl := Option.some.inj (found.symm.trans (same _))
  unfold length?
  rw [same]
  simp only [Option.map_some, List.length_append, List.length_cons]
  congr 1
  omega

end ActionBlock

namespace Scan
variable {own behind later rest : List Char} {mark other first : Char} {previous : Option Kind}
variable {kind : Kind} {length : Nat}

/-! ## Parts of a lexeme -/

/-- A run that ends before a mark ends there before every mark of which the class says the
same. -/
theorem runLength_local {class_ : Char → Bool} (alike : class_ mark = class_ other)
    (inside : runLength class_ (own ++ mark :: behind) ≤ own.length) :
    runLength class_ (own ++ other :: later) = runLength class_ (own ++ mark :: behind) := by
  induction own with
  | nil =>
      cases stops : class_ mark with
      | true => simp [runLength, stops] at inside
      | false =>
          rw [stops] at alike
          simp [runLength, stops, ← alike]
  | cons head own inductionHypothesis =>
      cases takes : class_ head with
      | true =>
          have shorter : runLength class_ (own ++ mark :: behind) ≤ own.length := by
            simpa [runLength, takes] using inside
          simpa [runLength, takes] using inductionHypothesis shorter
      | false => simp [runLength, takes]

theorem forall_of_runLength {class_ : Char → Bool}
    (all : own.length ≤ runLength class_ (own ++ rest)) :
    ∀ character ∈ own, class_ character = true := by
  induction own with
  | nil => exact List.forall_mem_nil _
  | cons head own inductionHypothesis =>
      cases takes : class_ head with
      | false => simp [runLength, takes] at all
      | true =>
          have others : own.length ≤ runLength class_ (own ++ rest) := by
            simpa [runLength, takes] using all
          exact List.forall_mem_cons.mpr ⟨takes, inductionHypothesis others⟩

/-- A delimited body that is closed before a mark does not depend on what follows the mark. -/
theorem delimited_local {closing : Char} {stops : Char → Bool}
    (closed : delimited closing stops (own ++ mark :: behind) = (length, true))
    (inside : length ≤ own.length) :
    delimited closing stops (own ++ other :: later) = (length, true) := by
  generalize split : own ++ mark :: behind = characters at closed
  fun_induction delimited closing stops characters generalizing own length with
  | case1 => cases closed
  | case2 => cases closed
  | case3 => cases closed
  | case4 escaped rest plain size isClosed read inductionHypothesis =>
      obtain ⟨rfl, rfl⟩ := Prod.mk.inj closed
      obtain ⟨others, rfl, more⟩ := own_of_pos split (by omega)
      rw [List.length_cons] at inside
      obtain ⟨others, rfl, rfl⟩ := own_of_pos more.symm (by omega)
      have shorter := Nat.le_of_succ_le_succ (Nat.le_of_succ_le_succ inside)
      have same := inductionHypothesis shorter rfl read
      simp [delimited, plain, same]
  | case5 rest plain =>
      obtain ⟨rfl, _⟩ := Prod.mk.inj closed
      obtain ⟨others, rfl, rfl⟩ := own_of_pos split inside
      simp [delimited]
  | case6 => cases closed
  | case7 head rest plain noEnd noStop size isClosed read inductionHypothesis =>
      obtain ⟨rfl, rfl⟩ := Prod.mk.inj closed
      obtain ⟨others, rfl, rfl⟩ := own_of_pos split (by omega)
      have same := inductionHypothesis (Nat.le_of_succ_le_succ inside) rfl read
      simp [delimited, noEnd, noStop, same]

/-- A delimited text that ends before the mark. -/
theorem delimited_read {closing : Char} {stops : Char → Bool} {whole : Kind}
    (read : ((if (delimited closing stops (own ++ mark :: behind)).2 then whole else .error),
      (delimited closing stops (own ++ mark :: behind)).1) = (kind, length))
    (inside : length ≤ own.length) (readable : kind ≠ .error) :
    ((if (delimited closing stops (own ++ other :: later)).2 then whole else .error),
      (delimited closing stops (own ++ other :: later)).1) = (kind, length) := by
  obtain ⟨isKind, isLength⟩ := Prod.mk.inj read
  split at isKind
  · rename_i closed
    rw [delimited_local (Prod.ext isLength closed) inside, ← isKind]
    rfl
  · exact absurd isKind.symm readable

/-! ## One lexeme -/

/-- The character ends names and numbers, and it belongs to no character before it. -/
def isBreak (character : Char) : Bool :=
  !isNameContinue character && character ∉ ['/', '*', ':', '=', '.', '>', '\n']

theorem isBreak_iff {character : Char} : isBreak character = true ↔
    isNameContinue character = false ∧ character ∉ ['/', '*', ':', '=', '.', '>', '\n'] := by
  simp [isBreak]

theorem isNameContinue_of_isBreak {character : Char} (isMark : isBreak character = true) :
    isNameContinue character = false :=
  (isBreak_iff.mp isMark).1

theorem isDigit_of_isBreak {character : Char} (isMark : isBreak character = true) :
    isDigit character = false :=
  (Bool.or_eq_false_iff.mp (isNameContinue_of_isBreak isMark)).2

theorem ne_newline_of_isBreak {character : Char} (isMark : isBreak character = true) :
    character ≠ '\n' := by
  rintro rfl
  exact (isBreak_iff.mp isMark).2 (by decide)

theorem gap_cases (gap : isGap first = true) : first ∈ [' ', '\t', '\r', '\n', '\x0c'] := by
  simpa [isGap, or_assoc] using gap

theorem classify_gap (gap : isGap first = true) :
    classify previous first rest = (.whitespace, runLength isGap rest) := by
  unfold classify
  split
  case h_27 => exact if_pos gap
  all_goals exact absurd gap (by decide)

/-- What begins with a name character is a word or a number, as long as its run. -/
theorem classify_word (word : isNameContinue first = true) :
    classify previous first rest =
      if isNameStart first then
        (wordKind (String.ofList (first :: rest.take (runLength isNameContinue rest))),
          runLength isNameContinue rest)
      else
        (.integer, runLength isDigit rest) := by
  have noGap : isGap first = false := by
    have disjoint :
        [' ', '\t', '\r', '\n', '\x0c'].all (fun gap => !isNameContinue gap) = true := by
      decide
    apply Bool.eq_false_iff.mpr
    intro gap
    have noWord := List.all_eq_true.mp disjoint first (gap_cases gap)
    rw [word] at noWord
    cases noWord
  unfold classify
  split
  case h_27 =>
    rw [noGap, if_neg Bool.false_ne_true]
    by_cases starts : isNameStart first = true
    · simp [starts]
    · have digit : isDigit first = true := by simpa [isNameContinue, starts] using word
      simp [starts, digit]
  all_goals exact absurd word (by decide)

/-- A character of a pair is not the mark, so it stands before the mark. -/
theorem own_of_next {next : Char} (isMark : isBreak mark = true)
    (pairs : next ∈ ['/', '*', ':', '=', '.', '>'])
    (isNext : own ++ mark :: behind = next :: rest) :
    ∃ others, own = next :: others ∧ rest = others ++ mark :: behind := by
  cases own with
  | nil =>
      obtain ⟨rfl, _⟩ := List.cons.inj isNext
      have others : ['/', '*', ':', '=', '.', '>'].all (fun next => !isBreak next) = true := by
        decide
      have noBreak := List.all_eq_true.mp others mark pairs
      rw [isMark] at noBreak
      cases noBreak
  | cons head others =>
      obtain ⟨rfl, rfl⟩ := List.cons.inj isNext
      exact ⟨others, rfl, rfl⟩

/-- A comment between slash and star is a doc comment if another star follows, unless that one
already closes it. -/
theorem classify_comment {comment after : List Char}
    (closed : ActionBlock.afterComment? comment = some after) :
    classify previous '/' ('*' :: comment) =
      (if comment.head? = some '*' ∧ comment.length + 1 - after.length ≠ 3 then .docComment
        else .blockComment, comment.length + 1 - after.length) := by
  rw [classify.eq_2, closed]
  dsimp only
  split
  · rename_i tail
    by_cases short : (('*' :: tail).length + 1 - after.length) = 3 <;> simp_all
  · rename_i isOther
    have noStar : comment.head? ≠ some '*' := by
      intro isStar
      obtain ⟨tail, rfl⟩ := List.head?_eq_some_iff.mp isStar
      exact isOther _ rfl
    simp [noStar]

/-- A comment that ends before the mark. -/
theorem classify_comment_local
    (read : classify previous '/' ('*' :: (own ++ mark :: behind)) = (kind, length))
    (inside : length ≤ own.length + 1) (readable : kind ≠ .error) :
    classify previous '/' ('*' :: (own ++ other :: later)) = (kind, length) := by
  cases closed : ActionBlock.afterComment? (own ++ mark :: behind) with
  | none =>
      rw [classify.eq_2, closed] at read
      exact absurd (Prod.mk.inj read).1.symm readable
  | some after =>
      rw [classify_comment closed] at read
      obtain ⟨rfl, rfl⟩ := Prod.mk.inj read
      have shorter := ActionBlock.afterComment?_length_lt closed
      rw [List.length_append, List.length_cons] at inside
      have isInside : behind.length < after.length := by omega
      obtain ⟨left, same⟩ := ActionBlock.afterComment?_local closed isInside
      obtain rfl := Option.some.inj (closed.symm.trans (same _))
      have some := ActionBlock.own_ne_nil_of_inside shorter isInside
      obtain ⟨head, others, rfl⟩ := List.exists_cons_of_ne_nil some
      have size (next : Char) (rest : List Char) :
          (head :: others ++ next :: rest).length + 1 - (left ++ next :: rest).length =
            others.length + 2 - left.length := by
        simp only [List.length_append, List.length_cons]
        omega
      rw [classify_comment (same _), size, size]
      rfl

/-- A readable lexeme that ends before a mark is read the same before every other mark.
Whitespace is left out, because the mark may prolong it. -/
theorem classify_local (isMark : isBreak mark = true) (isOther : isBreak other = true)
    (read : classify previous first (own ++ mark :: behind) = (kind, length))
    (inside : length ≤ own.length) (readable : kind ≠ .error) (noGap : kind ≠ .whitespace) :
    classify previous first (own ++ other :: later) = (kind, length) := by
  have alone {next : Char} (pairs : next ∈ ['/', '*', ':', '=', '.', '>'])
      (isOne : ∀ rest, own ++ mark :: behind = next :: rest → False) (rest : List Char) :
      own ++ other :: later = next :: rest → False := by
    intro isNext
    obtain ⟨others, rfl, _⟩ := own_of_next isOther pairs isNext
    exact isOne _ rfl
  unfold classify at read
  split at read
  all_goals try exact read
  case h_1 comment isNext =>
    obtain ⟨others, rfl, rfl⟩ := own_of_next isMark (by decide) isNext
    obtain ⟨rfl, rfl⟩ := Prod.mk.inj read
    have alike : decide (mark ≠ '\n') = decide (other ≠ '\n') := by
      simp [ne_newline_of_isBreak isMark, ne_newline_of_isBreak isOther]
    rw [List.length_cons, Nat.add_comm] at inside
    have line := @runLength_local others behind later mark other (· ≠ '\n') alike
      (Nat.le_of_succ_le_succ inside)
    exact congrArg (fun length => (Kind.lineComment, 1 + length)) line
  case h_2 comment isNext =>
    obtain ⟨others, rfl, rfl⟩ := own_of_next isMark (by decide) isNext
    exact classify_comment_local read inside readable
  case h_3 isNext | h_4 isNext | h_5 isNext | h_6 isNext =>
    obtain ⟨others, rfl, _⟩ := own_of_next isMark (by decide) isNext
    exact read
  case h_7 => exact delimited_read read inside readable
  case h_8 => exact delimited_read read inside readable
  case h_9 =>
    rw [classify.eq_9]
    split
    · rwa [if_pos ‹_›] at read
    · rw [if_neg ‹_›] at read
      cases closed : ActionBlock.length? (own ++ mark :: behind) with
      | none =>
        rw [closed] at read
        exact absurd (Prod.mk.inj read).1.symm readable
      | some size =>
        rw [closed] at read
        obtain ⟨rfl, rfl⟩ := Prod.mk.inj read
        rw [ActionBlock.length?_local closed inside]
  case h_10 isOne => rw [classify.eq_10 _ _ (alone (by decide) isOne), read]
  case h_18 isOne => rw [classify.eq_18 _ _ (alone (by decide) isOne), read]
  case h_21 isOne => rw [classify.eq_21 _ _ (alone (by decide) isOne), read]
  case h_27 =>
    split at read
    · exact absurd (Prod.mk.inj read).1.symm noGap
    · split at read
      · rename_i starts
        obtain ⟨rfl, rfl⟩ := Prod.mk.inj read
        have alike : isNameContinue mark = isNameContinue other := by
          rw [isNameContinue_of_isBreak isMark, isNameContinue_of_isBreak isOther]
        have same := @runLength_local own behind later mark other _ alike inside
        rw [classify_word (by simp [isNameContinue, starts]), if_pos starts, same,
          List.take_append_of_le_length inside, List.take_append_of_le_length inside]
      · rename_i noStart
        split at read
        · rename_i digit
          obtain ⟨rfl, rfl⟩ := Prod.mk.inj read
          have alike : isDigit mark = isDigit other := by
            rw [isDigit_of_isBreak isMark, isDigit_of_isBreak isOther]
          have same := @runLength_local own behind later mark other _ alike inside
          rw [classify_word (by simp [isNameContinue, digit]), if_neg noStart, same]
        · exact absurd (Prod.mk.inj read).1.symm readable

theorem wordKind_ne (noKeyword : kind.keyword? = none) (noName : kind ≠ .identifier)
    (word : String) : wordKind word ≠ kind := by
  unfold wordKind
  split
  · rename_i found
    rintro rfl
    have isKeyword := List.find?_some found
    rw [noKeyword] at isKeyword
    simp at isKeyword
  · exact noName.symm

/-- How whitespace and semicolons begin. -/
def mayBegin (kind : Kind) (first : Char) : Bool :=
  match kind with
  | .whitespace => isGap first
  | .semicolon => first = ';'
  | _ => true

theorem mayBegin_of_ne (noGap : kind ≠ .whitespace) (noEnd : kind ≠ .semicolon) :
    mayBegin kind first = true := by
  unfold mayBegin
  split
  · exact absurd rfl noGap
  · exact absurd rfl noEnd
  · rfl

theorem mayBegin_classify : mayBegin (classify previous first rest).1 first = true := by
  unfold classify
  split
  case h_2 =>
    split
    · rfl
    · split
      · dsimp only
        split <;> rfl
      · rfl
  case h_7 =>
    dsimp only
    split <;> rfl
  case h_8 =>
    dsimp only
    split <;> rfl
  case h_9 =>
    split
    · rfl
    · split <;> rfl
  case h_27 =>
    split
    · assumption
    · split
      · exact mayBegin_of_ne (wordKind_ne rfl (by decide) _) (wordKind_ne rfl (by decide) _)
      · split <;> rfl
  all_goals rfl

/-- What an opening brace is depends on what stands before it; nothing else does. -/
theorem classify_congr (other : Option Kind) (noBrace : first ≠ '{') :
    classify previous first rest = classify other first rest := by
  unfold classify
  split
  all_goals first | rfl | exact absurd rfl noBrace

def braced : List Kind :=
  [.leftBrace, .action, .error]

theorem mem_braced : (classify previous '{' rest).1 ∈ braced := by
  rw [classify.eq_9]
  split
  · exact List.mem_cons_self
  · split
    · exact List.mem_cons_of_mem _ List.mem_cons_self
    · exact List.mem_cons_of_mem _ (List.mem_cons_of_mem _ List.mem_cons_self)

/-! ## All lexemes -/

theorem lexemes_cons (read : classify previous first rest = (kind, length)) :
    lexemes previous (first :: rest) =
      ⟨kind, String.ofList (first :: rest.take length)⟩ ::
        lexemes (if kind.isTrivia then previous else some kind) (rest.drop length) := by
  rw [lexemes, read]

/-- The first lexeme is what is classified at the front, and the others are read behind it. -/
theorem lexemes_eq_cons {characters : List Char} {lexeme : Lexeme} {others : List Lexeme}
    (split : lexemes previous characters = lexeme :: others) :
    ∃ first rest length, characters = first :: rest ∧
      classify previous first rest = (lexeme.kind, length) ∧
      lexeme.text = String.ofList (first :: rest.take length) ∧
      lexemes (if lexeme.kind.isTrivia then previous else some lexeme.kind) (rest.drop length) =
        others := by
  cases characters with
  | nil =>
      rw [lexemes] at split
      cases split
  | cons first rest =>
      generalize read : classify previous first rest = result at split
      obtain ⟨kind, length⟩ := result
      rw [lexemes_cons read] at split
      obtain ⟨rfl, rfl⟩ := List.cons.inj split
      exact ⟨first, rest, length, rfl, read, rfl, rfl⟩

def significant (lexemes : List Lexeme) : List Lexeme :=
  lexemes.filter fun lexeme => !lexeme.kind.isTrivia

theorem significant_cons (lexeme : Lexeme) (others : List Lexeme) :
    significant (lexeme :: others) = significant [lexeme] ++ significant others :=
  List.filter_append [lexeme] others

/-- A gap in front adds nothing but trivia. -/
theorem significant_gap (gap : isGap first = true) :
    significant (lexemes previous (first :: rest)) = significant (lexemes previous rest) := by
  rw [lexemes_cons (classify_gap gap)]
  show significant (lexemes previous (rest.drop (runLength isGap rest))) = _
  cases rest with
  | nil => rfl
  | cons next rest =>
      cases isNext : isGap next with
      | true =>
          rw [lexemes_cons (classify_gap isNext)]
          simp [runLength, isNext, significant, Kind.isTrivia]
      | false => simp [runLength, isNext]

theorem significant_gaps {gaps : List Char} (areGaps : ∀ gap ∈ gaps, isGap gap = true) :
    significant (lexemes previous (gaps ++ rest)) = significant (lexemes previous rest) := by
  induction gaps with
  | nil => rfl
  | cons gap gaps inductionHypothesis =>
      obtain ⟨isGap, others⟩ := List.forall_mem_cons.mp areGaps
      rw [List.cons_append, significant_gap isGap, inductionHypothesis others]

/-- Unless a brace comes first, what stands before makes no difference. -/
theorem significant_congr (other : Option Kind) {characters : List Char}
    (noBrace : ∀ lexeme ∈ (significant (lexemes previous characters)).head?, lexeme.kind ∉ braced) :
    significant (lexemes other characters) = significant (lexemes previous characters) := by
  induction isSize : characters.length using Nat.strongRecOn generalizing characters with
  | ind size inductionHypothesis =>
      cases characters with
      | nil => rw [lexemes, lexemes]
      | cons first rest =>
          generalize read : classify previous first rest = result
          obtain ⟨kind, length⟩ := result
          rw [lexemes_cons read] at noBrace
          have noOpen : first ≠ '{' := by
            rintro rfl
            have isBraced := @mem_braced rest previous
            rw [read] at isBraced
            change kind ∈ braced at isBraced
            have noTrivia : ∀ kind ∈ braced, kind.isTrivia = false := by decide
            have isHead : kind ∉ braced := by
              simpa [significant, noTrivia kind isBraced] using noBrace
            exact isHead isBraced
          rw [lexemes_cons read, lexemes_cons ((classify_congr previous noOpen).trans read)]
          cases isTrivia : kind.isTrivia with
          | true =>
              have shorter : (rest.drop length).length < size := by
                rw [← isSize, List.length_drop, List.length_cons]
                omega
              have later : ∀ lexeme ∈ (significant (lexemes previous (rest.drop length))).head?,
                  lexeme.kind ∉ braced := by
                simpa [significant, isTrivia] using noBrace
              simpa [significant, isTrivia] using inductionHypothesis _ shorter later rfl
          | false => rfl

def spelled (lexemes : List Lexeme) : List Char :=
  lexemes.flatMap fun lexeme => lexeme.text.toList

/-- A lexeme that others follow ends before them. -/
theorem exists_left {characters : List Char} {lexeme : Lexeme} {others : List Lexeme}
    (split : lexemes previous characters = lexeme :: others) (more : others ≠ []) :
    ∃ first own left, lexeme.text.toList = first :: own ∧ characters = first :: own ++ left ∧
      classify previous first (own ++ left) = (lexeme.kind, own.length) ∧
      lexemes (if lexeme.kind.isTrivia then previous else some lexeme.kind) left = others := by
  obtain ⟨first, rest, length, rfl, read, isText, later⟩ := lexemes_eq_cons split
  have shorter : length ≤ rest.length := by
    by_contra longer
    rw [List.drop_of_length_le (Nat.le_of_not_le longer), lexemes] at later
    exact more later.symm
  refine ⟨first, rest.take length, rest.drop length, ?_, ?_, ?_, later⟩
  · rw [isText, String.toList_ofList]
  · rw [List.cons_append, List.take_append_drop]
  · rw [List.take_append_drop, List.length_take, Nat.min_eq_left shorter, read]

/-- A lexeme that ends before a mark and is no gap is the same whatever stands from the mark
on. -/
theorem lexemes_local {lexeme : Lexeme} {others : List Lexeme} (isMark : isBreak mark = true)
    (isOther : isBreak other = true)
    (split : lexemes previous (lexeme.text.toList ++ (own ++ mark :: behind)) = lexeme :: others)
    (more : others ≠ []) (readable : lexeme.kind ≠ .error) (noGap : lexeme.kind ≠ .whitespace) :
    lexemes previous (lexeme.text.toList ++ (own ++ other :: later)) =
      lexeme :: lexemes (if lexeme.kind.isTrivia then previous else some lexeme.kind)
        (own ++ other :: later) := by
  obtain ⟨first, text, left, isText, whole, read, _⟩ := exists_left split more
  rw [isText] at whole ⊢
  obtain rfl := List.append_cancel_left whole
  have alike : classify previous first (text ++ (own ++ other :: later)) =
      (lexeme.kind, text.length) := by
    rw [← List.append_assoc] at read ⊢
    exact classify_local isMark isOther read (by simp) readable noGap
  rw [List.cons_append, lexemes_cons alike, List.take_left, List.drop_left, ← isText,
    String.ofList_toList]

/-- If a semicolon is replaced by a blank, the other significant lexemes stay. -/
theorem significant_blank {characters : List Char} {before after : List Lexeme} {semicolon : Lexeme}
    (split : lexemes previous characters = before ++ semicolon :: after)
    (isEnd : semicolon.kind = .semicolon) (readable : ∀ lexeme ∈ before, lexeme.kind ≠ .error)
    (noBrace : ∀ lexeme ∈ (significant after).head?, lexeme.kind ∉ braced) :
    ∃ back, characters = spelled before ++ ';' :: back ∧
      significant (lexemes previous (spelled before ++ ' ' :: back)) =
        significant before ++ significant after := by
  induction before generalizing previous characters with
  | nil =>
      obtain ⟨first, rest, length, rfl, read, _, rfl⟩ := lexemes_eq_cons split
      have begins := @mayBegin_classify rest first previous
      rw [read, isEnd] at begins
      obtain rfl : first = ';' := of_decide_eq_true begins
      obtain rfl : 0 = length := (Prod.mk.inj read).2
      refine ⟨rest, rfl, ?_⟩
      show significant (lexemes previous (' ' :: rest)) = significant (lexemes _ rest)
      rw [significant_gap rfl]
      exact significant_congr _ noBrace
  | cons lexeme before inductionHypothesis =>
      have more : before ++ semicolon :: after ≠ [] := by simp
      obtain ⟨first, own, left, isText, rfl, read, others⟩ := exists_left split more
      obtain ⟨isReadable, readable⟩ := List.forall_mem_cons.mp readable
      obtain ⟨back, rfl, same⟩ := inductionHypothesis others readable
      have spells : spelled (lexeme :: before) = lexeme.text.toList ++ spelled before := rfl
      rw [spells]
      refine ⟨back, by rw [isText, List.append_assoc], ?_⟩
      rw [List.append_assoc]
      by_cases gap : lexeme.kind = .whitespace
      · have begins := @mayBegin_classify (own ++ (spelled before ++ ';' :: back)) first previous
        rw [read, gap] at begins
        have isLength := (Prod.mk.inj ((classify_gap begins).symm.trans read)).2
        have areGaps := forall_of_runLength (Nat.le_of_eq isLength.symm)
        have noneHere : significant (lexeme :: before) = significant before := by
          simp [significant, gap, Kind.isTrivia]
        rw [isText, significant_gaps (List.forall_mem_cons.mpr ⟨begins, areGaps⟩), noneHere, ← same,
          gap]
        rfl
      · rw [← isText] at split
        rw [lexemes_local (by decide) (by decide) split more isReadable gap, significant_cons, same,
          significant_cons lexeme before, List.append_assoc]

/-! ## The tokens of a text -/

theorem significantOf_eq (tokens : List Token) :
    significantOf tokens = significant (tokens.map Token.toLexeme) := by
  rw [significant, List.filter_map]
  rfl

theorem significantOf_tokenize (text : String) :
    significantOf (tokenize text) = significant (lexemes none text.toList) := by
  rw [significantOf_eq, tokenize, Token.map_toLexeme_place]

theorem toList_spell (tokens : List Token) :
    (Token.spell tokens).toList = spelled (tokens.map Token.toLexeme) := by
  rw [Token.spell, String.toList_join, spelled, List.flatMap_map, List.flatMap_map]

/-- If a semicolon of a text is replaced by a blank, the other significant lexemes stay. -/
theorem tokenize_blank {text : String} {first semicolon : Token} {before after : List Token}
    (split : tokenize text = first :: before ++ semicolon :: after)
    (isEnd : semicolon.kind = .semicolon) (begins : first.kind.isTrivia = false)
    (readable : ∀ token ∈ first :: before, token.kind ≠ .error)
    (noBrace : ∀ lexeme ∈ (significantOf after).head?, lexeme.kind ∉ braced) :
    ∃ front back, text = front ++ ";" ++ back ∧ semicolon.offset = front.utf8ByteSize ∧
      significantOf (tokenize (front ++ " " ++ back)) =
        significantOf (first :: before) ++ significantOf after ∧
      Parse.beginsWithTrivia (tokenize (front ++ " " ++ back)) = false := by
  have cut : lexemes none text.toList = (first :: before).map Token.toLexeme ++
      semicolon.toLexeme :: after.map Token.toLexeme := by
    have read := congrArg (List.map Token.toLexeme) split
    rwa [tokenize, Token.map_toLexeme_place, List.map_append] at read
  have isReadable : ∀ lexeme ∈ (first :: before).map Token.toLexeme, lexeme.kind ≠ .error :=
    List.forall_mem_map.mpr readable
  rw [significantOf_eq] at noBrace
  obtain ⟨back, whole, same⟩ := significant_blank cut isEnd isReadable noBrace
  rw [← toList_spell] at whole same
  have broken : (Token.spell (first :: before) ++ " " ++ String.ofList back).toList =
      (Token.spell (first :: before)).toList ++ ' ' :: back := by
    simp
  refine ⟨Token.spell (first :: before), String.ofList back, ?_, ?_, ?_, ?_⟩
  · apply String.toList_inj.mp
    rw [whole]
    simp
  · have tile := tile_tokenize text
    rw [split] at tile
    rw [tile.offset_eq, Nat.zero_add, Token.sizeOf]
  · rw [significantOf_tokenize, broken, same, significantOf_eq, significantOf_eq]
  · have noGap : first.kind ≠ .whitespace := by
      intro gap
      rw [gap] at begins
      cases begins
    have spells : (Token.spell (first :: before)).toList =
        first.text.toList ++ spelled (before.map Token.toLexeme) := by
      rw [toList_spell]
      rfl
    rw [whole, spells, List.append_assoc] at cut
    have alike := @lexemes_local _ _ back ';' ' ' none first.toLexeme _ (by decide) (by decide) cut
      (by simp) (readable first List.mem_cons_self) noGap
    rw [tokenize, broken, spells, List.append_assoc, alike]
    exact begins

end Scan
end GrammarDesk.Syntax
