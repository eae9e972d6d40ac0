import GrammarDesk.Syntax.Reading

/-!
Contract: what looking ahead tells about the lexemes that come next.

Owns: lexemes of which the first is of one of several kinds, when others are put after or
before them.

Does not own: where the productions look ahead.
-/

namespace GrammarDesk.Syntax.Ahead

variable {kinds larger : List Kind} {kind : Kind} {head : Lexeme} {tail input rest : List Lexeme}

theorem exists_of_next (same : next kind input = true) :
    ∃ head tail, input = head :: tail ∧ head.kind = kind := by
  cases input with
  | nil => exact absurd same Bool.false_ne_true
  | cons head tail => exact ⟨head, tail, rfl, of_decide_eq_true same⟩

theorem ne_nil_of_next (same : next kind input = true) : input ≠ [] := by
  rintro rfl
  exact absurd same Bool.false_ne_true

theorem oneOf_cons : oneOf kinds (head :: tail) = decide (head.kind ∈ kinds) := by
  rw [Bool.eq_iff_iff]
  simp [oneOf, next]

theorem oneOf_of_mem (member : head.kind ∈ kinds) : oneOf kinds (head :: tail) = true := by
  rw [oneOf_cons]
  exact decide_eq_true member

theorem exists_of_oneOf (starts : oneOf kinds input = true) :
    ∃ head tail, input = head :: tail ∧ head.kind ∈ kinds := by
  cases input with
  | nil => simp [oneOf, next] at starts
  | cons head tail =>
      rw [oneOf_cons] at starts
      exact ⟨head, tail, rfl, of_decide_eq_true starts⟩

theorem ne_nil_of_oneOf (starts : oneOf kinds input = true) : input ≠ [] := by
  obtain ⟨head, tail, rfl, _⟩ := exists_of_oneOf starts
  exact List.cons_ne_nil head tail

theorem oneOf_append (starts : oneOf kinds input = true) (rest : List Lexeme) :
    oneOf kinds (input ++ rest) = true := by
  obtain ⟨head, tail, rfl, member⟩ := exists_of_oneOf starts
  exact oneOf_of_mem member

theorem oneOf_mono (starts : oneOf kinds input = true) (subset : kinds ⊆ larger) :
    oneOf larger input = true := by
  obtain ⟨head, tail, rfl, member⟩ := exists_of_oneOf starts
  exact oneOf_of_mem (subset member)

theorem oneOf_flatten {words : List (List Lexeme)}
    (each : ∀ word ∈ words, oneOf kinds word = true) (ends : oneOf kinds rest = true) :
    oneOf kinds (words.flatten ++ rest) = true := by
  cases words with
  | nil => exact ends
  | cons word words =>
      rw [List.flatten_cons, List.append_assoc]
      exact oneOf_append (each word List.mem_cons_self) _

theorem not_oneOf {others : List Kind} (starts : oneOf kinds input = true)
    (disjoint : ∀ kind ∈ kinds, kind ∉ others) : oneOf others input = false := by
  obtain ⟨head, tail, rfl, member⟩ := exists_of_oneOf starts
  rw [oneOf_cons]
  exact decide_eq_false (disjoint _ member)

theorem not_next_of_oneOf (starts : oneOf kinds input = true) (other : kind ∉ kinds) :
    next kind input = false := by
  obtain ⟨head, tail, rfl, member⟩ := exists_of_oneOf starts
  exact decide_eq_false fun same => other (same ▸ member)

/-! ## Members that are seen to begin -/

theorem next_append (same : next kind input = true) (rest : List Lexeme) :
    next kind (input ++ rest) = true := by
  obtain ⟨head, tail, rfl, isKind⟩ := exists_of_next same
  exact decide_eq_true isKind

theorem next_drop_append {count : Nat} (same : next kind (input.drop count) = true)
    (rest : List Lexeme) : next kind ((input ++ rest).drop count) = true := by
  rw [List.drop_append]
  exact next_append same _

theorem ruleColonOrSpec_drop_append {count : Nat}
    (goesOn : ruleColonOrSpec (input.drop count) = true) (rest : List Lexeme) :
    ruleColonOrSpec ((input ++ rest).drop count) = true := by
  rw [List.drop_append]
  exact oneOf_append goesOn _

theorem ruleStart_append (starts : ruleStart input = true) (rest : List Lexeme) :
    ruleStart (input ++ rest) = true := by
  simp only [ruleStart, second, third, Bool.and_eq_true, Bool.or_eq_true] at starts ⊢
  obtain ⟨named, early | ⟨block, (later | options) | action⟩⟩ := starts
  · exact ⟨next_append named rest, .inl (ruleColonOrSpec_drop_append early rest)⟩
  · exact ⟨next_append named rest, .inr ⟨next_drop_append block rest,
      .inl (.inl (ruleColonOrSpec_drop_append later rest))⟩⟩
  · exact ⟨next_append named rest, .inr ⟨next_drop_append block rest,
      .inl (.inr (next_drop_append options rest))⟩⟩
  · exact ⟨next_append named rest, .inr ⟨next_drop_append block rest,
      .inr (next_drop_append action rest)⟩⟩

/-- What is seen to begin a member is so whatever follows. -/
theorem memberStart_append (starts : memberStart input = true) (rest : List Lexeme) :
    memberStart (input ++ rest) = true := by
  simp only [memberStart, second, Bool.or_eq_true, Bool.and_eq_true] at starts ⊢
  rcases starts with (keyword | ⟨sort, grammar⟩) | isRule
  · exact .inl (.inl (oneOf_append keyword rest))
  · exact .inl (.inr ⟨oneOf_append sort rest, next_drop_append grammar rest⟩)
  · exact .inr (ruleStart_append isRule rest)

theorem isEmpty_of_elementStart (starts : elementStart input = true) : input.isEmpty = false := by
  cases input with
  | nil => exact absurd starts (by decide)
  | cons head tail => rfl

/-- What starts an element starts no member. -/
theorem memberStart_of_elementStart (starts : elementStart input = true) :
    memberStart input = false := by
  unfold memberStart
  rcases (Bool.or_eq_true _ _).mp starts with name | other
  · obtain ⟨isName, noRule⟩ := (Bool.and_eq_true _ _).mp name
    have only : oneOf [.identifier] input = true := by simpa [oneOf] using isName
    rw [not_oneOf only (by decide), not_oneOf only (by decide)]
    simpa using noRule
  · have unnamed : ruleStart input = false := by
      rw [ruleStart, not_next_of_oneOf other (by decide), Bool.false_and]
    rw [not_oneOf other (by decide), not_oneOf other (by decide), unnamed]
    rfl

end GrammarDesk.Syntax.Ahead
