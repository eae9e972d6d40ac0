import Mathlib.Data.List.Nodup
import GrammarDesk.Proofs.Syntax.Weave
import GrammarDesk.Syntax.Parse

/-!
Contract: reading a text loses nothing of it and hides no unreadable token.

Owns: where the tokens of a text stand, where the problems of its unreadable lexemes
are located, how messages of the two sorts differ, and which texts have a reading.

Does not own: which faults the productions report, or that the reader over tokens with trivia
comes to this reading (`Reader`).

Main statements: the errors about unreadable tokens are these tokens, in order
(`unreadable_errors`); every reading is lossless (`ofText?_lossless`).
-/

namespace GrammarDesk.Syntax

/-! ## Tokens of a text -/

namespace Token

theorem map_toLexeme_place (offset : Nat) (lexemes : List Lexeme) :
    (place offset lexemes).map toLexeme = lexemes := by
  induction lexemes generalizing offset with
  | nil => rfl
  | cons lexeme rest inductionHypothesis =>
      rw [place, List.map_cons, inductionHypothesis]

theorem le_offset_of_mem_place {offset : Nat} {lexemes : List Lexeme} {token : Token}
    (member : token ∈ place offset lexemes) :
    offset ≤ token.offset := by
  induction lexemes generalizing offset with
  | nil => exact absurd member List.not_mem_nil
  | cons lexeme rest inductionHypothesis =>
      rcases List.mem_cons.mp member with rfl | later
      · exact Nat.le_refl _
      · exact Nat.le_trans (Nat.le_add_right _ _) (inductionHypothesis later)

/-- Tokens that are not empty start at different offsets. -/
theorem place_pairwise (offset : Nat) {lexemes : List Lexeme}
    (positive : ∀ lexeme ∈ lexemes, 0 < lexeme.size) :
    (place offset lexemes).Pairwise fun left right => left.offset < right.offset := by
  induction lexemes generalizing offset with
  | nil => exact .nil
  | cons lexeme rest inductionHypothesis =>
      obtain ⟨first, others⟩ := List.forall_mem_cons.mp positive
      refine .cons (fun token member => ?_) (inductionHypothesis _ others)
      have after := le_offset_of_mem_place member
      show offset < token.offset
      omega

end Token

namespace Scan

/-- No lexeme is empty, so each takes the scan further. -/
theorem size_pos_of_mem_lexemes {previous : Option Kind} {characters : List Char}
    {lexeme : Lexeme} (member : lexeme ∈ lexemes previous characters) :
    0 < lexeme.size := by
  fun_induction lexemes previous characters with
  | case1 => exact absurd member List.not_mem_nil
  | case2 previous first rest kind length _ following inductionHypothesis =>
      rcases List.mem_cons.mp member with rfl | later
      · apply Nat.pos_of_ne_zero
        intro empty
        have characters := congrArg String.toList (String.utf8ByteSize_eq_zero_iff.mp empty)
        rw [String.toList_ofList] at characters
        cases characters
      · exact inductionHypothesis later

theorem tokenize_pairwise (text : String) :
    (tokenize text).Pairwise fun left right => left.offset < right.offset :=
  Token.place_pairwise 0 fun _ member => size_pos_of_mem_lexemes member

/-- The tokens of a text spell it. -/
theorem join_tokenize (text : String) :
    String.join ((tokenize text).map fun token => token.text) = text := by
  have lexemes := Token.map_toLexeme_place 0 (lexemes none text.toList)
  have spelled := join_lexemes none text.toList
  apply String.toList_inj.mp
  rw [String.toList_join, List.flatMap_map]
  have byLexeme : (tokenize text).flatMap (fun token => token.text.toList) =
      ((tokenize text).map Token.toLexeme).flatMap fun lexeme => lexeme.text.toList := by
    rw [List.flatMap_map]
  rw [byLexeme]
  exact (congrArg _ lexemes).trans spelled

end Scan

/-! ## Messages -/

namespace SyntaxError

def isUnreadable (error : SyntaxError) : Bool :=
  match error.cause with
  | .unreadable _ => true
  | .malformed _ => false

def ofToken (token : Token) : SyntaxError :=
  ⟨⟨token.offset, token.stop⟩, .unreadable token.text⟩

end SyntaxError

theorem getElem?_toList_append {left : String} {index : Nat} {character : Char}
    (inLeft : left.toList[index]? = some character) (right : String) :
    (left ++ right).toList[index]? = some character := by
  have below := (List.getElem?_eq_some_iff.mp inLeft).1
  rw [String.toList_append, List.getElem?_append_left below]
  exact inLeft

/-- The third letter of a message tells faults, which are missing, expected or
unexpected, from what is unterminated or unrecognized. -/
theorem Fault.third_message (fault : Fault) :
    fault.message.toList[2]? = some 's' ∨ fault.message.toList[2]? = some 'p' ∨
      fault.message.toList[2]? = some 'e' := by
  cases fault with
  | missingHeader => exact .inl (by decide)
  | missingRuleEnd => exact .inl (by decide)
  | missingToken kind => exact .inr (.inl (getElem?_toList_append (by decide) _))
  | notAMember found => exact .inr (.inl (getElem?_toList_append (by decide) _))
  | notALexerRule found => exact .inr (.inl (getElem?_toList_append (by decide) _))
  | notInRuleBody found =>
      exact .inr (.inr (getElem?_toList_append (getElem?_toList_append (by decide) _) _))
  | _ => exact .inr (.inl (by decide))

/-- The third letter tells a message about an unreadable token from those of the reader. -/
theorem Cause.third_unreadableMessage (text : String) :
    (unreadableMessage text).toList[2]? = some 't' ∨
      (unreadableMessage text).toList[2]? = some 'r' := by
  unfold unreadableMessage
  split
  · exact .inl (by decide)
  · split
    · exact .inl (by decide)
    · split
      · exact .inl (by decide)
      · split
        · exact .inl (by decide)
        · exact .inr (getElem?_toList_append (getElem?_toList_append (by decide) _) _)

/-- No fault is worded like an unreadable token. -/
theorem Fault.message_ne (fault : Fault) (text : String) :
    fault.message ≠ Cause.unreadableMessage text := by
  intro same
  have letter := fault.third_message
  rw [same] at letter
  rcases Cause.third_unreadableMessage text with third | third
  · simp [third] at letter
  · simp [third] at letter

/-! ## Locating -/

namespace Parse

/-- A text has a reading just if its first token is no trivia. -/
theorem ofText?_eq (text : String) :
    ofText? text =
      if beginsWithTrivia (Scan.tokenize text) then
        none
      else
        some (ofTokens text.utf8ByteSize (Scan.tokenize text)) := by
  unfold ofText? ofTokens Weave.root Weave.splitTrivia
  rw [List.span_eq_takeWhile_dropWhile]
  dsimp only
  rw [Builder.handOver_append]
  cases tokens : Scan.tokenize text with
  | nil => rfl
  | cons token rest =>
      cases isTrivia : token.kind.isTrivia with
      | true => simp [beginsWithTrivia, isTrivia]
      | false => simp [beginsWithTrivia, isTrivia]

theorem ofText?_eq_some_iff {text : String} {parse : Parse} :
    ofText? text = some parse ↔
      beginsWithTrivia (Scan.tokenize text) = false ∧
        parse = ofTokens text.utf8ByteSize (Scan.tokenize text) := by
  rw [ofText?_eq]
  cases beginsWithTrivia (Scan.tokenize text) with
  | true => simp
  | false => simp [eq_comm]

def locate (length : Nat) (significant : List Token) (problem : Problem) : SyntaxError :=
  ⟨problem.place.range significant.toArray.reverse length, problem.cause⟩

/-- The lexeme that so many others follow is found where it stands. -/
theorem locate_lexeme (length : Nat) (before after : List Token) (token : Token) :
    locate length (before ++ token :: after)
        ⟨.lexeme after.length, .unreadable token.text⟩ = .ofToken token := by
  have found : (before ++ token :: after).toArray.reverse[after.length]? = some token := by
    rw [List.reverse_toArray, List.getElem?_toArray, List.reverse_append, List.reverse_cons,
      List.append_assoc, List.getElem?_append_right (by simp)]
    simp
  unfold locate SyntaxError.ofToken
  simp only [Place.range, found]

/-- Located in the tokens of a text, the reports of unreadable lexemes are one for each such
token. -/
theorem map_locate_ofLexemes (length : Nat) (before after : List Token) :
    (Problem.ofLexemes 0 (after.map Token.toLexeme)).map (locate length (before ++ after)) =
      (after.filter fun token => token.kind = .error).map .ofToken := by
  induction after generalizing before with
  | nil => rfl
  | cons token rest inductionHypothesis =>
      have later := inductionHypothesis (before ++ [token])
      rw [List.append_assoc, List.singleton_append] at later
      rw [List.map_cons, Problem.ofLexemes, List.map_append, later]
      unfold Problem.ofLexeme
      by_cases unreadable : token.kind = .error
      · rw [if_pos unreadable, List.filter_cons_of_pos (by simpa using unreadable),
          List.map_cons, List.map_cons, List.map_nil, Nat.add_zero, List.length_map, locate_lexeme]
        rfl
      · rw [if_neg unreadable, List.filter_cons_of_neg (by simpa using unreadable)]
        rfl

/-- The problems of a file that are unreadable lexemes are all of these. -/
theorem filter_file (input : List Lexeme) :
    (Production.file input).2.filter Problem.isUnreadable = Problem.ofLexemes 0 input := by
  have read := (Production.members input).reported
  rw [Production.rest_members, Production.leavesOf_members] at read
  unfold Production.file
  dsimp only
  split
  · exact read
  · exact read

/-- The errors about unreadable tokens are these tokens, once each and in order. -/
theorem unreadable_errors (length : Nat) (tokens : List Token) :
    (ofTokens length tokens).errors.filter SyntaxError.isUnreadable =
      (tokens.filter fun token => token.kind = .error).map .ofToken := by
  have located := map_locate_ofLexemes length []
    (tokens.filter fun token => !token.kind.isTrivia)
  rw [← filter_file, List.nil_append, List.filter_filter] at located
  have errorTokens : (tokens.filter fun token =>
      decide (token.kind = .error) && !token.kind.isTrivia) =
        tokens.filter fun token => token.kind = .error := by
    apply List.filter_congr
    intro token _
    cases token.kind <;> rfl
  rw [errorTokens] at located
  rw [← located]
  show ((Production.file _).2.map (locate length _)).filter _ = _
  rw [List.filter_map]
  rfl

/-- Tokens at the same offset are the same token. -/
theorem eq_of_offset {tokens : List Token}
    (ordered : tokens.Pairwise fun left right => left.offset < right.offset)
    {left right : Token} (isLeft : left ∈ tokens) (isRight : right ∈ tokens)
    (same : left.offset = right.offset) :
    left = right := by
  have forward : tokens.Pairwise fun first second =>
      first.offset = second.offset → first = second :=
    ordered.imp fun before equal => absurd equal (Nat.ne_of_lt before)
  have backward : tokens.Pairwise fun first second =>
      second.offset = first.offset → second = first :=
    ordered.imp fun before equal => absurd equal.symm (Nat.ne_of_lt before)
  exact List.Pairwise.forall_of_forall_of_flip (fun _ _ _ => rfl) forward backward isLeft isRight
    same

/-- An unreadable token of a text is reported by one error, which has its range and its
message. -/
theorem countP_errors {length : Nat} {tokens : List Token}
    (ordered : tokens.Pairwise fun left right => left.offset < right.offset)
    {token : Token} (member : token ∈ tokens) (unreadable : token.kind = .error) :
    (ofTokens length tokens).errors.countP (fun error =>
      error.range = ⟨token.offset, token.stop⟩ ∧
        error.message = Cause.unreadableMessage token.text) = 1 := by
  -- an error with that message is no fault, so the unreadable tokens are all there is to count
  have onlyUnreadable : (ofTokens length tokens).errors.countP (fun error =>
      error.range = ⟨token.offset, token.stop⟩ ∧
        error.message = Cause.unreadableMessage token.text) =
      ((ofTokens length tokens).errors.filter SyntaxError.isUnreadable).countP (fun error =>
        error.range = ⟨token.offset, token.stop⟩ ∧
          error.message = Cause.unreadableMessage token.text) := by
    rw [List.countP_filter]
    apply List.countP_congr
    intro error _
    simp only [Bool.and_eq_true, decide_eq_true_eq, iff_self_and]
    rintro ⟨_, message⟩
    unfold SyntaxError.isUnreadable
    unfold SyntaxError.message at message
    cases cause : error.cause with
    | unreadable text => rfl
    | malformed fault =>
        rw [cause] at message
        exact absurd message (fault.message_ne token.text)
  have onlyToken : ∀ other ∈ tokens,
      (decide ((SyntaxError.ofToken other).range = ⟨token.offset, token.stop⟩ ∧
          (SyntaxError.ofToken other).message = Cause.unreadableMessage token.text) &&
        decide (other.kind = .error)) = true ↔ (other == token) = true := by
    intro other isOther
    simp only [Bool.and_eq_true, decide_eq_true_eq, beq_iff_eq]
    constructor
    · rintro ⟨⟨range, _⟩, _⟩
      exact eq_of_offset ordered isOther member (congrArg Text.Range.start range)
    · rintro rfl
      exact ⟨⟨rfl, rfl⟩, unreadable⟩
  have once : tokens.Nodup := ordered.imp fun before same => by
    rw [same] at before
    exact Nat.lt_irrefl _ before
  rw [onlyUnreadable, unreadable_errors, List.countP_map, List.countP_filter]
  exact (List.countP_congr onlyToken).trans (List.count_eq_one_of_mem once member)

end Parse

/-- A text that begins with trivia has no reading. Every other text, well formed or
not, has one that spells it: the leaves of its tree are the tokens of the text, and
every unreadable token is reported by exactly one error with its range and its
message. -/
theorem ofText?_lossless (text : String) :
    match Parse.ofText? text with
    | none =>
        ∃ token rest, Scan.tokenize text = token :: rest ∧ token.kind.isTrivia = true
    | some parse =>
        (∀ token rest, Scan.tokenize text = token :: rest → token.kind.isTrivia = false) ∧
          parse.tree.tokens = Scan.tokenize text ∧
          parse.tree.text = text ∧
          ∀ token ∈ Scan.tokenize text, token.kind = .error →
            parse.errors.countP (fun error =>
              error.range = ⟨token.offset, token.stop⟩ ∧
                error.message = Cause.unreadableMessage token.text) = 1 := by
  rw [Parse.ofText?_eq]
  cases begins : Parse.beginsWithTrivia (Scan.tokenize text) with
  | true =>
      simp only [if_true]
      cases tokens : Scan.tokenize text with
      | nil => simp [tokens, Parse.beginsWithTrivia] at begins
      | cons token rest =>
          exact ⟨token, rest, rfl, by simpa [tokens, Parse.beginsWithTrivia] using begins⟩
  | false =>
      simp only [Bool.false_eq_true, if_false]
      have sameTokens : (Parse.ofTokens text.utf8ByteSize (Scan.tokenize text)).tree.tokens =
          Scan.tokenize text := Weave.tokens_root _ _ _ _
      refine ⟨fun token rest tokens => ?_, sameTokens, ?_, fun token member unreadable => ?_⟩
      · simpa [tokens, Parse.beginsWithTrivia] using begins
      · unfold ParseTree.text
        rw [sameTokens]
        exact Scan.join_tokenize text
      · exact Parse.countP_errors (Scan.tokenize_pairwise text) member unreadable

end GrammarDesk.Syntax
