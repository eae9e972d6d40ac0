import GrammarDesk.Proofs.Syntax.Control

/-!
Contract: the procedures up to alternatives make progress and do what their productions do.

Owns: the proof, for skipping, options, lexer commands and all that rule bodies are made of, that
the command of a procedure builds and reports what its production does and arrives where it
does, with every round of a loop that is followed by another reading a lexeme.

Does not own: how runs are put together (`Control`), rules and members (`Progress.File`), or
what the productions make of the lexemes (`Production`).

Main statements: `recover_reaches`, `alternativeList_reaches`, `atom_reaches`.
-/

namespace GrammarDesk.Syntax.Control

open Command
open Reading (take nothing)

variable {head : Lexeme} {tail input place mark : List Lexeme}

/-! ## Names and skipping -/

theorem name_reaches (missing : Fault) :
    (Body.name missing).Reaches input (Production.name missing input) := by
  cases input with
  | nil => exact .choose_no rfl (extends_report missing _)
  | cons head tail =>
      unfold Production.name
      dsimp only
      split
      case isTrue same => exact .choose_yes (decide_eq_true same) (reaches_take _ _).node.attempt
      case isFalse other => exact .choose_no (decide_eq_false other) (extends_report missing _)

theorem nameRef_reaches : Body.nameRef.Reaches (head :: tail) (Production.nameRef head tail) :=
  (reaches_take _ _).node

theorem unreadable_reaches :
    Body.unreadable.Reaches (head :: tail) (Production.unreadable head tail) :=
  (reaches_take _ _).node

/-- Behind the place noted, skipping stops where the production does. -/
theorem exists_skips (resume : List Kind) (there : ahead place = input)
    (behind : input.length < (ahead mark).length) :
    ∃ after log, (loop (Body.skipRound resume)).Brings mark place .next after log
      (.ofReading (Production.skipUntil
        (fun input => Ahead.oneOf resume input || Ahead.memberStart input) input)) := by
  have moved : place ≠ mark := by
    rintro rfl
    exact absurd behind (by rw [there]; exact Nat.lt_irrefl _)
  have stays : leave.Brings mark place .left place [] (.nothing input) := brings_leave there
  -- The mark stays behind every later place, since fewer lexemes are ahead there.
  induction input generalizing place with
  | nil => exact ⟨place, [], .last (.choose_yes (by simp [there]) stays)⟩
  | cons head tail inductionHypothesis =>
      unfold Production.skipUntil
      split
      case isTrue stops =>
        cases resumes : Ahead.oneOf resume (head :: tail) with
        | true => exact ⟨place, [], .last (.choose_yes (by simp [there, resumes]) stays)⟩
        | false =>
            have starts : Ahead.memberStart (ahead place) = true := by
              simpa [there, resumes] using stops
            exact ⟨place, [], .last (.choose_no (by simp [there, resumes])
              (.moved moved (.choose_yes starts stays)))⟩
      case isFalse goes =>
        obtain ⟨resumes, starts⟩ := Bool.or_eq_false_iff.mp (Bool.eq_false_iff.mpr goes)
        have round : (Body.skipRound resume).Brings mark place .next (pastNext place) _
            (.ofReading (take head tail)) :=
          .choose_no (by simp [there, resumes])
            (.moved moved (.choose_no (there ▸ starts) (brings_take there)))
        have behindNext : tail.length < (ahead mark).length := by
          rw [List.length_cons] at behind
          omega
        have movedNext : pastNext place ≠ mark := by
          rintro rfl
          exact absurd behindNext (by rw [round.leaves]; exact Nat.lt_irrefl _)
        obtain ⟨after, log, more⟩ :=
          inductionHypothesis round.leaves behindNext movedNext (brings_leave round.leaves)
        have whole := Outcome.ofReading_andThen (take head tail).attempt
          (Production.skipUntil
            (fun input => Ahead.oneOf resume input || Ahead.memberStart input) tail)
        exact ⟨after, _, whole ▸ round.round (by rw [there]; exact Nat.lt_succ_self _) more⟩

/-- What cannot be read is skipped from its first lexeme on: where that is of a kind to resume
at, it is forced, and otherwise the first round of skipping reads it. -/
theorem skipping_ends (resume : List Kind) :
    (Body.skipping resume).Ends (head :: tail) .next
      (.ofReading
        (if head.kind ∈ resume then
          take head tail
        else
          (take head tail).andThen
            (Production.skipUntil
              (fun input => Ahead.oneOf resume input || Ahead.memberStart input) tail))) := by
  intro mark place there
  split
  case isTrue resumes =>
    have stops : (loop (Body.skipRound resume)).Brings place place .next place [] _ :=
      .last (.choose_yes (by simp [there, Ahead.oneOf_of_mem resumes]) (brings_leave there))
    have forced : (ifMoved .skip (choose List.isEmpty .skip .bump)).Brings place place .next
        (pastNext place) _ (.ofReading (take head tail)) :=
      .unmoved (.choose_no (by simp [there]) (brings_take there))
    exact ⟨pastNext place, _, (stops.seq forced).marked⟩
  case isFalse going =>
    have first : (Body.skipRound resume).Brings place place .next (pastNext place) _
        (.ofReading (take head tail)) :=
      .choose_no (by simp [there, Ahead.oneOf_cons, going]) (.unmoved (brings_take there))
    have behind : tail.length < (ahead place).length := by simp [there]
    obtain ⟨after, log, more⟩ := exists_skips resume first.leaves behind
    have whole := Outcome.ofReading_andThen (take head tail)
      (Production.skipUntil
        (fun input => Ahead.oneOf resume input || Ahead.memberStart input) tail)
    have shorter := Nat.lt_of_le_of_lt (Production.skipUntil
      (fun input => Ahead.oneOf resume input || Ahead.memberStart input) tail).within behind
    exact ⟨after, _, whole ▸ (first.round behind more).marked_moved shorter⟩

theorem recover_reaches (fault : Fault) (resume : List Kind) :
    (Body.recover fault resume).Reaches (head :: tail)
      (Production.recover fault resume head tail) := by
  have skips : (node .error (Body.skipping resume)).Ends (head :: tail) .next _ :=
    (skipping_ends resume).node
  have both : (Body.recover fault resume).Ends (head :: tail) .next _ :=
    (ends_report fault (head :: tail)).seq skips
  exact reaches_iff.mpr (Outcome.ofReading_preface _ fault ▸ both)

theorem callRecover_reaches (fault : Fault) (resume : List Kind) :
    (call (.recover fault resume)).Reaches (head :: tail)
      (Production.recover fault resume head tail) :=
  reaches_call (.recover fault resume) (recover_reaches fault resume) rfl rfl

/-! ## Options -/

theorem dottedParts_reaches : Body.dottedParts.Reaches input (Production.dottedParts input) := by
  induction input using Production.dottedParts.induct with
  | case1 dot part tail kinds both inductionHypothesis =>
      unfold Production.dottedParts
      rw [if_pos kinds]
      exact .again (by simp [Ahead.next, Ahead.second, kinds])
        ((reaches_take dot _).bump (List.cons_ne_nil part tail)) inductionHypothesis
  | case2 dot part tail kinds =>
      unfold Production.dottedParts
      rw [if_neg kinds]
      exact reaches_repeatWhile (by simpa [Ahead.next, Ahead.second] using kinds)
  | case3 input short =>
      rw [Production.dottedParts.eq_2 _ short]
      refine reaches_repeatWhile ?_
      rcases input with _ | ⟨dot, _ | ⟨part, tail⟩⟩
      · rfl
      · simp [Ahead.second, Ahead.next]
      · exact absurd rfl (short dot part tail)

theorem optionValue_reaches : Body.optionValue.Reaches input (Production.optionValue input) := by
  cases input with
  | nil => exact .dispatch rfl (extends_report _ _)
  | cons head tail =>
      unfold Production.optionValue
      dsimp only
      split
      case h_1 same =>
        exact .dispatch same ((reaches_take _ _).andThen dottedParts_reaches).node.attempt
      case h_2 same => exact .dispatch same (reaches_take _ _).attempt
      case h_3 same => exact .dispatch same (reaches_take _ _).attempt
      case h_4 same => exact .dispatch same (reaches_take _ _).attempt
      case h_5 =>
        refine .dispatch (show currentKind (head :: tail) = head.kind from rfl) ?_
        split <;> first | contradiction | exact extends_report _ _

theorem option_reaches :
    (call .option).Reaches (head :: tail) (Production.option head tail) := by
  refine reaches_call .option ?_ rfl rfl
  unfold Production.option
  refine Extends.node (Extends.expect ((reaches_take _ _).seq ?_) _)
  dsimp only
  split
  case isTrue next =>
    have signed := extends_bump (take head tail) (Ahead.ne_nil_of_next next)
    exact .choose_yes next (signed.andThen optionValue_reaches)
  case isFalse other => exact .choose_not other (extends_report _ _)

/-- The loop over options ends at the closing brace, is left where a member starts, and skips
what is no option. -/
theorem options_reaches : Body.options.Reaches input (Production.options input) := by
  induction input using Production.options.induct with
  | case1 =>
      unfold Production.options
      exact reaches_repeatWhile rfl
  | case2 head tail closed =>
      unfold Production.options
      rw [if_pos closed]
      exact reaches_repeatWhile (by simp [Ahead.next, closed])
  | case3 head tail going named first inductionHypothesis =>
      unfold Production.options
      rw [if_neg going, if_pos named]
      have round : Body.optionRound.Reaches (head :: tail) first :=
        .choose_yes (by simp [Ahead.next, named]) option_reaches
      exact .again (by simp [Ahead.next, going]) round inductionHypothesis
  | case4 head tail going unnamed started =>
      unfold Production.options
      rw [if_neg going, if_neg unnamed, if_pos started]
      have round : Body.optionRound.Ends (head :: tail) .left (.nothing (head :: tail)) :=
        .choose_no (by simpa [Ahead.next] using unnamed) (.choose_yes started (ends_leave _))
      exact reaches_of_left (nothing _) (by simp [Ahead.next, going]) round
  | case5 head tail going unnamed unstarted skipped inductionHypothesis =>
      unfold Production.options
      rw [if_neg going, if_neg unnamed, if_neg unstarted]
      have round : Body.optionRound.Reaches (head :: tail) skipped :=
        .choose_no (by simpa [Ahead.next] using unnamed)
          (.choose_not unstarted ((callRecover_reaches _ _).eat _))
      exact .again (by simp [Ahead.next, going]) round inductionHypothesis

theorem optionsSpec_reaches :
    (call .optionsSpec).Reaches (head :: tail) (Production.optionsSpec head tail) := by
  refine reaches_call .optionsSpec ?_ rfl rfl
  unfold Production.optionsSpec
  refine Extends.node ((reaches_take _ _).seq ?_)
  dsimp only
  split
  case isTrue next =>
    have braced := extends_bump (take head tail) (Ahead.ne_nil_of_next next)
    exact .choose_yes next ((braced.andThen options_reaches).expect _)
  case isFalse other => exact .choose_not other (extends_report _ _)

/-! ## Options of an element -/

theorem skipUntil_reaches (kinds : List Kind) :
    (Body.skipTo kinds).Reaches input (Production.skipUntil (Ahead.oneOf kinds) input) := by
  induction input with
  | nil => exact reaches_repeatWhile rfl
  | cons head tail inductionHypothesis =>
      unfold Production.skipUntil
      split
      case isTrue stops => exact reaches_repeatWhile (by simp [stops])
      case isFalse goes => exact .again (by simp [goes]) (reaches_take _ _) inductionHypothesis

theorem elementOptions_reaches :
    (call .elementOptions).Reaches (head :: tail) (Production.elementOptions head tail) :=
  reaches_call .elementOptions
    (((reaches_take _ _).andThen (skipUntil_reaches _)).expect _).node rfl rfl

theorem elementOptions?_reaches :
    Body.elementOptions?.Reaches input (Production.elementOptions? input) :=
  reaches_optional .less Production.elementOptions? rfl (fun _ _ => rfl)
    (fun _ _ => elementOptions_reaches) input

theorem arguments?_reaches : Body.arguments?.Reaches input (Production.arguments? input) :=
  reaches_optional .bracketBlock Production.arguments? rfl (fun _ _ => rfl)
    (fun _ _ => (reaches_take _ _).node) input

/-! ## Lexer commands -/

theorem commandArgument_reaches :
    Body.commandArgument.Reaches input (Production.commandArgument input) := by
  cases input with
  | nil => exact .choose_no rfl (extends_skip _)
  | cons head tail =>
      unfold Production.commandArgument
      dsimp only
      split
      case isFalse other => exact .choose_no (decide_eq_false other) (extends_skip _)
      case isTrue opens =>
        refine .choose_yes (decide_eq_true opens) (Extends.attempt ?_)
        refine Extends.expect ((reaches_take head tail).seq ?_) _
        cases tail with
        | nil => exact .choose_no rfl (.choose_no rfl (extends_report _ _))
        | cons argument rest =>
            dsimp only
            split
            case isTrue named =>
              exact .choose_yes (decide_eq_true named)
                (.beyond nameRef_reaches.attempt)
            case isFalse unnamed =>
              refine .choose_no (decide_eq_false unnamed) ?_
              split
              case isTrue number =>
                exact .choose_yes (decide_eq_true number)
                  (extends_bump (take head _) (List.cons_ne_nil argument rest))
              case isFalse other =>
                exact .choose_no (decide_eq_false other) (extends_report _ _)

theorem lexerCommand_reaches :
    (call .lexerCommand).Reaches input (Production.lexerCommand input) := by
  refine reaches_callAttempt .lexerCommand ?_ rfl rfl rfl
  unfold Production.lexerCommand
  refine Extends.node (Extends.andThen ?_ commandArgument_reaches)
  split
  case isTrue named => exact .choose_yes named (reaches_takeNext (Ahead.ne_nil_of_oneOf named))
  case isFalse other => exact .choose_not other (extends_report _ _)

theorem lexerCommands_reaches :
    (call .lexerCommands).Reaches (head :: tail) (Production.lexerCommands head tail) := by
  refine reaches_call .lexerCommands ?_ rfl rfl
  unfold Production.lexerCommands
  refine Extends.node (Extends.assoc ((reaches_take head tail).andThen ?_))
  refine reaches_separated (fun _ => lexerCommand_reaches) ?_ (fun head tail => ?_) tail
  · rw [Production.moreLexerCommands]
  · rw [Production.moreLexerCommands]
    rfl

theorem lexerCommands?_reaches :
    Body.lexerCommands?.Reaches input (Production.lexerCommands? input) :=
  reaches_optional .arrow Production.lexerCommands? rfl (fun _ _ => rfl)
    (fun _ _ => lexerCommands_reaches) input

/-! ## Elements -/

theorem alternativeLabel?_reaches :
    Body.alternativeLabel?.Reaches input (Production.alternativeLabel? input) :=
  reaches_optional .hash Production.alternativeLabel? rfl (fun _ _ => rfl)
    (fun _ _ => ((reaches_take _ _).andThen (name_reaches _)).node) input

theorem blockOptions?_reaches :
    Body.blockOptions?.Reaches input (Production.blockOptions? input) :=
  reaches_optional .optionsKeyword Production.blockOptions? rfl (fun _ _ => rfl)
    (fun _ _ => optionsSpec_reaches.expect _) input

/-! The readers of elements call one another. Each of them either reads a lexeme before it calls
another or calls one of lower level on the same lexemes, so the lemmas about them are proved
together. -/

mutual

theorem alternativeList_reaches (input : List Lexeme) :
    (call .alternativeList).Reaches input (Production.alternativeList input) := by
  refine reaches_callAttempt .alternativeList ?_ rfl rfl rfl
  unfold Production.alternativeList
  have first := alternative_reaches input
  exact (first.andThen (moreAlternatives_reaches _)).node
termination_by (input.length, 7)
decreasing_by
  · exact Prod.Lex.right _ (by omega)
  · exact Prod.Lex.right' _ (Production.alternative input).within (by omega)

theorem moreAlternatives_reaches (input : List Lexeme) :
    Body.moreAlternatives.Reaches input (Production.moreAlternatives input) := by
  match input with
  | [] =>
      unfold Production.moreAlternatives
      exact reaches_repeatWhile rfl
  | head :: tail =>
      unfold Production.moreAlternatives
      dsimp only
      split
      case isTrue same =>
        have more := (reaches_take head tail).andThen (alternative_reaches tail)
        exact .again (decide_eq_true same) more (moreAlternatives_reaches _)
      case isFalse other => exact reaches_repeatWhile (decide_eq_false other)
termination_by (input.length, 6)
decreasing_by
  · exact Prod.Lex.left _ _ (Nat.lt_succ_self _)
  · exact Prod.Lex.left _ _ (Nat.lt_succ_of_le
      ((take head tail).andThen (Production.alternative (take head tail).rest)).within)

theorem alternative_reaches (input : List Lexeme) :
    (call .alternative).Reaches input (Production.alternative input) := by
  refine reaches_callAttempt .alternative ?_ rfl rfl rfl
  unfold Production.alternative
  have opened : Body.elementOptions?.Reaches input (Production.elementOptions? input) :=
    elementOptions?_reaches
  have filled := opened.andThen (elements_reaches _)
  have labeled := filled.andThen alternativeLabel?_reaches
  exact (labeled.andThen lexerCommands?_reaches).node
termination_by (input.length, 5)
decreasing_by exact Prod.Lex.right' _ (Production.elementOptions? input).within (by omega)

/-- The loop over elements goes where their reading goes: each round reads an element, and the
loop ends where no element starts. -/
theorem elements_reaches (input : List Lexeme) :
    Body.elements.Reaches input (Production.elements input) := by
  match input with
  | [] =>
      unfold Production.elements
      exact reaches_repeatWhile rfl
  | head :: tail =>
      unfold Production.elements
      dsimp only
      split
      case isTrue starts =>
        exact .again starts (element_reaches head tail) (elements_reaches _)
      case isFalse other => exact reaches_repeatWhile (Bool.eq_false_iff.mpr other)
termination_by (input.length, 4)
decreasing_by
  · exact Prod.Lex.right _ (by omega)
  · exact Prod.Lex.left _ _ (Nat.lt_succ_of_le (Production.element head tail).within)

theorem element_reaches (head : Lexeme) (tail : List Lexeme) :
    (call .element).Reaches (head :: tail) (Production.element head tail) := by
  refine reaches_call .element ?_ rfl rfl
  unfold Production.element
  dsimp only
  have labeled := labeledElement_reaches head tail
  split
  case isTrue suffix =>
    have bumped := extends_bump (Production.labeledElement head tail)
      (Ahead.ne_nil_of_oneOf suffix)
    exact labeled.suffixed suffix (bumped.eat .question)
  case isFalse other => exact labeled.unsuffixed (Bool.eq_false_iff.mpr other)
termination_by (tail.length + 1, 3)
decreasing_by exact Prod.Lex.right _ (by omega)

theorem labeledElement_reaches (head : Lexeme) (tail : List Lexeme) :
    Body.labeledElement.Reaches (head :: tail) (Production.labeledElement head tail) := by
  match tail with
  | [] =>
      unfold Production.labeledElement
      exact .choose_no (by simp [Ahead.second, Ahead.next]) (atom_reaches head [])
  | sign :: rest =>
      unfold Production.labeledElement
      dsimp only
      split
      case isTrue labels =>
        have signed := (reaches_take head _).andThen (reaches_take sign rest).attempt
        have filled := signed.andThen (operand_reaches .missingLabeledElement rest)
        exact .choose_yes (by simpa [Ahead.second, Ahead.next] using labels) filled.node
      case isFalse other =>
        exact .choose_no (by simpa [Ahead.second, Ahead.next] using other)
          (atom_reaches head (sign :: rest))
termination_by (tail.length + 1, 2)
decreasing_by
  · exact Prod.Lex.right _ (by omega)
  · exact Prod.Lex.right _ (by omega)
  · exact Prod.Lex.left _ _ (Nat.lt_succ_of_lt (Nat.lt_succ_self _))

theorem operand_reaches (missing : Fault) (input : List Lexeme) :
    (Body.operand missing).Reaches input (Production.operand missing input) := by
  match input with
  | [] =>
      unfold Production.operand
      exact .choose_no rfl (extends_report missing _)
  | head :: tail =>
      unfold Production.operand
      split
      case isTrue starts => exact .choose_yes starts (atom_reaches head tail).attempt
      case isFalse other => exact .choose_not other (extends_report missing _)
termination_by (input.length, 2)
decreasing_by exact Prod.Lex.right _ (by omega)

/-- A block is an atom that begins with a parenthesis. -/
theorem block_reaches (head : Lexeme) (tail : List Lexeme) (opens : head.kind = .leftParen) :
    (call .block).Reaches (head :: tail) (Production.atom head tail) := by
  refine reaches_call .block ?_ rfl rfl
  unfold Production.atom
  simp only [opens]
  have opened := (reaches_take head tail).andThen blockOptions?_reaches
  exact ((opened.andThen (alternativeList_reaches _)).expect _).node
termination_by (tail.length + 1, 0)
decreasing_by
  exact Prod.Lex.left _ _ (Nat.lt_succ_of_le
    ((take head tail).andThen (Production.blockOptions? tail)).within)

/-- The procedure of an atom goes where the reading of an atom goes; by induction on how much
is left to read, since a block calls the procedure again. -/
theorem atom_reaches (head : Lexeme) (tail : List Lexeme) :
    (call .atom).Reaches (head :: tail) (Production.atom head tail) := by
  refine reaches_call .atom (show Body.atom.Reaches _ _ from ?_) rfl rfl
  by_cases opens : head.kind = .leftParen
  · exact .dispatch opens (block_reaches head tail opens)
  have first := reaches_take head tail
  unfold Production.atom
  dsimp only
  split
  case h_1 named =>
    split
    case isTrue token =>
      exact .dispatch named (.choose_yes token (first.andThen elementOptions?_reaches).node)
    case isFalse rule =>
      have applied := first.andThen arguments?_reaches
      exact .dispatch named (.choose_not rule (applied.andThen elementOptions?_reaches).node)
  case h_2 literal =>
    split
    case isTrue dots =>
      have opened := first.bump (Ahead.ne_nil_of_next dots)
      refine .dispatch literal (.choose_yes dots (opened.seq ?_).node)
      split
      case isTrue next => exact .choose_yes next (extends_bump _ (Ahead.ne_nil_of_next next))
      case isFalse other => exact .choose_not other (extends_report _ _)
    case isFalse plain =>
      exact .dispatch literal (.choose_not plain (first.andThen elementOptions?_reaches).node)
  case h_3 same => exact absurd same opens
  case h_4 dot => exact .dispatch dot (first.andThen elementOptions?_reaches).node
  case h_5 tilde => exact .dispatch tilde (first.andThen (operand_reaches _ tail)).node
  case h_6 action =>
    split
    case isTrue question =>
      have asked := first.bump (Ahead.ne_nil_of_next question)
      exact .dispatch action (.choose_yes question (asked.andThen elementOptions?_reaches).node)
    case isFalse plain =>
      exact .dispatch action (.choose_not plain first.node)
  case h_7 bracket => exact .dispatch bracket first.node
  case h_8 =>
    refine .dispatch (show currentKind (head :: tail) = head.kind from rfl) ?_
    split <;> first | contradiction | exact unreadable_reaches
termination_by (tail.length + 1, 1)
decreasing_by
  · exact Prod.Lex.right _ (by omega)
  · exact Prod.Lex.left _ _ (Nat.lt_succ_self _)

end

end GrammarDesk.Syntax.Control
