import GrammarDesk.Proofs.Syntax.Progress.Element
import GrammarDesk.Proofs.Syntax.Soundness.File

/-!
Contract: the reader always makes progress and does what the productions do.

Owns: the proof, for rules, members and the file, that the command of a procedure builds and
reports what its production does and arrives where it does; and that from every sequence of
lexemes the reader has one run, in which each round and each call that must read a lexeme does,
and no round is found to have read nothing.

Does not own: rule bodies (`Progress.Element`), or what the productions make of the lexemes
(`Production`).

Main statement: `reader_always_advances`.
-/

namespace GrammarDesk.Syntax.Control

open Command
open Reading (take nothing)

variable {head : Lexeme} {tail input : List Lexeme}

/-! ## Rules -/

theorem modifiers_reaches : Body.modifiers.Reaches input (Production.modifiers input) := by
  induction input with
  | nil => exact reaches_repeatWhile rfl
  | cons head tail inductionHypothesis =>
      unfold Production.modifiers
      split
      case isTrue modifier =>
        exact .again (by simp [currentKind, modifier]) (reaches_take _ _) inductionHypothesis
      case isFalse other => exact reaches_repeatWhile (by simp [currentKind, other])

theorem ruleName_reaches (starts : head.kind = .identifier ∨ head.kind.isRuleModifier = true) :
    (Body.modifiers ++ Body.name .missingRuleName).Reaches (head :: tail)
      (Production.ruleName head tail) := by
  unfold Production.ruleName
  dsimp only
  split
  case isTrue modifier =>
    have modified : Body.modifiers.Reaches (head :: tail)
        ((take head tail).andThen (Production.modifiers tail)) :=
      .again (by simp [currentKind, modifier]) (reaches_take _ _) modifiers_reaches
    exact modified.andThen (name_reaches .missingRuleName)
  case isFalse plain =>
    have named : head.kind = .identifier := starts.resolve_right plain
    have unmodified : Body.modifiers.Reaches (head :: tail) (nothing (head :: tail)) :=
      reaches_repeatWhile (by simp [currentKind, plain])
    exact unmodified.seq (.choose_yes (decide_eq_true named) (reaches_take _ _).node)

theorem moreThrown_reaches : Body.moreThrown.Reaches input (Production.moreThrown input) := by
  induction input using Production.moreThrown.induct with
  | case1 =>
      unfold Production.moreThrown
      exact reaches_repeatWhile rfl
  | case2 head tail separated named inductionHypothesis =>
      unfold Production.moreThrown
      rw [if_pos separated]
      exact .again (decide_eq_true separated) ((reaches_take _ _).expect _) inductionHypothesis
  | case3 head tail other =>
      unfold Production.moreThrown
      rw [if_neg other]
      exact reaches_repeatWhile (decide_eq_false other)

/-- One round of the loop over specifications takes the specification that its first lexeme
tells. -/
theorem ruleSpec_reaches {reading : Advance head tail}
    (found : Production.ruleSpec? head tail = some reading) :
    Body.ruleSpecRound.Reaches (head :: tail) reading := by
  have first := reaches_take head tail
  unfold Production.ruleSpec? at found
  split at found
  case h_1 same =>
    obtain rfl := Option.some.inj found
    exact .dispatch same first.node
  case h_2 same =>
    obtain rfl := Option.some.inj found
    exact .dispatch same (first.expect _).node
  case h_3 same =>
    obtain rfl := Option.some.inj found
    exact .dispatch same (first.expect _).node
  case h_4 same =>
    obtain rfl := Option.some.inj found
    exact .dispatch same ((first.expect _).andThen moreThrown_reaches).node
  case h_5 same =>
    obtain rfl := Option.some.inj found
    exact .dispatch same optionsSpec_reaches
  case h_6 same =>
    obtain rfl := Option.some.inj found
    exact .dispatch same ((first.expect _).expect _).node
  case h_7 => cases found

/-- Where no specification starts, the loop over them is left. -/
theorem ruleSpec_leaves (missing : Production.ruleSpec? head tail = none) :
    Body.ruleSpecRound.Ends (head :: tail) .left (.nothing (head :: tail)) := by
  refine Ends.inspect ?_
  dsimp only [currentKind]
  split
  case h_7 => exact ends_leave _
  all_goals simp_all [Production.ruleSpec?]

theorem ruleSpecs_reaches :
    (call .ruleSpecs).Reaches input (Production.ruleSpecs input) := by
  refine reaches_callAttempt .ruleSpecs (show Body.ruleSpecs.Reaches _ _ from ?_) rfl rfl rfl
  induction input using Production.ruleSpecs.induct with
  | case1 =>
      unfold Production.ruleSpecs
      exact reaches_repeatWhile rfl
  | case2 head tail missing =>
      rw [Production.ruleSpecs, missing]
      exact reaches_of_left (nothing _) rfl (ruleSpec_leaves missing)
  | case3 head tail first found inductionHypothesis =>
      rw [Production.ruleSpecs, found]
      exact .again rfl (ruleSpec_reaches found) inductionHypothesis

/-- What is skipped is named by the lexeme that it begins with. -/
theorem skipped_reaches (fault : Kind → Fault) :
    (Body.skipped fault).Reaches (head :: tail)
      ((Production.recover (fault head.kind) [.semicolon] head tail).eat .semicolon) :=
  .dispatch rfl ((callRecover_reaches _ _).eat _)

theorem ruleEnd_reaches : (call .ruleEnd).Reaches input (Production.ruleEnd input) := by
  refine reaches_callAttempt .ruleEnd (show Body.ruleEnd.Reaches _ _ from ?_) rfl rfl rfl
  cases input with
  | nil => exact .choose_no rfl (.choose_yes rfl (extends_reportAfter _ _))
  | cons head tail =>
      unfold Production.ruleEnd
      dsimp only
      split
      case isTrue ended =>
        exact .choose_yes (decide_eq_true ended) (reaches_take _ _).attempt
      case isFalse going =>
        refine .choose_no (decide_eq_false going) ?_
        split
        case isTrue starts => exact .choose_yes (by simp [starts]) (extends_reportAfter _ _)
        case isFalse stray => exact .choose_no (by simp [stray]) (skipped_reaches _).attempt

theorem catches_reaches : Body.catches.Reaches input (Production.handlers input) := by
  induction input using Production.handlers.induct with
  | case1 =>
      unfold Production.handlers
      exact reaches_repeatWhile rfl
  | case2 head tail caught handler inductionHypothesis =>
      unfold Production.handlers
      rw [if_pos caught]
      exact .again (decide_eq_true caught) (((reaches_take _ _).expect _).expect _).node
        inductionHypothesis
  | case3 head tail other =>
      unfold Production.handlers
      rw [if_neg other]
      exact reaches_repeatWhile (decide_eq_false other)

theorem finallyClause?_reaches :
    Body.finallyClause?.Reaches input (Production.finallyClause? input) :=
  reaches_optional .finallyKeyword Production.finallyClause? rfl (fun _ _ => rfl)
    (fun _ _ => ((reaches_take _ _).expect _).node) input

theorem handlers_reaches :
    (call .handlers).Reaches input
      ((Production.handlers input).andThen
        (Production.finallyClause? (Production.handlers input).rest)) :=
  reaches_callAttempt .handlers (catches_reaches.andThen finallyClause?_reaches) rfl rfl rfl

theorem ruleBody_reaches : Body.ruleBody.Reaches input (Production.ruleBody input) := by
  have body := alternativeList_reaches input
  exact ((body.andThen ruleEnd_reaches).andThen handlers_reaches).assoc

/-- A rule needs a name or a modifier to begin with. -/
theorem rule_reaches (starts : head.kind = .identifier ∨ head.kind.isRuleModifier = true) :
    (call .rule).Reaches (head :: tail) (Production.rule head tail) := by
  refine reaches_call .rule (.inspect ?_) rfl rfl
  unfold Production.rule
  have named : (Body.modifiers ++ Body.name .missingRuleName).Reaches (head :: tail)
      (Production.ruleName head tail) := ruleName_reaches starts
  have declared := named.andThen ruleSpecs_reaches
  dsimp only
  generalize (Production.ruleName head tail).andThen _ = reading at declared ⊢
  refine Extends.node (declared.seq ?_)
  split
  case isTrue colon =>
    have opened := extends_bump reading (Ahead.ne_nil_of_next colon)
    exact .choose_yes colon (opened.andThen ruleBody_reaches)
  case isFalse missing =>
    refine .choose_not missing ((extends_report .missingColon reading).seq ?_)
    split
    case isTrue element =>
      have starts : Ahead.elementStart reading.rest = true := element
      have going := Ahead.isEmpty_of_elementStart starts
      have unstarted := Ahead.memberStart_of_elementStart starts
      refine .choose_no ?_ (.beyond ruleBody_reaches)
      show (reading.rest.isEmpty || Ahead.memberStart reading.rest ||
        !Ahead.elementStart reading.rest) = false
      rw [going, unstarted, starts]
      rfl
    case isFalse other =>
      refine .choose_yes ?_ (extends_skip _)
      have noElement : Ahead.elementStart reading.rest = false := Bool.eq_false_iff.mpr other
      show (_ || !Ahead.elementStart reading.rest) = true
      rw [noElement, Bool.not_false, Bool.or_true]

/-! ## Header, imports and lists -/

/-- A header needs `grammar` or the word before it to begin with. -/
theorem header_ends
    (starts : head.kind = .grammarKeyword ∨ head.kind = .lexerKeyword ∨
      head.kind = .parserKeyword) :
    (call .header).Ends (head :: tail) .next
      ((Outcome.ofReading (Production.header head tail)).called .header) := by
  have reaches : Body.header.Reaches (head :: tail) (Production.header head tail) := by
    unfold Production.header
    dsimp only
    refine ((Extends.andThen ?_ (name_reaches _)).expect _).node
    split
    case isTrue grammar =>
      have noSort : Ahead.oneOf [.lexerKeyword, .parserKeyword] (head :: tail) = false := by
        rw [Ahead.oneOf_cons, grammar]
        decide
      have unsorted : (choose (Ahead.oneOf [.lexerKeyword, .parserKeyword]) bump skip).Reaches
          (head :: tail) (nothing (head :: tail)) := .choose_no noSort (extends_skip _)
      exact unsorted.seq (.choose_yes (decide_eq_true grammar) (reaches_take _ _))
    case isFalse other =>
      have sort : Ahead.oneOf [.lexerKeyword, .parserKeyword] (head :: tail) = true :=
        Ahead.oneOf_of_mem (by simpa using starts.resolve_left other)
      exact (Extends.choose_yes sort (reaches_take _ _)).expect _
  exact ends_call (reaches_iff.mp reaches) rfl nofun

theorem importAlias?_reaches :
    Body.importAlias?.Reaches input (Production.importAlias? input) := by
  cases input with
  | nil => exact .choose_no rfl (extends_skip _)
  | cons head tail =>
      unfold Production.importAlias?
      dsimp only
      split
      case isTrue aliased =>
        have name : Body.declared.Reaches (head :: tail) ((take head tail).node .name) :=
          (reaches_take _ _).node
        exact .choose_yes (by simpa [Ahead.next, Ahead.second] using aliased)
          (name.bump (Ahead.ne_nil_of_next aliased.2)).attempt
      case isFalse plain =>
        exact .choose_no (by simpa [Ahead.next, Ahead.second] using plain) (extends_skip _)

theorem importTarget_reaches :
    Body.importTarget.Reaches input (Production.importTarget input) := by
  cases input with
  | nil => exact .choose_no rfl (extends_report _ _)
  | cons head tail =>
      unfold Production.importTarget
      dsimp only
      split
      case isTrue same => exact .choose_yes (decide_eq_true same) nameRef_reaches.attempt
      case isFalse other => exact .choose_no (decide_eq_false other) (extends_report _ _)

theorem importItem_reaches : Body.importItem.Reaches input (Production.importItem input) :=
  (importAlias?_reaches.andThen importTarget_reaches).node

theorem importDecl_reaches :
    (call .importDecl).Reaches (head :: tail) (Production.importDecl head tail) := by
  refine reaches_call .importDecl ?_ rfl rfl
  unfold Production.importDecl
  refine (Extends.expect (Extends.assoc ((reaches_take head tail).andThen ?_)) _).node
  refine reaches_separated (fun _ => importItem_reaches) ?_ (fun head tail => ?_) tail
  · rw [Production.moreImports]
  · rw [Production.moreImports]
    rfl

/-- The loop over entries ends where no name stands, and is left behind a name that no comma
follows. -/
theorem listEntries_reaches (entry : Kind) :
    (Body.listEntries entry).Reaches input (Production.listEntries entry input) := by
  induction input using (Production.listEntries.induct entry) with
  | case1 =>
      unfold Production.listEntries
      exact reaches_repeatWhile rfl
  | case2 head tail same named separates separated inductionHypothesis =>
      unfold Production.listEntries
      dsimp only
      rw [if_pos same, if_pos separates]
      have entryName : (node entry (Body.name .missingListEntry)).Reaches (head :: tail) named :=
        Extends.node (.choose_yes (decide_eq_true same) (reaches_take _ _).node)
      have comma := extends_bump named (Ahead.ne_nil_of_next separates)
      exact .again (decide_eq_true same) (entryName.seq (.choose_yes separates comma))
        inductionHypothesis
  | case3 head tail same named last =>
      unfold Production.listEntries
      dsimp only
      rw [if_pos same, if_neg last]
      have entryName : (node entry (Body.name .missingListEntry)).Reaches (head :: tail) named :=
        Extends.node (.choose_yes (decide_eq_true same) (reaches_take _ _).node)
      exact reaches_of_left named.attempt (decide_eq_true same)
        ((reaches_iff.mp entryName).comma_left (Bool.eq_false_iff.mpr last))
  | case4 head tail other =>
      unfold Production.listEntries
      rw [if_neg other]
      exact reaches_repeatWhile (decide_eq_false other)

theorem listRemainder_reaches :
    Body.listRemainder.Reaches input (Production.listRemainder input) := by
  cases input with
  | nil => exact .choose_no rfl (extends_skip _)
  | cons head tail =>
      unfold Production.listRemainder
      dsimp only
      split
      case isTrue stops =>
        refine .choose_no ?_ (extends_skip _)
        rcases stops with closed | starts
        · simp [Ahead.next, closed]
        · simp [starts]
      case isFalse going =>
        obtain ⟨opened, unstarted⟩ := not_or.mp going
        exact .choose_yes (by simp [Ahead.next, opened, unstarted])
          (callRecover_reaches _ _).attempt

theorem nameList_reaches (list entry : Kind) :
    (call (.nameList list entry)).Reaches (head :: tail)
      (Production.nameList list entry head tail) := by
  refine reaches_call (.nameList list entry) ?_ rfl rfl
  unfold Production.nameList
  refine Extends.node ((reaches_take head tail).seq ?_)
  dsimp only
  split
  case isTrue next =>
    have braced := extends_bump (take head tail) (Ahead.ne_nil_of_next next)
    have named := braced.andThen (listEntries_reaches entry)
    exact .choose_yes next ((named.andThen listRemainder_reaches).expect _)
  case isFalse other => exact .choose_not other (extends_report _ _)

theorem actionName_reaches : Body.actionName.Reaches input (Production.actionName input) := by
  cases input with
  | nil => exact .choose_no rfl (extends_report _ _)
  | cons head tail =>
      unfold Production.actionName
      dsimp only
      split
      case isFalse other => exact .choose_not other (extends_report _ _)
      case isTrue named =>
        refine .choose_yes named (Extends.node ((reaches_take head tail).seq ?_)).attempt
        split
        case isFalse plain => exact .choose_not plain (extends_skip _)
        case isTrue qualified =>
          have opened := extends_bump (take head tail) (Ahead.ne_nil_of_next qualified)
          refine .choose_yes qualified (opened.seq ?_)
          split
          case isTrue next => exact .choose_yes next (extends_bump _ (Ahead.ne_nil_of_oneOf next))
          case isFalse missing => exact .choose_not missing (extends_report _ _)

theorem namedAction_reaches :
    (call .namedAction).Reaches (head :: tail) (Production.namedAction head tail) :=
  reaches_call .namedAction (((reaches_take _ _).andThen actionName_reaches).expect _).node rfl rfl

/-! ## Modes -/

theorem modeRound_rule (starts : head.kind = .identifier ∨ head.kind.isRuleModifier = true) :
    Body.modeRound.Reaches (head :: tail) (Production.rule head tail) := by
  have run : (call .rule).Reaches (head :: tail) (Production.rule head tail) :=
    rule_reaches starts
  rcases starts with named | modifier
  · exact .dispatch named run
  · unfold Kind.isRuleModifier at modifier
    split at modifier
    case h_1 same => exact .dispatch same run
    case h_2 same => exact .dispatch same run
    case h_3 same => exact .dispatch same run
    case h_4 same => exact .dispatch same run
    case h_5 => exact absurd modifier Bool.false_ne_true

/-- Where no rule starts and the lexeme can be read, a round of a mode looks whether a member
starts. -/
theorem modeRound_other (noRule : ¬ (head.kind = .identifier ∨ head.kind.isRuleModifier = true))
    (readable : head.kind ≠ .error) {exit : Exit} {outcome : Outcome}
    (ends : (choose Ahead.memberStart leave (Body.skipped .notALexerRule)).Ends (head :: tail)
      exit outcome) :
    Body.modeRound.Ends (head :: tail) exit outcome := by
  refine Ends.inspect ?_
  dsimp only [currentKind]
  split
  case h_6 => exact absurd ‹_› readable
  case h_7 => exact ends
  all_goals simp_all [Kind.isRuleModifier]

/-- The loop over the rules of a mode ends at the next mode, is left where another member
starts, and skips what starts none. -/
theorem modeRules_reaches : Body.modeRules.Reaches input (Production.modeRules input) := by
  induction input using Production.modeRules.induct with
  | case1 =>
      unfold Production.modeRules
      exact reaches_repeatWhile rfl
  | case2 head tail starts first inductionHypothesis =>
      unfold Production.modeRules
      rw [if_pos starts]
      have noMode : head.kind ≠ .modeKeyword := by
        rintro mode
        simp [mode, Kind.isRuleModifier] at starts
      exact .again (by simp [Ahead.next, noMode]) (.guarded (modeRound_rule starts))
        inductionHypothesis
  | case3 head tail noRule unread first inductionHypothesis =>
      unfold Production.modeRules
      rw [if_neg noRule, if_pos unread]
      exact .again (by simp [Ahead.next, unread])
        (.guarded (.dispatch unread unreadable_reaches)) inductionHypothesis
  | case4 head tail noRule readable started =>
      unfold Production.modeRules
      rw [if_neg noRule, if_neg readable, if_pos started]
      -- The guard of the loop sees the next mode, and the round every other member.
      by_cases mode : head.kind = .modeKeyword
      · exact reaches_repeatWhile (by simp [Ahead.next, mode])
      · have round := modeRound_other noRule readable (.choose_yes started (ends_leave _))
        exact reaches_of_left (nothing _) (by simp [Ahead.next, mode]) round.guarded_left
  | case5 head tail noRule readable unstarted skipped inductionHypothesis =>
      unfold Production.modeRules
      rw [if_neg noRule, if_neg readable, if_neg unstarted]
      have noMode : head.kind ≠ .modeKeyword := fun mode =>
        unstarted (by simp [Ahead.memberStart, Ahead.oneOf_cons, mode])
      have round : Body.modeRound.Reaches (head :: tail) skipped :=
        reaches_iff.mpr (modeRound_other noRule readable
          (reaches_iff.mp (.choose_not unstarted (skipped_reaches _))))
      exact .again (by simp [Ahead.next, noMode]) (.guarded round) inductionHypothesis

theorem modeSection_reaches :
    (call .modeSection).Reaches (head :: tail) (Production.modeSection head tail) := by
  refine reaches_call .modeSection ?_ rfl rfl
  have named := ((reaches_take head tail).andThen (name_reaches .missingModeName)).expect .semicolon
  exact (named.andThen modeRules_reaches).node

/-! ## The file -/

/-- What members come to: a header was read if a header node is among them. -/
def Outcome.ofMembers {limit : Nat} (reading : Reading input limit) : Outcome :=
  { Outcome.ofReading reading with header := reading.shapes.any (Shape.isNode .header) }

theorem Outcome.ofMembers_append {limit limit' : Nat} (reading : Reading input limit)
    (following : Reading reading.rest limit') :
    ofMembers reading ++ ofMembers following = ofMembers (reading.append following) := by
  show Outcome.mk _ _ _ _ = Outcome.mk _ (Log.toList (_ ++ _)) (List.any (_ ++ _) _) _
  rw [Log.toList_append, List.any_append]
  rfl

theorem ends_other {command : Command} {limit : Nat} {reading : Reading input limit}
    (run : command.Reaches input reading)
    (other : reading.shapes.any (Shape.isNode .header) = false) :
    command.Ends input .next (.ofMembers reading) := by
  rw [Outcome.ofMembers, other]
  exact reaches_iff.mp run

theorem rule_ends (starts : head.kind = .identifier ∨ head.kind.isRuleModifier = true) :
    (call .rule).Ends (head :: tail) .next (.ofMembers (Production.rule head tail)) := by
  apply ends_other (rule_reaches starts)
  show ((Production.ruleKind (head :: tail) = Kind.header : Bool) || false) = false
  rw [decide_eq_false (Production.ruleKind_ne_header _), Bool.or_false]

/-- A lexeme that is read is no node. -/
theorem any_isNode_eat {limit : Nat} (reading : Reading input limit) (kind node : Kind) :
    (reading.eat kind).shapes.any (Shape.isNode node) =
      reading.shapes.any (Shape.isNode node) := by
  have leaf : ∀ rest, (Reading.takeNext rest).shapes.any (Shape.isNode node) = false := by
    intro rest
    cases rest with
    | nil => rfl
    | cons head tail => rfl
  unfold Reading.eat
  split
  case isTrue next =>
    show (reading.shapes ++ (Reading.takeNext reading.rest).shapes).any _ = _
    rw [List.any_append, leaf, Bool.or_false]
  case isFalse other => rfl

theorem stray_ends :
    Body.stray.Ends (head :: tail) .next (.ofMembers (Production.stray head tail)) := by
  apply ends_other (skipped_reaches _)
  rw [any_isNode_eat]
  rfl

/-- The word before `grammar` begins a header only with `grammar` behind it. -/
theorem sorted_ends (sort : head.kind = .lexerKeyword ∨ head.kind = .parserKeyword) :
    (choose (Ahead.second .grammarKeyword) (call .header) Body.stray).Ends (head :: tail) .next
      (.ofMembers
        (if Ahead.next .grammarKeyword tail then
          Production.header head tail
        else
          Production.stray head tail)) := by
  split
  case isTrue grammar => exact .choose_yes grammar (header_ends (.inr sort))
  case isFalse other => exact .choose_no (Bool.eq_false_iff.mpr other) stray_ends

/-- A member is either read by the procedure that its first lexeme tells, or skipped up to
where one may start. -/
theorem member_ends :
    (call .member).Ends (head :: tail) .next (.ofMembers (Production.member head tail)) := by
  have ends : Body.member.Ends (head :: tail) .next
      (.ofMembers (Production.member head tail)) := by
    unfold Production.member
    split
    case h_1 same => exact .dispatch same (header_ends (.inl same))
    case h_2 same => exact .dispatch same (sorted_ends (.inl same))
    case h_3 same => exact .dispatch same (sorted_ends (.inr same))
    case h_4 same => exact .dispatch same (ends_other optionsSpec_reaches rfl)
    case h_5 same => exact .dispatch same (ends_other importDecl_reaches rfl)
    case h_6 same => exact .dispatch same (ends_other (nameList_reaches _ _) rfl)
    case h_7 same => exact .dispatch same (ends_other (nameList_reaches _ _) rfl)
    case h_8 same => exact .dispatch same (ends_other namedAction_reaches rfl)
    case h_9 same => exact .dispatch same (ends_other modeSection_reaches rfl)
    case h_10 same => exact .dispatch same (rule_ends (.inl same))
    case h_11 same => exact .dispatch same (rule_ends (.inr (by rw [same]; rfl)))
    case h_12 same => exact .dispatch same (rule_ends (.inr (by rw [same]; rfl)))
    case h_13 same => exact .dispatch same (rule_ends (.inr (by rw [same]; rfl)))
    case h_14 same => exact .dispatch same (rule_ends (.inr (by rw [same]; rfl)))
    case h_15 same => exact .dispatch same (ends_other unreadable_reaches rfl)
    case h_16 =>
      refine .dispatch (show currentKind (head :: tail) = head.kind from rfl) ?_
      split <;> first | contradiction | exact stray_ends
  have called : (call .member).Ends (head :: tail) .next
      ((Outcome.ofMembers (Production.member head tail)).called .member) :=
    ends_call ends rfl fun _ _ => Nat.lt_succ_of_le (Production.member head tail).within
  rw [Outcome.called_of_plain _ rfl] at called
  exact called

theorem members_ends : Body.members.Ends input .next (.ofMembers (Production.members input)) := by
  induction input using Production.members.induct with
  | case1 =>
      unfold Production.members
      exact ends_repeatWhile rfl
  | case2 head tail first inductionHypothesis =>
      unfold Production.members
      have shorter : first.rest.length < (head :: tail).length := Nat.lt_succ_of_le first.within
      have round : (guarded (call .member)).Ends (head :: tail) .next (.ofMembers first) :=
        Ends.guarded member_ends shorter
      have whole := Outcome.ofMembers_append first (Production.members first.rest)
      exact whole ▸ Ends.repeat rfl round shorter inductionHypothesis

/-- What happens as a file is read, around what happens as its members are. -/
def fileLog (lexemes : List Lexeme) (inner : List Event) (middle : List Lexeme) : List Event :=
  passTrivia lexemes ++ [.build (.start .sourceFile)] ++ (inner ++ passTrivia middle) ++
    [.build .finish] ++ [.call .file lexemes []]

/-- The reader of a file reads the trivia in front, the members and the trivia behind them. -/
theorem exists_run (lexemes : List Lexeme) :
    ∃ inner middle,
      Body.members.Brings lexemes (pastTrivia lexemes) .next middle inner
          (.ofMembers (Production.members (ahead lexemes))) ∧
        Runs (.call .file) lexemes lexemes .next [] (fileLog lexemes inner middle) := by
  obtain ⟨middle, inner, members⟩ :=
    members_ends lexemes (pastTrivia lexemes) (ahead_pastTrivia lexemes)
  have closes : Runs .trivia lexemes middle .next (pastTrivia middle) (passTrivia middle) :=
    .trivia
  rw [pastTrivia_of_end (members.leaves.trans (Production.rest_members _))] at closes
  have body : Runs Body.file lexemes lexemes .next [] _ :=
    .seq (.seq (.seq .trivia .build) (.seq members.runs closes)) .build
  exact ⟨inner, middle, members, .call body⟩

/-- From every sequence of lexemes, whitespace and comments among them or not, the reader of a
file has just one run. It ends with no lexeme left over. On the way every round of a loop that
is followed by another, and every call of a member, an atom or a recovery before the end, reads
a significant lexeme; every call leaves what its production leaves; and no round is ever found
to have read nothing. -/
theorem reader_always_advances (lexemes : List Lexeme) :
    ∃ log, Runs (.call .file) lexemes lexemes .next [] log ∧
      (∀ exit after other, Runs (.call .file) lexemes lexemes exit after other →
        exit = .next ∧ after = [] ∧ other = log) ∧
      ∀ event ∈ log, event.Advances := by
  obtain ⟨inner, middle, members, file⟩ := exists_run lexemes
  have called : (Event.call .file lexemes []).Advances :=
    ⟨(Production.rest_members _).symm, nofun⟩
  refine ⟨_, file, fun exit after other runs => file.unique runs, ?_⟩
  unfold fileLog
  simp only [List.forall_mem_append, List.forall_mem_singleton]
  exact ⟨⟨⟨⟨advances_passTrivia _, trivial⟩, members.advances, advances_passTrivia _⟩, trivial⟩,
    called⟩

end GrammarDesk.Syntax.Control
