import GrammarDesk.Proofs.Syntax.Ahead
import GrammarDesk.Proofs.Syntax.Building

/-!
Contract: how runs of commands are put together.

Owns: what reading does to the significant lexemes ahead; the proofs that a command has at most
one run from a place and never goes back; what a command builds, reports and leaves wherever
certain lexemes are ahead; and one rule for each kind of command that tells this from its parts.
A loop has two rules, for a round that is followed by another, which has to leave fewer lexemes,
and for the round that leaves it.

A command is compared with two readings, the second of which goes on from the first. That a
lexeme is read has to be known before the comparison: a command that reads at the end takes the
trivia there, which no shape holds.

Does not own: the procedures (`Progress.Element`, `Progress.File`), or what the builder makes of
its calls (`Building`).

Main statements: `Runs.unique`, `Command.Brings.round`, `Command.Extends.seq`.
-/

namespace GrammarDesk.Syntax.Control

variable {place mark after before : List Lexeme} {log : List Event} {exit : Exit}

/-! ## Places -/

/-- Past trivia there is nothing, or the first of the significant lexemes ahead. -/
theorem pastTrivia_cases (place : List Lexeme) :
    (pastTrivia place = [] ∧ ahead place = []) ∨
      ∃ head tail, pastTrivia place = head :: tail ∧ head.isTrivia = false ∧
        ahead place = head :: ahead tail := by
  induction place with
  | nil => exact .inl ⟨rfl, rfl⟩
  | cons head tail inductionHypothesis =>
      cases passed : head.isTrivia with
      | true => simpa [pastTrivia, ahead, passed] using inductionHypothesis
      | false => exact .inr ⟨head, tail, by simp [pastTrivia, ahead, passed]⟩

theorem ahead_pastTrivia (place : List Lexeme) : ahead (pastTrivia place) = ahead place := by
  obtain ⟨ended, none⟩ | ⟨head, tail, next, significant, there⟩ := pastTrivia_cases place
  · rw [ended, none]
    rfl
  · rw [next, there]
    simp [ahead, significant]

theorem ahead_pastNext (place : List Lexeme) : ahead (pastNext place) = (ahead place).tail := by
  unfold pastNext
  obtain ⟨ended, none⟩ | ⟨head, tail, next, -, there⟩ := pastTrivia_cases place
  · rw [ended, none]
    rfl
  · rw [next, there]
    rfl

theorem pastTrivia_of_end (ended : ahead place = []) : pastTrivia place = [] := by
  obtain ⟨nothing, -⟩ | ⟨head, tail, -, -, there⟩ := pastTrivia_cases place
  · exact nothing
  · exact absurd (there.symm.trans ended) (List.cons_ne_nil _ _)

/-- A place further on with fewer significant lexemes ahead lies behind one of them. -/
theorem consumes_of_shorter (suffix : after <:+ before)
    (shorter : (ahead after).length < (ahead before).length) : Consumes before after := by
  obtain ⟨passed, rfl⟩ := suffix
  have both : ahead (passed ++ after) = ahead passed ++ ahead after := List.filter_append ..
  have some : 0 < (ahead passed).length := by
    rw [both, List.length_append] at shorter
    omega
  obtain ⟨lexeme, member⟩ := List.length_pos_iff_exists_mem.mp some
  obtain ⟨isPassed, significant⟩ := List.mem_filter.mp member
  exact ⟨passed, rfl, lexeme, isPassed, by simpa using significant⟩

/-! ## Runs -/

/-- A run never goes back. -/
theorem Runs.suffix {command : Command} (runs : Runs command mark place exit after log) :
    after <:+ place := by
  induction runs with
  | skip | leave | stuck | build | report | reportAfter => exact List.suffix_refl _
  | trivia => exact List.dropWhile_suffix _
  | bump => exact (List.tail_suffix _).trans (List.dropWhile_suffix _)
  | seq _ _ first second => exact second.trans first
  | round _ _ body more => exact more.trans body
  | seqLeft _ body | inspect _ body | marked _ body | moved _ _ body | unmoved _ body
  | last _ body | call _ body => exact body

/-- From a place a command has at most one run. -/
theorem Runs.unique {command : Command} (runs : Runs command mark place exit after log)
    {otherExit : Exit} {otherAfter : List Lexeme} {otherLog : List Event}
    (other : Runs command mark place otherExit otherAfter otherLog) :
    otherExit = exit ∧ otherAfter = after ∧ otherLog = log := by
  induction runs generalizing otherExit otherAfter otherLog with
  | skip | bump | trivia | leave | stuck | build | report | reportAfter =>
      cases other
      exact ⟨rfl, rfl, rfl⟩
  | seq _ _ first second =>
      cases other with
      | seq otherFirst otherSecond =>
          obtain ⟨-, rfl, rfl⟩ := first otherFirst
          obtain ⟨rfl, rfl, rfl⟩ := second otherSecond
          exact ⟨rfl, rfl, rfl⟩
      | seqLeft otherFirst => exact absurd (first otherFirst).1 (by decide)
  | seqLeft _ first =>
      cases other with
      | seq otherFirst _ => exact absurd (first otherFirst).1 (by decide)
      | seqLeft otherFirst =>
          obtain ⟨-, rfl, rfl⟩ := first otherFirst
          exact ⟨rfl, rfl, rfl⟩
  | inspect _ branch =>
      cases other with
      | inspect otherBranch => exact branch otherBranch
  | marked _ body =>
      cases other with
      | marked otherBody => exact body otherBody
  | moved apart _ branch =>
      cases other with
      | moved _ otherBranch => exact branch otherBranch
      | unmoved _ => exact absurd rfl apart
  | unmoved _ branch =>
      cases other with
      | moved apart _ => exact absurd rfl apart
      | unmoved otherBranch => exact branch otherBranch
  | round _ _ body more =>
      cases other with
      | round otherBody otherMore =>
          obtain ⟨-, rfl, rfl⟩ := body otherBody
          obtain ⟨rfl, rfl, rfl⟩ := more otherMore
          exact ⟨rfl, rfl, rfl⟩
      | last otherBody => exact absurd (body otherBody).1 (by decide)
  | last _ body =>
      cases other with
      | round otherBody _ => exact absurd (body otherBody).1 (by decide)
      | last otherBody =>
          obtain ⟨-, rfl, rfl⟩ := body otherBody
          exact ⟨rfl, rfl, rfl⟩
  | call _ body =>
      cases other with
      | call otherBody =>
          obtain ⟨-, rfl, rfl⟩ := body otherBody
          exact ⟨rfl, rfl, rfl⟩

theorem Runs.choose_yes {test : List Lexeme → Bool} {yes no : Command}
    (holds : test (ahead place) = true) (runs : Runs yes mark place exit after log) :
    Runs (.choose test yes no) mark place exit after log :=
  .inspect (by rw [if_pos holds]; exact runs)

theorem Runs.choose_no {test : List Lexeme → Bool} {yes no : Command}
    (fails : test (ahead place) = false) (runs : Runs no mark place exit after log) :
    Runs (.choose test yes no) mark place exit after log :=
  .inspect (by rw [if_neg (Bool.eq_false_iff.mp fails)]; exact runs)

/-! ## What comes of a command -/

/-- What a command builds and reports, whether it reads a header, and what it leaves. -/
structure Outcome where
  shapes : List Shape
  problems : List Problem
  header : Bool
  rest : List Lexeme

namespace Outcome

instance : Append Outcome where
  append first second :=
    { shapes := first.shapes ++ second.shapes
      problems := first.problems ++ second.problems
      header := first.header || second.header
      rest := second.rest }

def nothing (rest : List Lexeme) : Outcome :=
  ⟨[], [], false, rest⟩

def node (kind : Kind) (outcome : Outcome) : Outcome :=
  { outcome with shapes := [.node kind outcome.shapes] }

def called (procedure : Procedure) (outcome : Outcome) : Outcome :=
  { outcome with header := outcome.header || procedure.isHeader }

def ofReading {input : List Lexeme} {limit : Nat} (reading : Reading input limit) : Outcome :=
  ⟨reading.shapes, reading.problems.toList, false, reading.rest⟩

variable (first second third outcome : Outcome)

@[simp] theorem shapes_append : (first ++ second).shapes = first.shapes ++ second.shapes := rfl

@[simp] theorem problems_append :
    (first ++ second).problems = first.problems ++ second.problems := rfl

@[simp] theorem header_append : (first ++ second).header = (first.header || second.header) := rfl

@[simp] theorem rest_append : (first ++ second).rest = second.rest := rfl

@[simp] theorem shapes_node (kind : Kind) :
    (outcome.node kind).shapes = [.node kind outcome.shapes] := rfl

@[simp] theorem problems_node (kind : Kind) :
    (outcome.node kind).problems = outcome.problems := rfl

@[simp] theorem header_node (kind : Kind) : (outcome.node kind).header = outcome.header := rfl

theorem append_assoc : first ++ second ++ third = first ++ (second ++ third) := by
  show Outcome.mk _ _ _ _ = Outcome.mk _ _ _ _
  simp [List.append_assoc, Bool.or_assoc]

theorem append_nothing : outcome ++ nothing outcome.rest = outcome := by
  show Outcome.mk (_ ++ []) (_ ++ []) (_ || false) outcome.rest = outcome
  simp

theorem called_of_plain {procedure : Procedure} (plain : procedure.isHeader = false) :
    outcome.called procedure = outcome := by
  rw [called, plain, Bool.or_false]

theorem nothing_append (rest : List Lexeme) : nothing rest ++ outcome = outcome := rfl

theorem ofReading_nothing (input : List Lexeme) :
    ofReading (Reading.nothing input) = nothing input := rfl

theorem ofReading_andThen {input : List Lexeme} {limit : Nat} (reading : Reading input limit)
    (following : Attempt reading.rest) :
    ofReading (reading.andThen following) = ofReading reading ++ ofReading following := by
  show Outcome.mk _ (Log.toList (_ ++ _)) _ _ = Outcome.mk _ _ _ _
  rw [Log.toList_append]
  rfl

theorem ofReading_note {input : List Lexeme} {limit : Nat} (reading : Reading input limit)
    (place : Place) (fault : Fault) :
    ofReading reading ++ ⟨[], [⟨place, .malformed fault⟩], false, reading.rest⟩ =
      ofReading (reading.note place fault) := by
  show Outcome.mk (_ ++ []) _ _ _ = Outcome.mk _ (Log.toList (_ ++ _)) _ _
  rw [List.append_nil, Log.toList_append]
  rfl

/-- What is reported first stands before all that is read then. -/
theorem ofReading_preface {input : List Lexeme} {limit : Nat} (reading : Reading input limit)
    (fault : Fault) :
    ⟨[], [⟨.next input, .malformed fault⟩], false, input⟩ ++ ofReading reading =
      ofReading (reading.preface fault) := by
  show Outcome.mk _ _ _ _ = Outcome.mk _ (Log.toList (_ ++ _)) _ _
  rw [Log.toList_append]
  rfl

end Outcome

theorem problemsIn_append (log later : List Event) :
    problemsIn (log ++ later) = problemsIn log ++ problemsIn later :=
  List.filterMap_append ..

theorem problemsIn_nil : problemsIn [] = [] := rfl

theorem problemsIn_build (call : Builder.Call) (log : List Event) :
    problemsIn (.build call :: log) = problemsIn log := rfl

theorem isHeader_build (call : Builder.Call) : (Event.build call).isHeader = false := rfl

theorem problemsIn_passTrivia (place : List Lexeme) : problemsIn (passTrivia place) = [] := by
  simp [problemsIn, passTrivia, Event.problem?]

theorem problemsIn_passLexeme (head : Lexeme) (tail : List Lexeme) :
    problemsIn (passLexeme (head :: tail)) = Problem.ofLexeme (ahead tail).length head := by
  simp [problemsIn, passLexeme, Event.problem?, List.filterMap_map, Function.comp_def]

theorem header_passTrivia (place : List Lexeme) :
    (passTrivia place).any Event.isHeader = false := by
  simp [passTrivia, Event.isHeader]

theorem header_passLexeme (head : Lexeme) (tail : List Lexeme) :
    (passLexeme (head :: tail)).any Event.isHeader = false := by
  simp [passLexeme, Event.isHeader]

theorem advances_passTrivia (place : List Lexeme) :
    ∀ event ∈ passTrivia place, event.Advances := by
  simp [passTrivia, Event.Advances]

theorem advances_passLexeme (head : Lexeme) (tail : List Lexeme) :
    ∀ event ∈ passLexeme (head :: tail), event.Advances := by
  simp only [passLexeme, List.mem_append, List.mem_map, List.mem_singleton]
  rintro event (⟨_, _, rfl⟩ | rfl)
  · exact trivial
  · exact trivial

namespace Command

/-- A run that makes progress in all that happens and brings an outcome about. -/
structure Brings (command : Command) (mark place : List Lexeme) (exit : Exit)
    (after : List Lexeme) (log : List Event) (outcome : Outcome) : Prop where
  runs : Runs command mark place exit after log
  advances : ∀ event ∈ log, event.Advances
  builds : Builds place log outcome.shapes after
  reports : problemsIn log = outcome.problems
  header : log.any Event.isHeader = outcome.header
  leaves : ahead after = outcome.rest

variable {between input : List Lexeme} {later : List Event} {first second body : Command}
  {outcome following : Outcome} {kind : Kind} {head : Lexeme} {tail : List Lexeme}

theorem brings_skip (there : ahead place = input) :
    skip.Brings mark place .next place [] (.nothing input) :=
  ⟨.skip, by simp, builds_nothing rfl, rfl, rfl, there⟩

theorem brings_leave (there : ahead place = input) :
    leave.Brings mark place .left place [] (.nothing input) :=
  ⟨.leave, by simp, builds_nothing rfl, rfl, rfl, there⟩

theorem brings_report (fault : Fault) :
    (report fault).Brings mark place .next place
      [.report ⟨.next (ahead place), .malformed fault⟩]
      ⟨[], [⟨.next (ahead place), .malformed fault⟩], false, ahead place⟩ :=
  ⟨.report, by simp [Event.Advances], builds_nothing rfl, rfl, rfl, rfl⟩

theorem brings_reportAfter (fault : Fault) :
    (reportAfter fault).Brings mark place .next place
      [.report ⟨.after (ahead place).length, .malformed fault⟩]
      ⟨[], [⟨.after (ahead place).length, .malformed fault⟩], false, ahead place⟩ :=
  ⟨.reportAfter, by simp [Event.Advances], builds_nothing rfl, rfl, rfl, rfl⟩

/-- Where there is a lexeme, reading takes it over and reports it if it is unreadable. -/
theorem brings_bump (there : ahead place = head :: tail) :
    bump.Brings mark place .next (pastNext place)
      (passTrivia place ++ passLexeme (pastTrivia place))
      ⟨[.leaf head], Problem.ofLexeme tail.length head, false, tail⟩ := by
  have left : ahead (pastNext place) = tail := by rw [ahead_pastNext, there, List.tail_cons]
  obtain ⟨_, none⟩ | ⟨next, rest, begins, _, isAhead⟩ := pastTrivia_cases place
  · exact absurd (there.symm.trans none) (List.cons_ne_nil _ _)
  obtain ⟨rfl, rfl⟩ := List.cons.inj (there.symm.trans isAhead)
  refine ⟨.bump, ?_, ?_, ?_, ?_, left⟩
  · rw [begins]
    exact List.forall_mem_append.mpr ⟨advances_passTrivia _, advances_passLexeme _ _⟩
  · unfold pastNext
    rw [begins]
    exact builds_bump begins
  · rw [problemsIn_append, problemsIn_passTrivia, begins, problemsIn_passLexeme]
    rfl
  · rw [begins, List.any_append, header_passTrivia, header_passLexeme]
    rfl

/-- A lexeme that is taken over as it is by a reading. -/
theorem brings_take (there : ahead place = head :: tail) :
    bump.Brings mark place .next (pastNext place)
      (passTrivia place ++ passLexeme (pastTrivia place)) (.ofReading (Reading.take head tail)) := by
  have run : bump.Brings mark place .next _ _ _ := brings_bump there
  rw [← Reading.toList_problemsOf] at run
  exact run

/-- Runs one after the other: the second goes on where the first arrived. -/
theorem Brings.seq (former : first.Brings mark place .next between log outcome)
    (latter : second.Brings mark between exit after later following) :
    (first ++ second).Brings mark place exit after (log ++ later) (outcome ++ following) where
  runs := .seq former.runs latter.runs
  advances := List.forall_mem_append.mpr ⟨former.advances, latter.advances⟩
  builds := former.builds.append latter.builds
  reports := by
    rw [problemsIn_append, former.reports, latter.reports]
    rfl
  header := by
    rw [List.any_append, former.header, latter.header]
    rfl
  leaves := latter.leaves

theorem Brings.inspect {branch : List Lexeme → Command}
    (run : (branch (ahead place)).Brings mark place exit after log outcome) :
    (inspect branch).Brings mark place exit after log outcome :=
  { run with runs := .inspect run.runs }

theorem Brings.choose_yes {test : List Lexeme → Bool} {yes no : Command}
    (holds : test (ahead place) = true) (run : yes.Brings mark place exit after log outcome) :
    (choose test yes no).Brings mark place exit after log outcome :=
  { run with runs := run.runs.choose_yes holds }

theorem Brings.choose_no {test : List Lexeme → Bool} {yes no : Command}
    (fails : test (ahead place) = false) (run : no.Brings mark place exit after log outcome) :
    (choose test yes no).Brings mark place exit after log outcome :=
  { run with runs := run.runs.choose_no fails }

theorem Brings.marked (run : body.Brings place place exit after log outcome) :
    (marked body).Brings mark place exit after log outcome :=
  { run with runs := .marked run.runs }

theorem Brings.moved {moved unmoved : Command} (apart : place ≠ mark)
    (run : moved.Brings mark place exit after log outcome) :
    (ifMoved moved unmoved).Brings mark place exit after log outcome :=
  { run with runs := .moved apart run.runs }

theorem Brings.unmoved {moved unmoved : Command}
    (run : unmoved.Brings place place exit after log outcome) :
    (ifMoved moved unmoved).Brings place place exit after log outcome :=
  { run with runs := .unmoved run.runs }

/-- Behind the place noted, nothing is forced. -/
theorem Brings.marked_moved {unmoved : Command}
    (run : body.Brings place place .next after log outcome)
    (shorter : outcome.rest.length < (ahead place).length) :
    (Command.marked (body ++ ifMoved skip unmoved)).Brings mark place .next after (log ++ [])
      outcome := by
  have moved : after ≠ place := by
    rintro rfl
    rw [run.leaves] at shorter
    exact absurd shorter (Nat.lt_irrefl _)
  have settled : (ifMoved skip unmoved).Brings place after .next after []
      (.nothing outcome.rest) := (brings_skip run.leaves).moved moved
  have whole : (Command.marked (body ++ ifMoved skip unmoved)).Brings mark place .next after
      (log ++ []) (outcome ++ .nothing outcome.rest) := (run.seq settled).marked
  rw [outcome.append_nothing] at whole
  exact whole

theorem Brings.last (run : body.Brings mark place .left after log outcome) :
    (loop body).Brings mark place .next after log outcome :=
  { run with runs := .last run.runs }

/-- A round that is followed by another has to leave fewer lexemes. -/
theorem Brings.round (run : body.Brings mark place .next between log outcome)
    (shorter : outcome.rest.length < (ahead place).length)
    (more : (loop body).Brings mark between exit after later following) :
    (loop body).Brings mark place exit after (log ++ .round place between :: later)
      (outcome ++ following) where
  runs := .round run.runs more.runs
  advances := by
    rw [← run.leaves] at shorter
    have round : Consumes place between := consumes_of_shorter run.runs.suffix shorter
    exact List.forall_mem_append.mpr
      ⟨run.advances, List.forall_mem_cons.mpr ⟨round, more.advances⟩⟩
  builds := run.builds.append more.builds
  reports := by
    rw [problemsIn_append, run.reports]
    exact congrArg _ more.reports
  header := by
    rw [List.any_append, run.header]
    exact congrArg _ more.header
  leaves := more.leaves

/-- A call goes where the body of its procedure goes. A procedure that always reads has used up
a lexeme, so the mark that guards its caller has moved. -/
theorem Brings.call {procedure : Procedure}
    (run : procedure.body.Brings place place .next after log outcome)
    (same : outcome.rest = procedure.rest (ahead place))
    (reads : procedure.alwaysReads = true → ahead place ≠ [] →
      outcome.rest.length < (ahead place).length) :
    (call procedure).Brings mark place .next after (log ++ [.call procedure place after])
      (outcome.called procedure) where
  runs := .call run.runs
  advances := by
    rw [← run.leaves] at same reads
    have advance : (Event.call procedure place after).Advances :=
      ⟨same, fun always going => consumes_of_shorter run.runs.suffix (reads always going)⟩
    exact List.forall_mem_append.mpr
      ⟨run.advances, List.forall_mem_singleton.mpr advance⟩
  builds := by
    have silent : Builds after [.call procedure place after] [] after := builds_nothing rfl
    simpa [Outcome.called] using run.builds.append silent
  reports := by
    rw [problemsIn_append, run.reports]
    exact List.append_nil _
  header := by
    rw [List.any_append, run.header]
    simp [Event.isHeader, Outcome.called]
  leaves := run.leaves

/-- What is read under a node. -/
theorem Brings.node (run : body.Brings mark (pastTrivia place) .next after log outcome) :
    (node kind body).Brings mark place .next after
      (passTrivia place ++ [.build (.start kind)] ++ log ++ [.build .finish])
      (outcome.node kind) where
  runs := .seq (.seq (.seq .trivia .build) run.runs) .build
  advances := by
    simp only [List.mem_append, List.mem_singleton]
    rintro event (((trivia | rfl) | inside) | rfl)
    · exact advances_passTrivia place event trivia
    · exact trivial
    · exact run.advances event inside
    · exact trivial
  builds := by
    rw [List.append_assoc, List.append_assoc, ← List.append_assoc [_]]
    exact run.builds.node
  reports := by
    simp [problemsIn_append, problemsIn_passTrivia, problemsIn_build, problemsIn_nil, run.reports]
  header := by
    simp [header_passTrivia, isHeader_build, run.header]
  leaves := run.leaves

/-- What is read, and a node around it together with the suffix that comes next. -/
theorem Brings.suffixed {test : List Lexeme → Bool} {suffix : Command}
    (run : body.Brings mark (pastTrivia place) .next between log outcome)
    (holds : test (ahead between) = true)
    (more : suffix.Brings mark between .next after later following) :
    (suffixed kind body test suffix).Brings mark place .next after
      (passTrivia place ++ [.build .mark] ++ log ++
        ([.build (.startAtMark kind)] ++ later ++ [.build .finish]) ++ [.build .dropMark])
      ((outcome ++ following).node kind) where
  runs :=
    .seq (.seq (.seq (.seq .trivia .build) run.runs)
      (.choose_yes holds (.seq (.seq .build more.runs) .build))) .build
  advances := by
    simp only [List.mem_append, List.mem_singleton]
    rintro event ((((trivia | rfl) | inside) | ((rfl | inSuffix) | rfl)) | rfl)
    · exact advances_passTrivia place event trivia
    · exact trivial
    · exact run.advances event inside
    · exact trivial
    · exact more.advances event inSuffix
    · exact trivial
    · exact trivial
  builds := by
    rw [Outcome.shapes_node, Outcome.shapes_append]
    simpa only [List.append_assoc] using run.builds.suffixed more.builds
  reports := by
    simp [problemsIn_append, problemsIn_passTrivia, problemsIn_build, problemsIn_nil,
      run.reports, more.reports]
  header := by
    simp [header_passTrivia, isHeader_build, run.header, more.header]
  leaves := more.leaves

/-- What is read where no suffix comes next. -/
theorem Brings.unsuffixed {test : List Lexeme → Bool} {suffix : Command}
    (run : body.Brings mark (pastTrivia place) .next after log outcome)
    (some : outcome.shapes ≠ []) (fails : test (ahead after) = false) :
    (Command.suffixed kind body test suffix).Brings mark place .next after
      (passTrivia place ++ [.build .mark] ++ log ++ [] ++ [.build .dropMark]) outcome where
  runs :=
    .seq (.seq (.seq (.seq .trivia .build) run.runs) (.choose_no fails .skip)) .build
  advances := by
    simp only [List.append_nil, List.mem_append, List.mem_singleton]
    rintro event (((trivia | rfl) | inside) | rfl)
    · exact advances_passTrivia place event trivia
    · exact trivial
    · exact run.advances event inside
    · exact trivial
  builds := by
    simpa only [List.append_assoc, List.nil_append] using run.builds.unsuffixed some
  reports := by
    simp [problemsIn_append, problemsIn_passTrivia, problemsIn_build, problemsIn_nil, run.reports]
  header := by
    simp [header_passTrivia, isHeader_build, run.header]
  leaves := run.leaves

/-! ## Where certain lexemes are ahead -/

/-- Wherever `input` is ahead, and whatever place is noted, the command has a run that makes
progress and brings the outcome about. -/
def Ends (command : Command) (input : List Lexeme) (exit : Exit) (outcome : Outcome) : Prop :=
  ∀ mark place, ahead place = input →
    ∃ after log, command.Brings mark place exit after log outcome

variable {yes no command : Command} {test : List Lexeme → Bool}

theorem ends_skip (input : List Lexeme) : skip.Ends input .next (.nothing input) := by
  rintro mark place rfl
  exact ⟨place, [], brings_skip rfl⟩

theorem ends_leave (input : List Lexeme) : leave.Ends input .left (.nothing input) := by
  rintro mark place rfl
  exact ⟨place, [], brings_leave rfl⟩

theorem ends_report (fault : Fault) (input : List Lexeme) :
    (report fault).Ends input .next ⟨[], [⟨.next input, .malformed fault⟩], false, input⟩ := by
  rintro mark place rfl
  exact ⟨place, _, brings_report fault⟩

theorem ends_reportAfter (fault : Fault) (input : List Lexeme) :
    (reportAfter fault).Ends input .next
      ⟨[], [⟨.after input.length, .malformed fault⟩], false, input⟩ := by
  rintro mark place rfl
  exact ⟨place, _, brings_reportAfter fault⟩

theorem ends_take (head : Lexeme) (tail : List Lexeme) :
    bump.Ends (head :: tail) .next (.ofReading (Reading.take head tail)) :=
  fun _ place there => ⟨pastNext place, _, brings_take there⟩

theorem Ends.seq (start : first.Ends input .next outcome)
    (more : second.Ends outcome.rest exit following) :
    (first ++ second).Ends input exit (outcome ++ following) := by
  intro mark place there
  obtain ⟨between, log, run⟩ := start mark place there
  obtain ⟨after, later, next⟩ := more mark between run.leaves
  exact ⟨after, log ++ later, run.seq next⟩

theorem Ends.inspect {branch : List Lexeme → Command}
    (ends : (branch input).Ends input exit outcome) : (inspect branch).Ends input exit outcome := by
  rintro mark place rfl
  obtain ⟨after, log, run⟩ := ends mark place rfl
  exact ⟨after, log, run.inspect⟩

theorem Ends.dispatch {branch : Kind → Command} (isKind : currentKind input = kind)
    (ends : (branch kind).Ends input exit outcome) :
    (dispatch branch).Ends input exit outcome := by
  subst isKind
  exact .inspect ends

theorem Ends.choose_yes (holds : test input = true) (ends : yes.Ends input exit outcome) :
    (choose test yes no).Ends input exit outcome := by
  rintro mark place rfl
  obtain ⟨after, log, run⟩ := ends mark place rfl
  exact ⟨after, log, run.choose_yes holds⟩

theorem Ends.choose_no (fails : test input = false) (ends : no.Ends input exit outcome) :
    (choose test yes no).Ends input exit outcome := by
  rintro mark place rfl
  obtain ⟨after, log, run⟩ := ends mark place rfl
  exact ⟨after, log, run.choose_no fails⟩

theorem Ends.node (ends : body.Ends input .next outcome) :
    (node kind body).Ends input .next (outcome.node kind) := by
  rintro mark place rfl
  obtain ⟨after, log, run⟩ := ends mark (pastTrivia place) (ahead_pastTrivia place)
  exact ⟨after, _, run.node⟩

theorem Ends.suffixed {suffix : Command} (ends : body.Ends input .next outcome)
    (holds : test outcome.rest = true) (more : suffix.Ends outcome.rest .next following) :
    (suffixed kind body test suffix).Ends input .next ((outcome ++ following).node kind) := by
  rintro mark place rfl
  obtain ⟨between, log, run⟩ := ends mark (pastTrivia place) (ahead_pastTrivia place)
  obtain ⟨after, later, next⟩ := more mark between run.leaves
  exact ⟨after, _, run.suffixed (run.leaves ▸ holds) next⟩

theorem Ends.unsuffixed {suffix : Command} (ends : body.Ends input .next outcome)
    (some : outcome.shapes ≠ []) (fails : test outcome.rest = false) :
    (Command.suffixed kind body test suffix).Ends input .next outcome := by
  rintro mark place rfl
  obtain ⟨after, log, run⟩ := ends mark (pastTrivia place) (ahead_pastTrivia place)
  exact ⟨after, _, run.unsuffixed some (run.leaves ▸ fails)⟩

theorem Ends.round (ends : body.Ends input .next outcome)
    (shorter : outcome.rest.length < input.length)
    (more : (loop body).Ends outcome.rest .next following) :
    (loop body).Ends input .next (outcome ++ following) := by
  rintro mark place rfl
  obtain ⟨between, log, run⟩ := ends mark place rfl
  obtain ⟨after, later, next⟩ := more mark between run.leaves
  exact ⟨after, _, run.round shorter next⟩

theorem Ends.last (ends : body.Ends input .left outcome) :
    (loop body).Ends input .next outcome := by
  intro mark place there
  obtain ⟨after, log, run⟩ := ends mark place there
  exact ⟨after, log, run.last⟩

theorem Ends.repeat (holds : test input = true) (ends : body.Ends input .next outcome)
    (shorter : outcome.rest.length < input.length)
    (more : (repeatWhile test body).Ends outcome.rest .next following) :
    (repeatWhile test body).Ends input .next (outcome ++ following) :=
  Ends.round (ends.choose_yes holds) shorter more

theorem ends_repeatWhile (fails : test input = false) :
    (repeatWhile test body).Ends input .next (.nothing input) :=
  Ends.last ((ends_leave input).choose_no fails)

/-- A guarded round that leaves fewer lexemes does not get to the branch for rounds that read
nothing. -/
theorem Ends.guarded (ends : body.Ends input .next outcome)
    (shorter : outcome.rest.length < input.length) :
    (Command.guarded body).Ends input .next outcome := by
  rintro mark place rfl
  obtain ⟨after, log, run⟩ := ends place place rfl
  exact ⟨after, _, run.marked_moved shorter⟩

theorem Ends.guarded_left (ends : body.Ends input .left outcome) :
    (Command.guarded body).Ends input .left outcome := by
  intro mark place there
  obtain ⟨after, log, run⟩ := ends place place there
  exact ⟨after, log, .marked { run with runs := .seqLeft run.runs }⟩

theorem ends_call {procedure : Procedure} (ends : procedure.body.Ends input .next outcome)
    (same : outcome.rest = procedure.rest input)
    (reads : procedure.alwaysReads = true → input ≠ [] → outcome.rest.length < input.length) :
    (call procedure).Ends input .next (outcome.called procedure) := by
  rintro mark place rfl
  obtain ⟨after, log, run⟩ := ends place place rfl
  exact ⟨after, _, run.call same reads⟩

/-! ## Commands that go on as a reader does -/

/-- From where one reading left off the command does what another has beyond it. -/
def Extends (command : Command) {start later : List Lexeme} {limit limit' : Nat}
    (reading : Reading start limit) (following : Reading later limit') : Prop :=
  ∃ outcome, command.Ends reading.rest .next outcome ∧
    .ofReading reading ++ outcome = Outcome.ofReading following

/-- The command does what a reading does from the start. -/
abbrev Reaches (command : Command) (input : List Lexeme) {start : List Lexeme} {limit : Nat}
    (reading : Reading start limit) : Prop :=
  command.Extends (Reading.nothing input) reading

variable {start later last : List Lexeme} {limit limit' limit'' : Nat}
  {reading : Reading start limit} {middle : Reading later limit'} {next : Reading last limit''}
  {fault : Fault}

theorem reaches_iff :
    command.Reaches input reading ↔ command.Ends input .next (.ofReading reading) := by
  constructor
  · rintro ⟨outcome, ends, same⟩
    rw [Outcome.ofReading_nothing, Outcome.nothing_append] at same
    exact same ▸ ends
  · exact fun ends => ⟨.ofReading reading, ends, rfl⟩

theorem Extends.seq (run : first.Extends reading middle) (more : second.Extends middle next) :
    (first ++ second).Extends reading next := by
  obtain ⟨outcome, ends, same⟩ := run
  obtain ⟨following, goesOn, whole⟩ := more
  have rest : outcome.rest = middle.rest := congrArg Outcome.rest same
  rw [← rest] at goesOn
  exact ⟨outcome ++ following, ends.seq goesOn, by rw [← Outcome.append_assoc, same, whole]⟩

/-- What is read after a reading. -/
theorem Extends.beyond {following : Attempt reading.rest}
    (run : command.Reaches reading.rest following) :
    command.Extends reading (reading.andThen following) :=
  ⟨.ofReading following, reaches_iff.mp run, (Outcome.ofReading_andThen reading following).symm⟩

theorem Extends.andThen {following : Attempt middle.rest} (run : first.Extends reading middle)
    (more : second.Reaches middle.rest following) :
    (first ++ second).Extends reading (middle.andThen following) :=
  run.seq (.beyond more)

theorem extends_skip (reading : Reading start limit) : skip.Extends reading reading :=
  ⟨.nothing reading.rest, ends_skip _, (Outcome.ofReading reading).append_nothing⟩

theorem extends_report (fault : Fault) (reading : Reading start limit) :
    (report fault).Extends reading (reading.report fault) :=
  ⟨_, ends_report fault reading.rest, Outcome.ofReading_note reading _ fault⟩

theorem extends_reportAfter (fault : Fault) (reading : Reading start limit) :
    (reportAfter fault).Extends reading (reading.reportAfter fault) :=
  ⟨_, ends_reportAfter fault reading.rest, Outcome.ofReading_note reading _ fault⟩

open Reading

theorem reaches_take (head : Lexeme) (tail : List Lexeme) :
    bump.Reaches (head :: tail) (take head tail) :=
  reaches_iff.mpr (ends_take head tail)

theorem reaches_takeNext (some : input ≠ []) : bump.Reaches input (takeNext input) := by
  cases input with
  | nil => exact absurd rfl some
  | cons head tail => exact reaches_take head tail

theorem extends_bump (reading : Reading start limit) (some : reading.rest ≠ []) :
    bump.Extends reading reading.bump :=
  .beyond (reaches_takeNext some)

theorem Extends.choose_yes (holds : test reading.rest = true) (run : yes.Extends reading next) :
    (choose test yes no).Extends reading next := by
  obtain ⟨outcome, ends, same⟩ := run
  exact ⟨outcome, ends.choose_yes holds, same⟩

theorem Extends.choose_no (fails : test reading.rest = false) (run : no.Extends reading next) :
    (choose test yes no).Extends reading next := by
  obtain ⟨outcome, ends, same⟩ := run
  exact ⟨outcome, ends.choose_no fails, same⟩

theorem Extends.choose_not (fails : ¬test reading.rest = true) (run : no.Extends reading next) :
    (choose test yes no).Extends reading next :=
  .choose_no (Bool.eq_false_iff.mpr fails) run

theorem Extends.inspect {branch : List Lexeme → Command}
    (run : (branch reading.rest).Extends reading next) : (inspect branch).Extends reading next := by
  obtain ⟨outcome, ends, same⟩ := run
  exact ⟨outcome, ends.inspect, same⟩

theorem Extends.dispatch {branch : Kind → Command} (isKind : currentKind reading.rest = kind)
    (run : (branch kind).Extends reading next) : (dispatch branch).Extends reading next := by
  subst isKind
  exact .inspect run

theorem extends_eat (kind : Kind) (reading : Reading start limit) :
    (eat kind).Extends reading (reading.eat kind) := by
  unfold Reading.eat
  split
  case isTrue comes =>
    exact .choose_yes comes (extends_bump reading (Ahead.ne_nil_of_next comes))
  case isFalse other => exact .choose_not other (extends_skip reading)

theorem extends_expect (kind : Kind) (reading : Reading start limit) :
    (expect kind).Extends reading (reading.expect kind) := by
  unfold Reading.expect
  split
  case isTrue comes =>
    exact .choose_yes comes (extends_bump reading (Ahead.ne_nil_of_next comes))
  case isFalse other => exact .choose_not other (extends_report _ reading)

theorem Extends.eat (run : command.Extends reading middle) (kind : Kind) :
    (command ++ Command.eat kind).Extends reading (middle.eat kind) :=
  run.seq (extends_eat kind middle)

theorem Extends.expect (run : command.Extends reading middle) (kind : Kind) :
    (command ++ Command.expect kind).Extends reading (middle.expect kind) :=
  run.seq (extends_expect kind middle)

theorem Extends.bump (run : command.Extends reading middle) (some : middle.rest ≠ []) :
    (command ++ Command.bump).Extends reading middle.bump :=
  run.seq (extends_bump middle some)

theorem Extends.attempt {next : Advance head tail} (run : command.Extends reading next) :
    command.Extends reading next.attempt :=
  run

/-- Three readings one after another are put together in either way. -/
theorem Extends.assoc {following : Attempt middle.rest} {further : Attempt following.rest}
    (run : command.Extends reading (middle.andThen (following.andThen further))) :
    command.Extends reading ((middle.andThen following).andThen further) := by
  obtain ⟨outcome, ends, same⟩ := run
  have inner := Outcome.ofReading_andThen middle following
  have outer := Outcome.ofReading_andThen (middle.andThen following) further
  refine ⟨outcome, ends, ?_⟩
  rw [same, Outcome.ofReading_andThen, Outcome.ofReading_andThen, ← Outcome.append_assoc, ← inner]
  exact outer.symm

theorem Extends.node (run : command.Reaches input reading) :
    (Command.node kind command).Reaches input (reading.node kind) :=
  reaches_iff.mpr (reaches_iff.mp run).node

theorem Extends.suffixed {suffix : Command}
    (run : body.Reaches input reading) (holds : test reading.rest = true)
    (more : suffix.Extends reading middle) :
    (Command.suffixed kind body test suffix).Reaches input (middle.node kind) := by
  obtain ⟨following, goesOn, same⟩ := more
  have ends : (Command.suffixed kind body test suffix).Ends input .next _ :=
    (reaches_iff.mp run).suffixed holds goesOn
  rw [same] at ends
  exact reaches_iff.mpr ends

theorem Extends.unsuffixed {suffix : Command} {next : Advance head tail}
    (run : body.Reaches input next) (fails : test next.rest = false) :
    (Command.suffixed kind body test suffix).Reaches input next := by
  have some : next.shapes ≠ [] := fun none => leavesOf_ne_nil next (congrArg _ none)
  exact reaches_iff.mpr ((reaches_iff.mp run).unsuffixed some fails)

/-- What may be read where a lexeme of a kind comes next. -/
theorem reaches_optional (kind : Kind) (reader : (input : List Lexeme) → Attempt input)
    {one : (head : Lexeme) → (tail : List Lexeme) → Advance head tail}
    (none : reader [] = nothing [])
    (some : ∀ head tail,
      reader (head :: tail) =
        if head.kind = kind then (one head tail).attempt else nothing (head :: tail))
    (each : ∀ head tail, command.Reaches (head :: tail) (one head tail)) (input : List Lexeme) :
    (choose (Ahead.next kind) command skip).Reaches input (reader input) := by
  cases input with
  | nil =>
      rw [none]
      exact .choose_no rfl (extends_skip _)
  | cons head tail =>
      rw [some]
      split
      case isTrue same => exact .choose_yes (decide_eq_true same) (each head tail).attempt
      case isFalse other => exact .choose_no (decide_eq_false other) (extends_skip _)

/-! ### Calls -/

theorem reaches_call (procedure : Procedure) {next : Advance head tail}
    (run : procedure.body.Reaches (head :: tail) next)
    (same : next.rest = procedure.rest (head :: tail)) (plain : procedure.isHeader = false) :
    (call procedure).Reaches (head :: tail) next := by
  have ends := ends_call (reaches_iff.mp run) same fun _ _ => Nat.lt_succ_of_le next.within
  rw [Outcome.called_of_plain _ plain] at ends
  exact reaches_iff.mpr ends

/-- A call of a procedure that need not read anything. -/
theorem reaches_callAttempt (procedure : Procedure)
    (run : procedure.body.Reaches input reading) (same : reading.rest = procedure.rest input)
    (free : procedure.alwaysReads = false) (plain : procedure.isHeader = false) :
    (call procedure).Reaches input reading := by
  have ends := ends_call (reaches_iff.mp run) same fun always =>
    absurd (free.symm.trans always) Bool.false_ne_true
  rw [Outcome.called_of_plain _ plain] at ends
  exact reaches_iff.mpr ends

/-! ### Loops -/

/-- A round that reads at least the first lexeme, and what the loop reads after it. -/
theorem Extends.again {next : Advance head tail} {following : Attempt next.rest}
    (holds : test (head :: tail) = true) (round : body.Reaches (head :: tail) next)
    (more : (repeatWhile test body).Reaches next.rest following) :
    (repeatWhile test body).Reaches (head :: tail) (next.attempt.andThen following) := by
  have ends := Ends.repeat holds (reaches_iff.mp round) (Nat.lt_succ_of_le next.within)
    (reaches_iff.mp more)
  have whole := Outcome.ofReading_andThen next.attempt following
  exact ⟨_, ends, whole.symm⟩

theorem Extends.guarded {next : Advance head tail} (round : body.Reaches (head :: tail) next) :
    (Command.guarded body).Reaches (head :: tail) next :=
  reaches_iff.mpr (Ends.guarded (reaches_iff.mp round) (Nat.lt_succ_of_le next.within))

theorem reaches_repeatWhile (fails : test input = false) :
    (repeatWhile test body).Reaches input (nothing input) :=
  reaches_iff.mpr (ends_repeatWhile fails)

theorem reaches_of_left (reading : Reading start limit) (holds : test input = true)
    (round : body.Ends input .left (.ofReading reading)) :
    (repeatWhile test body).Reaches input reading :=
  reaches_iff.mpr (Ends.last (round.choose_yes holds))

/-- A round that a comma follows is followed by another. -/
theorem Ends.comma (ends : body.Ends input .next outcome) (left : outcome.rest = head :: tail)
    (separates : head.kind = .comma) :
    (body ++ Command.comma).Ends input .next (outcome ++ .ofReading (take head tail)) := by
  refine ends.seq ?_
  rw [left]
  exact Ends.choose_yes (decide_eq_true separates) (ends_take head tail)

theorem Ends.comma_left (ends : body.Ends input .next outcome)
    (other : Ahead.next .comma outcome.rest = false) :
    (body ++ Command.comma).Ends input .left outcome := by
  have stops : Command.comma.Ends outcome.rest .left (.nothing outcome.rest) :=
    .choose_no other (ends_leave _)
  have whole := ends.seq stops
  rw [outcome.append_nothing] at whole
  exact whole

/-- Items with a comma between them, as the loop over the first and the others reads them. -/
theorem ends_separated {item more : (input : List Lexeme) → Attempt input}
    (each : ∀ input, body.Reaches input (item input)) (none : more [] = nothing [])
    (some : ∀ head tail,
      more (head :: tail) =
        if head.kind = .comma then
          ((take head tail).andThen (item tail)).attempt.andThen (more (item tail).rest)
        else
          nothing (head :: tail))
    (input : List Lexeme) :
    (loop (body ++ comma)).Ends input .next
      (.ofReading (item input) ++ .ofReading (more (item input).rest)) := by
  have first := reaches_iff.mp (each input)
  have left : (Outcome.ofReading (item input)).rest = (item input).rest := rfl
  have within := (item input).within
  generalize (item input).rest = rest at left within ⊢
  cases rest with
  | nil =>
      have ended := Ends.last (first.comma_left (by rw [left]; rfl))
      rw [none, Outcome.ofReading_nothing, ← left, Outcome.append_nothing]
      exact ended
  | cons head tail =>
      rw [some]
      split
      case isFalse other =>
        have ended := Ends.last (first.comma_left (by rw [left]; exact decide_eq_false other))
        rw [Outcome.ofReading_nothing, ← left, Outcome.append_nothing]
        exact ended
      case isTrue separates =>
        have round := first.comma left separates
        have later := Ends.round round within (ends_separated each none some tail)
        have inner : Outcome.ofReading ((take head tail).andThen (item tail)) =
            .ofReading (take head tail) ++ .ofReading (item tail) :=
          Outcome.ofReading_andThen _ _
        have outer := Outcome.ofReading_andThen ((take head tail).andThen (item tail)).attempt
          (more (item tail).rest)
        rw [Outcome.append_assoc, ← Outcome.append_assoc (.ofReading (take head tail)), ← inner]
          at later
        exact outer ▸ later
termination_by input.length
decreasing_by exact within

theorem reaches_separated {item more : (input : List Lexeme) → Attempt input}
    (each : ∀ input, body.Reaches input (item input)) (none : more [] = nothing [])
    (some : ∀ head tail,
      more (head :: tail) =
        if head.kind = .comma then
          ((take head tail).andThen (item tail)).attempt.andThen (more (item tail).rest)
        else
          nothing (head :: tail))
    (input : List Lexeme) :
    (loop (body ++ comma)).Reaches input ((item input).andThen (more (item input).rest)) := by
  have whole := Outcome.ofReading_andThen (item input) (more (item input).rest)
  exact reaches_iff.mpr (whole ▸ ends_separated each none some input)

end Command

end GrammarDesk.Syntax.Control
