import GrammarDesk.Proofs.Syntax.Ahead
import GrammarDesk.Proofs.Syntax.Ebnf

/-!
Contract: the form of what is read without a problem.

Owns: readings that have a problem, readings whose lexemes have the form of a phrase once
nothing was reported, and how the steps that readers are made of keep to such forms.

Does not own: the form of each production (`Soundness`).

Main statement: one reading after another has the form of one phrase after the other
(`Reads.andThen`).
-/

namespace GrammarDesk.Syntax

open Ebnf (Phrase Derives Terminal Nonterminal production)

namespace Reading

variable {input : List Lexeme} {limit : Nat} {reading : Reading input limit}
variable {head : Lexeme} {tail : List Lexeme} {kind : Kind} {fault : Fault}
variable {first second phrase : Phrase}

/-! ## Readings with a problem -/

def Faulty (reading : Reading input limit) : Prop :=
  reading.problems.toList ≠ []

theorem faulty_take (unreadable : head.kind = .error) : (take head tail).Faulty := by
  show (problemsOf head tail).toList ≠ []
  rw [toList_problemsOf, Problem.ofLexeme, if_pos unreadable]
  exact List.cons_ne_nil _ _

theorem faulty_report : (reading.report fault).Faulty := by
  show (reading.problems ++ .entry _).toList ≠ []
  simp

theorem faulty_reportAfter : (reading.reportAfter fault).Faulty := by
  show (reading.problems ++ .entry _).toList ≠ []
  simp

theorem faulty_preface : (reading.preface fault).Faulty := by
  show (.entry _ ++ reading.problems : Log).toList ≠ []
  simp

theorem Faulty.andThen (faulty : reading.Faulty) (following : Attempt reading.rest) :
    (reading.andThen following).Faulty := by
  show (reading.problems ++ following.problems).toList ≠ []
  rw [Log.toList_append]
  exact List.append_ne_nil_of_left_ne_nil faulty _

theorem Faulty.eat (faulty : reading.Faulty) : (reading.eat kind).Faulty := by
  unfold Reading.eat
  split
  · exact faulty.andThen _
  · exact faulty

/-! ## Forms of readings -/

/-- What was read without a problem has the form of a phrase. -/
def Reads (reading : Reading input limit) (phrase : Phrase) : Prop :=
  reading.problems.toList = [] → Derives phrase (Shape.leavesOf reading.shapes)

theorem Faulty.reads (faulty : reading.Faulty) : reading.Reads phrase :=
  fun clean => absurd clean faulty

theorem Reads.mono (reads : reading.Reads first)
    (includes : ∀ {word}, Derives first word → Derives second word) : reading.Reads second :=
  fun clean => includes (reads clean)

theorem Reads.part {nonterminal : Nonterminal} (reads : reading.Reads (production nonterminal)) :
    reading.Reads (.part nonterminal) :=
  reads.mono .part

theorem reads_nothing : (nothing input).Reads .empty :=
  fun _ => .empty

theorem reads_nothing_optional : (nothing input).Reads (.optional phrase) :=
  reads_nothing.mono .right

theorem reads_nothing_many : (nothing input).Reads (.many phrase) :=
  fun _ => .none

theorem reads_take {terminal : Terminal} (accepted : terminal.accepts head = true) :
    (take head tail).Reads (.token terminal) :=
  fun _ => .token accepted

theorem reads_take_kind (tail : List Lexeme) (same : head.kind = kind) :
    (take head tail).Reads (.kind kind) :=
  reads_take (decide_eq_true same)

theorem reads_takeNext (next : Ahead.next kind input = true) :
    (takeNext input).Reads (.kind kind) := by
  obtain ⟨head, tail, rfl, same⟩ := Ahead.exists_of_next next
  exact fun _ => .token (decide_eq_true same)

theorem Reads.attempt {reading : Advance head tail} (reads : reading.Reads phrase) :
    reading.attempt.Reads phrase :=
  reads

theorem Reads.node (reads : reading.Reads phrase) : (reading.node kind).Reads phrase := by
  intro clean
  show Derives phrase (Shape.leavesOf reading.shapes ++ [])
  rw [List.append_nil]
  exact reads clean

theorem Reads.append {limit' : Nat} {following : Reading reading.rest limit'}
    (former : reading.Reads first) (latter : following.Reads second) :
    (reading.append following).Reads (.seq first second) := by
  intro clean
  change (reading.problems ++ following.problems).toList = [] at clean
  rw [Log.toList_append, List.append_eq_nil_iff] at clean
  show Derives _ (Shape.leavesOf (reading.shapes ++ following.shapes))
  rw [Shape.leavesOf_append]
  exact .seq (former clean.1) (latter clean.2)

theorem Reads.andThen {following : Attempt reading.rest} (former : reading.Reads first)
    (latter : following.Reads second) :
    (reading.andThen following).Reads (.seq first second) :=
  former.append latter

/-- A word in front of a repetition is one more of it. -/
theorem Reads.more {following : Attempt reading.rest} (former : reading.Reads phrase)
    (latter : following.Reads (.many phrase)) :
    (reading.andThen following).Reads (.many phrase) :=
  (former.andThen latter).mono fun derives => by
    obtain ⟨_, _, rfl, first, rest⟩ := Ebnf.derives_seq_iff.mp derives
    exact .more first rest

theorem Reads.bump (reads : reading.Reads phrase) (next : Ahead.next kind reading.rest = true) :
    reading.bump.Reads (.seq phrase (.kind kind)) :=
  reads.andThen (reads_takeNext next)

theorem Reads.expect (reads : reading.Reads phrase) (kind : Kind) :
    (reading.expect kind).Reads (.seq phrase (.kind kind)) := by
  unfold Reading.expect
  split
  · exact reads.bump ‹_›
  · exact faulty_report.reads

theorem Reads.eat (reads : reading.Reads phrase) (kind : Kind) :
    (reading.eat kind).Reads (.seq phrase (.optional (.kind kind))) := by
  unfold Reading.eat
  split
  · exact (reads.andThen ((reads_takeNext ‹_›).mono .left))
  · apply reads.mono
    intro word derives
    rw [← List.append_nil word]
    exact .seq derives (.right .empty)

end Reading

end GrammarDesk.Syntax
