import GrammarDesk.Syntax.ParseTree

/-!
Contract: a tree put together by calls in the order of reading.

Owns: the calls that a reader makes of its builder, what each does to the trees that stand side
by side and to the nodes that are open, and the calls that panic.

A node is closed over all trees that were put after its mark. The builder itself knows lengths
only. Here it tells ranges as it goes, by the bytes handed over before a node and inside it.

Does not own: which calls are made (`Control`), or the tree of a shape (`Weave`).
-/

namespace GrammarDesk.Syntax

open Text

/-- How far a builder has come: so many trees stand, and they take so many bytes. -/
structure Builder.Mark where
  standing : Nat
  offset : Nat
deriving DecidableEq, Repr

/-- A node that is open, from a mark on. -/
structure Builder.Frame extends Builder.Mark where
  kind : Kind
deriving DecidableEq, Repr

structure Builder where
  /-- All trees that are not below another, the ones under open nodes included. -/
  trees : List ParseTree
  offset : Nat
  /-- The open nodes, the innermost first. -/
  frames : List Builder.Frame
  /-- The marks that are kept, the latest first. -/
  marks : List Builder.Mark
deriving Repr

namespace Builder

inductive Call where
  | token (lexeme : Lexeme)
  | start (kind : Kind)
  | finish
  | mark
  /-- Opens a node around all that was put since the mark kept last. -/
  | startAtMark (kind : Kind)
  | dropMark
deriving DecidableEq, Repr

def empty : Builder :=
  ⟨[], 0, [], []⟩

def here (builder : Builder) : Mark :=
  ⟨builder.trees.length, builder.offset⟩

/-- The trees after a mark put under one node. -/
def close (builder : Builder) (frame : Frame) : List ParseTree :=
  builder.trees.take frame.standing ++
    [.node frame.kind ⟨frame.offset, builder.offset⟩ (builder.trees.drop frame.standing)]

/-- Whether a node may begin at a mark: the mark must lie in what stands, and not before the
node that is open. -/
def allows (builder : Builder) (mark : Mark) : Bool :=
  mark.standing ≤ builder.trees.length &&
    builder.frames.head?.all fun frame => frame.standing ≤ mark.standing

/-- What a call leaves; none where it panics. -/
def step (builder : Builder) : Call → Option Builder
  | .token lexeme =>
      some
        { builder with
          trees := builder.trees ++ [.leaf ⟨lexeme, builder.offset⟩]
          offset := builder.offset + lexeme.size }
  | .start kind => some { builder with frames := ⟨builder.here, kind⟩ :: builder.frames }
  | .finish =>
      match builder.frames with
      | [] => none
      | frame :: frames => some { builder with trees := builder.close frame, frames }
  | .mark => some { builder with marks := builder.here :: builder.marks }
  | .startAtMark kind =>
      match builder.marks with
      | [] => none
      | mark :: _ =>
          if builder.allows mark then
            some { builder with frames := ⟨mark, kind⟩ :: builder.frames }
          else
            none
  | .dropMark => some { builder with marks := builder.marks.tail }

def run (builder : Builder) : List Call → Option Builder
  | [] => some builder
  | call :: calls => (builder.step call).bind fun next => next.run calls

@[simp] theorem run_nil (builder : Builder) : builder.run [] = some builder := rfl

theorem run_cons (builder : Builder) (call : Call) (calls : List Call) :
    builder.run (call :: calls) = (builder.step call).bind fun next => next.run calls := rfl

theorem run_append (builder : Builder) (former latter : List Call) :
    builder.run (former ++ latter) =
      (builder.run former).bind fun next => next.run latter := by
  induction former generalizing builder with
  | nil => rfl
  | cons call calls inductionHypothesis =>
      rw [List.cons_append, run_cons, run_cons, Option.bind_assoc]
      apply Option.bind_congr
      intro next _
      exact inductionHypothesis next

/-- The tree that is handed over of those that stand at the end: the only one, a node. Where
more stand, or something else, this panics. -/
def handOver : List ParseTree → Option ParseTree
  | [.node kind range children] => some (.node kind range children)
  | _ => none

/-- A node is handed over if it stands alone. -/
theorem handOver_append (before : List ParseTree) (kind : Kind) (range : Range)
    (children : List ParseTree) :
    handOver (before ++ [.node kind range children]) =
      if before.isEmpty then some (.node kind range children) else none := by
  cases before with
  | nil => rfl
  | cons first rest => simp [handOver]

def finish? (builder : Builder) : Option ParseTree :=
  handOver builder.trees

end Builder

end GrammarDesk.Syntax
