import GrammarDesk.Proofs.Syntax.Tiling
import GrammarDesk.Syntax.Control

/-!
Contract: what a builder makes of the calls of a reader.

Owns: the proof that the calls for trivia, for a lexeme, for a node and for a node around what
was put before it leave the trees that the shapes are woven into, and that calls one after
another put what each of them puts.

Every statement is about any builder that has come as far as a place: its own trees, its open
nodes and its marks stay as they are.

Does not own: which calls a run makes (`Control`), or where the woven trees stand (`Tiling`).

Main statements: `Builds.append`, `Builds.node`, `Builds.suffixed`.
-/

namespace GrammarDesk.Syntax

namespace Weave

variable {length : Nat} {tokens : List Token}

theorem trees_append (length : Nat) (tokens : List Token) (left right : List Shape) :
    trees length tokens (left ++ right) =
      ((trees length tokens left).1 ++ (trees length (trees length tokens left).2 right).1,
        (trees length (trees length tokens left).2 right).2) := by
  induction left generalizing tokens with
  | nil => rfl
  | cons shape rest inductionHypothesis =>
      simp only [List.cons_append, trees, inductionHypothesis, List.append_assoc]

theorem trees_singleton (length : Nat) (tokens : List Token) (shape : Shape) :
    trees length tokens [shape] = tree length tokens shape := by
  simp [trees]

theorem splitTrivia_idem (tokens : List Token) :
    splitTrivia (splitTrivia tokens).2 = ([], (splitTrivia tokens).2) := by
  unfold splitTrivia
  simp only [List.span_eq_takeWhile_dropWhile]
  induction tokens with
  | nil => rfl
  | cons token rest inductionHypothesis =>
      cases isTrivia : token.kind.isTrivia with
      | true => simpa [isTrivia] using inductionHypothesis
      | false => simp [isTrivia]

/-- The first of some shapes begins behind the trivia. -/
theorem trees_splitTrivia {shapes : List Shape} (some : shapes ≠ []) :
    trees length tokens shapes =
      ((splitTrivia tokens).1.map .leaf ++ (trees length (splitTrivia tokens).2 shapes).1,
        (trees length (splitTrivia tokens).2 shapes).2) := by
  have first : ∀ shape, tree length tokens shape =
      ((splitTrivia tokens).1.map .leaf ++ (tree length (splitTrivia tokens).2 shape).1,
        (tree length (splitTrivia tokens).2 shape).2) := by
    intro shape
    have again := splitTrivia_idem tokens
    cases shape with
    | leaf lexeme =>
        rw [tree, tree, again]
        generalize splitTrivia tokens = parts
        obtain ⟨trivia, own⟩ := parts
        cases own with
        | nil => simp
        | cons token rest => simp
    | node kind children =>
        rw [tree, tree, again]
        simp
  cases shapes with
  | nil => exact absurd rfl some
  | cons shape rest =>
      rw [trees, trees, first]
      simp

end Weave

namespace Builder

/-- The open node, if there is one, begins at or before the end of what stands. -/
def Sound (builder : Builder) : Prop :=
  builder.frames.head?.all (fun frame => frame.standing ≤ builder.trees.length) = true

def put (builder : Builder) (trees : List ParseTree) (offset : Nat) : Builder :=
  { builder with trees := builder.trees ++ trees, offset }

variable {builder : Builder} {trees more : List ParseTree} {offset : Nat}

theorem Sound.put (sound : builder.Sound) (trees : List ParseTree) (offset : Nat) :
    (builder.put trees offset).Sound := by
  unfold Sound Builder.put at *
  cases frames : builder.frames with
  | nil => simp
  | cons frame rest =>
      simp [frames] at sound ⊢
      omega

@[simp] theorem put_nil : builder.put [] builder.offset = builder := by
  simp [put]

@[simp] theorem offset_put : (builder.put trees offset).offset = offset := rfl

theorem put_put (last : Nat) :
    (builder.put trees offset).put more last = builder.put (trees ++ more) last := by
  simp [put]

/-- The builder with a node open from a mark on. -/
def opened (builder : Builder) (mark : Mark) (kind : Kind) : Builder :=
  { builder with frames := ⟨mark, kind⟩ :: builder.frames }

/-- The builder with its own place kept as a mark. -/
def marked (builder : Builder) : Builder :=
  { builder with marks := builder.here :: builder.marks }

theorem sound_opened {mark : Mark} (stands : mark.standing ≤ builder.trees.length) (kind : Kind) :
    (builder.opened mark kind).Sound := by
  exact decide_eq_true stands

theorem put_opened (mark : Mark) (kind : Kind) :
    (builder.put trees offset).opened mark kind = (builder.opened mark kind).put trees offset := rfl

/-- A lexeme is put as the token at the offset that the builder has come to. -/
theorem step_token {token : Token} (here : token.offset = builder.offset) :
    builder.step (.token token.toLexeme) = some (builder.put [.leaf token] token.stop) := by
  obtain ⟨lexeme, _⟩ := token
  subst here
  rfl

theorem step_start (builder : Builder) (kind : Kind) :
    builder.step (.start kind) = some (builder.opened builder.here kind) := rfl

/-- What was put since a node was opened is closed under it. -/
theorem step_finish (builder : Builder) (kind : Kind) (under : List ParseTree) (stop : Nat) :
    ((builder.opened builder.here kind).put under stop).step .finish =
      some (builder.put [.node kind ⟨builder.offset, stop⟩ under] stop) := by
  simp [opened, put, step, close, here]

theorem step_mark (builder : Builder) : builder.step .mark = some builder.marked := rfl

/-- A node may begin at the mark kept last, whatever was put since. -/
theorem step_startAtMark (sound : builder.Sound) (kind : Kind) :
    (builder.marked.put trees offset).step (.startAtMark kind) =
      some ((builder.marked.put trees offset).opened builder.here kind) := by
  have allowed : (builder.marked.put trees offset).allows builder.here = true := by
    unfold allows
    rw [Bool.and_eq_true]
    refine ⟨?_, sound⟩
    simp [put, marked, here]
  show (if (builder.marked.put trees offset).allows builder.here then _ else _) = _
  rw [if_pos allowed]
  rfl

theorem step_dropMark : (builder.marked.put trees offset).step .dropMark =
    some (builder.put trees offset) := rfl

end Builder

namespace Control

open Builder hiding trees
open Weave

variable {place middle after : List Lexeme} {log later : List Event} {shapes more : List Shape}
  {head : Lexeme} {tail : List Lexeme} {kind : Kind}

theorem callsIn_append (log later : List Event) :
    callsIn (log ++ later) = callsIn log ++ callsIn later :=
  List.filterMap_append ..

theorem callsIn_build (call : Call) : callsIn [.build call] = [call] := rfl

/-- Any builder that has come as far as a place puts, by the calls of a log, the trees that the
shapes are woven into, and has then come as far as another place. -/
def Builds (place : List Lexeme) (log : List Event) (shapes : List Shape)
    (after : List Lexeme) : Prop :=
  ∀ (builder : Builder) (length : Nat) (tokens : List Token), builder.Sound →
    tokens.map Token.toLexeme = place → Token.Tile builder.offset tokens length →
    ∃ offset,
      builder.run (callsIn log) =
          some (builder.put (trees length tokens shapes).1 offset) ∧
        (trees length tokens shapes).2.map Token.toLexeme = after ∧
        Token.Tile offset (trees length tokens shapes).2 length

theorem builds_nothing (silent : callsIn log = []) : Builds place log [] place := by
  intro builder length tokens _ isPlace tile
  refine ⟨builder.offset, ?_, isPlace, tile⟩
  rw [silent, trees, put_nil]
  rfl

/-- The trees of one log stand behind those of the log before it. -/
theorem Builds.append (former : Builds place log shapes middle)
    (latter : Builds middle later more after) :
    Builds place (log ++ later) (shapes ++ more) after := by
  intro builder length tokens sound isPlace tile
  obtain ⟨between, firstRun, isMiddle, firstTile⟩ := former builder length tokens sound isPlace tile
  obtain ⟨offset, secondRun, isAfter, secondTile⟩ :=
    latter (builder.put _ between) length _ (sound.put _ _) isMiddle firstTile
  rw [trees_append]
  refine ⟨offset, ?_, isAfter, secondTile⟩
  rw [callsIn_append, run_append, firstRun, Option.bind_some, secondRun, put_put]

/-- Trivia is put as it stands. -/
theorem run_passTrivia {builder : Builder} {length : Nat} {tokens : List Token}
    (isPlace : tokens.map Token.toLexeme = place)
    (tile : Token.Tile builder.offset tokens length) :
    ∃ offset,
      builder.run (callsIn (passTrivia place)) =
          some (builder.put ((splitTrivia tokens).1.map .leaf) offset) ∧
        (splitTrivia tokens).2.map Token.toLexeme = pastTrivia place ∧
        Token.Tile offset (splitTrivia tokens).2 length := by
  unfold splitTrivia pastTrivia
  rw [List.span_eq_takeWhile_dropWhile]
  subst isPlace
  induction tokens generalizing builder with
  | nil => exact ⟨builder.offset, congrArg some put_nil.symm, rfl, tile⟩
  | cons token rest inductionHypothesis =>
      cases isTrivia : token.kind.isTrivia with
      | false =>
          refine ⟨builder.offset, ?_, ?_, ?_⟩
          · simp [passTrivia, triviaAt, Lexeme.isTrivia, isTrivia, callsIn]
          · simp [Lexeme.isTrivia, isTrivia]
          · simpa [isTrivia] using tile
      | true =>
          obtain ⟨here, later⟩ := tile
          obtain ⟨offset, runs, isLeft, left⟩ :=
            @inductionHypothesis (builder.put [.leaf token] token.stop) later
          have calls : callsIn (passTrivia ((token :: rest).map Token.toLexeme)) =
              .token token.toLexeme :: callsIn (passTrivia (rest.map Token.toLexeme)) := by
            simp [passTrivia, triviaAt, Lexeme.isTrivia, isTrivia, callsIn, Event.call?]
          refine ⟨offset, ?_, ?_, ?_⟩
          · rw [calls, run_cons, step_token here, Option.bind_some, runs, put_put]
            simp [isTrivia]
          · simpa [Lexeme.isTrivia, isTrivia] using isLeft
          · simpa [isTrivia] using left

/-- The next lexeme is put under no node. -/
theorem builds_bump (next : pastTrivia place = head :: tail) :
    Builds place (passTrivia place ++ passLexeme (head :: tail)) [.leaf head] tail := by
  intro builder length tokens _ isPlace tile
  obtain ⟨between, triviaRun, isLeft, left⟩ := run_passTrivia isPlace tile
  rw [trees_singleton, tree]
  generalize splitTrivia tokens = parts at triviaRun isLeft left
  obtain ⟨trivia, own⟩ := parts
  cases own with
  | nil => exact absurd (next.symm.trans isLeft.symm) (List.cons_ne_nil _ _)
  | cons token rest =>
      obtain ⟨here, later⟩ := left
      obtain ⟨rfl, rfl⟩ := List.cons.inj (isLeft.trans next)
      have calls : callsIn (passLexeme (token.toLexeme :: rest.map Token.toLexeme)) =
          [.token token.toLexeme] := by
        simp [passLexeme, callsIn, Event.call?, List.filterMap_map]
      refine ⟨token.stop, ?_, rfl, later⟩
      rw [callsIn_append, run_append, triviaRun, Option.bind_some, calls, run_cons,
        step_token here, Option.bind_some, run_nil, put_put]

/-- What closes a node over shapes, from any builder at the place where the first of them
begins, puts that node behind the trivia before it. -/
theorem builds_node
    (closes : ∀ (builder : Builder) (length : Nat) (tokens : List Token), builder.Sound →
      tokens.map Token.toLexeme = pastTrivia place → Token.Tile builder.offset tokens length →
      ∃ stop,
        builder.run (callsIn log) =
            some (builder.put
              [.node kind ⟨builder.offset, stop⟩ (trees length tokens shapes).1] stop) ∧
          (trees length tokens shapes).2.map Token.toLexeme = after ∧
          Token.Tile stop (trees length tokens shapes).2 length) :
    Builds place (passTrivia place ++ log) [.node kind shapes] after := by
  intro builder length tokens sound isPlace tile
  obtain ⟨start, triviaRun, isLeft, left⟩ := run_passTrivia isPlace tile
  obtain ⟨stop, nodeRun, isAfter, right⟩ :=
    closes (builder.put ((splitTrivia tokens).1.map .leaf) start) length (splitTrivia tokens).2
      (sound.put _ _) isLeft left
  rw [trees_singleton, tree]
  refine ⟨stop, ?_, isAfter, right⟩
  rw [callsIn_append, run_append, triviaRun, Option.bind_some, nodeRun, put_put, offset_put]
  simp only [offsetOf_of_tile left, offsetOf_of_tile right]

/-- A node that is opened before what stands under it. -/
theorem Builds.node (inner : Builds (pastTrivia place) log shapes after) :
    Builds place
      (passTrivia place ++ ([.build (.start kind)] ++ log ++ [.build .finish]))
      [.node kind shapes] after := by
  refine builds_node fun builder length tokens _ isPlace tile => ?_
  obtain ⟨stop, innerRun, isAfter, right⟩ :=
    inner (builder.opened builder.here kind) length tokens (sound_opened (Nat.le_refl _) kind)
      isPlace tile
  refine ⟨stop, ?_, isAfter, right⟩
  simp only [callsIn_append, callsIn_build, run_append, run_cons, run_nil, Option.bind_some,
    step_start, innerRun, step_finish]

/-- A node that is opened around what was put since a mark. -/
theorem Builds.suffixed (inner : Builds (pastTrivia place) log shapes middle)
    (suffix : Builds middle later more after) :
    Builds place
      (passTrivia place ++
        ([.build .mark] ++ log ++
          ([.build (.startAtMark kind)] ++ later ++ [.build .finish]) ++ [.build .dropMark]))
      [.node kind (shapes ++ more)] after := by
  refine builds_node fun builder length tokens sound isPlace tile => ?_
  obtain ⟨between, innerRun, isMiddle, left⟩ :=
    inner builder.marked length tokens sound isPlace tile
  have begins : builder.here.standing ≤
      (builder.marked.put (trees length tokens shapes).1 between).trees.length := by
    simp [put, marked, here]
  obtain ⟨stop, suffixRun, isAfter, right⟩ :=
    suffix ((builder.marked.put (trees length tokens shapes).1 between).opened builder.here kind)
      length _ (sound_opened begins kind) isMiddle left
  rw [put_opened, put_put] at suffixRun
  rw [trees_append]
  refine ⟨stop, ?_, isAfter, right⟩
  have closed (under : List ParseTree) :
      ((builder.marked.opened builder.here kind).put under stop).step .finish =
        some (builder.marked.put [.node kind ⟨builder.offset, stop⟩ under] stop) :=
    step_finish builder.marked kind under stop
  simp only [callsIn_append, callsIn_build, run_append, run_cons, run_nil, Option.bind_some,
    step_mark, innerRun, step_startAtMark sound, put_opened, suffixRun, closed, step_dropMark]

/-- What is read behind trivia stands behind it, if it is anything. The mark that was kept for a
suffix leaves no trace. -/
theorem Builds.unsuffixed (some : shapes ≠ [])
    (inner : Builds (pastTrivia place) log shapes after) :
    Builds place (passTrivia place ++ ([.build .mark] ++ log ++ [.build .dropMark])) shapes
      after := by
  intro builder length tokens sound isPlace tile
  obtain ⟨start, triviaRun, isLeft, left⟩ := run_passTrivia isPlace tile
  obtain ⟨stop, innerRun, isAfter, right⟩ :=
    inner (builder.put ((splitTrivia tokens).1.map .leaf) start).marked length _
      (sound.put _ start) isLeft left
  rw [trees_splitTrivia some]
  refine ⟨stop, ?_, isAfter, right⟩
  simp only [callsIn_append, callsIn_build, run_append, run_cons, run_nil, Option.bind_some,
    triviaRun, step_mark, innerRun, step_dropMark, put_put]

end Control

end GrammarDesk.Syntax
