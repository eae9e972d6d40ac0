import GrammarDesk.Proofs.Syntax.Nesting
import GrammarDesk.Proofs.Syntax.Partition
import Mathlib.Data.List.Pairwise

/-!
Contract: ranges that follow one another in a text.

Owns: rows of ranges, the trees of a text with all that is known about where they stand, and the
row that the names read off such a tree form.

Does not own: which names are read off a tree (`Grammar`).

Main statement: `ParseTree.SolidParts.row`.
-/

namespace GrammarDesk

open Text

/-! ## Rows -/

namespace Text.Range

/-- One range begins before another begins and ends no later than there. -/
def Precedes (left right : Range) : Prop :=
  left.start < right.start ∧ left.stop ≤ right.start

/-- Some bytes are in both ranges. -/
def Overlaps (left right : Range) : Prop :=
  left.start < right.stop ∧ right.start < left.stop

/-- Ranges that are not empty follow one another between two offsets. -/
def Row : Nat → List Range → Nat → Prop
  | start, [], stop => start ≤ stop
  | start, range :: rest, stop =>
      start ≤ range.start ∧ range.start < range.stop ∧ Row range.stop rest stop

variable {start middle stop : Nat} {ranges left right : List Range} {range : Range}

theorem Row.le (row : Row start ranges stop) : start ≤ stop := by
  induction ranges generalizing start with
  | nil => exact row
  | cons range rest inductionHypothesis =>
      have rest := inductionHypothesis row.2.2
      have first := row.2.1
      have begun := row.1
      omega

theorem Row.append (former : Row start left middle) (latter : Row middle right stop) :
    Row start (left ++ right) stop := by
  induction left generalizing start with
  | nil =>
      cases right with
      | nil => exact Nat.le_trans former latter
      | cons range rest => exact ⟨Nat.le_trans former latter.1, latter.2⟩
  | cons range rest inductionHypothesis =>
      exact ⟨former.1, former.2.1, inductionHypothesis former.2.2⟩

/-- A row between two offsets is one between offsets further apart. -/
theorem Row.widen {outerStart outerStop : Nat} (row : Row start ranges stop)
    (starts : outerStart ≤ start) (stops : stop ≤ outerStop) : Row outerStart ranges outerStop := by
  have former : Row outerStart [] start := starts
  have latter : Row stop [] outerStop := stops
  simpa using (former.append row).append latter

/-- No range of a row is empty, and none begins before the row. -/
theorem Row.forall_mem (row : Row start ranges stop) :
    ∀ range ∈ ranges, start ≤ range.start ∧ range.start < range.stop := by
  induction ranges generalizing start with
  | nil => exact List.forall_mem_nil _
  | cons first rest inductionHypothesis =>
      obtain ⟨begun, nonempty, later⟩ := row
      refine List.forall_mem_cons.mpr ⟨⟨begun, nonempty⟩, fun range isRange => ?_⟩
      obtain ⟨behind, nonemptyLater⟩ := inductionHypothesis later range isRange
      exact ⟨by omega, nonemptyLater⟩

/-- All ranges of a row lie between its ends. -/
theorem Row.inside_of_mem (row : Row start ranges stop) (isRange : range ∈ ranges) :
    range.Inside ⟨start, stop⟩ := by
  induction ranges generalizing start with
  | nil => cases isRange
  | cons first rest inductionHypothesis =>
      obtain ⟨begun, nonempty, later⟩ := row
      have after := later.le
      unfold Inside
      rcases List.mem_cons.mp isRange with rfl | isLater
      · exact ⟨begun, after⟩
      · obtain ⟨starts, stops⟩ := inductionHypothesis later isLater
        dsimp only at starts stops ⊢
        omega

theorem Row.pairwise (row : Row start ranges stop) : ranges.Pairwise Precedes := by
  induction ranges generalizing start with
  | nil => exact .nil
  | cons first rest inductionHypothesis =>
      obtain ⟨_, nonempty, later⟩ := row
      refine .cons (fun range isRange => ?_) (inductionHypothesis later)
      have behind := (later.forall_mem range isRange).1
      exact ⟨by omega, behind⟩

/-- Of things no two of which have bytes in common two that overlap are the same. -/
theorem eq_of_apart {Thing : Type} {rangeOf : Thing → Range} {things : List Thing}
    (apart : things.Pairwise fun left right => ¬(rangeOf left).Overlaps (rangeOf right))
    {left right : Thing} (isLeft : left ∈ things) (isRight : right ∈ things)
    (overlaps : (rangeOf left).Overlaps (rangeOf right)) : left = right := by
  have symmetric : Std.Symm fun left right => ¬(rangeOf left).Overlaps (rangeOf right) :=
    ⟨fun left right apart overlaps => apart overlaps.symm⟩
  by_contra different
  exact apart.forall isLeft isRight different overlaps

/-- Of things at ranges in order two that overlap are the same. -/
theorem eq_of_overlaps {Thing : Type} {rangeOf : Thing → Range} {things : List Thing}
    (ordered : things.Pairwise fun left right => (rangeOf left).Precedes (rangeOf right))
    {left right : Thing} (isLeft : left ∈ things) (isRight : right ∈ things)
    (overlaps : (rangeOf left).Overlaps (rangeOf right)) : left = right :=
  eq_of_apart (ordered.imp fun precedes overlaps => absurd precedes.2 (Nat.not_le_of_lt overlaps.2))
    isLeft isRight overlaps

end Text.Range

/-! ## Rows in a tree -/

namespace Syntax.ParseTree

open Range

/-- A tree that stands in a text as all trees of a text do: it is tiled and nested, and none of
its tokens is empty. -/
structure Solid (tree : ParseTree) : Prop where
  tiled : tree.Tiled
  nested : tree.Nested
  filled : ∀ token ∈ tree.tokens, 0 < token.size

/-- Solid trees that follow one another without a gap from one offset to another. -/
structure SolidParts (start : Nat) (parts : List ParseTree) (stop : Nat) : Prop where
  tile : Tile start parts stop
  solid : ∀ part ∈ parts, part.Solid

namespace Solid

variable {tree : ParseTree}

theorem start_le_stop (solid : tree.Solid) : tree.range.start ≤ tree.range.stop := by
  rw [solid.tiled.stop_eq]
  exact Nat.le_add_right _ _

theorem start_lt_stop (solid : tree.Solid) (some : tree.tokens ≠ []) :
    tree.range.start < tree.range.stop := by
  obtain ⟨first, others, tokens⟩ := List.exists_cons_of_ne_nil some
  have positive := solid.filled first (by simp [tokens])
  rw [solid.tiled.stop_eq, tokens, ← List.singleton_append, Token.sizeOf_append,
    Token.sizeOf_singleton]
  omega

/-- The parts of a solid tree are solid. -/
theorem parts {kind : Kind} {range : Range} {parts : List ParseTree}
    (solid : (ParseTree.node kind range parts).Solid) :
    SolidParts range.start parts range.stop := by
  refine ⟨solid.tiled.1, fun part isPart => ?_⟩
  obtain ⟨tiled, before, after, tokens, _⟩ := solid.tiled.child isPart
  exact ⟨tiled, allNested_iff.mp solid.nested.2 part isPart,
    fun token isToken => solid.filled token (by simp [tokens, isToken])⟩

end Solid

namespace SolidParts

variable {start stop : Nat} {parts left right : List ParseTree}

theorem le (solid : SolidParts start parts stop) : start ≤ stop := by
  rw [solid.tile.stop_eq]
  exact Nat.le_add_right _ _

theorem split (solid : SolidParts start (left ++ right) stop) :
    ∃ middle, SolidParts start left middle ∧ SolidParts middle right stop := by
  obtain ⟨middle, former, latter⟩ := solid.tile.split
  exact ⟨middle, ⟨former, fun part isLeft => solid.solid part (List.mem_append_left _ isLeft)⟩,
    latter, fun part isRight => solid.solid part (List.mem_append_right _ isRight)⟩

theorem inside (solid : SolidParts start parts stop) {part : ParseTree} (isPart : part ∈ parts) :
    part.range.Inside ⟨start, stop⟩ := by
  obtain ⟨before, after, rfl⟩ := List.append_of_mem isPart
  obtain ⟨middle, former, latter⟩ := solid.split
  have later : SolidParts part.range.stop after stop :=
    ⟨latter.tile.2.2, fun other isOther => latter.solid other (List.mem_cons_of_mem _ isOther)⟩
  exact ⟨latter.tile.1.symm ▸ former.le, later.le⟩

/-- No two of the parts have bytes in common. -/
theorem pairwise (solid : SolidParts start parts stop) :
    parts.Pairwise fun left right => ¬left.range.Overlaps right.range := by
  induction parts generalizing start with
  | nil => exact .nil
  | cons part rest inductionHypothesis =>
      obtain ⟨_, _, later⟩ := solid.tile
      have others : SolidParts part.range.stop rest stop :=
        ⟨later, (List.forall_mem_cons.mp solid.solid).2⟩
      refine .cons (fun other isOther overlaps => ?_) (inductionHypothesis others)
      exact absurd overlaps.2 (Nat.not_lt.mpr (others.inside isOther).1)

/-- What is read off some of the parts, each time in its own part, is in a row. -/
theorem row {Entry : Type} {treeOf : Entry → ParseTree} {rangesOf : Entry → List Range}
    {entries : List Entry} (solid : SolidParts start parts stop)
    (among : (entries.map treeOf).Sublist parts)
    (each : ∀ entry ∈ entries, (treeOf entry).Solid →
      Row (treeOf entry).range.start (rangesOf entry) (treeOf entry).range.stop) :
    Row start (entries.flatMap rangesOf) stop := by
  induction parts generalizing start entries with
  | nil =>
      obtain rfl := List.map_eq_nil_iff.mp (List.sublist_nil.mp among)
      exact solid.le
  | cons part parts inductionHypothesis =>
      obtain ⟨begun, _, later⟩ := solid.tile
      obtain ⟨isSolid, areSolid⟩ := List.forall_mem_cons.mp solid.solid
      -- A part from which nothing is read leaves a gap, which a row may have before its start.
      rcases List.sublist_cons_iff.mp among with skipped | ⟨own, split, rest⟩
      · exact (inductionHypothesis ⟨later, areSolid⟩ skipped each).widen
          (begun ▸ isSolid.start_le_stop) (Nat.le_refl _)
      · obtain ⟨entry, others, rfl, rfl, rfl⟩ := List.map_eq_cons_iff.mp split
        obtain ⟨eachFirst, eachOther⟩ := List.forall_mem_cons.mp each
        rw [List.flatMap_cons]
        exact (begun ▸ eachFirst isSolid).append
          (inductionHypothesis ⟨later, areSolid⟩ rest eachOther)

/-- What is read off the parts that pass a test, each time in its own part, is in a row. -/
theorem row_filter {rangesOf : ParseTree → List Range} (solid : SolidParts start parts stop)
    (test : ParseTree → Bool)
    (each : ∀ part ∈ parts, part.Solid → test part = true →
      Row part.range.start (rangesOf part) part.range.stop) :
    Row start ((parts.filter test).flatMap rangesOf) stop := by
  have among : ((parts.filter test).map id).Sublist parts := by
    rw [List.map_id]
    exact List.filter_sublist
  refine solid.row among fun part isOwn isSolid => ?_
  obtain ⟨isPart, passes⟩ := List.mem_filter.mp isOwn
  exact each part isPart isSolid passes

theorem row_flatMap {rangesOf : ParseTree → List Range} (solid : SolidParts start parts stop)
    (each : ∀ part ∈ parts, part.Solid →
      Row part.range.start (rangesOf part) part.range.stop) :
    Row start (parts.flatMap rangesOf) stop := by
  have all := solid.row_filter (fun _ => true) fun part isPart isSolid _ =>
    each part isPart isSolid
  rwa [List.filter_true] at all

/-- A part that is not empty is a row by itself. -/
theorem row_part (solid : SolidParts start parts stop) {part : ParseTree} (isPart : part ∈ parts)
    (some : part.tokens ≠ []) : Row start [part.range] stop := by
  have among : ([part].map id).Sublist parts := List.singleton_sublist.mpr isPart
  have own : ∀ entry ∈ [part], entry.Solid →
      Row entry.range.start [entry.range] entry.range.stop := by
    refine List.forall_mem_singleton.mpr fun isSolid => ?_
    exact ⟨Nat.le_refl _, isSolid.start_lt_stop some, Nat.le_refl _⟩
  exact solid.row among own

end SolidParts

end Syntax.ParseTree

/-- The tree of a text is solid. -/
theorem Syntax.Parse.solid_of_text {text : String} {parse : Parse}
    (read : ofText? text = some parse) : parse.tree.Solid := by
  refine ⟨(tiled_of_text read).1, nested_of_text read, fun token isToken => ?_⟩
  rw [tokens_of_text read] at isToken
  exact Scan.size_pos_of_mem_tokenize isToken

end GrammarDesk
