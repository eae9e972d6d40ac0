import GrammarDesk.Proofs.Grammar.Rules
import GrammarDesk.Proofs.Workspace.Session
import GrammarDesk.Query.RuleAt

/-!
Contract: the rule that a position selects.

Owns: the rule around every token of a tree, told by the ranges of the rules, and the rule that
an offset of a text selects.

Does not own: which positions have an offset (`Positions`), or the order of the rules
(`Grammar`).

The rule is looked for through the tokens on both sides of the offset. That it can be told by
ranges alone is due to two facts: no rule of a text is empty, and no two of them overlap.

Main statement: `rule_under_cursor`.
-/

namespace GrammarDesk

open Text Grammar Syntax

/-! ## Ranges of rules -/

mutual

/-- A rule of a tiled tree lies in the tree. -/
theorem inside_of_mem_rulesOf {tree : ParseTree} (tiled : tree.Tiled) {rule : Rule}
    (isRule : rule ∈ rulesOf tree) : rule.range.Inside tree.range := by
  match tree with
  | .leaf token => cases isRule
  | .node kind range children =>
      have below : rule ∈ rulesOfParts children → rule.range.Inside range :=
        inside_of_mem_rulesOfParts tiled.1
      unfold rulesOf at isRule
      dsimp only at isRule
      split at isRule
      · rcases List.mem_cons.mp isRule with rfl | isBelow
        · exact ⟨Nat.le_refl _, Nat.le_refl _⟩
        · exact below isBelow
      · exact below isRule

/-- A rule lies inside the trees that it is found in. -/
theorem inside_of_mem_rulesOfParts {start stop : Nat} {trees : List ParseTree}
    (tile : ParseTree.Tile start trees stop) {rule : Rule}
    (isRule : rule ∈ rulesOfParts trees) : rule.range.Inside ⟨start, stop⟩ := by
  match trees with
  | [] => cases isRule
  | tree :: rest =>
      obtain ⟨begun, tiled, later⟩ := tile
      have startStop := tiled.stop_eq
      have laterStop := later.stop_eq
      unfold Range.Inside
      rcases List.mem_append.mp isRule with isFirst | isLater
      · obtain ⟨starts, stops⟩ := inside_of_mem_rulesOf tiled isFirst
        dsimp only
        omega
      · obtain ⟨starts, stops⟩ := inside_of_mem_rulesOfParts later isLater
        dsimp only at starts stops ⊢
        omega

end

/-! ## The rule around a token -/

/-- A token with a rule, as it stands among some rules: it lies in one of them, which is the rule
it has; or it has the rule around all of them and no byte in common with any. -/
def Assigned (around : Option Rule) (rules : List Rule) (entry : Token × Option Rule) : Prop :=
  (∃ rule ∈ rules, entry.2 = some rule ∧
      (Range.mk entry.1.offset entry.1.stop).Inside rule.range) ∨
    entry.2 = around ∧
      ∀ rule ∈ rules, ¬(Range.mk entry.1.offset entry.1.stop).Overlaps rule.range

theorem Assigned.append_right {around : Option Rule} {rules others : List Rule}
    {entry : Token × Option Rule} (assigned : Assigned around rules entry)
    (apart : ∀ rule ∈ others, entry.1.stop ≤ rule.range.start) :
    Assigned around (rules ++ others) entry := by
  rcases assigned with ⟨rule, isRule, has, inside⟩ | ⟨has, outside⟩
  · exact .inl ⟨rule, List.mem_append_left _ isRule, has, inside⟩
  · refine .inr ⟨has, fun rule isRule => ?_⟩
    rcases List.mem_append.mp isRule with isRule | isOther
    · exact outside rule isRule
    · exact fun overlaps => absurd overlaps.2 (Nat.not_lt.mpr (apart rule isOther))

theorem Assigned.append_left {around : Option Rule} {rules others : List Rule}
    {entry : Token × Option Rule} (assigned : Assigned around rules entry)
    (apart : ∀ rule ∈ others, rule.range.stop ≤ entry.1.offset) :
    Assigned around (others ++ rules) entry := by
  rcases assigned with ⟨rule, isRule, has, inside⟩ | ⟨has, outside⟩
  · exact .inl ⟨rule, List.mem_append_right _ isRule, has, inside⟩
  · refine .inr ⟨has, fun rule isRule => ?_⟩
    rcases List.mem_append.mp isRule with isOther | isRule
    · exact fun overlaps => absurd overlaps.1 (Nat.not_lt.mpr (apart rule isOther))
    · exact outside rule isRule

mutual

/-- The tokens of a tree are those that a walk over it adds. -/
theorem map_fst_prependTokensInRules (others : List (Token × Option Rule))
    (around : Option Rule) (tree : ParseTree) :
    (prependTokensInRules others around tree).map Prod.fst =
      tree.tokens ++ others.map Prod.fst := by
  match tree with
  | .leaf token => rfl
  | .node kind range children => exact map_fst_prependTokensInRulesOf others _ children

theorem map_fst_prependTokensInRulesOf (others : List (Token × Option Rule))
    (around : Option Rule) (trees : List ParseTree) :
    (prependTokensInRulesOf others around trees).map Prod.fst =
      ParseTree.tokensOf trees ++ others.map Prod.fst := by
  match trees with
  | [] => rfl
  | tree :: rest =>
      rw [prependTokensInRulesOf, map_fst_prependTokensInRules,
        map_fst_prependTokensInRulesOf, ParseTree.tokensOf_cons, List.append_assoc]

end

mutual

/-- What a walk over a tree adds lies in the tree and has the rule that it stands in. -/
theorem assigned_of_mem_prepend {others : List (Token × Option Rule)} {around : Option Rule}
    {tree : ParseTree} (tiled : tree.Tiled) {entry : Token × Option Rule}
    (isEntry : entry ∈ prependTokensInRules others around tree) :
    entry ∈ others ∨
      (Range.mk entry.1.offset entry.1.stop).Inside tree.range ∧
        Assigned around (rulesOf tree) entry := by
  match tree with
  | .leaf token =>
      rcases List.mem_cons.mp isEntry with rfl | isOther
      · exact .inr ⟨⟨Nat.le_refl _, Nat.le_refl _⟩, .inr ⟨rfl, List.forall_mem_nil _⟩⟩
      · exact .inl isOther
  | .node kind range children =>
      refine (assigned_of_mem_prependOf tiled.1 isEntry).imp_right fun ⟨inside, assigned⟩ => ?_
      refine ⟨inside, ?_⟩
      unfold rulesOf
      dsimp only
      split
      · rename_i isRule
        rw [if_pos isRule] at assigned
        -- The rule that this node is, is around all others and around the token.
        rcases assigned with ⟨rule, isBelow, has, within⟩ | ⟨has, _⟩
        · exact .inl ⟨rule, List.mem_cons_of_mem _ isBelow, has, within⟩
        · exact .inl ⟨_, List.mem_cons_self, has, inside⟩
      · rename_i noRule
        rw [if_neg noRule] at assigned
        exact assigned

/-- Each token of some trees is paired with the innermost rule of the trees around it or,
outside of them all, with the one around the trees. -/
theorem assigned_of_mem_prependOf {others : List (Token × Option Rule)} {around : Option Rule}
    {start stop : Nat} {trees : List ParseTree} (tile : ParseTree.Tile start trees stop)
    {entry : Token × Option Rule}
    (isEntry : entry ∈ prependTokensInRulesOf others around trees) :
    entry ∈ others ∨
      (Range.mk entry.1.offset entry.1.stop).Inside ⟨start, stop⟩ ∧
        Assigned around (rulesOfParts trees) entry := by
  match trees with
  | [] => exact .inl isEntry
  | tree :: rest =>
      obtain ⟨begun, tiled, later⟩ := tile
      have startStop := tiled.stop_eq
      have laterStop := later.stop_eq
      unfold Range.Inside
      unfold rulesOfParts
      rcases assigned_of_mem_prepend tiled isEntry with isLater | ⟨⟨starts, stops⟩, assigned⟩
      · refine (assigned_of_mem_prependOf later isLater).imp_right
          fun ⟨⟨starts, stops⟩, assigned⟩ => ?_
        dsimp only at starts stops ⊢
        refine ⟨by omega, assigned.append_left fun rule isRule => ?_⟩
        exact Nat.le_trans (inside_of_mem_rulesOf tiled isRule).2 starts
      · dsimp only at starts stops ⊢
        refine .inr ⟨by omega, assigned.append_right fun rule isRule => ?_⟩
        exact Nat.le_trans stops (inside_of_mem_rulesOfParts later isRule).1

end

/-! ## The tokens at an offset -/

namespace Syntax

theorem Token.Tile.append {start middle stop : Nat} {left right : List Token}
    (former : Token.Tile start left middle) (latter : Token.Tile middle right stop) :
    Token.Tile start (left ++ right) stop := by
  induction left generalizing start with
  | nil =>
      obtain rfl : start = middle := former
      exact latter
  | cons token rest inductionHypothesis => exact ⟨former.1, inductionHypothesis former.2⟩

/-- Tokens without a gap do not begin before their start. -/
theorem Token.Tile.start_le {start stop : Nat} {tokens : List Token}
    (tile : Token.Tile start tokens stop) {token : Token} (isToken : token ∈ tokens) :
    start ≤ token.offset := by
  obtain ⟨before, after, rfl⟩ := List.append_of_mem isToken
  rw [tile.offset_eq]
  exact Nat.le_add_right _ _

/-- Of tokens without a gap one contains an offset between their ends; those before it end where
it begins or earlier, and those after it begin where it ends or later. -/
theorem Token.Tile.exists_containing {Entry : Type} {tokenOf : Entry → Token}
    {start stop offset : Nat} {entries : List Entry}
    (tile : Token.Tile start (entries.map tokenOf) stop) (begun : start ≤ offset)
    (ends : offset < stop) :
    ∃ before entry after, entries = before ++ entry :: after ∧
      (tokenOf entry).offset ≤ offset ∧ offset < (tokenOf entry).stop ∧
      (∀ earlier ∈ before, (tokenOf earlier).stop ≤ (tokenOf entry).offset) ∧
      ∀ later ∈ after, (tokenOf entry).stop ≤ (tokenOf later).offset := by
  induction entries generalizing start with
  | nil =>
      have same : start = stop := tile
      omega
  | cons first rest inductionHypothesis =>
      obtain ⟨starts, later⟩ := tile
      have behind : ∀ other ∈ rest, (tokenOf first).stop ≤ (tokenOf other).offset :=
        fun other isOther => later.start_le (List.mem_map_of_mem isOther)
      by_cases contained : offset < (tokenOf first).stop
      · exact ⟨[], first, rest, rfl, starts ▸ begun, contained, List.forall_mem_nil _, behind⟩
      · obtain ⟨before, entry, after, rfl, containing, earlier, others⟩ :=
          inductionHypothesis later (Nat.le_of_not_lt contained)
        have isLater := behind entry (List.mem_append_right _ List.mem_cons_self)
        exact ⟨first :: before, entry, after, rfl, containing, earlier,
          List.forall_mem_cons.mpr ⟨isLater, others.1⟩, others.2⟩

namespace ParseTree

mutual

/-- The tokens of a tiled tree fill its range without a gap. -/
theorem Tiled.tile_tokens {tree : ParseTree} (tiled : tree.Tiled) :
    Token.Tile tree.range.start tree.tokens tree.range.stop := by
  match tree with
  | .leaf token => exact ⟨rfl, rfl⟩
  | .node kind range children => exact tiled.1.tile_tokens

theorem Tile.tile_tokens {start stop : Nat} {trees : List ParseTree}
    (tile : Tile start trees stop) : Token.Tile start (tokensOf trees) stop := by
  match trees with
  | [] => exact tile
  | tree :: rest =>
      obtain ⟨begun, tiled, later⟩ := tile
      rw [tokensOf_cons]
      exact (begun ▸ tiled.tile_tokens).append later.tile_tokens

end

end ParseTree

end Syntax

/-! ## The rule at an offset -/

/-- Tokens with the rules that they have: the tokens fill a range, the rules follow one another
in it, and each token has the rule that it stands in. -/
structure Walked (range : Range) (rules : List Rule) (entries : List (Token × Option Rule)) :
    Prop where
  tile : Token.Tile range.start (entries.map Prod.fst) range.stop
  assigned : ∀ entry ∈ entries, Assigned none rules entry
  ordered : rules.Pairwise fun left right => left.range.Precedes right.range
  filled : ∀ rule ∈ rules, rule.range.start < rule.range.stop
  inside : ∀ rule ∈ rules, rule.range.Inside range

theorem walked_of_text {text : String} {parse : Parse} (read : Parse.ofText? text = some parse) :
    Walked parse.tree.range (rulesOf parse.tree) (tokensInRules parse.tree) where
  tile := by
    rw [tokensInRules, map_fst_prependTokensInRules, List.map_nil, List.append_nil]
    exact (Parse.tiled_of_text read).1.tile_tokens
  assigned entry isEntry := by
    rcases assigned_of_mem_prepend (Parse.tiled_of_text read).1 isEntry with none | assigned
    · cases none
    · exact assigned.2
  ordered := pairwise_rules read
  filled _ isRule := start_lt_stop_of_rule read isRule
  inside _ isRule := inside_of_mem_rulesOf (Parse.tiled_of_text read).1 isRule

def touchesAt (offset : Nat) (entry : Token × Option Rule) : Bool :=
  (Range.mk entry.1.offset entry.1.stop).touches offset

/-- The rule of the last token at an offset, or else of the first. -/
def ruleTouching? (entries : List (Token × Option Rule)) (offset : Nat) : Option Rule :=
  ((entries.filter (touchesAt offset)).getLast?.bind Prod.snd).or
    ((entries.filter (touchesAt offset)).head?.bind Prod.snd)

namespace Walked

variable {range : Range} {rules : List Rule} {entries : List (Token × Option Rule)}
  (walked : Walked range rules entries) {rule other : Rule} {offset : Nat}

include walked

/-- Two rules that end at one offset are the same. -/
theorem eq_of_stop (isRule : rule ∈ rules) (isOther : other ∈ rules)
    (ends : rule.range.stop = offset) (endsOther : other.range.stop = offset) : rule = other := by
  have filled := walked.filled rule isRule
  have filledOther := walked.filled other isOther
  refine Range.eq_of_overlaps walked.ordered isRule isOther ?_
  unfold Range.Overlaps
  omega

/-- A token that shares a byte with a rule has this rule. -/
theorem has_of_overlaps {entry : Token × Option Rule} (isEntry : entry ∈ entries)
    (isRule : rule ∈ rules)
    (overlaps : (Range.mk entry.1.offset entry.1.stop).Overlaps rule.range) :
    entry.2 = some rule := by
  rcases walked.assigned entry isEntry with ⟨own, isOwn, has, inside⟩ | ⟨_, outside⟩
  · have same : own = rule := by
      refine Range.eq_of_overlaps walked.ordered isOwn isRule ?_
      exact ⟨Nat.lt_of_le_of_lt inside.1 overlaps.1, Nat.lt_of_lt_of_le overlaps.2 inside.2⟩
    exact has.trans (congrArg some same)
  · exact absurd overlaps (outside rule isRule)

/-- The rule of a token at an offset contains the offset or ends there. -/
theorem touches_of_has {entry : Token × Option Rule}
    (isTouching : entry ∈ entries.filter (touchesAt offset)) (has : entry.2 = some rule) :
    rule ∈ rules ∧ (rule.range.contains offset = true ∨ rule.range.stop = offset) := by
  obtain ⟨isEntry, touches⟩ := List.mem_filter.mp isTouching
  rcases walked.assigned entry isEntry with ⟨own, isOwn, hasOwn, inside⟩ | ⟨none, _⟩
  · obtain rfl := Option.some.inj (hasOwn.symm.trans has)
    rw [touchesAt, Range.touches_iff] at touches
    refine ⟨isOwn, ?_⟩
    rw [Range.contains_iff]
    unfold Range.Inside at inside
    dsimp only at touches inside
    omega
  · rw [none] at has
    cases has

/-- The last token at an offset has the rule that contains the offset. -/
theorem getLast?_touching (isRule : rule ∈ rules) (contains : rule.range.contains offset = true) :
    (entries.filter (touchesAt offset)).getLast?.bind Prod.snd = some rule := by
  obtain ⟨starts, stops⟩ := (Range.contains_iff _ _).mp contains
  have within := walked.inside rule isRule
  obtain ⟨before, entry, after, split, begins, ends, _, later⟩ :=
    walked.tile.exists_containing (Nat.le_trans within.1 starts)
      (Nat.lt_of_lt_of_le stops within.2)
  have isEntry : entry ∈ entries := by simp [split]
  have has : entry.2 = some rule :=
    walked.has_of_overlaps isEntry isRule
      ⟨Nat.lt_of_le_of_lt begins stops, Nat.lt_of_le_of_lt starts ends⟩
  have own : touchesAt offset entry = true :=
    (Range.touches_iff _ _).mpr ⟨begins, Nat.le_of_lt ends⟩
  have none : after.filter (touchesAt offset) = [] := by
    refine List.filter_eq_nil_iff.mpr fun other isOther touches => ?_
    have behind := later other isOther
    have reached := ((Range.touches_iff _ _).mp touches).1
    dsimp only at reached
    omega
  rw [split, List.filter_append, List.filter_cons_of_pos own, none,
    List.getLast?_append_of_ne_nil _ (List.cons_ne_nil _ _)]
  exact has

/-- The first token at an offset has the rule that ends there. -/
theorem head?_touching (isRule : rule ∈ rules) (ends : rule.range.stop = offset) :
    (entries.filter (touchesAt offset)).head?.bind Prod.snd = some rule := by
  have filled := walked.filled rule isRule
  have within := walked.inside rule isRule
  have last : rule.range.start ≤ offset - 1 ∧ offset - 1 < rule.range.stop := by omega
  obtain ⟨before, entry, after, split, begins, reaches, earlier, _⟩ :=
    walked.tile.exists_containing (Nat.le_trans within.1 last.1)
      (Nat.lt_of_lt_of_le last.2 within.2)
  have isEntry : entry ∈ entries := by simp [split]
  have has : entry.2 = some rule :=
    walked.has_of_overlaps isEntry isRule
      ⟨Nat.lt_of_le_of_lt begins last.2, Nat.lt_of_le_of_lt last.1 reaches⟩
  have own : touchesAt offset entry = true :=
    (Range.touches_iff _ _).mpr ⟨by dsimp only; omega, by dsimp only; omega⟩
  have none : before.filter (touchesAt offset) = [] := by
    refine List.filter_eq_nil_iff.mpr fun other isOther touches => ?_
    have ahead := earlier other isOther
    have reached := ((Range.touches_iff _ _).mp touches).2
    dsimp only at reached
    omega
  rw [split, List.filter_append, List.filter_cons_of_pos own, none]
  exact has

/-- Where no rule contains the offset, the rule that ends there is selected. -/
theorem ruleTouching?_of_stop (outside : ∀ rule ∈ rules, ¬rule.range.contains offset = true)
    (isRule : rule ∈ rules) (ends : rule.range.stop = offset) :
    ruleTouching? entries offset = some rule := by
  rw [ruleTouching?, walked.head?_touching isRule ends]
  cases last : (entries.filter (touchesAt offset)).getLast?.bind Prod.snd with
  | none => rfl
  | some other =>
      obtain ⟨entry, isLast, has⟩ := Option.bind_eq_some_iff.mp last
      obtain ⟨isOther, contains | endsOther⟩ :=
        walked.touches_of_has (List.mem_of_getLast? isLast) has
      · exact absurd contains (outside other isOther)
      · exact congrArg some (walked.eq_of_stop isOther isRule endsOther ends)

/-- Where no rule contains the offset or ends there, none is selected. -/
theorem ruleTouching?_of_none (outside : ∀ rule ∈ rules, ¬rule.range.contains offset = true)
    (unended : ∀ rule ∈ rules, rule.range.stop ≠ offset) : ruleTouching? entries offset = none := by
  have alone : ∀ entry ∈ entries.filter (touchesAt offset), entry.2 = none := by
    intro entry isTouching
    by_contra some
    obtain ⟨rule, has⟩ := Option.ne_none_iff_exists'.mp some
    obtain ⟨isRule, contains | ends⟩ := walked.touches_of_has isTouching has
    · exact outside rule isRule contains
    · exact unended rule isRule ends
  have last : (entries.filter (touchesAt offset)).getLast?.bind Prod.snd = none :=
    Option.bind_eq_none_iff.mpr fun entry isLast => alone entry (List.mem_of_getLast? isLast)
  have first : (entries.filter (touchesAt offset)).head?.bind Prod.snd = none :=
    Option.bind_eq_none_iff.mpr fun entry isFirst => alone entry (List.mem_of_head? isFirst)
  rw [ruleTouching?, last, first]
  rfl

end Walked

namespace SourceFile

/-- The rule around an offset, or else the rule that ends there. -/
def ruleAround? (source : SourceFile) (offset : Nat) : Option Rule :=
  (source.analysis.rules.find? fun rule => rule.range.contains offset).or
    (source.analysis.rules.find? fun rule => rule.range.stop = offset)

theorem walked (source : SourceFile) :
    Walked source.analysis.parse.tree.range source.analysis.rules
      (tokensInRules source.analysis.parse.tree) :=
  walked_of_text source.analysis.parse_eq

/-- The rule that an offset selects is told by the ranges of the rules. -/
theorem ruleAt?_eq (source : SourceFile) (offset : Nat) :
    source.ruleAt? offset = source.ruleAround? offset := by
  have walked := source.walked
  show ruleTouching? (tokensInRules source.analysis.parse.tree) offset = _
  unfold ruleAround?
  cases around : source.analysis.rules.find? fun rule => rule.range.contains offset with
  | some rule =>
      have contains := List.find?_some around
      rw [ruleTouching?, walked.getLast?_touching (List.mem_of_find?_eq_some around) contains]
      rfl
  | none =>
      have outside := List.find?_eq_none.mp around
      cases ended : source.analysis.rules.find? fun rule => rule.range.stop = offset with
      | some rule =>
          have ends : rule.range.stop = offset := by simpa using List.find?_some ended
          exact walked.ruleTouching?_of_stop outside (List.mem_of_find?_eq_some ended) ends
      | none =>
          have unended := List.find?_eq_none.mp ended
          exact walked.ruleTouching?_of_none outside fun rule isRule ends =>
            unended rule isRule (decide_eq_true ends)

end SourceFile

/-- A position of a loaded file selects the rule around its offset, of which there is one at most;
or else the rule that ends at the offset, of which there is again one at most; or else none. The
answer is the name of the selected rule, if it has one. -/
theorem rule_under_cursor (snapshot : Snapshot) (path : File.Path) (position : Position)
    (source : SourceFile) (offset : Nat) (loaded : snapshot.fileAt? path = some source)
    (valid : source.offset position = .ok offset) :
    let rules := source.analysis.rules
    let around := rules.filter fun rule => rule.range.contains offset
    let ended := rules.filter fun rule => rule.range.stop = offset
    around.length ≤ 1 ∧ ended.length ≤ 1 ∧
      snapshot.ruleAt path position = .ok ((around.head?.or ended.head?).bind Rule.nameText) := by
  intro rules around ended
  have walked := source.walked
  refine ⟨length_filter_le_one (walked.ordered.imp ?_),
    length_filter_le_one (walked.ordered.imp_of_mem ?_), ?_⟩
  · intro left right precedes contains containsOther
    have former := (Range.contains_iff _ _).mp contains
    have latter := (Range.contains_iff _ _).mp containsOther
    have ordered := precedes.2
    omega
  · intro left right _ isRight precedes ends endsOther
    have former : left.range.stop = offset := of_decide_eq_true ends
    have latter : right.range.stop = offset := of_decide_eq_true endsOther
    have ordered := precedes.2
    have filled := walked.filled right isRight
    omega
  · show snapshot.ruleAt path position =
      .ok (((rules.filter _).head?.or (rules.filter _).head?).bind Rule.nameText)
    rw [List.head?_filter, List.head?_filter, Snapshot.ruleAt, loaded]
    dsimp only
    rw [valid]
    show Except.ok ((source.ruleAt? offset).bind Rule.nameText) = _
    rw [source.ruleAt?_eq]
    rfl

/-- Behind the first of two rules, before the blank that parts them. -/
theorem rule_under_cursor_behind :
    let text := "grammar G;a:b; c:d;"
    let snapshot := ((Session.new .standard).run [.load ⟨"/g/G.g4"⟩ text]).workspace.snapshot
    ∃ source, snapshot.fileAt? ⟨"/g/G.g4"⟩ = some source ∧
      source.offset ⟨0, 14⟩ = .ok 14 ∧
      snapshot.ruleAt ⟨"/g/G.g4"⟩ ⟨0, 14⟩ = .ok (some "a") := by
  intro text snapshot
  have facts : (snapshot.fileAt? ⟨"/g/G.g4"⟩).map (fun source =>
      (source.offset ⟨0, 14⟩, (source.ruleAround? 14).bind Rule.nameText)) =
      some (.ok 14, some "a") := by decide +kernel
  obtain ⟨source, loaded, answers⟩ := Option.map_eq_some_iff.mp facts
  obtain ⟨valid, name⟩ := Prod.ext_iff.mp answers
  have selected := (rule_under_cursor snapshot _ _ source 14 loaded valid).2.2
  rw [List.head?_filter, List.head?_filter] at selected
  exact ⟨source, loaded, valid, selected.trans (congrArg Except.ok name)⟩

end GrammarDesk
