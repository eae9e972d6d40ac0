import GrammarDesk.Syntax.ParseTree
import GrammarDesk.Syntax.Reading

/-!
Contract: what stands directly under a node of each kind, whether or not a text is well formed.

Owns: the slots of each kind of node, which parts fit into slots, the test that one list of
slots covers another, and how the steps that readers are made of fill slots.

Does not own: the slots that each production fills (`Nesting`).

The slots of a node say less than the grammar does: what a reader may leave out is optional,
and what it repeats with separators is one slot for both. They say enough to tell what the
functions that read a tree find in it.

Main statements: `fits_of_coveredBy`, `Fills.node`.
-/

namespace GrammarDesk.Syntax

/-! ## Parts and slots -/

/-- What stands directly under a node, told by its kind: a token that is no trivia, or another
node. -/
inductive Part where
  | token (kind : Kind)
  | node (kind : Kind)
deriving DecidableEq, Repr

/-- A place under a node for parts of some sorts. -/
inductive Slot where
  | one (parts : List Part)
  | optional (parts : List Part)
  | many (parts : List Part)
deriving Repr

namespace Slot

def parts : Slot → List Part
  | .one parts | .optional parts | .many parts => parts

def mayBeEmpty : Slot → Bool
  | .one _ => false
  | .optional _ | .many _ => true

def isMany : Slot → Bool
  | .one _ | .optional _ => false
  | .many _ => true

end Slot

/-- The parts fill the slots one after another. -/
inductive Fits : List Slot → List Part → Prop where
  | nil : Fits [] []
  | empty {slot : Slot} {slots : List Slot} {parts : List Part} (mayBe : slot.mayBeEmpty = true)
      (rest : Fits slots parts) : Fits (slot :: slots) parts
  | last {slot : Slot} {slots : List Slot} {part : Part} {parts : List Part}
      (taken : part ∈ slot.parts) (rest : Fits slots parts) : Fits (slot :: slots) (part :: parts)
  | more {slot : Slot} {slots : List Slot} {part : Part} {parts : List Part}
      (isMany : slot.isMany = true) (taken : part ∈ slot.parts)
      (rest : Fits (slot :: slots) parts) : Fits (slot :: slots) (part :: parts)

theorem Fits.append {first second : List Slot} {left right : List Part}
    (fitsLeft : Fits first left) (fitsRight : Fits second right) :
    Fits (first ++ second) (left ++ right) := by
  induction fitsLeft with
  | nil => exact fitsRight
  | empty mayBe _ inductionHypothesis => exact .empty mayBe inductionHypothesis
  | last taken _ inductionHypothesis => exact .last taken inductionHypothesis
  | more isMany taken _ inductionHypothesis => exact .more isMany taken inductionHypothesis

/-- Any number of parts fill a slot that takes many if it takes each of them. -/
theorem fits_many_iff {parts all : List Part} :
    Fits [.many parts] all ↔ ∀ part ∈ all, part ∈ parts := by
  constructor
  · intro fits
    generalize whole : [Slot.many parts] = slots at fits
    induction fits with
    | nil => cases whole
    | empty _ rest _ =>
        cases whole
        cases rest
        exact List.forall_mem_nil _
    | last taken rest _ =>
        cases whole
        cases rest
        exact List.forall_mem_singleton.mpr taken
    | more _ taken _ inductionHypothesis =>
        exact List.forall_mem_cons.mpr ⟨by cases whole; exact taken, inductionHypothesis whole⟩
  · intro each
    induction all with
    | nil => exact .empty rfl .nil
    | cons part rest inductionHypothesis =>
        obtain ⟨taken, eachRest⟩ := List.forall_mem_cons.mp each
        exact .more rfl taken (inductionHypothesis eachRest)

/-- What all slots take, all parts are. -/
theorem Fits.forall_mem {slots : List Slot} {parts : List Part} {test : Part → Bool}
    (fits : Fits slots parts) (each : slots.all (fun slot => slot.parts.all test) = true) :
    ∀ part ∈ parts, test part = true := by
  have taken : ∀ {slot : Slot} {slots : List Slot} {part : Part}, part ∈ slot.parts →
      (slot :: slots).all (fun slot => slot.parts.all test) = true → test part = true := by
    intro slot slots part isPart each
    rw [List.all_cons, Bool.and_eq_true] at each
    exact List.all_eq_true.mp each.1 part isPart
  have later : ∀ {slot : Slot} {slots : List Slot},
      (slot :: slots).all (fun slot => slot.parts.all test) = true →
        slots.all (fun slot => slot.parts.all test) = true := by
    intro slot slots each
    rw [List.all_cons, Bool.and_eq_true] at each
    exact each.2
  induction fits with
  | nil => exact List.forall_mem_nil _
  | empty _ _ inductionHypothesis => exact inductionHypothesis (later each)
  | last isPart _ inductionHypothesis =>
      exact List.forall_mem_cons.mpr ⟨taken isPart each, inductionHypothesis (later each)⟩
  | more _ isPart _ inductionHypothesis =>
      exact List.forall_mem_cons.mpr ⟨taken isPart each, inductionHypothesis each⟩

/-- A slot for one part has one. -/
theorem Fits.exists_mem {slots : List Slot} {parts own : List Part} (fits : Fits slots parts)
    (isSlot : .one own ∈ slots) : ∃ part ∈ parts, part ∈ own := by
  induction fits with
  | nil => cases isSlot
  | empty mayBe _ inductionHypothesis =>
      rcases List.mem_cons.mp isSlot with rfl | isSlot
      · cases mayBe
      · exact inductionHypothesis isSlot
  | last taken _ inductionHypothesis =>
      rcases List.mem_cons.mp isSlot with rfl | isSlot
      · exact ⟨_, List.mem_cons_self, taken⟩
      · obtain ⟨part, isPart, isOwn⟩ := inductionHypothesis isSlot
        exact ⟨part, List.mem_cons_of_mem _ isPart, isOwn⟩
  | more _ _ _ inductionHypothesis =>
      obtain ⟨part, isPart, isOwn⟩ := inductionHypothesis isSlot
      exact ⟨part, List.mem_cons_of_mem _ isPart, isOwn⟩

/-- There are at most as many parts of a sort as slots that take one, if no slot takes many of
them. -/
theorem Fits.countP_le {slots : List Slot} {parts : List Part} {test : Part → Bool}
    (fits : Fits slots parts)
    (notMany : slots.all (fun slot => !(slot.isMany && slot.parts.any test)) = true) :
    parts.countP test ≤ slots.countP fun slot => slot.parts.any test := by
  induction fits with
  | nil => exact Nat.le_refl _
  | empty _ _ inductionHypothesis =>
      rw [List.all_cons, Bool.and_eq_true] at notMany
      rw [List.countP_cons]
      exact Nat.le_trans (inductionHypothesis notMany.2) (Nat.le_add_right _ _)
  | @last slot slots part parts taken _ inductionHypothesis =>
      rw [List.all_cons, Bool.and_eq_true] at notMany
      have others := inductionHypothesis notMany.2
      rw [List.countP_cons, List.countP_cons]
      by_cases passes : test part = true
      · rw [if_pos passes, if_pos (List.any_eq_true.mpr ⟨part, taken, passes⟩)]
        exact Nat.succ_le_succ others
      · rw [if_neg passes]
        exact Nat.le_trans others (Nat.le_add_right _ _)
  | @more slot slots part parts isMany taken _ inductionHypothesis =>
      have others := inductionHypothesis notMany
      rw [List.all_cons, Bool.and_eq_true, isMany, Bool.true_and, Bool.not_eq_true'] at notMany
      rw [List.countP_cons, if_neg (List.any_eq_false.mp notMany.1 part taken)]
      exact others

/-- What fills slots one after another comes in two pieces. -/
theorem Fits.split {first second : List Slot} {parts : List Part}
    (fits : Fits (first ++ second) parts) :
    ∃ left right, parts = left ++ right ∧ Fits first left ∧ Fits second right := by
  generalize whole : first ++ second = slots at fits
  induction fits generalizing first with
  | nil =>
      obtain ⟨rfl, rfl⟩ := List.append_eq_nil_iff.mp whole
      exact ⟨[], [], rfl, .nil, .nil⟩
  | @empty slot slots parts mayBe rest inductionHypothesis =>
      cases first with
      | nil =>
          obtain rfl : second = slot :: slots := whole
          exact ⟨[], parts, rfl, .nil, .empty mayBe rest⟩
      | cons own others =>
          obtain ⟨rfl, rfl⟩ := List.cons.inj whole
          obtain ⟨left, right, rfl, fitsLeft, fitsRight⟩ := inductionHypothesis rfl
          exact ⟨left, right, rfl, .empty mayBe fitsLeft, fitsRight⟩
  | @last slot slots part parts taken rest inductionHypothesis =>
      cases first with
      | nil =>
          obtain rfl : second = slot :: slots := whole
          exact ⟨[], part :: parts, rfl, .nil, .last taken rest⟩
      | cons own others =>
          obtain ⟨rfl, rfl⟩ := List.cons.inj whole
          obtain ⟨left, right, rfl, fitsLeft, fitsRight⟩ := inductionHypothesis rfl
          exact ⟨part :: left, right, rfl, .last taken fitsLeft, fitsRight⟩
  | @more slot slots part parts isMany taken rest inductionHypothesis =>
      cases first with
      | nil =>
          obtain rfl : second = slot :: slots := whole
          exact ⟨[], part :: parts, rfl, .nil, .more isMany taken rest⟩
      | cons own others =>
          obtain ⟨left, right, rfl, fitsLeft, fitsRight⟩ := inductionHypothesis whole
          obtain ⟨rfl, rfl⟩ := List.cons.inj whole
          exact ⟨part :: left, right, rfl, .more isMany taken fitsLeft, fitsRight⟩

/-! ## Covering -/

namespace Slot

/-- Whether all that fills the first slot also fills the second. -/
def within (slot other : Slot) : Bool :=
  slot.parts ⊆ other.parts && (slot.isMany → other.isMany) && (slot.mayBeEmpty → other.mayBeEmpty)

end Slot

/-- Whether a slot and those that the rest is asked about cover some slots. -/
def coveredWith (other : Slot) (rest : List Slot → Bool) : List Slot → Bool
  | [] => other.mayBeEmpty && rest []
  | slot :: slots =>
      (slot.within other && rest slots) ||
        (other.mayBeEmpty && rest (slot :: slots)) ||
        (other.isMany && slot.parts ⊆ other.parts && coveredWith other rest slots)

/-- Whether all that fills the first slots also fills the second. Several slots may be covered
by one that takes many parts. -/
def coveredBy : (slots others : List Slot) → Bool
  | slots, [] => slots.isEmpty
  | slots, other :: others => coveredWith other (fun remaining => coveredBy remaining others) slots

theorem Fits.of_within {slot other : Slot} (isWithin : slot.within other = true)
    {slots others : List Slot} (mono : ∀ {parts}, Fits slots parts → Fits others parts)
    {parts : List Part} (fits : Fits (slot :: slots) parts) : Fits (other :: others) parts := by
  simp only [Slot.within, Bool.and_eq_true, decide_eq_true_eq] at isWithin
  obtain ⟨⟨included, isMany⟩, mayBe⟩ := isWithin
  generalize whole : slot :: slots = all at fits
  induction fits with
  | nil => cases whole
  | empty empty rest _ =>
      cases whole
      exact .empty (mayBe empty) (mono rest)
  | last taken rest _ =>
      cases whole
      exact .last (included taken) (mono rest)
  | more many taken _ inductionHypothesis =>
      cases whole
      exact .more (isMany many) (included taken) (inductionHypothesis rfl)

/-- What fills slots whose parts one slot takes, any number of them, fills that slot too. -/
theorem Fits.of_isMany {slot other : Slot} (isMany : other.isMany = true)
    (included : slot.parts ⊆ other.parts) {slots others : List Slot}
    (mono : ∀ {parts}, Fits slots parts → Fits (other :: others) parts)
    {parts : List Part} (fits : Fits (slot :: slots) parts) : Fits (other :: others) parts := by
  generalize whole : slot :: slots = all at fits
  induction fits with
  | nil => cases whole
  | empty _ rest _ =>
      cases whole
      exact mono rest
  | last taken rest _ =>
      cases whole
      exact .more isMany (included taken) (mono rest)
  | more _ taken _ inductionHypothesis =>
      cases whole
      exact .more isMany (included taken) (inductionHypothesis rfl)

/-- Parts that fit some slots fit others that cover them one by one. -/
theorem fits_of_coveredByWith {other : Slot} {rest : List Slot → Bool} {others : List Slot}
    (mono : ∀ slots, rest slots = true → ∀ {parts}, Fits slots parts → Fits others parts)
    {slots : List Slot} (isCovered : coveredWith other rest slots = true)
    {parts : List Part} (fits : Fits slots parts) : Fits (other :: others) parts := by
  induction slots generalizing parts with
  | nil =>
      rw [coveredWith, Bool.and_eq_true] at isCovered
      exact .empty isCovered.1 (mono [] isCovered.2 fits)
  | cons slot slots inductionHypothesis =>
      simp only [coveredWith, Bool.or_eq_true, Bool.and_eq_true, decide_eq_true_eq] at isCovered
      rcases isCovered with (⟨isWithin, isRest⟩ | ⟨mayBe, isRest⟩) | ⟨⟨isMany, included⟩, isRest⟩
      · exact fits.of_within isWithin (mono slots isRest)
      · exact .empty mayBe (mono (slot :: slots) isRest fits)
      · exact fits.of_isMany isMany included (inductionHypothesis isRest)

theorem fits_of_coveredBy {slots others : List Slot} (isCovered : coveredBy slots others = true)
    {parts : List Part} (fits : Fits slots parts) : Fits others parts := by
  induction others generalizing slots parts with
  | nil =>
      obtain rfl := List.isEmpty_iff.mp isCovered
      exact fits
  | cons other others inductionHypothesis =>
      exact fits_of_coveredByWith (fun slots isRest => inductionHypothesis isRest) isCovered fits

/-! ## The slots of each kind -/

def anyToken : List Part :=
  Kind.all.map .token

theorem mem_anyToken (kind : Kind) : .token kind ∈ anyToken := by
  cases kind <;> decide

def atomParts : List Part :=
  [.node .ruleRef, .node .tokenRef, .node .stringLiteral, .node .charRange, .node .charSet,
    .node .wildcard, .node .negation, .node .block, .node .actionElement, .node .predicate,
    .node .error]

def elementParts : List Part :=
  [.node .labeledElement, .node .repeatedElement] ++ atomParts

/-- The keywords before the name of a rule. -/
def modifierParts : List Part :=
  [.token .fragmentKeyword, .token .publicKeyword, .token .privateKeyword,
    .token .protectedKeyword]

/-- What stands between the name of a rule and its colon. -/
def specParts : List Part :=
  [.node .argSpec, .node .returnsSpec, .node .localsSpec, .node .throwsSpec,
    .node .optionsSpec, .node .ruleAction]

/-- What stands directly in a mode after its name. -/
def modeParts : List Part :=
  [.node .parserRule, .node .lexerRule, .node .error, .token .semicolon]

def fileParts : List Part :=
  [.node .header, .node .optionsSpec, .node .importDecl, .node .tokensSpec,
    .node .channelsSpec, .node .namedAction, .node .modeSection] ++ modeParts

/-- The words of which the name of an action consists. -/
def wordParts : List Part :=
  [.token .identifier, .token .parserKeyword, .token .lexerKeyword]

def listSlots (keyword entry : Kind) : List Slot :=
  [.one [.token keyword], .optional [.token .leftBrace], .many [.node entry, .token .comma],
    .optional [.node .error], .optional [.token .rightBrace]]

def ruleSlots : List Slot :=
  [.many modifierParts, .optional [.node .name], .many specParts, .optional [.token .colon],
    .optional [.node .alternativeList], .optional [.node .error], .optional [.token .semicolon],
    .many [.node .exceptionHandler], .optional [.node .finallyClause]]

def Kind.contents : Kind → List Slot
  | .sourceFile => [.many fileParts]
  | .header =>
      [.one [.token .grammarKeyword, .token .lexerKeyword, .token .parserKeyword],
        .optional [.token .grammarKeyword], .optional [.node .name],
        .optional [.token .semicolon]]
  | .name => [.one wordParts, .optional [.token .doubleColon], .optional wordParts]
  | .nameRef => [.one [.token .identifier], .many [.token .dot, .token .identifier]]
  | .optionsSpec =>
      [.one [.token .optionsKeyword], .optional [.token .leftBrace],
        .many [.node .option, .node .error, .token .semicolon], .optional [.token .rightBrace]]
  | .option =>
      [.one [.token .identifier], .optional [.token .equals],
        .optional [.node .nameRef, .token .string, .token .integer, .token .action],
        .optional [.token .semicolon]]
  | .importDecl =>
      [.one [.token .importKeyword], .many [.node .importItem, .token .comma],
        .optional [.token .semicolon]]
  | .importItem =>
      [.optional [.node .name], .optional [.token .equals], .optional [.node .nameRef]]
  | .tokensSpec => listSlots .tokensKeyword .tokenDecl
  | .channelsSpec => listSlots .channelsKeyword .channelDecl
  | .tokenDecl | .channelDecl => [.one [.node .name]]
  | .namedAction =>
      [.one [.token .atSign], .optional [.node .name], .optional [.token .action]]
  | .modeSection =>
      [.one [.token .modeKeyword], .optional [.node .name], .optional [.token .semicolon],
        .many modeParts]
  | .parserRule | .lexerRule => ruleSlots
  | .argSpec => [.one [.token .bracketBlock]]
  | .returnsSpec => [.one [.token .returnsKeyword], .optional [.token .bracketBlock]]
  | .localsSpec => [.one [.token .localsKeyword], .optional [.token .bracketBlock]]
  | .throwsSpec => [.one [.token .throwsKeyword], .many [.token .identifier, .token .comma]]
  | .ruleAction =>
      [.one [.token .atSign], .optional [.token .identifier], .optional [.token .action]]
  | .exceptionHandler =>
      [.one [.token .catchKeyword], .optional [.token .bracketBlock], .optional [.token .action]]
  | .finallyClause => [.one [.token .finallyKeyword], .optional [.token .action]]
  | .alternativeList => [.one [.node .alternative], .many [.token .pipe, .node .alternative]]
  | .alternative =>
      [.optional [.node .elementOptions], .many elementParts,
        .optional [.node .alternativeLabel], .optional [.node .lexerCommands]]
  | .alternativeLabel => [.one [.token .hash], .optional [.node .name]]
  | .elementOptions => [.one [.token .less], .many anyToken, .optional [.token .greater]]
  | .labeledElement =>
      [.one [.token .identifier], .one [.token .equals, .token .plusEquals],
        .optional atomParts]
  | .repeatedElement =>
      [.one (.node .labeledElement :: atomParts),
        .one [.token .question, .token .star, .token .plus], .optional [.token .question]]
  | .block =>
      [.one [.token .leftParen], .optional [.node .optionsSpec], .optional [.token .colon],
        .one [.node .alternativeList], .optional [.token .rightParen]]
  | .ruleRef =>
      [.one [.token .identifier], .optional [.node .argSpec], .optional [.node .elementOptions]]
  | .tokenRef => [.one [.token .identifier], .optional [.node .elementOptions]]
  | .stringLiteral => [.one [.token .string], .optional [.node .elementOptions]]
  | .charRange => [.one [.token .string], .one [.token .doubleDot], .optional [.token .string]]
  | .charSet => [.one [.token .bracketBlock]]
  | .wildcard => [.one [.token .dot], .optional [.node .elementOptions]]
  | .negation => [.one [.token .tilde], .optional atomParts]
  | .actionElement => [.one [.token .action]]
  | .predicate =>
      [.one [.token .action], .one [.token .question], .optional [.node .elementOptions]]
  | .lexerCommands => [.one [.token .arrow], .many [.node .lexerCommand, .token .comma]]
  | .lexerCommand =>
      [.optional [.token .identifier, .token .modeKeyword], .optional [.token .leftParen],
        .optional [.node .nameRef, .token .integer], .optional [.token .rightParen]]
  | .error => [.many anyToken]
  | _ => []

/-- Rules are of two kinds. -/
theorem Kind.eq_of_isRule {kind : Kind} (isRule : kind.isRule = true) :
    kind = .parserRule ∨ kind = .lexerRule := by
  cases kind <;> first | exact .inl rfl | exact .inr rfl | cases isRule

/-! ## Nested shapes -/

def Part.ofShape : Shape → Part
  | .leaf lexeme => .token lexeme.kind
  | .node kind _ => .node kind

mutual

/-- Under every node of the shape stand parts that fit into its slots. -/
def Shape.Nested : Shape → Prop
  | .leaf _ => True
  | .node kind children => Fits kind.contents (children.map Part.ofShape) ∧ Shape.AllNested children

/-- Under every node of the shapes stand parts that fit into its slots. -/
def Shape.AllNested : List Shape → Prop
  | [] => True
  | shape :: rest => shape.Nested ∧ Shape.AllNested rest

end

theorem Shape.AllNested.append {left right : List Shape} (nestedLeft : AllNested left)
    (nestedRight : AllNested right) : AllNested (left ++ right) := by
  induction left with
  | nil => exact nestedRight
  | cons shape rest inductionHypothesis =>
      exact ⟨nestedLeft.1, inductionHypothesis nestedLeft.2⟩

/-! ## Readings that fill slots -/

namespace Reading

variable {input : List Lexeme} {limit : Nat} {reading : Reading input limit}
variable {head : Lexeme} {tail : List Lexeme} {kind : Kind} {fault : Fault} {place : Place}
variable {slots others : List Slot} {parts : List Part}

/-- The shapes that were built are nested and fill the slots. -/
structure Fills (reading : Reading input limit) (slots : List Slot) : Prop where
  fits : Fits slots (reading.shapes.map Part.ofShape)
  nested : Shape.AllNested reading.shapes

theorem Fills.cover (fills : reading.Fills slots) (isCovered : coveredBy slots others = true) :
    reading.Fills others :=
  ⟨fits_of_coveredBy isCovered fills.fits, fills.nested⟩

theorem fills_nothing : (nothing input).Fills [] :=
  ⟨.nil, trivial⟩

theorem fills_take (listed : .token head.kind ∈ parts) : (take head tail).Fills [.one parts] :=
  ⟨.last listed .nil, trivial, trivial⟩

theorem fills_take_kind (tail : List Lexeme) (same : head.kind = kind) :
    (take head tail).Fills [.one [.token kind]] :=
  fills_take (List.mem_singleton.mpr (congrArg Part.token same))

theorem Fills.attempt {reading : Advance head tail} (fills : reading.Fills slots) :
    reading.attempt.Fills slots :=
  ⟨fills.fits, fills.nested⟩

theorem Fills.report (fills : reading.Fills slots) : (reading.report fault).Fills slots :=
  ⟨fills.fits, fills.nested⟩

theorem Fills.reportAfter (fills : reading.Fills slots) :
    (reading.reportAfter fault).Fills slots :=
  ⟨fills.fits, fills.nested⟩

theorem Fills.preface (fills : reading.Fills slots) : (reading.preface fault).Fills slots :=
  ⟨fills.fits, fills.nested⟩

theorem Fills.append {limit' : Nat} {following : Reading reading.rest limit'}
    (fills : reading.Fills slots) (follows : following.Fills others) :
    (reading.append following).Fills (slots ++ others) := by
  refine ⟨?_, fills.nested.append follows.nested⟩
  show Fits _ ((reading.shapes ++ following.shapes).map Part.ofShape)
  rw [List.map_append]
  exact fills.fits.append follows.fits

theorem Fills.andThen {following : Attempt reading.rest} (fills : reading.Fills slots)
    (follows : following.Fills others) : (reading.andThen following).Fills (slots ++ others) :=
  ⟨(fills.append follows).fits, (fills.append follows).nested⟩

/-- What goes on filling the slot that takes many fills it altogether. -/
theorem Fills.appendMany {limit' : Nat} {following : Reading reading.rest limit'}
    (fills : reading.Fills [.many parts]) (follows : following.Fills [.many parts]) :
    (reading.append following).Fills [.many parts] := by
  refine ⟨fits_many_iff.mpr ?_, (fills.append follows).nested⟩
  show ∀ part ∈ (reading.shapes ++ following.shapes).map Part.ofShape, part ∈ parts
  rw [List.map_append]
  exact List.forall_mem_append.mpr ⟨fits_many_iff.mp fills.fits, fits_many_iff.mp follows.fits⟩

theorem Fills.more {following : Attempt reading.rest} (fills : reading.Fills [.many parts])
    (follows : following.Fills [.many parts]) :
    (reading.andThen following).Fills [.many parts] :=
  ⟨(fills.appendMany follows).fits, (fills.appendMany follows).nested⟩

theorem Fills.node (fills : reading.Fills kind.contents) :
    (reading.node kind).Fills [.one [.node kind]] :=
  ⟨.last (List.mem_singleton_self _) .nil, ⟨fills.fits, fills.nested⟩, trivial⟩

/-- A node is over what fills its slots. -/
theorem Fills.nodeOver (fills : reading.Fills slots)
    (isCovered : coveredBy slots kind.contents = true) :
    (reading.node kind).Fills [.one [.node kind]] :=
  (fills.cover isCovered).node

theorem fills_takeNext {kinds : List Kind} (next : Ahead.oneOf kinds input = true) :
    (takeNext input).Fills [.one (kinds.map .token)] := by
  obtain ⟨kind, isKind, next⟩ := List.any_eq_true.mp next
  cases input with
  | nil => cases next
  | cons head tail =>
      obtain rfl : head.kind = kind := of_decide_eq_true next
      exact ⟨.last (List.mem_map_of_mem isKind) .nil, trivial, trivial⟩

theorem Fills.bump_oneOf {kinds : List Kind} (fills : reading.Fills slots)
    (next : Ahead.oneOf kinds reading.rest = true) :
    reading.bump.Fills (slots ++ [.one (kinds.map .token)]) :=
  fills.andThen (fills_takeNext next)

theorem Fills.bump (fills : reading.Fills slots) (next : Ahead.next kind reading.rest = true) :
    reading.bump.Fills (slots ++ [.one [.token kind]]) :=
  fills.bump_oneOf (List.any_eq_true.mpr ⟨kind, List.mem_singleton_self kind, next⟩)

theorem Fills.optional (fills : reading.Fills [.one parts]) :
    reading.Fills [.optional parts] := by
  have isWithin : (Slot.one parts).within (.optional parts) = true := by
    simp [Slot.within, Slot.parts, Slot.isMany, Slot.mayBeEmpty]
  exact ⟨fills.fits.of_within isWithin id, fills.nested⟩

theorem Fills.many (fills : reading.Fills [.one parts]) : reading.Fills [.many parts] := by
  have isWithin : (Slot.one parts).within (.many parts) = true := by
    simp [Slot.within, Slot.parts, Slot.isMany, Slot.mayBeEmpty]
  exact ⟨fills.fits.of_within isWithin id, fills.nested⟩

theorem Fills.among {part : Part} (fills : reading.Fills [.one [part]]) (listed : part ∈ parts) :
    reading.Fills [.one parts] := by
  have isWithin : (Slot.one [part]).within (.one parts) = true := by
    simpa [Slot.within, Slot.parts, Slot.isMany, Slot.mayBeEmpty] using listed
  exact ⟨fills.fits.of_within isWithin id, fills.nested⟩

theorem fills_nothing_many : (nothing input).Fills [.many parts] :=
  ⟨.empty rfl .nil, trivial⟩

/-- A slot at the end may stay empty. -/
theorem Fills.orNothing (fills : reading.Fills slots) :
    reading.Fills (slots ++ [.optional parts]) := by
  refine ⟨?_, fills.nested⟩
  rw [← List.append_nil (reading.shapes.map Part.ofShape)]
  exact fills.fits.append (.empty rfl .nil)

theorem Fills.orNone (fills : reading.Fills slots) : reading.Fills (slots ++ [.many parts]) := by
  refine ⟨?_, fills.nested⟩
  rw [← List.append_nil (reading.shapes.map Part.ofShape)]
  exact fills.fits.append (.empty rfl .nil)

theorem Fills.bumpOptional (fills : reading.Fills slots)
    (next : Ahead.next kind reading.rest = true) :
    reading.bump.Fills (slots ++ [.optional [.token kind]]) :=
  fills.andThen (Fills.optional (fills_takeNext
    (List.any_eq_true.mpr ⟨kind, List.mem_singleton_self kind, next⟩)))

theorem Fills.eat (fills : reading.Fills slots) :
    (reading.eat kind).Fills (slots ++ [.optional [.token kind]]) := by
  unfold Reading.eat
  split
  case isTrue next => exact fills.bumpOptional next
  case isFalse => exact fills.orNothing

theorem Fills.expect (fills : reading.Fills slots) (kind : Kind) :
    (reading.expect kind).Fills (slots ++ [.optional [.token kind]]) := by
  unfold Reading.expect
  split
  case isTrue next => exact fills.bumpOptional next
  case isFalse => exact fills.report.orNothing

end Reading

end GrammarDesk.Syntax
