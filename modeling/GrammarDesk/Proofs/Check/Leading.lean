import GrammarDesk.Check.Opening
import GrammarDesk.Grammar.Rule

/-!
Contract: what an element of a rule body can match at its beginning.

Owns: which elements can match nothing and which rules an element can start with, given the
rules that can match nothing; the rules of a file that can; and the proof that an opening
finds exactly what holds if no rule can.

Does not own: paths from rule to rule (`Cycles`).

An element in a row is at the beginning if all before it can match nothing. What stands in a
negation is never at the beginning, since a negation matches none of it.

Main statements: `Opening.describes_ofAlternatives`, `BodyStartsFirmly.startsWith`.
-/

namespace GrammarDesk

open Grammar

namespace Grammar

/-! ## Elements at the beginning -/

/-- The element can match nothing, if references to `empty` rules can. -/
inductive Element.MatchesNothing (empty : String → Prop) : Element → Prop where
  | action (range : Text.Range) (text : String) : MatchesNothing empty (.action range text)
  | predicate (range : Text.Range) (text : String) :
      MatchesNothing empty (.predicate range text)
  | labeled (range : Text.Range) (label : String) (isList : Bool) {inner : Element}
      (nothing : MatchesNothing empty inner) :
      MatchesNothing empty (.labeled range label isList (some inner))
  | omitted (range : Text.Range) {suffix : Suffix} (isGreedy : Bool) (inner : Option Element)
      (allowed : suffix.allowsNone = true) :
      MatchesNothing empty (.repeated range suffix isGreedy inner)
  | repeated (range : Text.Range) (suffix : Suffix) (isGreedy : Bool) {inner : Element}
      (nothing : MatchesNothing empty inner) :
      MatchesNothing empty (.repeated range suffix isGreedy (some inner))
  | block (range : Text.Range) {alternatives : List Alternative} {alternative : Alternative}
      (listed : alternative ∈ alternatives)
      (nothing : ∀ element ∈ alternative.elements, MatchesNothing empty element) :
      MatchesNothing empty (.block range alternatives)
  | ruleRef (range : Text.Range) {name : Name} (isEmpty : empty name.text) :
      MatchesNothing empty (.ruleRef range name)
  | tokenRef (range : Text.Range) {name : Name} (isEmpty : empty name.text) :
      MatchesNothing empty (.tokenRef range name)

/-- The name of the rule of one class that the element is a reference to. -/
def Element.referenceTo? (lexer : Bool) : Element → Option String
  | .ruleRef _ name => if lexer then none else some name.text
  | .tokenRef _ name => if lexer then some name.text else none
  | _ => none

/-- The element can start with a reference to the rule of one class that has the name, if
references to `empty` rules can match nothing. -/
inductive Element.StartsWith (lexer : Bool) (empty : String → Prop) :
    Element → String → Prop where
  | reference {element : Element} {name : String}
      (refers : element.referenceTo? lexer = some name) : StartsWith lexer empty element name
  | labeled (range : Text.Range) (label : String) (isList : Bool) {inner : Element}
      {name : String} (starts : StartsWith lexer empty inner name) :
      StartsWith lexer empty (.labeled range label isList (some inner)) name
  | repeated (range : Text.Range) (suffix : Suffix) (isGreedy : Bool) {inner : Element}
      {name : String} (starts : StartsWith lexer empty inner name) :
      StartsWith lexer empty (.repeated range suffix isGreedy (some inner)) name
  | block (range : Text.Range) {alternatives : List Alternative} {alternative : Alternative}
      {before after : List Element} {element : Element} {name : String}
      (listed : alternative ∈ alternatives)
      (split : alternative.elements = before ++ element :: after)
      (nothing : ∀ earlier ∈ before, earlier.MatchesNothing empty)
      (starts : StartsWith lexer empty element name) :
      StartsWith lexer empty (.block range alternatives) name

/-- Elements in a row can start with the rule: one of them can, and all before it can match
nothing. -/
def RowStartsWith (lexer : Bool) (empty : String → Prop) (row : List Element)
    (name : String) : Prop :=
  ∃ before element after, row = before ++ element :: after ∧
    (∀ earlier ∈ before, earlier.MatchesNothing empty) ∧ element.StartsWith lexer empty name

/-- One of the alternatives of a body can start with the rule. -/
def BodyStartsWith (lexer : Bool) (empty : String → Prop) (body : List Alternative)
    (name : String) : Prop :=
  ∃ alternative ∈ body, RowStartsWith lexer empty alternative.elements name

/-- No rule can match nothing, which is all that a body tells by itself. -/
def noRule : String → Prop :=
  fun _ => False

def BodyMatchesNothing (empty : String → Prop) (body : List Alternative) : Prop :=
  ∃ alternative ∈ body, ∀ element ∈ alternative.elements, element.MatchesNothing empty

variable {lexer : Bool} {empty : String → Prop}

/-- What matches nothing still does if references to further rules can. -/
theorem Element.MatchesNothing.mono {further : String → Prop}
    (more : ∀ name, empty name → further name) {element : Element}
    (nothing : element.MatchesNothing empty) : element.MatchesNothing further := by
  induction nothing with
  | action range text => exact .action range text
  | predicate range text => exact .predicate range text
  | labeled range label isList _ inner => exact .labeled range label isList inner
  | omitted range isGreedy inner allowed => exact .omitted range isGreedy inner allowed
  | repeated range suffix isGreedy _ inner => exact .repeated range suffix isGreedy inner
  | block range listed _ each => exact .block range listed each
  | ruleRef range isEmpty => exact .ruleRef range (more _ isEmpty)
  | tokenRef range isEmpty => exact .tokenRef range (more _ isEmpty)

theorem Element.matchesNothing_of_reference {element : Element} {name : String}
    (refers : element.referenceTo? lexer = some name) (isEmpty : empty name) :
    element.MatchesNothing empty := by
  unfold referenceTo? at refers
  split at refers
  case h_1 range reference =>
    cases (Option.ite_none_left_eq_some.mp refers).2
    exact .ruleRef range isEmpty
  case h_2 range reference =>
    cases (Option.ite_none_right_eq_some.mp refers).2
    exact .tokenRef range isEmpty
  case h_3 => cases refers

theorem Element.matchesNothing_block_iff {range : Text.Range} {body : List Alternative} :
    (Element.block range body).MatchesNothing empty ↔ BodyMatchesNothing empty body := by
  constructor
  · intro nothing
    cases nothing with
    | block _ listed nothing => exact ⟨_, listed, nothing⟩
  · intro ⟨_, listed, nothing⟩
    exact .block range listed nothing

theorem Element.startsWith_block_iff {range : Text.Range} {body : List Alternative}
    {name : String} :
    (Element.block range body).StartsWith lexer empty name ↔
      BodyStartsWith lexer empty body name := by
  constructor
  · intro starts
    cases starts with
    | reference refers => cases refers
    | block _ listed split nothing starts => exact ⟨_, listed, _, _, _, split, nothing, starts⟩
  · intro ⟨_, listed, _, _, _, split, nothing, starts⟩
    exact .block range listed split nothing starts

/-- A row starts with what its first element starts with and, if that can match nothing, with
what the rest does. -/
theorem rowStartsWith_cons_iff {first : Element} {rest : List Element} {name : String} :
    RowStartsWith lexer empty (first :: rest) name ↔
      first.StartsWith lexer empty name ∨
        first.MatchesNothing empty ∧ RowStartsWith lexer empty rest name := by
  constructor
  · intro ⟨before, element, after, split, nothing, starts⟩
    cases before with
    | nil =>
        cases split
        exact .inl starts
    | cons earliest others =>
        cases split
        obtain ⟨earliestNothing, othersNothing⟩ := List.forall_mem_cons.mp nothing
        exact .inr ⟨earliestNothing, others, element, after, rfl, othersNothing, starts⟩
  · rintro (starts | ⟨firstNothing, before, element, after, rfl, nothing, starts⟩)
    · exact ⟨[], first, rest, rfl, List.forall_mem_nil _, starts⟩
    · exact ⟨first :: before, element, after, rfl,
        List.forall_mem_cons.mpr ⟨firstNothing, nothing⟩, starts⟩

theorem bodyStartsWith_cons_iff {first : Alternative} {rest : List Alternative}
    {name : String} :
    BodyStartsWith lexer empty (first :: rest) name ↔
      RowStartsWith lexer empty first.elements name ∨ BodyStartsWith lexer empty rest name := by
  simp only [BodyStartsWith, List.mem_cons, exists_eq_or_imp]

theorem bodyMatchesNothing_cons_iff {first : Alternative} {rest : List Alternative} :
    BodyMatchesNothing empty (first :: rest) ↔
      (∀ element ∈ first.elements, element.MatchesNothing empty) ∨
        BodyMatchesNothing empty rest := by
  simp only [BodyMatchesNothing, List.mem_cons, exists_eq_or_imp]

/-- A row in two parts starts as the second does only if all of the first can match nothing. -/
theorem rowStartsWith_append_iff {first rest : List Element} {name : String} :
    RowStartsWith lexer empty (first ++ rest) name ↔
      RowStartsWith lexer empty first name ∨
        (∀ element ∈ first, element.MatchesNothing empty) ∧
          RowStartsWith lexer empty rest name := by
  induction first with
  | nil =>
      have noStart : ¬ RowStartsWith lexer empty [] name := by
        rintro ⟨before, element, after, split, -⟩
        cases before <;> cases split
      rw [List.nil_append, or_iff_right noStart, and_iff_right (List.forall_mem_nil _)]
  | cons element others inductionHypothesis =>
      rw [List.cons_append, rowStartsWith_cons_iff, rowStartsWith_cons_iff,
        inductionHypothesis, List.forall_mem_cons, or_assoc, and_or_left, and_assoc]

/-! ## Bodies that start with no empty rule

A reference to a rule that can match nothing only matters at the beginning. If none stands
there, going by what the bodies tell by themselves is enough. -/

/-- None of the references that the element can start with, as far as it tells by itself, is
to a rule that can match nothing. -/
def Element.StartsFirmly (empty : String → Prop) (element : Element) : Prop :=
  ∀ lexer name, element.StartsWith lexer noRule name → ¬ empty name

/-- None of the references that the row can start with is to a rule that can match
nothing. -/
def RowStartsFirmly (empty : String → Prop) (row : List Element) : Prop :=
  ∀ lexer name, RowStartsWith lexer noRule row name → ¬ empty name

/-- None of the references that the body can start with is to a rule that can match
nothing. -/
def BodyStartsFirmly (empty : String → Prop) (body : List Alternative) : Prop :=
  ∀ lexer name, BodyStartsWith lexer noRule body name → ¬ empty name

theorem RowStartsFirmly.matchesNothing {row : List Element} (firm : RowStartsFirmly empty row)
    (each : ∀ element ∈ row, element.StartsFirmly empty → element.MatchesNothing noRule) :
    ∀ element ∈ row, element.MatchesNothing noRule := by
  induction row with
  | nil => exact List.forall_mem_nil _
  | cons first rest inductionHypothesis =>
      obtain ⟨eachFirst, eachRest⟩ := List.forall_mem_cons.mp each
      have firstNothing := eachFirst fun lexer name starts =>
        firm lexer name (rowStartsWith_cons_iff.mpr (.inl starts))
      have restNothing := inductionHypothesis (fun lexer name starts =>
        firm lexer name (rowStartsWith_cons_iff.mpr (.inr ⟨firstNothing, starts⟩))) eachRest
      exact List.forall_mem_cons.mpr ⟨firstNothing, restNothing⟩

/-- An element that leans on no rule that matches nothing matches nothing by itself. -/
theorem Element.StartsFirmly.matchesNothing {element : Element}
    (firm : element.StartsFirmly empty) (nothing : element.MatchesNothing empty) :
    element.MatchesNothing noRule := by
  induction nothing with
  | action range text => exact .action range text
  | predicate range text => exact .predicate range text
  | labeled range label isList _ inductionHypothesis =>
      exact .labeled range label isList (inductionHypothesis fun lexer name starts =>
        firm lexer name (.labeled range label isList starts))
  | omitted range isGreedy inner allowed => exact .omitted range isGreedy inner allowed
  | repeated range suffix isGreedy _ inductionHypothesis =>
      exact .repeated range suffix isGreedy (inductionHypothesis fun lexer name starts =>
        firm lexer name (.repeated range suffix isGreedy starts))
  | block range listed _ inductionHypothesis =>
      have firmRow : RowStartsFirmly empty _ := fun lexer name starts =>
        firm lexer name (Element.startsWith_block_iff.mpr ⟨_, listed, starts⟩)
      exact .block range listed (firmRow.matchesNothing fun element isPart firmPart =>
        inductionHypothesis element isPart firmPart)
  | ruleRef range isEmpty => exact absurd isEmpty (firm false _ (.reference rfl))
  | tokenRef range isEmpty => exact absurd isEmpty (firm true _ (.reference rfl))

theorem RowStartsFirmly.before {before rest : List Element}
    (firm : RowStartsFirmly empty (before ++ rest))
    (nothing : ∀ element ∈ before, element.MatchesNothing empty) :
    ∀ element ∈ before, element.MatchesNothing noRule :=
  RowStartsFirmly.matchesNothing
    (fun lexer name starts => firm lexer name (rowStartsWith_append_iff.mpr (.inl starts)))
    fun element isPart firmPart => firmPart.matchesNothing (nothing element isPart)

theorem RowStartsFirmly.element {before after : List Element} {element : Element}
    (firm : RowStartsFirmly empty (before ++ element :: after))
    (nothing : ∀ element ∈ before, element.MatchesNothing empty) :
    element.StartsFirmly empty := fun lexer name starts =>
  firm lexer name ⟨before, element, after, rfl, firm.before nothing, starts⟩

/-- An element that leans on no rule that matches nothing shows by itself how it starts. -/
theorem Element.StartsFirmly.startsWith {element : Element} {name : String}
    (firm : element.StartsFirmly empty) (starts : element.StartsWith lexer empty name) :
    element.StartsWith lexer noRule name := by
  induction starts with
  | reference refers => exact .reference refers
  | labeled range label isList _ inductionHypothesis =>
      exact .labeled range label isList (inductionHypothesis fun lexer name starts =>
        firm lexer name (.labeled range label isList starts))
  | repeated range suffix isGreedy _ inductionHypothesis =>
      exact .repeated range suffix isGreedy (inductionHypothesis fun lexer name starts =>
        firm lexer name (.repeated range suffix isGreedy starts))
  | block range listed split nothing _ inductionHypothesis =>
      have firmRow : RowStartsFirmly empty _ := fun lexer name starts =>
        firm lexer name (Element.startsWith_block_iff.mpr ⟨_, listed, split ▸ starts⟩)
      exact .block range listed split (firmRow.before nothing)
        (inductionHypothesis (firmRow.element nothing))

/-- In a body that starts firmly, the rules that can match nothing let it start with no
further rule. -/
theorem BodyStartsFirmly.startsWith {body : List Alternative} {name : String}
    (firm : BodyStartsFirmly empty body) (starts : BodyStartsWith lexer empty body name) :
    BodyStartsWith lexer noRule body name := by
  have firmBlock : (Element.block (.emptyAt 0) body).StartsFirmly empty :=
    fun lexer name starts => firm lexer name (Element.startsWith_block_iff.mp starts)
  exact Element.startsWith_block_iff.mp
    (firmBlock.startsWith (Element.startsWith_block_iff.mpr starts))

end Grammar

/-! ## Openings -/

namespace Check.Opening

/-- The opening tells whether nothing can be matched and which rules come first. -/
structure Describes (opening : Opening) (nothing : Prop) (starts : String → Prop) : Prop where
  canBeEmpty : opening.canBeEmpty = true ↔ nothing
  rules : ∀ name, name ∈ opening.rules ↔ starts name

theorem describes_solid {nothing : Prop} {starts : String → Prop} (something : ¬ nothing)
    (noStart : ∀ name, ¬ starts name) : solid.Describes nothing starts :=
  ⟨iff_of_false Bool.false_ne_true something,
    fun name => iff_of_false List.not_mem_nil (noStart name)⟩

theorem describes_void {nothing : Prop} {starts : String → Prop} (always : nothing)
    (noStart : ∀ name, ¬ starts name) : void.Describes nothing starts :=
  ⟨iff_of_true rfl always, fun name => iff_of_false List.not_mem_nil (noStart name)⟩

theorem describes_reference {nothing : Prop} {starts : String → Prop} {name : String}
    (something : ¬ nothing) (only : ∀ other, starts other ↔ other = name) :
    (⟨[name], false⟩ : Opening).Describes nothing starts :=
  ⟨iff_of_false Bool.false_ne_true something,
    fun other => List.mem_singleton.trans (only other).symm⟩

/-- Openings one after another describe a row. -/
theorem Describes.before {first second : Opening} {firstNothing secondNothing : Prop}
    {firstStarts secondStarts : String → Prop}
    (isFirst : first.Describes firstNothing firstStarts)
    (isSecond : second.Describes secondNothing secondStarts) :
    (first.before second).Describes (firstNothing ∧ secondNothing)
      fun name => firstStarts name ∨ firstNothing ∧ secondStarts name := by
  unfold Opening.before
  split
  case isTrue canBeEmpty =>
    have nothing := isFirst.canBeEmpty.mp canBeEmpty
    refine ⟨isSecond.canBeEmpty.trans (and_iff_right nothing).symm, fun name => ?_⟩
    rw [List.mem_append, isFirst.rules, isSecond.rules, and_iff_right nothing]
  case isFalse solid =>
    have something : ¬ firstNothing := fun nothing => solid (isFirst.canBeEmpty.mpr nothing)
    refine ⟨iff_of_false solid fun both => something both.1, fun name => ?_⟩
    rw [isFirst.rules, or_iff_left fun both => something both.1]

theorem Describes.either {left right : Opening} {leftNothing rightNothing : Prop}
    {leftStarts rightStarts : String → Prop}
    (isLeft : left.Describes leftNothing leftStarts)
    (isRight : right.Describes rightNothing rightStarts) :
    (left.either right).Describes (leftNothing ∨ rightNothing)
      fun name => leftStarts name ∨ rightStarts name := by
  refine ⟨?_, fun name => ?_⟩
  · rw [Opening.either, Bool.or_eq_true, isLeft.canBeEmpty, isRight.canBeEmpty]
  · rw [Opening.either, List.mem_append, isLeft.rules, isRight.rules]

mutual

/-- The opening of an element tells what the element by itself can start with. -/
theorem describes_ofElement (lexer : Bool) : ∀ element : Element,
    (ofElement lexer element).Describes (element.MatchesNothing noRule)
      (element.StartsWith lexer noRule)
  | .labeled range label isList none =>
      describes_solid nofun fun _ (.reference refers) => nomatch refers
  | .labeled range label isList (some inner) => by
      have same := describes_ofElement lexer inner
      refine ⟨same.canBeEmpty.trans ⟨.labeled range label isList, fun nothing => ?_⟩,
        fun name => (same.rules name).trans ⟨.labeled range label isList, fun starts => ?_⟩⟩
      · cases nothing with | labeled _ _ _ nothing => exact nothing
      · cases starts with
        | reference refers => cases refers
        | labeled _ _ _ starts => exact starts
  | .repeated range suffix isGreedy none => by
      refine ⟨⟨.omitted range isGreedy none, fun nothing => ?_⟩,
        fun name => iff_of_false List.not_mem_nil fun (.reference refers) => nomatch refers⟩
      cases nothing with | omitted _ _ _ allowed => exact allowed
  | .repeated range suffix isGreedy (some inner) => by
      have once := describes_ofElement lexer inner
      refine ⟨Bool.or_eq_true_iff.trans ⟨?_, fun nothing => ?_⟩,
        fun name => (once.rules name).trans ⟨.repeated range suffix isGreedy, fun starts => ?_⟩⟩
      · rintro (onceEmpty | allowed)
        · exact .repeated range suffix isGreedy (once.canBeEmpty.mp onceEmpty)
        · exact .omitted range isGreedy (some inner) allowed
      · cases nothing with
        | omitted _ _ _ allowed => exact .inr allowed
        | repeated _ _ _ nothing => exact .inl (once.canBeEmpty.mpr nothing)
      · cases starts with
        | reference refers => cases refers
        | repeated _ _ _ starts => exact starts
  | .block range alternatives => by
      have same := describes_ofAlternatives lexer alternatives
      exact ⟨same.canBeEmpty.trans Element.matchesNothing_block_iff.symm,
        fun name => (same.rules name).trans Element.startsWith_block_iff.symm⟩
  | .ruleRef range name => by
      cases lexer with
      | true => exact describes_solid nofun fun _ (.reference refers) => nomatch refers
      | false =>
          exact describes_reference nofun fun other =>
            ⟨fun (.reference refers) => (Option.some.inj refers).symm,
              fun same => .reference (congrArg some same.symm)⟩
  | .tokenRef range name => by
      cases lexer with
      | true =>
          exact describes_reference nofun fun other =>
            ⟨fun (.reference refers) => (Option.some.inj refers).symm,
              fun same => .reference (congrArg some same.symm)⟩
      | false => exact describes_solid nofun fun _ (.reference refers) => nomatch refers
  | .action range text =>
      describes_void (.action range text) fun _ (.reference refers) => nomatch refers
  | .predicate range text =>
      describes_void (.predicate range text) fun _ (.reference refers) => nomatch refers
  | .negated .. => describes_solid nofun fun _ (.reference refers) => nomatch refers
  | .literal .. => describes_solid nofun fun _ (.reference refers) => nomatch refers
  | .charRange .. => describes_solid nofun fun _ (.reference refers) => nomatch refers
  | .charSet .. => describes_solid nofun fun _ (.reference refers) => nomatch refers
  | .wildcard .. => describes_solid nofun fun _ (.reference refers) => nomatch refers

/-- The opening of elements in a row tells what the row can start with. -/
theorem describes_ofElements (lexer : Bool) : ∀ row : List Element,
    (ofElements lexer row).Describes (∀ element ∈ row, element.MatchesNothing noRule)
      (RowStartsWith lexer noRule row)
  | [] => by
      refine describes_void (List.forall_mem_nil _)
        fun name ⟨before, element, after, split, _⟩ => ?_
      simp at split
  | element :: rest => by
      have both := (describes_ofElement lexer element).before (describes_ofElements lexer rest)
      exact ⟨both.canBeEmpty.trans List.forall_mem_cons.symm,
        fun name => (both.rules name).trans rowStartsWith_cons_iff.symm⟩

/-- The opening of alternatives tells what the body they make can start with. -/
theorem describes_ofAlternatives (lexer : Bool) : ∀ body : List Alternative,
    (ofAlternatives lexer body).Describes (BodyMatchesNothing noRule body)
      (BodyStartsWith lexer noRule body)
  | [] => describes_solid (fun ⟨_, listed, _⟩ => nomatch listed)
      fun name ⟨_, listed, _⟩ => nomatch listed
  | .mk label elements commands :: rest => by
      have first := describes_ofElements lexer elements
      have both := first.either (describes_ofAlternatives lexer rest)
      refine ⟨?_, fun name => ?_⟩
      · rw [bodyMatchesNothing_cons_iff]
        exact both.canBeEmpty
      · rw [bodyStartsWith_cons_iff]
        exact both.rules name

end

end Check.Opening

end GrammarDesk
