import GrammarDesk.Query.Diagram

/-!
Contract: what a diagram is of the body of a rule.

Owns: the relation between diagrams and the elements and alternatives that they show, by what is
written in an alternative and not by how a diagram is built; the names and literals in a diagram;
and the proof that the diagram built of a rule shows the body of the rule, and that no other
diagram does.

Does not own: of which rules there are diagrams (`Diagram`), or how the names in a diagram and the
references to them go together (`Leaves`).

Main statements: `Diagram.showsBody_ofRule`, `Diagram.ShowsBody.unique`.
-/

namespace GrammarDesk.Diagram

open Grammar

/-! ## Lexer commands -/

/-- An entry is a lexer command as it is written, its argument in parentheses. -/
inductive Writes : String → Command → Prop
  | plain {name : String} {argument : Option Name} : Writes name ⟨some name, argument, none⟩
  | applied {name text : String} {argument : Option Name} :
      Writes (name ++ "(" ++ text ++ ")") ⟨some name, argument, some text⟩

/-- Entries are those of several lexer commands, but for commands that have no name. -/
inductive WriteAll : List String → List Command → Prop
  | nil : WriteAll [] []
  | nameless {argument : Option Name} {argumentText : Option String} {entries : List String}
      {rest : List Command} :
      WriteAll entries rest → WriteAll entries (⟨none, argument, argumentText⟩ :: rest)
  | named {entry : String} {command : Command} {entries : List String} {rest : List Command} :
      Writes entry command → WriteAll entries rest → WriteAll (entry :: entries) (command :: rest)

/-- Where lexer commands are written, one part shows them all. -/
inductive ShowCommands : List Diagram → List Command → Prop
  | none : ShowCommands [] []
  | some {entries : List String} {command : Command} {rest : List Command} :
      WriteAll entries (command :: rest) → ShowCommands [.commands entries] (command :: rest)

/-! ## Groups -/

/-- A diagram of parts one behind the other. A part that is alone stands for itself. -/
inductive InSequence : Diagram → List Diagram → Prop
  | alone {part : Diagram} : InSequence part [part]
  | several {parts : List Diagram} : parts.length ≠ 1 → InSequence (.sequence parts) parts

/-- A diagram of branches. A branch that is alone stands for itself, and without branches there is
nothing to go through. -/
inductive InChoice : Diagram → List Diagram → Prop
  | none : InChoice (.sequence []) []
  | alone {branch : Diagram} : InChoice branch [branch]
  | several {branches : List Diagram} : 2 ≤ branches.length → InChoice (.choice branches) branches

/-! ## Elements and alternatives -/

/-- An element without its core: recovery found nothing to label, to repeat or to negate, or
nothing but an element that lacks its core too; or a range of characters has not both its ends. -/
inductive Coreless : Element → Prop
  | labeled {range : Text.Range} {label : String} {isList : Bool} {inner : Option Element} :
      (∀ element ∈ inner, Coreless element) → Coreless (.labeled range label isList inner)
  | repeated {range : Text.Range} {suffix : Suffix} {isGreedy : Bool} {inner : Option Element} :
      (∀ element ∈ inner, Coreless element) → Coreless (.repeated range suffix isGreedy inner)
  | negated {range : Text.Range} {inner : Option Element} :
      (∀ element ∈ inner, Coreless element) → Coreless (.negated range inner)
  | charRange {range : Text.Range} : Coreless (.charRange range none)

mutual

/-- A diagram shows an element. A label is not shown. -/
inductive Shows : Diagram → Element → Prop
  | labeled {range : Text.Range} {label : String} {isList : Bool} {inner : Element}
      {shown : Diagram} :
      Shows shown inner → Shows shown (.labeled range label isList (some inner))
  | repeated {range : Text.Range} {suffix : Suffix} {isGreedy : Bool} {inner : Element}
      {shown : Diagram} :
      Shows shown inner →
        Shows (.repeated suffix shown) (.repeated range suffix isGreedy (some inner))
  | negated {range : Text.Range} {inner : Element} {shown : Diagram} :
      Shows shown inner → Shows (.negation shown) (.negated range (some inner))
  | block {range : Text.Range} {alternatives : List Alternative} {shown : Diagram} :
      ShowsBody shown alternatives → Shows shown (.block range alternatives)
  | ruleRef {range : Text.Range} {name : Name} :
      Shows (.nonTerminal name.text) (.ruleRef range name)
  | tokenRef {range : Text.Range} {name : Name} : Shows (.terminal name.text) (.tokenRef range name)
  | literal {range : Text.Range} {name : Name} : Shows (.literal name.text) (.literal range name)
  | charRange {range : Text.Range} {low high : String} :
      Shows (.charSet (low ++ ".." ++ high)) (.charRange range (some (low, high)))
  | charSet {range : Text.Range} {text : String} : Shows (.charSet text) (.charSet range text)
  | wildcard {range : Text.Range} : Shows .wildcard (.wildcard range)
  | action {range : Text.Range} {text : String} : Shows (.action text) (.action range text)
  | predicate {range : Text.Range} {text : String} :
      Shows (.predicate text) (.predicate range text)

/-- Diagrams show several elements in their order, but for those that lack their core. -/
inductive ShowElements : List Diagram → List Element → Prop
  | nil : ShowElements [] []
  | coreless {element : Element} {parts : List Diagram} {rest : List Element} :
      Coreless element → ShowElements parts rest → ShowElements parts (element :: rest)
  | cons {part : Diagram} {element : Element} {parts : List Diagram} {rest : List Element} :
      Shows part element → ShowElements parts rest → ShowElements (part :: parts) (element :: rest)

/-- A diagram shows an alternative: its elements, and behind them its lexer commands. -/
inductive ShowsAlternative : Diagram → Alternative → Prop
  | mk {shown : Diagram} {parts commandParts : List Diagram} {label : Option Name}
      {elements : List Element} {commands : List Command} :
      ShowElements parts elements → ShowCommands commandParts commands →
        InSequence shown (parts ++ commandParts) →
          ShowsAlternative shown (.mk label elements commands)

inductive ShowAlternatives : List Diagram → List Alternative → Prop
  | nil : ShowAlternatives [] []
  | cons {branch : Diagram} {alternative : Alternative} {branches : List Diagram}
      {rest : List Alternative} :
      ShowsAlternative branch alternative → ShowAlternatives branches rest →
        ShowAlternatives (branch :: branches) (alternative :: rest)

/-- A diagram shows the alternatives of a rule or a block as a choice. -/
inductive ShowsBody : Diagram → List Alternative → Prop
  | mk {shown : Diagram} {branches : List Diagram} {alternatives : List Alternative} :
      ShowAlternatives branches alternatives → InChoice shown branches →
        ShowsBody shown alternatives

end

/-! ## Names and literals -/

mutual

/-- The names and literals in a diagram from left to right, each with what a reference to it looks
for. -/
def leaves : Diagram → List (ReferenceKind × String)
  | .choice branches => leavesOf branches
  | .sequence parts => leavesOf parts
  | .repeated _ inner => leaves inner
  | .negation inner => leaves inner
  | .terminal name => [(.token, name)]
  | .nonTerminal name => [(.rule, name)]
  | .literal text => [(.literal, text)]
  | .charSet _ | .wildcard | .action _ | .predicate _ | .commands _ => []

def leavesOf : List Diagram → List (ReferenceKind × String)
  | [] => []
  | diagram :: rest => leaves diagram ++ leavesOf rest

end

/-! ## The diagram that is built shows the body -/

theorem inSequence_joinParts (parts : List Diagram) : InSequence (joinParts parts) parts := by
  unfold joinParts
  split
  · exact .alone
  · next others =>
      apply InSequence.several
      intro isOne
      obtain ⟨part, rfl⟩ := List.length_eq_one_iff.mp isOne
      exact others part rfl

theorem inChoice_chooseFrom (branches : List Diagram) : InChoice (chooseFrom branches) branches := by
  cases branches with
  | nil => exact .none
  | cons first rest =>
      cases rest with
      | nil => exact .alone
      | cons second rest => exact .several (by simp)

theorem writes_of_commandText? {command : Command} {entry : String}
    (written : commandText? command = some entry) : Writes entry command := by
  rcases command with ⟨_ | name, argument, _ | text⟩
  all_goals simp only [commandText?, Option.map_none, Option.map_some, reduceCtorEq] at written
  · cases written
    exact .plain
  · cases written
    exact .applied

/-- The texts drawn for commands write these commands, and no other. -/
theorem writeAll_commandTexts (commands : List Command) :
    WriteAll (commands.filterMap commandText?) commands := by
  induction commands with
  | nil => exact .nil
  | cons command rest inductionHypothesis =>
      cases written : commandText? command with
      | none =>
          rw [List.filterMap_cons_none written]
          rcases command with ⟨_ | name, argument, argumentText⟩
          · exact .nameless inductionHypothesis
          · cases written
      | some entry =>
          rw [List.filterMap_cons_some written]
          exact .named (writes_of_commandText? written) inductionHypothesis

theorem showCommands_ofCommands (commands : List Command) :
    ShowCommands (ofCommands commands) commands := by
  cases commands with
  | nil => exact .none
  | cons command rest => exact .some (writeAll_commandTexts _)

/-- What is built of an element: a diagram that shows it, or nothing if the element lacks its
core. -/
def Fits : Option Diagram → Element → Prop
  | some shown, element => Shows shown element
  | none, element => Coreless element

mutual

/-- What is drawn for an element fits it; an element without a core is drawn as nothing. -/
theorem fits_ofElement? (element : Element) : Fits (ofElement? element) element := by
  cases element with
  | labeled range label isList inner =>
      rcases fits_ofInner? inner with ⟨isNone, missing⟩ | ⟨core, shown, rfl, isShown, shows⟩
      · rw [ofElement?, isNone]
        exact .labeled missing
      · rw [ofElement?, isShown]
        exact .labeled shows
  | repeated range suffix isGreedy inner =>
      rcases fits_ofInner? inner with ⟨isNone, missing⟩ | ⟨core, shown, rfl, isShown, shows⟩
      · rw [ofElement?, isNone]
        exact .repeated missing
      · rw [ofElement?, isShown]
        exact .repeated shows
  | negated range inner =>
      rcases fits_ofInner? inner with ⟨isNone, missing⟩ | ⟨core, shown, rfl, isShown, shows⟩
      · rw [ofElement?, isNone]
        exact .negated missing
      · rw [ofElement?, isShown]
        exact .negated shows
  | block range alternatives =>
      exact .block (.mk (showAlternatives_ofAlternatives alternatives) (inChoice_chooseFrom _))
  | ruleRef range name => exact .ruleRef
  | tokenRef range name => exact .tokenRef
  | literal range name => exact .literal
  | charRange range bounds =>
      cases bounds with
      | none => exact .charRange
      | some ends => exact .charRange
  | charSet range text => exact .charSet
  | wildcard range => exact .wildcard
  | action range text => exact .action
  | predicate range text => exact .predicate

/-- What is drawn for the inner element of another fits it. -/
theorem fits_ofInner? (inner : Option Element) :
    (ofInner? inner = none ∧ ∀ element ∈ inner, Coreless element) ∨
      ∃ element shown, inner = some element ∧ ofInner? inner = some shown ∧
        Shows shown element := by
  cases inner with
  | none => exact .inl ⟨rfl, nofun⟩
  | some element =>
      have fits := fits_ofElement? element
      rw [ofInner?]
      cases isShown : ofElement? element with
      | none =>
          rw [isShown] at fits
          refine .inl ⟨rfl, fun other isOther => ?_⟩
          cases isOther
          exact fits
      | some shown =>
          rw [isShown] at fits
          exact .inr ⟨element, shown, rfl, rfl, fits⟩

/-- What is drawn for elements in a row shows each that has a core, in their order. -/
theorem showElements_ofElements (elements : List Element) :
    ShowElements (ofElements elements) elements := by
  cases elements with
  | nil => exact .nil
  | cons element rest =>
      have fits := fits_ofElement? element
      have others := showElements_ofElements rest
      rw [ofElements]
      cases isShown : ofElement? element with
      | none =>
          rw [isShown] at fits
          exact .coreless fits others
      | some shown =>
          rw [isShown] at fits
          exact .cons fits others

theorem showsAlternative_ofAlternative (alternative : Alternative) :
    ShowsAlternative (ofAlternative alternative) alternative := by
  cases alternative with
  | mk label elements commands =>
      rw [ofAlternative]
      exact .mk (showElements_ofElements elements) (showCommands_ofCommands commands)
        (inSequence_joinParts _)

theorem showAlternatives_ofAlternatives (alternatives : List Alternative) :
    ShowAlternatives (ofAlternatives alternatives) alternatives := by
  cases alternatives with
  | nil => exact .nil
  | cons alternative rest =>
      rw [ofAlternatives]
      exact .cons (showsAlternative_ofAlternative alternative)
        (showAlternatives_ofAlternatives rest)

end

/-- The diagram of a rule shows the body of the rule. -/
theorem showsBody_ofRule (rule : Rule) : ShowsBody (ofRule rule) rule.alternatives :=
  .mk (showAlternatives_ofAlternatives rule.alternatives) (inChoice_chooseFrom _)

/-! ## No other diagram shows the body -/

theorem InSequence.eq {shown : Diagram} {parts : List Diagram}
    (inSequence : InSequence shown parts) : joinParts parts = shown := by
  cases inSequence with
  | alone => rfl
  | several notOne =>
      unfold joinParts
      split
      · exact absurd rfl notOne
      · rfl

theorem InChoice.eq {shown : Diagram} {branches : List Diagram}
    (inChoice : InChoice shown branches) : chooseFrom branches = shown := by
  cases inChoice with
  | none => rfl
  | alone => rfl
  | several many =>
      unfold chooseFrom
      split
      · simp at many
      · simp at many
      · rfl

theorem WriteAll.eq {entries : List String} {commands : List Command}
    (written : WriteAll entries commands) : commands.filterMap commandText? = entries := by
  induction written with
  | nil => rfl
  | nameless _ inductionHypothesis =>
      rw [List.filterMap_cons_none rfl]
      exact inductionHypothesis
  | named own _ inductionHypothesis =>
      rw [← inductionHypothesis]
      cases own <;> rfl

theorem ShowCommands.eq {parts : List Diagram} {commands : List Command}
    (shows : ShowCommands parts commands) : ofCommands commands = parts := by
  cases shows with
  | none => rfl
  | some written => rw [ofCommands, written.eq]; exact nofun

/-- For an element without a core nothing is drawn. -/
theorem Coreless.eq {element : Element} (coreless : Coreless element) :
    ofElement? element = none := by
  have missing : ∀ {inner : Option Element},
      (∀ element ∈ inner, ofElement? element = none) → ofInner? inner = none := by
    intro inner isMissing
    cases inner with
    | none => rfl
    | some element => exact isMissing element rfl
  induction coreless with
  | labeled _ inductionHypothesis => exact missing inductionHypothesis
  | repeated _ inductionHypothesis =>
      rw [ofElement?, missing inductionHypothesis]
      rfl
  | negated _ inductionHypothesis =>
      rw [ofElement?, missing inductionHypothesis]
      rfl
  | charRange => rfl

mutual

/-- Only one diagram shows an element: the one that is drawn. -/
theorem Shows.eq : ∀ {shown : Diagram} {element : Element},
    Shows shown element → ofElement? element = some shown
  | _, _, .labeled inner => inner.eq
  | _, _, .repeated inner => by
      rw [ofElement?, ofInner?, inner.eq]
      rfl
  | _, _, .negated inner => by
      rw [ofElement?, ofInner?, inner.eq]
      rfl
  | _, _, .block body => by rw [ofElement?, body.eq]
  | _, _, .ruleRef => rfl
  | _, _, .tokenRef => rfl
  | _, _, .literal => rfl
  | _, _, .charRange => rfl
  | _, _, .charSet => rfl
  | _, _, .wildcard => rfl
  | _, _, .action => rfl
  | _, _, .predicate => rfl

theorem ShowElements.eq : ∀ {parts : List Diagram} {elements : List Element},
    ShowElements parts elements → ofElements elements = parts
  | _, _, .nil => rfl
  | _, _, .coreless isCoreless rest => by
      rw [ofElements, isCoreless.eq, rest.eq]
      rfl
  | _, _, .cons first rest => by
      rw [ofElements, first.eq, rest.eq]
      rfl

theorem ShowsAlternative.eq : ∀ {shown : Diagram} {alternative : Alternative},
    ShowsAlternative shown alternative → ofAlternative alternative = shown
  | _, _, .mk parts written inSequence => by
      rw [ofAlternative, parts.eq, written.eq, inSequence.eq]

theorem ShowAlternatives.eq : ∀ {branches : List Diagram} {alternatives : List Alternative},
    ShowAlternatives branches alternatives → ofAlternatives alternatives = branches
  | _, _, .nil => rfl
  | _, _, .cons first rest => by rw [ofAlternatives, first.eq, rest.eq]

theorem ShowsBody.eq : ∀ {shown : Diagram} {alternatives : List Alternative},
    ShowsBody shown alternatives → chooseFrom (ofAlternatives alternatives) = shown
  | _, _, .mk branches inChoice => by rw [branches.eq, inChoice.eq]

end

/-- No two diagrams show one body. -/
theorem ShowsBody.unique {left right : Diagram} {alternatives : List Alternative}
    (leftShows : ShowsBody left alternatives) (rightShows : ShowsBody right alternatives) :
    left = right := by
  rw [← leftShows.eq, ← rightShows.eq]

end GrammarDesk.Diagram
