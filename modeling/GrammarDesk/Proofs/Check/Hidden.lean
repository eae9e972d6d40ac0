import GrammarDesk.Proofs.Check.Cycles

/-!
Contract: left recursion behind references to rules that can match nothing.

Owns: the rules of a file that can match nothing, the proof that cycles of parser rules are
reported when no body can start with a reference to such a rule, and a text with a cycle that
hides behind one and is not reported.

Does not own: the cycles that bodies show by themselves (`Cycles`).

Main statements: `recursion_reported_of_firm`, `hidden_recursion_unreported`.
-/

namespace GrammarDesk.Check

open Text Grammar

/-! ## Rules that can match nothing -/

/-- The rule of the name can match nothing: one of its alternatives has only elements that can,
among them references to rules that can. -/
inductive Nullable (rules : List Rule) : String → Prop where
  | ofAlternative {declaration : Declaration} {alternative : Alternative}
      (isDeclared : declaration ∈ firstDeclared rules)
      (listed : alternative ∈ declaration.rule.alternatives)
      (nothing : ∀ element ∈ alternative.elements, element.MatchesNothing (Nullable rules)) :
      Nullable rules declaration.text

theorem nullable_iff {rules : List Rule} {name : String} :
    Nullable rules name ↔ ∃ declaration ∈ firstDeclared rules, declaration.text = name ∧
      BodyMatchesNothing (Nullable rules) declaration.rule.alternatives := by
  constructor
  · rintro ⟨isDeclared, listed, nothing⟩
    exact ⟨_, isDeclared, rfl, _, listed, nothing⟩
  · rintro ⟨declaration, isDeclared, rfl, alternative, listed, nothing⟩
    exact .ofAlternative isDeclared listed nothing

/-! ## Cycles that are reported -/

/-- A report of left recursion at the name of a rule points to the other rule. -/
def ReportedWith (subject : Subject) (reports : List Diagnostic) (declaration other : Declaration) :
    Prop :=
  ∃ report ∈ reports, report.kind = .leftRecursion ∧ report.file = subject.file ∧
    report.range = declaration.name.range ∧
    ∃ place ∈ report.related, place.file = subject.file ∧ place.range = other.name.range

/-- Rules that lead to each other by what their bodies tell by themselves are reported. -/
theorem reportedWith_of_meet (subject : Subject) (members : List Member) {rules : List Rule}
    (stem : Option String) {left right : Declaration} (meet : Meet rules left right) :
    ReportedWith subject (grammar subject members rules stem) left right := by
  obtain ⟨reported, cycles⟩ := exists_cyclesReported subject rules
  have isReported : left ∈ reported := (cycles.mem_iff left).mpr (.inl ⟨right, meet⟩)
  obtain ⟨report, isReport, about⟩ := exists_mem_of_forall₂ cycles.reports isReported
  obtain ⟨partners, -, isPartner, related, -⟩ := about.partners
  refine ⟨report, ?_, about.kind, about.file, about.range, ?_⟩
  · exact List.mem_append_left _ (List.mem_append_left _ (List.mem_append_right _ isReport))
  · refine ⟨⟨subject.file, right.name.range, subject.index.cutSpan right.name.range,
      "'" ++ right.text ++ "' declared here"⟩, ?_, rfl, rfl⟩
    rw [related]
    exact List.mem_map.mpr ⟨right, (isPartner right).mpr meet, rfl⟩

/-- If no body can start with a reference to a rule that can match nothing, a path between
parser rules is one that the bodies show by themselves. -/
theorem path_by_itself {rules : List Rule}
    (firm : ∀ declaration ∈ firstDeclared rules,
      BodyStartsFirmly (Nullable rules) declaration.rule.alternatives)
    (apart : ∀ source target, Leads rules (Nullable rules) source target →
      source.rule.isLexer = true → target.rule.isLexer = true)
    {source target : Declaration} (isParser : target.rule.isLexer = false)
    (path : Relation.TransGen (Leads rules (Nullable rules)) source target) :
    source.rule.isLexer = false ∧ Relation.TransGen (LeadsByItself rules) source target := by
  have step : ∀ {first next : Declaration}, next.rule.isLexer = false →
      Leads rules (Nullable rules) first next →
      first.rule.isLexer = false ∧ LeadsByItself rules first next := by
    intro first next nextParser leads
    have firstParser : first.rule.isLexer = false := Bool.eq_false_iff.mpr fun isLexer =>
      Bool.false_ne_true (nextParser.symm.trans (apart _ _ leads isLexer))
    exact ⟨firstParser, firstParser.trans nextParser.symm, leads.isSource, leads.isTarget,
      (firm _ leads.isSource).startsWith leads.starts⟩
  induction path using Relation.TransGen.head_induction_on with
  | single leads =>
      obtain ⟨sourceParser, leads⟩ := step isParser leads
      exact ⟨sourceParser, .single leads⟩
  | head leads _ inductionHypothesis =>
      obtain ⟨nextParser, path⟩ := inductionHypothesis
      obtain ⟨sourceParser, leads⟩ := step nextParser leads
      exact ⟨sourceParser, .head leads path⟩

/-- Two parser rules that lead to each other are both reported, if no body can start with a
reference to a rule that can match nothing and no lexer rule can start with a parser rule. -/
theorem recursion_reported_of_firm (subject : Subject) (members : List Member)
    {rules : List Rule} (stem : Option String)
    (firm : ∀ declaration ∈ firstDeclared rules,
      BodyStartsFirmly (Nullable rules) declaration.rule.alternatives)
    (apart : ∀ source target, Leads rules (Nullable rules) source target →
      source.rule.isLexer = true → target.rule.isLexer = true)
    {left right : Declaration} (different : left.text ≠ right.text)
    (leftParser : left.rule.isLexer = false) (rightParser : right.rule.isLexer = false)
    (there : Relation.TransGen (Leads rules (Nullable rules)) left right)
    (back : Relation.TransGen (Leads rules (Nullable rules)) right left) :
    ReportedWith subject (grammar subject members rules stem) left right ∧
      ReportedWith subject (grammar subject members rules stem) right left := by
  have thereByItself := (path_by_itself firm apart rightParser there).2
  have backByItself := (path_by_itself firm apart leftParser back).2
  exact ⟨reportedWith_of_meet subject members stem ⟨different, thereByItself, backByItself⟩,
    reportedWith_of_meet subject members stem ⟨different.symm, backByItself, thereByItself⟩⟩

/-! ### A rule that starts with an optional literal -/

/-- A parser rule whose alternatives have no labels. -/
def Declaration.ofBody (range : Range) (name : Name) (body : List (List Element)) :
    Declaration :=
  { name
    rule :=
      { range
        isLexer := false
        isFragment := false
        name := some name
        signatureParts := []
        alternatives := body.map fun elements => .mk none elements [] } }

/-- The rule `a` of `grammar G; a : 'p'? b ; b : a 'q' ;`, written without blanks. -/
def optionalFirst : Declaration :=
  .ofBody ⟨10, 18⟩ ⟨"a", ⟨10, 11⟩⟩
    [[.repeated ⟨12, 16⟩ .optional true (some (.literal ⟨12, 15⟩ ⟨"'p'", ⟨12, 15⟩⟩)),
      .ruleRef ⟨16, 17⟩ ⟨"b", ⟨16, 17⟩⟩]]

/-- The rule `b` of `grammar G; a : 'p'? b ; b : a 'q' ;`, written without blanks. -/
def literalLast : Declaration :=
  .ofBody ⟨18, 25⟩ ⟨"b", ⟨18, 19⟩⟩
    [[.ruleRef ⟨20, 21⟩ ⟨"a", ⟨20, 21⟩⟩, .literal ⟨21, 24⟩ ⟨"'q'", ⟨21, 24⟩⟩]]

/-- In the grammar of these two rules no body begins with a reference to a rule that can match
nothing, and the cycle is reported at both. -/
theorem recursion_reported_optionalFirst :
    let rules := [optionalFirst.rule, literalLast.rule]
    let reports := grammar ⟨0, .ofText "", ⟨[], none, []⟩⟩ [] rules none
    ReportedWith ⟨0, .ofText "", ⟨[], none, []⟩⟩ reports optionalFirst literalLast ∧
      ReportedWith ⟨0, .ofText "", ⟨[], none, []⟩⟩ reports literalLast optionalFirst := by
  intro rules reports
  have declared : firstDeclared rules = [optionalFirst, literalLast] := rfl
  have isFirst : optionalFirst ∈ firstDeclared rules := declared ▸ List.mem_cons_self
  have isLast : literalLast ∈ firstDeclared rules := declared ▸ List.mem_of_getElem? (i := 1) rfl
  have parsers : ∀ declaration ∈ firstDeclared rules, declaration.rule.isLexer = false := by
    rw [declared]
    exact List.forall_mem_cons.mpr ⟨rfl, List.forall_mem_singleton.mpr rfl⟩
  -- the only alternative of `b` has a literal, and that of `a` has a reference to `b`
  have notLast : ¬ Nullable rules "b" := by
    intro nullable
    obtain ⟨declaration, isDeclared, isName, alternative, listed, nothing⟩ :=
      nullable_iff.mp nullable
    rw [declared] at isDeclared
    rcases List.mem_pair.mp isDeclared with rfl | rfl
    · exact absurd isName (by decide)
    · obtain rfl := List.mem_singleton.mp listed
      exact nomatch nothing _ (List.mem_of_getElem? (i := 1) rfl)
  have notFirst : ¬ Nullable rules "a" := by
    intro nullable
    obtain ⟨declaration, isDeclared, isName, alternative, listed, nothing⟩ :=
      nullable_iff.mp nullable
    rw [declared] at isDeclared
    rcases List.mem_pair.mp isDeclared with rfl | rfl
    · obtain rfl := List.mem_singleton.mp listed
      cases nothing _ (List.mem_of_getElem? (i := 1) rfl) with
      | ruleRef _ isEmpty => exact notLast isEmpty
    · exact absurd isName (by decide)
  refine recursion_reported_of_firm _ [] none ?_ ?_ ?_ rfl rfl ?_ ?_
  · rw [declared]
    refine List.forall_mem_cons.mpr ⟨fun lexer name starts => ?_,
      List.forall_mem_singleton.mpr fun lexer name starts => ?_⟩
    · have opens := ((Opening.describes_ofAlternatives lexer _).rules name).mpr starts
      cases lexer with
      | false => exact List.mem_singleton.mp opens ▸ notLast
      | true => cases opens
    · have opens := ((Opening.describes_ofAlternatives lexer _).rules name).mpr starts
      cases lexer with
      | false => exact List.mem_singleton.mp opens ▸ notFirst
      | true => cases opens
  · intro source target leads isLexer
    exact absurd isLexer (Bool.eq_false_iff.mp (parsers source leads.isSource))
  · decide
  · refine .single ⟨isFirst, isLast, _, List.mem_singleton_self _, [_], _, [], rfl, ?_,
      .reference rfl⟩
    exact List.forall_mem_singleton.mpr (.omitted _ _ _ rfl)
  · exact .single ⟨isLast, isFirst, _, List.mem_singleton_self _, [], _, _, rfl,
      List.forall_mem_nil _, .reference rfl⟩

/-! ## A cycle that is not reported -/

/-- Which rules of one class the elements of every alternative are references to. -/
def referenceRows (lexer : Bool) (body : List Alternative) : List (List (Option String)) :=
  body.map fun alternative => alternative.elements.map (Element.referenceTo? lexer)

/-- A body can start with a reference that stands behind references to rules that can match
nothing. -/
theorem bodyStartsWith_of_references {lexer : Bool} {empty : String → Prop}
    {body : List Alternative} (before : List String) {name : String}
    {after : List (Option String)} (nothing : ∀ earlier ∈ before, empty earlier)
    (listed : before.map some ++ some name :: after ∈ referenceRows lexer body) :
    BodyStartsWith lexer empty body name := by
  obtain ⟨alternative, isListed, same⟩ := List.mem_map.mp listed
  obtain ⟨former, latter, split, areBefore, fromName⟩ := List.map_eq_append_iff.mp same
  obtain ⟨element, rest, rfl, refers, -⟩ := List.map_eq_cons_iff.mp fromName
  refine ⟨alternative, isListed, former, element, rest, split, fun earlier isEarlier => ?_,
    .reference refers⟩
  obtain ⟨other, isOther, refersToo⟩ :=
    List.mem_map.mp (areBefore ▸ List.mem_map_of_mem isEarlier)
  exact Element.matchesNothing_of_reference refersToo.symm (nothing other isOther)

theorem nullable_of_opening {rules : List Rule} {declaration : Declaration}
    (isDeclared : declaration ∈ firstDeclared rules)
    (canBeEmpty : (Opening.ofAlternatives false declaration.rule.alternatives).canBeEmpty = true) :
    Nullable rules declaration.text := by
  obtain ⟨alternative, isListed, nothing⟩ :=
    (Opening.describes_ofAlternatives false _).canBeEmpty.mp canBeEmpty
  exact .ofAlternative isDeclared isListed fun element isElement =>
    (nothing element isElement).mono nofun

/-- A rule can start with another one behind a reference to a rule that can match nothing. The
cycle that this closes is not reported. -/
theorem hidden_recursion_unreported :
    let text := "grammar G;a:e b|'x';b:a;e:'y'?;"
    ∃ parse first back, Syntax.Parse.ofText? text = some parse ∧
      (first.text, first.rule.isLexer) = ("a", false) ∧
      (back.text, back.rule.isLexer) = ("b", false) ∧
      Relation.TransGen (Leads (rulesOf parse.tree) (Nullable (rulesOf parse.tree))) first back ∧
      Relation.TransGen (Leads (rulesOf parse.tree) (Nullable (rulesOf parse.tree))) back first ∧
      let table := (Declare.table 0 (.ofText text) (membersOf parse.tree)).1
      grammar ⟨0, .ofText text, table⟩ (membersOf parse.tree) (rulesOf parse.tree) none = [] := by
  intro text
  have shown : (Syntax.Parse.ofText? text).map (fun parse =>
      (firstDeclared (rulesOf parse.tree)).map fun declaration =>
        ((declaration.text, declaration.rule.isLexer),
          referenceRows false declaration.rule.alternatives,
          (Opening.ofAlternatives false declaration.rule.alternatives).canBeEmpty)) =
      some
        [(("a", false), [[some "e", some "b"], [none]], false),
          (("b", false), [[some "a"]], false),
          (("e", false), [[none]], true)] := by
    decide +kernel
  have unreported : (Syntax.Parse.ofText? text).map (fun parse =>
      grammar ⟨0, .ofText text, (Declare.table 0 (.ofText text) (membersOf parse.tree)).1⟩
        (membersOf parse.tree) (rulesOf parse.tree) none) = some [] := by
    decide +kernel
  obtain ⟨parse, read, shown⟩ := Option.map_eq_some_iff.mp shown
  rw [read] at unreported
  obtain ⟨first, others, declared, isFirst, shown⟩ := List.map_eq_cons_iff.mp shown
  obtain ⟨back, others, rfl, isBack, shown⟩ := List.map_eq_cons_iff.mp shown
  obtain ⟨hollow, others, rfl, isHollow, -⟩ := List.map_eq_cons_iff.mp shown
  simp only [Prod.mk.injEq] at isFirst isBack isHollow
  obtain ⟨⟨firstText, firstParser⟩, firstRows, -⟩ := isFirst
  obtain ⟨⟨backText, backParser⟩, backRows, -⟩ := isBack
  obtain ⟨⟨hollowText, -⟩, -, canBeEmpty⟩ := isHollow
  have firstAmong : first ∈ firstDeclared (rulesOf parse.tree) := declared ▸ .head _
  have backAmong : back ∈ firstDeclared (rulesOf parse.tree) := declared ▸ .tail _ (.head _)
  have hollowAmong : hollow ∈ firstDeclared (rulesOf parse.tree) :=
    declared ▸ .tail _ (.tail _ (.head _))
  have nullable : Nullable (rulesOf parse.tree) "e" :=
    hollowText ▸ nullable_of_opening hollowAmong canBeEmpty
  have hides : [some "e", some "b"] ∈ referenceRows false first.rule.alternatives :=
    firstRows ▸ .head _
  have returns : [some "a"] ∈ referenceRows false back.rule.alternatives := backRows ▸ .head _
  refine ⟨parse, first, back, read, by rw [firstText, firstParser], by rw [backText, backParser],
    .single ⟨firstAmong, backAmong, ?_⟩, .single ⟨backAmong, firstAmong, ?_⟩,
    Option.some.inj unreported⟩
  · rw [backText, backParser]
    exact bodyStartsWith_of_references ["e"] (List.forall_mem_singleton.mpr nullable) hides
  · rw [firstText, firstParser]
    exact bodyStartsWith_of_references [] (List.forall_mem_nil _) returns

end GrammarDesk.Check
