import Mathlib.Data.List.Enum
import Mathlib.Logic.Relation
import GrammarDesk.Check.Basic
import GrammarDesk.Proofs.Check.Leading
import GrammarDesk.Proofs.Lists
import GrammarDesk.Symbol.Declare
import GrammarDesk.Syntax.Parse

/-!
Contract: the cycles of rules that can start with each other.

Owns: the first declarations of the rules of a file, which of them leads to which by what
their bodies tell by themselves, and the proof that the check reports exactly the rules on
cycles.

Does not own: what a body can start with (`Leading`).

The check numbers the first declarations and works on places. Their names are all different,
so places and declarations stand for each other, and paths of places are paths of
declarations.

Main statements: `path_iff`, `exists_cyclesReported`, `grammar_reports_cycles`.
-/

namespace GrammarDesk.Check

open Text Grammar

/-! ## First declarations -/

structure Declaration where
  name : Name
  rule : Rule

namespace Declaration

def text (declaration : Declaration) : String :=
  declaration.name.text

def named (rules : List Rule) : List Declaration :=
  rules.filterMap fun rule => rule.name.map fun name => ⟨name, rule⟩

def firsts : List Declaration → List Declaration
  | [] => []
  | first :: rest => first :: (firsts rest).filter fun other => other.text ≠ first.text

def node (declaration : Declaration) : RuleNode :=
  ⟨declaration.name, declaration.rule.isLexer,
    (Opening.ofAlternatives declaration.rule.isLexer declaration.rule.alternatives).rules⟩

theorem firsts_distinct (declarations : List Declaration) :
    (firsts declarations).Pairwise fun left right => left.text ≠ right.text := by
  induction declarations with
  | nil => exact .nil
  | cons first rest inductionHypothesis =>
      refine .cons (fun other isOther => ?_) (inductionHypothesis.filter _)
      exact Ne.symm (of_decide_eq_true (List.mem_filter.mp isOther).2)

/-- The check keeps the nodes of the first declarations of names that are not taken. -/
theorem firsts_map_node (taken : List String) (declarations : List Declaration) :
    RuleNode.firsts taken (declarations.map node) =
      ((firsts declarations).filter fun declaration => declaration.text ∉ taken).map node := by
  induction declarations generalizing taken with
  | nil => rfl
  | cons first rest inductionHypothesis =>
      rw [List.map_cons, RuleNode.firsts, firsts]
      change (if first.text ∈ taken then _
        else first.node :: RuleNode.firsts (first.text :: taken) _) = _
      by_cases isTaken : first.text ∈ taken
      · rw [if_pos isTaken, inductionHypothesis,
          List.filter_cons_of_neg (by simpa using isTaken), List.filter_filter]
        refine congrArg (List.map node) (List.filter_congr fun other _ => ?_)
        grind
      · rw [if_neg isTaken, inductionHypothesis,
          List.filter_cons_of_pos (by simpa using isTaken), List.filter_filter, List.map_cons]
        refine congrArg (first.node :: List.map node ·) (List.filter_congr fun other _ => ?_)
        grind

end Declaration

/-- The first declarations of the rules of a file, in their order. -/
def firstDeclared (rules : List Rule) : List Declaration :=
  Declaration.firsts (Declaration.named rules)

theorem ofRules_eq (rules : List Rule) :
    RuleNode.ofRules rules = (firstDeclared rules).map Declaration.node := by
  have named : rules.filterMap RuleNode.ofRule? =
      (Declaration.named rules).map Declaration.node := by
    rw [Declaration.named, List.map_filterMap]
    refine congrArg (List.filterMap · rules) (funext fun rule => ?_)
    rw [Option.map_map]
    rfl
  rw [RuleNode.ofRules, named, Declaration.firsts_map_node]
  exact congrArg (List.map _) (List.filter_eq_self.mpr fun _ _ => decide_eq_true List.not_mem_nil)

/-- Declarations of one name stand at one place. -/
theorem place_unique {rules : List Rule} {left right : Nat} {first second : Declaration}
    (isFirst : (firstDeclared rules)[left]? = some first)
    (isSecond : (firstDeclared rules)[right]? = some second) (sameName : first.text = second.text) :
    left = right := by
  obtain ⟨leftBound, rfl⟩ := List.getElem?_eq_some_iff.mp isFirst
  obtain ⟨rightBound, rfl⟩ := List.getElem?_eq_some_iff.mp isSecond
  have distinct :=
    List.pairwise_iff_getElem.mp (Declaration.firsts_distinct (Declaration.named rules))
  rcases Nat.lt_trichotomy left right with less | same | greater
  · exact absurd sameName (distinct left right leftBound rightBound less)
  · exact same
  · exact absurd sameName.symm (distinct right left rightBound leftBound greater)

theorem declared_unique {rules : List Rule} {left right : Declaration}
    (isLeft : left ∈ firstDeclared rules) (isRight : right ∈ firstDeclared rules)
    (sameName : left.text = right.text) : left = right := by
  obtain ⟨leftPlace, atLeft⟩ := List.mem_iff_getElem?.mp isLeft
  obtain ⟨rightPlace, atRight⟩ := List.mem_iff_getElem?.mp isRight
  rw [place_unique atLeft atRight sameName] at atLeft
  exact Option.some.inj (atLeft.symm.trans atRight)

/-! ## Edges and paths -/

/-- A rule can start with a reference to another one, if references to `empty` rules can
match nothing. Of each name the first declaration counts. -/
structure Leads (rules : List Rule) (empty : String → Prop) (source target : Declaration) :
    Prop where
  isSource : source ∈ firstDeclared rules
  isTarget : target ∈ firstDeclared rules
  starts : BodyStartsWith target.rule.isLexer empty source.rule.alternatives target.text

/-- A rule leads to one of its own class by what its body tells by itself. -/
def LeadsByItself (rules : List Rule) (source target : Declaration) : Prop :=
  source.rule.isLexer = target.rule.isLexer ∧ Leads rules noRule source target

/-- Different rules lead to each other. -/
def Meet (rules : List Rule) (left right : Declaration) : Prop :=
  left.text ≠ right.text ∧ Relation.TransGen (LeadsByItself rules) left right ∧
    Relation.TransGen (LeadsByItself rules) right left

theorem declared_of_path {rules : List Rule} {source target : Declaration}
    (path : Relation.TransGen (LeadsByItself rules) source target) :
    target ∈ firstDeclared rules := by
  obtain ⟨_, _, last⟩ := Relation.TransGen.tail'_iff.mp path
  exact last.2.isTarget

theorem testBit_foldl (places : List Nat) (row place : Nat) :
    (places.foldl (fun row place => row ||| 1 <<< place) row).testBit place = true ↔
      row.testBit place = true ∨ place ∈ places := by
  induction places generalizing row with
  | nil => simp
  | cons first rest inductionHypothesis =>
      rw [List.foldl_cons, inductionHypothesis, Nat.testBit_or, Bool.or_eq_true,
        Nat.one_shiftLeft, Nat.testBit_two_pow, List.mem_cons, or_assoc, decide_eq_true_eq,
        eq_comm (a := first)]

/-- The place that a leading reference means is that of the declaration of its name, if that is
of the same class. -/
theorem targetOf?_eq_some_iff {rules : List Rule} (source : Declaration) (name : String)
    (place : Nat) :
    source.node.targetOf? ((firstDeclared rules).map Declaration.node) name = some place ↔
      ∃ target, (firstDeclared rules)[place]? = some target ∧ target.text = name ∧
        target.rule.isLexer = source.rule.isLexer := by
  rw [RuleNode.targetOf?, List.findIdx?_map, List.findIdx?_eq_some_iff_getElem]
  constructor
  · intro ⟨bound, isTarget, _⟩
    obtain ⟨isName, sameClass⟩ := Bool.and_eq_true_iff.mp isTarget
    exact ⟨_, List.getElem?_eq_getElem bound, of_decide_eq_true isName,
      of_decide_eq_true sameClass⟩
  · intro ⟨target, isTarget, isName, sameClass⟩
    obtain ⟨bound, rfl⟩ := List.getElem?_eq_some_iff.mp isTarget
    refine ⟨bound, ?_, fun earlier less isEarlier => ?_⟩
    · exact Bool.and_eq_true_iff.mpr ⟨decide_eq_true isName, decide_eq_true sameClass⟩
    · have earlierName : (firstDeclared rules)[earlier].text = name :=
        of_decide_eq_true (Bool.and_eq_true_iff.mp isEarlier).1
      exact Nat.ne_of_lt less (place_unique (List.getElem?_eq_getElem _) isTarget
        (earlierName.trans isName.symm))

/-- The row of a rule has the bits of the rules that it leads to. -/
theorem testBit_edges_iff {rules : List Rule} {source : Declaration}
    (isSource : source ∈ firstDeclared rules) (place : Nat) :
    (source.node.edges ((firstDeclared rules).map Declaration.node)).testBit place = true ↔
      ∃ target, (firstDeclared rules)[place]? = some target ∧
        LeadsByItself rules source target := by
  have opening := Opening.describes_ofAlternatives source.rule.isLexer source.rule.alternatives
  simp only [RuleNode.edges, testBit_foldl, Nat.zero_testBit, Bool.false_eq_true, false_or,
    List.mem_filterMap, targetOf?_eq_some_iff]
  constructor
  · intro ⟨name, isLead, target, isTarget, isName, sameClass⟩
    have starts := (opening.rules name).mp isLead
    rw [← sameClass, ← isName] at starts
    exact ⟨target, isTarget, sameClass.symm, isSource, List.mem_of_getElem? isTarget, starts⟩
  · intro ⟨target, isTarget, sameClass, leads⟩
    refine ⟨target.text, (opening.rules target.text).mpr ?_, target, isTarget, rfl, sameClass.symm⟩
    rw [sameClass]
    exact leads.starts

/-- The graph that the check completes: a row for every first declaration. -/
def rowsOf (rules : List Rule) : Graph.Rows :=
  ((firstDeclared rules).map Declaration.node).map
    (RuleNode.edges ((firstDeclared rules).map Declaration.node))

theorem leads_iff (rules : List Rule) (start finish : Nat) :
    (rowsOf rules).leads start finish = true ↔
      ∃ source target, (firstDeclared rules)[start]? = some source ∧
        (firstDeclared rules)[finish]? = some target ∧ LeadsByItself rules source target := by
  rw [Graph.Rows.leads, rowsOf, List.getD_eq_getElem?_getD, List.getElem?_map, List.getElem?_map]
  cases isSource : (firstDeclared rules)[start]? with
  | none => simp
  | some source =>
      rw [Option.map_some, Option.map_some, Option.getD_some,
        testBit_edges_iff (List.mem_of_getElem? isSource)]
      simp

/-- Paths of places are paths of the declarations at these places. -/
theorem path_iff (rules : List Rule) (start finish : Nat) :
    (rowsOf rules).reach.leads start finish = true ↔
      ∃ source target, (firstDeclared rules)[start]? = some source ∧
        (firstDeclared rules)[finish]? = some target ∧
        Relation.TransGen (LeadsByItself rules) source target := by
  rw [Graph.Rows.reach_iff]
  constructor
  · intro path
    induction path with
    | single edge =>
        obtain ⟨source, target, isSource, isTarget, leads⟩ := (leads_iff rules _ _).mp edge
        exact ⟨source, target, isSource, isTarget, .single leads⟩
    | tail _ edge inductionHypothesis =>
        obtain ⟨source, middle, isSource, isMiddle, path⟩ := inductionHypothesis
        obtain ⟨same, target, isSame, isTarget, leads⟩ := (leads_iff rules _ _).mp edge
        obtain rfl : middle = same := Option.some.inj (isMiddle.symm.trans isSame)
        exact ⟨source, target, isSource, isTarget, path.tail leads⟩
  · intro ⟨source, target, isSource, isTarget, path⟩
    induction path generalizing finish with
    | single leads =>
        exact .single ((leads_iff rules _ _).mpr ⟨_, _, isSource, isTarget, leads⟩)
    | tail _ leads inductionHypothesis =>
        obtain ⟨place, isMiddle⟩ := List.mem_iff_getElem?.mp leads.2.isSource
        exact (inductionHypothesis place isMiddle).tail
          ((leads_iff rules _ _).mpr ⟨_, _, isMiddle, isTarget, leads⟩)

/-- Whether a rule leads back to itself: it meets another rule or leads to itself at once. -/
theorem loops_iff (rules : List Rule) (declaration : Declaration) :
    Relation.TransGen (LeadsByItself rules) declaration declaration ↔
      (∃ other, Meet rules declaration other) ∨ LeadsByItself rules declaration declaration := by
  constructor
  · intro loop
    cases loop with
    | single itself => exact .inr itself
    | @tail last _ there back =>
        by_cases sameName : declaration.text = last.text
        · obtain rfl := declared_unique back.2.isTarget back.2.isSource sameName
          exact .inr back
        · exact .inl ⟨last, sameName, there, .single back⟩
  · rintro (⟨other, -, there, back⟩ | itself)
    · exact there.trans back
    · exact .single itself

theorem loops_at_iff {rules : List Rule} {place : Nat} {declaration : Declaration}
    (isHere : (firstDeclared rules)[place]? = some declaration) :
    (rowsOf rules).reach.leads place place = true ↔
      Relation.TransGen (LeadsByItself rules) declaration declaration := by
  rw [path_iff, isHere]
  simp

theorem meets_at_iff {rules : List Rule} {left right : Nat} {first second : Declaration}
    (isFirst : (firstDeclared rules)[left]? = some first)
    (isSecond : (firstDeclared rules)[right]? = some second) :
    (left ≠ right ∧ (rowsOf rules).reach.leads left right = true ∧
        (rowsOf rules).reach.leads right left = true) ↔ Meet rules first second := by
  have sameName : left = right ↔ first.text = second.text := by
    refine ⟨fun samePlace => ?_, place_unique isFirst isSecond⟩
    rw [samePlace, isSecond] at isFirst
    rw [Option.some.inj isFirst]
  rw [path_iff, path_iff, isFirst, isSecond, Meet, Ne, Ne, sameName]
  simp

/-! ## Rules on cycles, with their places -/

/-- The first declarations of rules that lead back to themselves, with their places. -/
def looping (rules : List Rule) : List (Declaration × Nat) :=
  (firstDeclared rules).zipIdx.filter fun entry => (rowsOf rules).reach.leads entry.2 entry.2

def noteOf (rules : List Rule) (entry : Declaration × Nat) : LoopNode :=
  ⟨entry.1.node, entry.2, (rowsOf rules).reach.getD entry.2 0⟩

def partnersOf (rules : List Rule) (entry : Declaration × Nat) : List Declaration :=
  ((looping rules).filter fun other => (noteOf rules entry).meets (noteOf rules other)).map
    Prod.fst

def isReported (rules : List Rule) (entry : Declaration × Nat) : Bool :=
  !(partnersOf rules entry).isEmpty || entry.1.rule.isLexer

theorem mem_looping_iff {rules : List Rule} {entry : Declaration × Nat} :
    entry ∈ looping rules ↔ (firstDeclared rules)[entry.2]? = some entry.1 ∧
      Relation.TransGen (LeadsByItself rules) entry.1 entry.1 := by
  rw [looping, List.mem_filter, List.mem_zipIdx_iff_getElem?]
  exact and_congr_right loops_at_iff

theorem looping_sublist (rules : List Rule) :
    ((looping rules).map Prod.fst).Sublist (firstDeclared rules) := by
  have whole : ((firstDeclared rules).zipIdx).map Prod.fst = firstDeclared rules :=
    List.zipIdx_map_fst ..
  exact whole ▸ List.filter_sublist.map Prod.fst

theorem partnersOf_sublist (rules : List Rule) (entry : Declaration × Nat) :
    (partnersOf rules entry).Sublist (firstDeclared rules) :=
  (List.filter_sublist.map Prod.fst).trans (looping_sublist rules)

/-- The partners that a report names are the other rules on the cycles of its rule. -/
theorem mem_partnersOf_iff {rules : List Rule} {entry : Declaration × Nat}
    (isEntry : entry ∈ looping rules) (other : Declaration) :
    other ∈ partnersOf rules entry ↔ Meet rules entry.1 other := by
  have isHere := (mem_looping_iff.mp isEntry).1
  have meets : ∀ other : Declaration × Nat,
      (noteOf rules entry).meets (noteOf rules other) = true ↔
        entry.2 ≠ other.2 ∧ (rowsOf rules).reach.leads entry.2 other.2 = true ∧
          (rowsOf rules).reach.leads other.2 entry.2 = true := fun other => by
    rw [LoopNode.meets, Bool.and_eq_true, Bool.and_eq_true, decide_eq_true_eq, and_assoc]
    rfl
  rw [partnersOf, List.mem_map]
  constructor
  · rintro ⟨partner, isPartner, rfl⟩
    obtain ⟨isLooping, meet⟩ := List.mem_filter.mp isPartner
    exact (meets_at_iff isHere (mem_looping_iff.mp isLooping).1).mp ((meets partner).mp meet)
  · intro meet
    obtain ⟨place, isThere⟩ := List.mem_iff_getElem?.mp (declared_of_path meet.2.1)
    refine ⟨(other, place), List.mem_filter.mpr ⟨?_, ?_⟩, rfl⟩
    · exact mem_looping_iff.mpr ⟨isThere, meet.2.2.trans meet.2.1⟩
    · exact (meets _).mpr ((meets_at_iff isHere isThere).mpr meet)

theorem isReported_iff {rules : List Rule} {entry : Declaration × Nat}
    (isEntry : entry ∈ looping rules) :
    isReported rules entry = true ↔
      (∃ other, Meet rules entry.1 other) ∨ entry.1.rule.isLexer = true := by
  rw [isReported, Bool.or_eq_true, Bool.not_eq_true', List.isEmpty_eq_false_iff_exists_mem]
  exact or_congr_left (exists_congr (mem_partnersOf_iff isEntry))

/-- The check notes the rules that lead back to themselves, in their order. -/
theorem ofNodes_eq (rules : List Rule) :
    LoopNode.ofNodes (RuleNode.ofRules rules) = (looping rules).map (noteOf rules) := by
  have rows : ((RuleNode.ofRules rules).map (RuleNode.edges (RuleNode.ofRules rules)) :
      Graph.Rows) = rowsOf rules := by
    rw [ofRules_eq, rowsOf]
  have entries : ((RuleNode.ofRules rules).zip (rowsOf rules).reach).zipIdx =
      (firstDeclared rules).zipIdx.map fun entry =>
        ((entry.1.node, (rowsOf rules).reach.getD entry.2 0), entry.2) := by
    have sameLength : (rowsOf rules).reach.length = (firstDeclared rules).length := by
      rw [Graph.Rows.reach, Graph.Rows.length_foldl_through, rowsOf, List.length_map,
        List.length_map]
    refine List.ext_getElem (by simp [ofRules_eq, sameLength]) fun place leftBound rightBound => ?_
    have bound : place < (rowsOf rules).reach.length := by simpa [sameLength] using rightBound
    simp [ofRules_eq, List.getElem?_eq_getElem bound]
  rw [LoopNode.ofNodes, rows, entries, List.filterMap_map, looping]
  exact filterMap_if _ _ _

/-! ## Reports -/

/-- The report is about the cycles of one rule. Its related places are those of the other
rules that it meets, in the order of their declarations. -/
structure ReportsCycles (subject : Subject) (rules : List Rule) (declaration : Declaration)
    (report : Diagnostic) : Prop where
  kind : report.kind = .leftRecursion
  file : report.file = subject.file
  range : report.range = declaration.name.range
  span : report.span = subject.index.cutSpan declaration.name.range
  severity : report.severity = .error
  partners : ∃ partners : List Declaration, partners.Sublist (firstDeclared rules) ∧
    (∀ other, other ∈ partners ↔ Meet rules declaration other) ∧
    report.related = partners.map (fun other =>
      ⟨subject.file, other.name.range, subject.index.cutSpan other.name.range,
        "'" ++ other.text ++ "' declared here"⟩) ∧
    report.message =
      if partners.isEmpty then
        "lexer rule '" ++ declaration.text ++ "' is left-recursive"
      else
        "rule '" ++ declaration.text ++ "' is mutually left-recursive with " ++
          ", ".intercalate (partners.map fun other => "'" ++ other.text ++ "'")

/-- A rule that leads back to itself is reported once, unless it is a parser rule that meets no
other rule. -/
theorem reports_noteOf (subject : Subject) {rules : List Rule} {entry : Declaration × Nat}
    (isEntry : entry ∈ looping rules) :
    let reports := (Loops.ofRules subject.file subject.index rules).reports (noteOf rules entry)
    if isReported rules entry then
      ∃ report, reports = [report] ∧ ReportsCycles subject rules entry.1 report
    else
      reports = [] := by
  have sublist := partnersOf_sublist rules entry
  have isPartner := mem_partnersOf_iff isEntry
  have noted : ((Loops.ofRules subject.file subject.index rules).entries.filter fun other =>
      (noteOf rules entry).meets other.1) =
      ((looping rules).filter fun other =>
        (noteOf rules entry).meets (noteOf rules other)).map fun other =>
          (noteOf rules other, Loops.declared subject.file subject.index other.1.node) := by
    rw [Loops.ofRules, ofNodes_eq, List.map_map, List.filter_map]
    rfl
  rw [isReported]
  rw [partnersOf] at sublist isPartner ⊢
  unfold Loops.reports
  rw [noted]
  generalize (looping rules).filter (fun other =>
    (noteOf rules entry).meets (noteOf rules other)) = partners at sublist isPartner ⊢
  cases partners with
  | nil =>
      cases isLexer : entry.1.rule.isLexer with
      | false => exact if_neg (by simpa [noteOf, Declaration.node] using isLexer)
      | true =>
          refine ⟨_, if_pos isLexer, rfl, rfl, rfl, rfl, rfl, [], sublist, isPartner, rfl, rfl⟩
  | cons first rest =>
      refine ⟨_, rfl, rfl, rfl, rfl, rfl, rfl, _, sublist, isPartner, ?_, ?_⟩
      · simp [Diagnostic.ofKind, Diagnostic.relatedTo, Loops.declared, Declaration.text,
          Declaration.node, RuleNode.text, Loops.ofRules]
      · simp [Diagnostic.ofKind, Diagnostic.relatedTo, quotedNames, noteOf, Declaration.text,
          Declaration.node, RuleNode.text, Function.comp_def]

/-- The reports are exactly about the cycles of the rules. The rules that meet another rule and
the lexer rules that lead to themselves are reported once each, in the order of their
declarations. -/
structure CyclesReported (subject : Subject) (rules : List Rule) (reported : List Declaration)
    (reports : List Diagnostic) : Prop where
  inOrder : reported.Sublist (firstDeclared rules)
  distinct : reported.Pairwise fun left right => left.text ≠ right.text
  mem_iff : ∀ declaration, declaration ∈ reported ↔
    (∃ other, Meet rules declaration other) ∨
      declaration.rule.isLexer = true ∧ LeadsByItself rules declaration declaration
  reports : List.Forall₂ (ReportsCycles subject rules) reported reports

/-- The report of left recursion is about the cycles, whatever the rules are. -/
theorem exists_cyclesReported (subject : Subject) (rules : List Rule) :
    ∃ reported, CyclesReported subject rules reported
      (leftRecursion subject.file subject.index rules) := by
  have sublist : (((looping rules).filter (isReported rules)).map Prod.fst).Sublist
      (firstDeclared rules) :=
    (List.filter_sublist.map Prod.fst).trans (looping_sublist rules)
  refine ⟨_, sublist, (Declaration.firsts_distinct (Declaration.named rules)).sublist sublist,
    fun declaration => ?_, ?_⟩
  · rw [List.mem_map]
    constructor
    · rintro ⟨entry, isEntry, rfl⟩
      obtain ⟨isLooping, reported⟩ := List.mem_filter.mp isEntry
      rcases (loops_iff rules _).mp (mem_looping_iff.mp isLooping).2 with meets | itself
      · exact .inl meets
      · exact ((isReported_iff isLooping).mp reported).imp id fun isLexer => ⟨isLexer, itself⟩
    · intro meetsOrItself
      have loops := (loops_iff rules declaration).mpr (meetsOrItself.imp id And.right)
      obtain ⟨place, isHere⟩ := List.mem_iff_getElem?.mp (declared_of_path loops)
      have isLooping : (declaration, place) ∈ looping rules :=
        mem_looping_iff.mpr ⟨isHere, loops⟩
      exact ⟨_, List.mem_filter.mpr ⟨isLooping,
        (isReported_iff isLooping).mpr (meetsOrItself.imp id And.left)⟩, rfl⟩
  · have byEntry : leftRecursion subject.file subject.index rules =
        (looping rules).flatMap fun entry =>
          (Loops.ofRules subject.file subject.index rules).reports (noteOf rules entry) := by
      rw [leftRecursion]
      conv => lhs; arg 2; rw [Loops.ofRules, ofNodes_eq]
      simp only [List.flatMap_map]
    rw [List.forall₂_map_left_iff, byEntry]
    exact forall₂_filter_flatMap fun entry isEntry => reports_noteOf subject isEntry

/-! ## All checks -/

theorem kind_of_mem_ruleClass {subject : Subject} {rule : Rule} {report : Diagnostic}
    (isReport : report ∈ ruleClass subject rule) : report.kind = .ruleNotAllowed := by
  unfold ruleClass at isReport
  dsimp only at isReport
  split at isReport
  · cases isReport
  · split at isReport
    · exact List.mem_singleton.mp isReport ▸ rfl
    · split at isReport
      · exact List.mem_singleton.mp isReport ▸ rfl
      · cases isReport

theorem kind_of_mem_placement {subject : Subject} {member : Member} {report : Diagnostic}
    (isReport : report ∈ placement subject member) : report.kind = .ruleNotAllowed := by
  cases member with
  | rule entry => exact kind_of_mem_ruleClass isReport
  | mode mode =>
      rcases List.mem_append.mp isReport with isModes | isRule
      · split at isModes
        · cases isModes
        · exact List.mem_singleton.mp isModes ▸ rfl
      · obtain ⟨entry, _, isRule⟩ := List.mem_flatMap.mp isRule
        exact kind_of_mem_ruleClass isRule
  | _ => cases isReport

theorem kind_of_mem_grammarName {subject : Subject} {stem : Option String} {report : Diagnostic}
    (isReport : report ∈ grammarName subject stem) : report.kind = .grammarNameMismatch := by
  unfold grammarName at isReport
  split at isReport
  · split at isReport
    · cases isReport
    · exact List.mem_singleton.mp isReport ▸ rfl
  · cases isReport

theorem kind_of_mem_emptyGrammar {subject : Subject} {report : Diagnostic}
    (isReport : report ∈ emptyGrammar subject) : report.kind = .emptyGrammar := by
  unfold emptyGrammar at isReport
  split at isReport
  · split at isReport
    · exact List.mem_singleton.mp isReport ▸ rfl
    · cases isReport
  · cases isReport

theorem kind_of_mem_reports {loops : Loops} {entry : LoopNode} {report : Diagnostic}
    (isReport : report ∈ loops.reports entry) : report.kind = .leftRecursion := by
  unfold Loops.reports at isReport
  dsimp only at isReport
  split at isReport
  · split at isReport
    · exact List.mem_singleton.mp isReport ▸ rfl
    · cases isReport
  · exact List.mem_singleton.mp isReport ▸ rfl

/-- No other check of a file reports left recursion. -/
theorem filter_grammar (subject : Subject) (members : List Member) (rules : List Rule)
    (stem : Option String) :
    ((grammar subject members rules stem).filter fun report => report.kind = .leftRecursion) =
      leftRecursion subject.file subject.index rules := by
  have placements : (members.flatMap (placement subject)).filter
      (fun report => report.kind = .leftRecursion) = [] := by
    refine List.filter_eq_nil_iff.mpr fun report isReport => ?_
    obtain ⟨member, _, isReport⟩ := List.mem_flatMap.mp isReport
    simp [kind_of_mem_placement isReport]
  have names : (grammarName subject stem).filter
      (fun report => report.kind = .leftRecursion) = [] :=
    List.filter_eq_nil_iff.mpr fun report isReport => by simp [kind_of_mem_grammarName isReport]
  have empty : (emptyGrammar subject).filter
      (fun report => report.kind = .leftRecursion) = [] :=
    List.filter_eq_nil_iff.mpr fun report isReport => by simp [kind_of_mem_emptyGrammar isReport]
  have recursion : (leftRecursion subject.file subject.index rules).filter
      (fun report => report.kind = .leftRecursion) =
        leftRecursion subject.file subject.index rules := by
    refine List.filter_eq_self.mpr fun report isReport => ?_
    obtain ⟨entry, _, isReport⟩ := List.mem_flatMap.mp isReport
    exact decide_eq_true (kind_of_mem_reports isReport)
  rw [grammar, List.filter_append, List.filter_append, List.filter_append, placements, names,
    empty, recursion, List.nil_append, List.append_nil, List.append_nil]

/-- The left recursion that the checks of a file report is exactly the cycles of its rules: each
rule that meets another one, with the rules that it meets, and each lexer rule that leads to
itself. -/
theorem grammar_reports_cycles (subject : Subject) (members : List Member) (rules : List Rule)
    (stem : Option String) :
    ∃ reported, CyclesReported subject rules reported
      ((grammar subject members rules stem).filter fun report =>
        report.kind = .leftRecursion) := by
  rw [filter_grammar]
  exact exists_cyclesReported subject rules

/-- The rule that the element is a negated reference to, if it is one to a parser rule. -/
def negatedRule? : Element → Option String
  | .negated _ (some (.ruleRef _ name)) => some name.text
  | _ => none

/-- Rules whose bodies are negated references to each other are on no cycle. -/
theorem negations_lead_nowhere :
    let text := "grammar G;a:~b;b:~a;"
    (Syntax.Parse.ofText? text).map (fun parse =>
        (rulesOf parse.tree).map fun rule => (rule.nameText, rule.isLexer,
          rule.alternatives.map fun alternative => alternative.elements.map negatedRule?)) =
      some [(some "a", false, [[some "b"]]), (some "b", false, [[some "a"]])] ∧
    (Syntax.Parse.ofText? text).map (fun parse =>
        let table := (Declare.table 0 (.ofText text) (membersOf parse.tree)).1
        grammar ⟨0, .ofText text, table⟩ (membersOf parse.tree) (rulesOf parse.tree) none) =
      some [] := by
  decide +kernel

end GrammarDesk.Check
