import GrammarDesk.Proofs.Grammar.Heads
import GrammarDesk.Proofs.Lists
import GrammarDesk.Proofs.Syntax.Locality

/-!
Contract: the rules of a text in which a semicolon is missing.

Owns: rules that directly follow one another, the words of a well-formed text, and what becomes
of the rules when the semicolon at the end of one is replaced by a blank.

Does not own: how a rule without its semicolon is read (`Syntax`).

Main statement: if the rule after it is seen to begin, a missing semicolon is reported and
every rule is read with the kind and name it had (`missing_semicolon_keeps_rules`).
-/

namespace GrammarDesk.Grammar

open Syntax Text ParseTree

/-! ## Rules that follow one another -/

/-- Whether the tree is a handler of a rule, or its final clause. -/
def isHandler (tree : ParseTree) : Bool :=
  tree.isNode .exceptionHandler || tree.isNode .finallyClause

/-- One rule directly follows another, in a file or in one of its modes: between them stand only
whitespace and comments. -/
structure NextRule (root first second : ParseTree) : Prop where
  firstRule : Rule.isRule first = true
  secondRule : Rule.isRule second = true
  place : ∃ parent ∈ root :: root.children.filter (isNode .modeSection),
    ∃ (before after : List ParseTree) (between : List Token),
      parent.children = before ++ first :: (between.map .leaf ++ second :: after) ∧
        ∀ token ∈ between, token.kind.isTrivia = true

theorem any_isHandler_shapesOf (trees : List ParseTree) :
    (shapesOf trees).any Shape.isHandler = trees.any isHandler := by
  induction trees with
  | nil => rfl
  | cons tree rest inductionHypothesis =>
      rw [shapesOf_cons, List.any_append, inductionHypothesis, List.any_cons]
      cases tree with
      | leaf token =>
          rw [shape?]
          split <;> rfl
      | node kind range children => exact congrArg (· || _) (Bool.or_false _)

/-- A rule has a shape that is one, with its lexemes, and with handlers just if it has some. -/
theorem exists_shape {tree : ParseTree} (isRule : Rule.isRule tree = true) :
    ∃ shape, tree.shape? = some shape ∧ shape.isRule = true ∧
      shape.isHandled = tree.children.any isHandler ∧
      shape.leaves = significantOf tree.tokens := by
  cases tree with
  | leaf token => cases isRule
  | node kind range children =>
      exact ⟨.node kind (shapesOf children), rfl, isRule, any_isHandler_shapesOf children,
        leavesOf_shapesOf children⟩

/-- What has children has the tokens of the children. -/
theorem tokens_of_mem_children {tree child : ParseTree} (isChild : child ∈ tree.children) :
    tree.tokens = tokensOf tree.children := by
  cases tree with
  | leaf token => cases isChild
  | node kind range children => rfl

theorem shape?_of_isNode {tree : ParseTree} {kind : Kind} (isKind : tree.isNode kind = true) :
    tree.shape? = some (.node kind (shapesOf tree.children)) := by
  cases tree with
  | leaf token => cases isKind
  | node own range children =>
      obtain rfl : own = kind := of_decide_eq_true isKind
      rfl

/-- Where a rule is cut off that another one directly follows. -/
theorem NextRule.split {root first second : ParseTree} (next : NextRule root first second)
    {firstShape secondShape : Shape} (isFirst : first.shape? = some firstShape)
    (isSecond : second.shape? = some secondShape) (firstRule : firstShape.isRule = true)
    (secondRule : secondShape.isRule = true) :
    ∃ earlier later front back,
      (shapesOf root.children).flatMap Shape.membersIn =
        earlier ++ firstShape :: secondShape :: later ∧
      root.tokens = front ++ (first.tokens ++ back) ∧
      significantOf front = Shape.leavesOf earlier := by
  obtain ⟨parent, isParent, before, after, between, siblings, areTrivia⟩ := next.place
  have noneBetween : significantOf between = [] := by
    have noToken : between.filter (fun token => !token.kind.isTrivia) = [] :=
      List.filter_eq_nil_iff.mpr fun token isToken => by simp [areTrivia token isToken]
    rw [significantOf, noToken, List.map_nil]
  have shapes : shapesOf parent.children =
      shapesOf before ++ firstShape :: secondShape :: shapesOf after := by
    rw [siblings, shapesOf_append, shapesOf_cons, shapesOf_append, shapesOf_cons, isFirst, isSecond,
      shapesOf_map_leaf, noneBetween]
    rfl
  have isFirstChild : first ∈ parent.children := by
    rw [siblings]
    exact List.mem_append_right _ List.mem_cons_self
  have tokens : parent.tokens = tokensOf before ++
      (first.tokens ++ tokensOf (between.map .leaf ++ second :: after)) := by
    rw [tokens_of_mem_children isFirstChild, siblings, Weave.tokensOf_append, tokensOf_cons]
  rcases List.mem_cons.mp isParent with rfl | isMode
  · refine ⟨(shapesOf before).flatMap Shape.membersIn, (shapesOf after).flatMap Shape.membersIn,
      tokensOf before, tokensOf (between.map .leaf ++ second :: after), ?_, tokens, ?_⟩
    · rw [shapes, List.flatMap_append, List.flatMap_cons, List.flatMap_cons,
        Shape.membersIn_of_isRule firstRule, Shape.membersIn_of_isRule secondRule]
      rfl
    · rw [Shape.leavesOf_flatMap_membersIn, leavesOf_shapesOf]
  · obtain ⟨isChild, isMode⟩ := List.mem_filter.mp isMode
    obtain ⟨former, latter, members⟩ := List.append_of_mem isChild
    obtain ⟨inMode, stands, leaves⟩ :=
      Shape.membersIn_mode (shapesOf before) (secondShape :: shapesOf after) firstRule
    refine ⟨(shapesOf former).flatMap Shape.membersIn ++ inMode,
      shapesOf after ++ (shapesOf latter).flatMap Shape.membersIn,
      tokensOf former ++ tokensOf before,
      tokensOf (between.map .leaf ++ second :: after) ++ tokensOf latter, ?_, ?_, ?_⟩
    · rw [members, shapesOf_append, shapesOf_cons, shape?_of_isNode isMode, shapes,
        List.flatMap_append, List.flatMap_append, Option.toList_some, List.flatMap_singleton,
        stands]
      simp
    · rw [tokens_of_mem_children isChild, members, Weave.tokensOf_append, tokensOf_cons, tokens]
      simp
    · rw [significantOf_append, Shape.leavesOf_append, Shape.leavesOf_flatMap_membersIn,
        leavesOf_shapesOf, leaves, leavesOf_shapesOf]

/-! ## The words of a text -/

section Words

open Production Ebnf Ebnf.Phrase

variable {text : String} {parse : Parse} {words : List (List Lexeme)}

/-- Words that the significant tokens of a text spell are shown by the members of its tree. -/
theorem shows_of_loose (read : Parse.ofText? text = some parse)
    (spelled : significantOf (Scan.tokenize text) = words.flatten) (loose : Loose words) :
    List.Forall₂ Shows ((shapesOf parse.tree.children).flatMap Shape.membersIn) words := by
  have shape := (Parse.shape_of_lexemes text.utf8ByteSize (Scan.tokenize text)).1
  rw [spelled, shapes_file] at shape
  obtain ⟨_, rfl⟩ := Parse.ofText?_eq_some_iff.mp read
  have children : shapesOf (Parse.ofTokens text.utf8ByteSize (Scan.tokenize text)).tree.children =
      (members words.flatten).shapes := (Shape.node.inj (Option.some.inj shape)).2
  rw [children]
  exact members_show loose

/-- A text without syntax errors is read from the words of members, and every token of it is
readable. -/
theorem exists_words (read : Parse.ofText? text = some parse) (clean : parse.errors = []) :
    ∃ words : List (List Lexeme), significantOf (Scan.tokenize text) = words.flatten ∧
      (∀ word ∈ words, Derives (part .member) word) ∧
      ∀ token ∈ Scan.tokenize text, token.kind ≠ .error := by
  have accepted : (Production.file (significantOf (Scan.tokenize text))).2 = [] := by
    obtain ⟨_, rfl⟩ := Parse.ofText?_eq_some_iff.mp read
    exact List.map_eq_nil_iff.mp clean
  obtain ⟨readable, derives⟩ := (Production.file_eq_nil_iff _).mp accepted
  obtain ⟨words, spelled, each, _⟩ := exists_members derives
  refine ⟨words, spelled, each, fun token isToken unreadable => ?_⟩
  refine readable token.toLexeme ?_ unreadable
  refine List.mem_map_of_mem (List.mem_filter.mpr ⟨isToken, ?_⟩)
  rw [unreadable]
  rfl

/-- The rules of a text have the heads that its words spell. -/
theorem heads_of_words (read : Parse.ofText? text = some parse)
    (shown : List.Forall₂ Shows ((shapesOf parse.tree.children).flatMap Shape.membersIn) words) :
    (rulesOf parse.tree).map Rule.head = words.filterMap spelledHead? := by
  rw [rulesOf_eq_map (Parse.nested_of_text read) (Parse.isNode_of_text read), List.map_map,
    ← heads_of_shows shown]
  exact heads_flatMap parse.tree.children

/-! ## A semicolon less -/

theorem spelledHead?_append {word : List Lexeme} (unended : Unended word) (rest : List Lexeme) :
    spelledHead? (word ++ rest) = spelledHead? word := by
  obtain ⟨modified, name, specs, colon, body, rfl, opened, _⟩ := unended.form
  have areModifiers := isRuleModifier_of_derives opened.modifiers
  rw [List.append_assoc, List.cons_append, spelledHead?_named areModifiers opened.named,
    spelledHead?_named areModifiers opened.named]

/-- A word without its semicolon among the words of a text makes an error. -/
theorem errors_ne_nil (read : Parse.ofText? text = some parse)
    (spelled : significantOf (Scan.tokenize text) = words.flatten) (loose : Loose words)
    {word rest : List Lexeme} (isWord : word ∈ words) (unended : Unended word)
    (begins : RuleBegins rest) : parse.errors ≠ [] := by
  intro clean
  obtain ⟨members, membersSpelled, each, _⟩ := exists_words read clean
  have shown := shows_of_loose read spelled loose
  have shownMembers := shows_of_loose read membersSpelled (loose_of_members each)
  have same : words = members :=
    (map_leaves_of_shown shown).symm.trans (map_leaves_of_shown shownMembers)
  exact not_member_of_unended unended begins (each word (same ▸ isWord))

/-- The last significant of some tokens, and what stands around it. -/
theorem exists_last {tokens : List Token} {word : List Lexeme} {last : Lexeme}
    (spelled : significantOf tokens = word ++ [last]) :
    ∃ before token after, tokens = before ++ token :: after ∧ token.toLexeme = last ∧
      significantOf before = word ∧ significantOf after = [] ∧
      (tokens.filter fun token => !token.kind.isTrivia).getLast? = some token := by
  obtain ⟨earlier, ending, filtered, isWord, isLast⟩ := List.map_eq_append_iff.mp spelled
  obtain ⟨token, rfl, rfl⟩ := List.map_eq_singleton_iff.mp isLast
  have isToken : (tokens.filter fun token => !token.kind.isTrivia).getLast? = some token := by
    rw [filtered, List.getLast?_concat]
  obtain ⟨front, back, rfl, isEarlier, isEnding⟩ := List.filter_eq_append_iff.mp filtered
  obtain ⟨trivia, after, rfl, areTrivia, _, noneAfter⟩ := List.filter_eq_cons_iff.mp isEnding
  refine ⟨front ++ trivia, token, after, (List.append_assoc _ _ _).symm, rfl, ?_, ?_, isToken⟩
  · rw [significantOf_append, significantOf, isEarlier, isWord, significantOf,
      List.filter_eq_nil_iff.mpr areTrivia, List.map_nil, List.append_nil]
  · rw [significantOf, noneAfter, List.map_nil]

/-- A text cut into the words before a rule, the rule, which ends with its semicolon, and the
words after it, of which the first is a rule that is seen to begin. -/
structure Cut (text : String) (first : ParseTree) (before : List (List Lexeme))
    (word : List Lexeme) (semicolon : Lexeme) (after : List (List Lexeme)) : Prop where
  isEnd : semicolon.kind = .semicolon
  ended : Derives (part .rule) (word ++ [semicolon])
  begins : RuleBegins after.flatten
  earlier : ∀ word ∈ before, Derives (part .member) word
  later : ∀ word ∈ after, Derives (part .member) word
  own : significantOf first.tokens = word ++ [semicolon]
  place : ∃ front back, Scan.tokenize text = front ++ (first.tokens ++ back) ∧
    significantOf front = before.flatten ∧ significantOf back = after.flatten

namespace Cut

variable {first : ParseTree} {before after : List (List Lexeme)} {word : List Lexeme}
variable {semicolon : Lexeme}

theorem unended (cut : Cut text first before word semicolon after) : Unended word :=
  ⟨semicolon, cut.isEnd, cut.ended⟩

theorem spelled (cut : Cut text first before word semicolon after) :
    significantOf (Scan.tokenize text) =
      (before ++ (word ++ [semicolon]) :: after).flatten := by
  obtain ⟨front, back, tokens, isFront, isBack⟩ := cut.place
  rw [tokens, significantOf_append, significantOf_append, isFront, isBack, cut.own,
    List.flatten_append, List.flatten_cons]

theorem loose (cut : Cut text first before word semicolon after) :
    Loose (before ++ (word ++ [semicolon]) :: after) :=
  (Loose.member (derives_member_iff.mpr ⟨.rule, by decide, cut.ended⟩)
    (loose_of_members cut.later)).after_members cut.earlier

/-- Without the semicolon the words are still read one by one. -/
theorem loose_unended (cut : Cut text first before word semicolon after) :
    Loose (before ++ word :: after) :=
  (Loose.unended cut.unended cut.begins (loose_of_members cut.later)).after_members cut.earlier

/-- The heads of the words do not depend on the semicolon. -/
theorem filterMap_spelledHead? (cut : Cut text first before word semicolon after) :
    (before ++ (word ++ [semicolon]) :: after).filterMap spelledHead? =
      (before ++ word :: after).filterMap spelledHead? := by
  rw [List.filterMap_append, List.filterMap_append, List.filterMap_cons, List.filterMap_cons,
    spelledHead?_append cut.unended]

/-- The semicolon of the rule, and what a blank in its place makes of the text. -/
theorem exists_blank (cut : Cut text first before word semicolon after)
    (begins : Parse.beginsWithTrivia (Scan.tokenize text) = false)
    (readable : ∀ token ∈ Scan.tokenize text, token.kind ≠ .error) :
    ∃ front back token, text = front ++ ";" ++ back ∧
      first.significantTokens.getLast? = some token ∧ token.kind = .semicolon ∧
      token.offset = front.utf8ByteSize ∧
      Parse.beginsWithTrivia (Scan.tokenize (front ++ " " ++ back)) = false ∧
      significantOf (Scan.tokenize (front ++ " " ++ back)) =
        (before ++ word :: after).flatten := by
  obtain ⟨front, back, tokens, isFront, isBack⟩ := cut.place
  obtain ⟨inner, token, outer, own, rfl, isInner, isOuter, isLast⟩ := exists_last cut.own
  have significantBefore : significantOf (front ++ inner) = before.flatten ++ word := by
    rw [significantOf_append, isFront, isInner]
  have significantAfter : significantOf (outer ++ back) = after.flatten := by
    rw [significantOf_append, isOuter, isBack, List.nil_append]
  have split : Scan.tokenize text = (front ++ inner) ++ token :: (outer ++ back) := by
    rw [tokens, own]
    simp
  cases whole : front ++ inner with
  | nil =>
      rw [whole] at significantBefore
      obtain ⟨head, tail, rfl, _⟩ := rule_breaks cut.unended
      cases (List.append_eq_nil_iff.mp significantBefore.symm).2
  | cons start rest =>
      rw [whole] at split significantBefore
      have noTrivia : start.kind.isTrivia = false := by
        rw [split] at begins
        exact begins
      have areReadable : ∀ token ∈ start :: rest, token.kind ≠ .error := by
        intro token isToken
        exact readable token (split ▸ List.mem_append_left _ isToken)
      have noBrace : ∀ lexeme ∈ (significantOf (outer ++ back)).head?,
          lexeme.kind ∉ Scan.braced := by
        rw [significantAfter]
        obtain ⟨head, tail, isHead, headKind⟩ := Ahead.exists_of_oneOf cut.begins.starts
        rw [isHead]
        rintro lexeme ⟨⟩
        have disjoint : ∀ kind ∈ .identifier :: modifierKinds, kind ∉ Scan.braced := by decide
        exact disjoint _ headKind
      obtain ⟨left, right, same, offset, significant, stillBegins⟩ :=
        Scan.tokenize_blank split cut.isEnd noTrivia areReadable noBrace
      refine ⟨left, right, token, same, isLast, cut.isEnd, offset, stillBegins, ?_⟩
      rw [significant, significantBefore, significantAfter]
      simp

end Cut

/-- A text without syntax errors is cut at a rule without handlers that another one follows, of
which is seen that it begins. -/
theorem NextRule.exists_cut (read : Parse.ofText? text = some parse) (clean : parse.errors = [])
    {first second : ParseTree} (next : NextRule parse.tree first second)
    (unhandled : first.children.any isHandler = false)
    (seen : Ahead.memberStart (significantOf second.tokens) = true) :
    ∃ before word semicolon after, Cut text first before word semicolon after := by
  obtain ⟨firstShape, isFirst, firstRule, firstHandled, firstLeaves⟩ :=
    exists_shape next.firstRule
  obtain ⟨secondShape, isSecond, secondRule, _, secondLeaves⟩ := exists_shape next.secondRule
  obtain ⟨earlier, later, front, back, shapes, tokens, isFront⟩ :=
    next.split isFirst isSecond firstRule secondRule
  obtain ⟨words, spelled, each, _⟩ := exists_words read clean
  have shown := shows_of_loose read spelled (loose_of_members each)
  rw [shapes] at shown
  obtain ⟨before, _, rfl, beforeShown, fromFirst⟩ := exists_append_of_forall₂ shown
  obtain ⟨firstWord, _, firstShows, fromSecond, rfl⟩ := List.forall₂_cons_left_iff.mp fromFirst
  obtain ⟨secondWord, after, secondShows, _, rfl⟩ := List.forall₂_cons_left_iff.mp fromSecond
  have isMember : Derives (part .member) firstWord := each _ (by simp)
  have isRule := rule_of_starts (firstShows.names firstRule).starts isMember
  obtain ⟨word, semicolon, rfl, isEnd⟩ :=
    firstShows.ended isRule (firstHandled.trans unhandled)
  have whole : Scan.tokenize text = front ++ (first.tokens ++ back) := by
    obtain ⟨_, rfl⟩ := Parse.ofText?_eq_some_iff.mp read
    rw [← tokens]
    exact (Weave.tokens_root _ _ _ _).symm
  have own : significantOf first.tokens = word ++ [semicolon] :=
    firstLeaves.symm.trans firstShows.leaves
  have significantFront : significantOf front = before.flatten :=
    isFront.trans (leavesOf_of_shown beforeShown)
  have starts : Ahead.memberStart secondWord = true := by
    rwa [← secondLeaves, secondShows.leaves] at seen
  refine ⟨before, word, semicolon, secondWord :: after, ⟨isEnd, isRule, ⟨?_, ?_⟩, ?_, ?_, own,
    front, back, whole, significantFront, ?_⟩⟩
  · exact Ahead.oneOf_append (secondShows.names secondRule).starts _
  · exact Ahead.memberStart_append starts _
  · exact fun word isWord => each word (List.mem_append_left _ isWord)
  · exact fun word isWord => each word (List.mem_append_right _ (List.mem_cons_of_mem _ isWord))
  · rw [whole, significantOf_append, significantOf_append, significantFront, own,
      List.flatten_append, List.flatten_cons] at spelled
    exact List.append_cancel_left (List.append_cancel_left spelled)

end Words

/-- If a rule of a well-formed text has no handlers and another one directly follows it, of
which the parser sees that it begins, then a blank in the place of the semicolon at the end of
the first is reported, and every rule of the file is read with the class and the name it had. -/
theorem missing_semicolon_keeps_rules {text : String} {parse : Parse}
    (read : Parse.ofText? text = some parse) (clean : parse.errors = [])
    {first second : ParseTree} (next : NextRule parse.tree first second)
    (unhandled : first.children.any isHandler = false)
    (seen : Ahead.memberStart (significantOf second.tokens) = true) :
    ∃ front back semicolon, text = front ++ ";" ++ back ∧
      first.significantTokens.getLast? = some semicolon ∧ semicolon.kind = .semicolon ∧
      semicolon.offset = front.utf8ByteSize ∧
      ∃ broken, Parse.ofText? (front ++ " " ++ back) = some broken ∧ broken.errors ≠ [] ∧
        (rulesOf broken.tree).map Rule.head = (rulesOf parse.tree).map Rule.head := by
  obtain ⟨_, _, _, readable⟩ := exists_words read clean
  obtain ⟨before, word, last, after, cut⟩ := next.exists_cut read clean unhandled seen
  obtain ⟨front, back, semicolon, same, isLast, isEnd, offset, begins, spelled⟩ :=
    cut.exists_blank (Parse.ofText?_eq_some_iff.mp read).1 readable
  obtain ⟨broken, readBroken⟩ : ∃ broken, Parse.ofText? (front ++ " " ++ back) = some broken :=
    ⟨_, Parse.ofText?_eq_some_iff.mpr ⟨begins, rfl⟩⟩
  have brokenShown := shows_of_loose readBroken spelled cut.loose_unended
  have shown := shows_of_loose read cut.spelled cut.loose
  refine ⟨front, back, semicolon, same, isLast, isEnd, offset, broken, readBroken, ?_, ?_⟩
  · exact errors_ne_nil readBroken spelled cut.loose_unended (by simp) cut.unended cut.begins
  · rw [heads_of_words readBroken brokenShown, heads_of_words read shown,
      cut.filterMap_spelledHead?]

/-- An action behind an argument block tells that a rule begins, so the one before it may lack its
semicolon. -/
theorem missing_semicolon_keeps_argument_rule :
    ∃ parse first second, Parse.ofText? "grammar G;a:'x';b[y]@init\x7b\x7d:'y';" = some parse ∧
      parse.errors = [] ∧ NextRule parse.tree first second ∧
      first.children.any isHandler = false ∧
      Ahead.memberStart (significantOf second.tokens) = true ∧
      ∃ front back semicolon, "grammar G;a:'x';b[y]@init\x7b\x7d:'y';" = front ++ ";" ++ back ∧
        first.significantTokens.getLast? = some semicolon ∧ semicolon.kind = .semicolon ∧
        semicolon.offset = front.utf8ByteSize ∧
        ∃ broken, Parse.ofText? (front ++ " " ++ back) = some broken ∧ broken.errors ≠ [] ∧
          (rulesOf broken.tree).map Rule.head = (rulesOf parse.tree).map Rule.head := by
  have found : (Parse.ofText? "grammar G;a:'x';b[y]@init\x7b\x7d:'y';").map (fun parse =>
      (parse.errors, parse.tree.children.map fun child => (Rule.isRule child,
        child.children.any isHandler, Ahead.memberStart (significantOf child.tokens)))) =
      some ([], [(false, false, true), (true, false, true), (true, false, true)]) := by
    decide +kernel
  obtain ⟨parse, read, holds⟩ := Option.map_eq_some_iff.mp found
  obtain ⟨clean, members⟩ := Prod.mk.inj holds
  obtain ⟨header, others, siblings, _, isOthers⟩ := List.map_eq_cons_iff.mp members
  obtain ⟨first, others, rfl, isFirst, isOthers⟩ := List.map_eq_cons_iff.mp isOthers
  obtain ⟨second, rfl, isSecond⟩ := List.map_eq_singleton_iff.mp isOthers
  simp only [Prod.mk.injEq] at isFirst isSecond
  have next : NextRule parse.tree first second :=
    ⟨isFirst.1, isSecond.1, parse.tree, List.mem_cons_self, [header], [], [], siblings,
      List.forall_mem_nil _⟩
  exact ⟨parse, first, second, read, clean, next, isFirst.2.1, isSecond.2.2,
    missing_semicolon_keeps_rules read clean next isFirst.2.1 isSecond.2.2⟩

/-- A rule that begins with a name and an action is not seen to begin: without the semicolon
before it, its name is read as an element of the rule that is not ended. -/
theorem missing_semicolon_loses_rule :
    ((Parse.ofText? "grammar G;a:'x';b@init\x7b\x7d:'y';").map fun parse =>
        (parse.errors, (rulesOf parse.tree).map Rule.head)) =
      some ([], [(false, some "a"), (false, some "b")]) ∧
    ((Parse.ofText? "grammar G;a:'x' b@init\x7b\x7d:'y';").map fun parse =>
        (rulesOf parse.tree).map Rule.head) =
      some [(false, some "a")] := by
  decide +kernel

end GrammarDesk.Grammar
