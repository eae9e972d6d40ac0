import GrammarDesk.Proofs.Syntax.Completeness.File
import GrammarDesk.Proofs.Syntax.Lossless
import GrammarDesk.Proofs.Syntax.Soundness.File

/-!
Contract: which texts are read without a syntax error.

Owns: the significant lexemes of a text, and that a reading is without error exactly if these
are readable and have the form of the grammar.

Main statement: a text that does not begin with trivia has a reading, which is without error
if and only if the grammar derives the text (`errors_eq_nil_iff_derives`).
-/

namespace GrammarDesk.Syntax

theorem Problem.ofLexemes_eq_nil_iff (later : Nat) (lexemes : List Lexeme) :
    ofLexemes later lexemes = [] ↔ ∀ lexeme ∈ lexemes, lexeme.kind ≠ .error := by
  induction lexemes with
  | nil => exact ⟨fun _ _ member => absurd member List.not_mem_nil, fun _ => rfl⟩
  | cons head tail inductionHypothesis =>
      have first : ofLexeme (tail.length + later) head = [] ↔ head.kind ≠ .error := by
        simp [ofLexeme]
      rw [ofLexemes, List.append_eq_nil_iff, first, inductionHypothesis, List.forall_mem_cons]

/-- A file has no problem if and only if its lexemes are readable and the grammar derives
them. -/
theorem Production.file_eq_nil_iff (input : List Lexeme) :
    (file input).2 = [] ↔
      (∀ lexeme ∈ input, lexeme.kind ≠ .error) ∧ Ebnf.Derives Ebnf.file input := by
  rw [← Problem.ofLexemes_eq_nil_iff 0, ← Parse.filter_file]
  constructor
  · intro clean
    refine ⟨?_, derives_of_file clean⟩
    rw [clean, List.filter_nil]
  · rintro ⟨readable, derives⟩
    rwa [List.filter_eq_self.mpr (unreadable_of_derives derives)] at readable

def significant (text : String) : List Lexeme :=
  ((Scan.tokenize text).filter fun token => !token.kind.isTrivia).map Token.toLexeme

/-- A text that does not begin with trivia has a reading. It is without a syntax error if and
only if no significant token is unreadable and these tokens are derived by the grammar of
grammar files as members of which one is a header. -/
theorem errors_eq_nil_iff_derives (text : String)
    (begins : Parse.beginsWithTrivia (Scan.tokenize text) = false) :
    ∃ parse, Parse.ofText? text = some parse ∧
      (parse.errors = [] ↔
        (∀ lexeme ∈ significant text, lexeme.kind ≠ .error) ∧
          Ebnf.Derives Ebnf.file (significant text)) := by
  refine ⟨Parse.ofTokens text.utf8ByteSize (Scan.tokenize text), ?_, ?_⟩
  · exact Parse.ofText?_eq_some_iff.mpr ⟨begins, rfl⟩
  · rw [← Production.file_eq_nil_iff]
    exact List.map_eq_nil_iff

/-- A text with an import, a list and a mode after its header is derived. -/
theorem derives_members_of_text :
    Parse.beginsWithTrivia
        (Scan.tokenize "lexer grammar A; import B=C; tokens\x7bD,\x7d mode E;") = false ∧
      Ebnf.Derives Ebnf.file
        (significant "lexer grammar A; import B=C; tokens\x7bD,\x7d mode E;") := by
  have begins : Parse.beginsWithTrivia
      (Scan.tokenize "lexer grammar A; import B=C; tokens\x7bD,\x7d mode E;") =
        false := by
    decide +kernel
  have clean :
      (Parse.ofText? "lexer grammar A; import B=C; tokens\x7bD,\x7d mode E;").map
        Parse.errors = some [] := by
    decide +kernel
  obtain ⟨parse, found, accepted⟩ := errors_eq_nil_iff_derives _ begins
  rw [found] at clean
  exact ⟨begins, (accepted.mp (Option.some.inj clean)).2⟩

end GrammarDesk.Syntax
