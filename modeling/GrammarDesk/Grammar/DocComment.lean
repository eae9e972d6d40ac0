import GrammarDesk.Syntax.ParseTree
import GrammarDesk.Text.Blank

/-!
Contract: the documentation that stands before a declaration.

Owns: finding the doc comment among the trees before a node, and taking off its
delimiters and the gutter of stars.
-/

namespace GrammarDesk.Grammar.DocComment

open Syntax Text

def lines : List Char → List (List Char)
  | [] => [[]]
  | '\n' :: rest => [] :: lines rest
  | character :: rest =>
      match lines rest with
      | [] => [[character]]
      | first :: others => (character :: first) :: others

/-- A line without surrounding blanks, a star in front and the blanks after
it. -/
def cleanLine (line : List Char) : List Char :=
  match trim line with
  | '*' :: rest => trimStart rest
  | rest => rest

def inside (comment : List Char) : List Char :=
  match comment with
  | '/' :: '*' :: '*' :: rest =>
      match rest.reverse with
      | '/' :: '*' :: body => body.reverse
      | _ => comment
  | _ => comment

def clean (comment : String) : String :=
  let cleaned := (lines (inside comment.toList)).map cleanLine
  String.ofList (trim (['\n'].intercalate cleaned))

/-- The documentation of a node, told by the trees before it under the same
parent, nearest first: the doc comment that only whitespace separates from the
node. -/
def before? : List ParseTree → Option String
  | .leaf token :: rest =>
      if token.kind = .whitespace then
        before? rest
      else if token.kind = .docComment then
        some (clean token.text)
      else
        none
  | _ => none

/-- Every tree of a list that satisfies a test, with the documentation before
it. -/
def documented (test : ParseTree → Bool) :
    (before trees : List ParseTree) → List (ParseTree × Option String)
  | _, [] => []
  | before, tree :: rest =>
      let others := documented test (tree :: before) rest
      if test tree then (tree, before? before) :: others else others

end GrammarDesk.Grammar.DocComment
