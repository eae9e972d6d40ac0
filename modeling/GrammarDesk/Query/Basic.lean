import GrammarDesk.Workspace.Basic

/-!
Contract: questions about a snapshot that point to a place.

Owns: why a question cannot be answered, and the offset that a position in a
file means.

A file that is not loaded is never an error: there is nothing to say about it.
-/

namespace GrammarDesk

open Text

inductive QueryError where
  /-- The file has no such position. -/
  | outside (position : Position) (path : File.Path)
  /-- The name is not one that a rule can have. -/
  | notRuleName (name : String)
  /-- The place is beyond what 32-bit counters can hold. -/
  | overflow
deriving DecidableEq, Repr

namespace QueryError

/-- The error in words, as far as 32-bit counters can show the position. -/
def message : QueryError → Checked String
  | .outside position path => do
      let shown ← position.display
      return "Invalid argument: position " ++ shown ++ " is outside " ++ path.spelling
  | .notRuleName name => return "Invalid argument: '" ++ name ++ "' is not a rule name"
  | .overflow => throw ⟨⟩

end QueryError

/-- An answer, or why there is none. -/
abbrev Answer (α : Type) := Except QueryError α

namespace SourceFile

def offset (source : SourceFile) (position : Position) : Answer Nat :=
  match source.analysis.index.offset position with
  | .error _ => .error .overflow
  | .ok none => .error (.outside position source.path)
  | .ok (some offset) => .ok offset

end SourceFile

end GrammarDesk
