import GrammarDesk.Query.Basic
import GrammarDesk.Text.Word

/-!
Contract: what stands under a cursor.

Owns: the tokens around an offset, and the reference, declaration or word of
action code that an offset points to.

A range that holds the offset wins over one that merely ends there, and a
reference wins over a declaration, so that the name of an imported grammar means
that grammar and not the import.
-/

namespace GrammarDesk

open Text

inductive Target where
  /-- The name of a declaration. -/
  | declaration (symbol : Symbol)
  | reference (reference : Reference)
  /-- A word of action code that names a symbol of the file. -/
  | word (symbol : Symbol) (range : Range)
deriving Repr

namespace Target

def symbol? : Target → Option Symbol
  | .declaration symbol | .word symbol _ => some symbol
  | .reference found => found.resolution.definition

def range : Target → Range
  | .declaration symbol => symbol.range
  | .reference found => found.range
  | .word _ range => range

def isDeclaration : Target → Bool
  | .declaration _ => true
  | .reference _ | .word _ _ => false

end Target

namespace SourceFile

/-- The token after an offset: the one that holds it, or at the end of the text
the last one. -/
def tokenAfter? (source : SourceFile) (offset : Nat) : Option Syntax.Token :=
  (source.analysis.parse.tree.tokens.filter fun token =>
    (Range.mk token.offset token.stop).touches offset).getLast?

/-- The reference or declaration whose range passes a test. -/
def named? (source : SourceFile) (test : Range → Bool) : Option Target :=
  ((source.references.find? fun reference => test reference.range).map Target.reference).or
    ((source.symbols.find? fun symbol => test symbol.range).map Target.declaration)

/-- The word of action code at an offset, if it names a symbol of the file. -/
def actionWord? (source : SourceFile) (offset : Nat) : Option Target := do
  let token ← source.tokenAfter? offset
  if token.kind ≠ .action then
    none
  else
    let range ← wordRangeAt source.analysis.text offset
    let symbol ← (source.analysis.table.lookup (slice source.analysis.text range)).head?
    return .word symbol range

def target? (source : SourceFile) (offset : Nat) : Option Target :=
  ((source.named? fun range => range.contains offset).or
    (source.named? fun range => range.touches offset)).or
      (source.actionWord? offset)

end SourceFile

namespace Snapshot

def targetAt (snapshot : Snapshot) (path : File.Path) (position : Position) :
    Answer (Option (SourceFile × Target)) :=
  match snapshot.fileAt? path with
  | none => .ok none
  | some source => do
      let offset ← source.offset position
      return (source.target? offset).map fun target => (source, target)

end Snapshot

end GrammarDesk
