import GrammarDesk.Query.Target

/-!
Contract: from a name to its declaration.

Owns: the place an editor jumps to. Names that are unresolved or built in have
none.
-/

namespace GrammarDesk

open Text

structure Definition where
  file : File.Id
  path : File.Path
  range : Range
  span : Span
  kind : SymbolKind
  name : String
deriving DecidableEq, Repr

namespace Snapshot

/-- The path of a file; a file that is not loaded has an empty one. -/
def pathOf (snapshot : Snapshot) (file : File.Id) : File.Path :=
  (snapshot.path? file).getD ⟨""⟩

def definitionOf (snapshot : Snapshot) (symbol : Symbol) : Definition :=
  { file := symbol.file
    path := snapshot.pathOf symbol.file
    range := symbol.range
    span := symbol.span
    kind := symbol.kind
    name := symbol.name }

def definition (snapshot : Snapshot) (path : File.Path) (position : Position) :
    Answer (Option Definition) := do
  let found ← snapshot.targetAt path position
  return (found.bind fun (_, target) => target.symbol?).map snapshot.definitionOf

end Snapshot

end GrammarDesk
