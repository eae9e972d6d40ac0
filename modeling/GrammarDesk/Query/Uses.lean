import GrammarDesk.Query.Definition

/-!
Contract: from a declaration to its uses.

Owns: all places where a name is declared or used, and the number of uses of
each rule of a file.

A use belongs to a declaration when its definition is that declaration, told by
file and range.
-/

namespace GrammarDesk

open Text

/-- A place where a name is declared or used. -/
structure UsePlace where
  file : File.Id
  path : File.Path
  range : Range
  span : Span
  isDefinition : Bool
deriving DecidableEq, Repr

/-- The number of uses shown above a rule. -/
structure Lens where
  name : String
  range : Range
  span : Span
  count : Nat
deriving DecidableEq, Repr

namespace Lens

def title (lens : Lens) : String :=
  if lens.count = 1 then "1 reference" else toString lens.count ++ " references"

end Lens

namespace Symbol

/-- What tells a declaration among those of all files. -/
def key (symbol : Symbol) : File.Id × Range :=
  (symbol.file, symbol.range)

end Symbol

namespace Reference

/-- Whether a declaration is the definition of the reference. -/
def means (reference : Reference) (symbol : Symbol) : Bool :=
  match reference.resolution.definition with
  | none => false
  | some definition => definition.file = symbol.file && definition.range = symbol.range

end Reference

namespace Snapshot

/-- The references to a declaration in all files, each with its file, by file and
place. -/
def usesOf (snapshot : Snapshot) (symbol : Symbol) : List (SourceFile × Reference) :=
  snapshot.all.flatMap fun source =>
    (source.references.filter fun reference => reference.means symbol).map (source, ·)

/-- The place of a declaration and then those of its uses. -/
def placesOf (snapshot : Snapshot) (symbol : Symbol) : List UsePlace :=
  ⟨symbol.file, snapshot.pathOf symbol.file, symbol.range, symbol.span, true⟩ ::
    (snapshot.usesOf symbol).map fun (source, reference) =>
      ⟨reference.file, source.path, reference.range, reference.span, false⟩

def uses (snapshot : Snapshot) (path : File.Path) (position : Position) :
    Answer (List UsePlace) := do
  let found ← snapshot.targetAt path position
  match found.bind fun (_, target) => target.symbol? with
  | none => return []
  | some symbol => return snapshot.placesOf symbol

/-- The declarations of a file that references of all files mean, each as often as it is
meant. -/
def meantIn (snapshot : Snapshot) (file : File.Id) : List (File.Id × Range) :=
  snapshot.all.flatMap fun source =>
    source.references.filterMap fun reference =>
      match reference.resolution.definition with
      | none => none
      | some definition => if definition.file = file then some definition.key else none

def lenses (snapshot : Snapshot) (path : File.Path) : List Lens :=
  match snapshot.fileAt? path with
  | none => []
  | some source =>
      let meant := snapshot.meantIn source.file
      (source.symbols.filter fun symbol => symbol.kind.isRule).map fun symbol =>
        ⟨symbol.name, symbol.range, symbol.span, meant.count symbol.key⟩

end Snapshot

end GrammarDesk
