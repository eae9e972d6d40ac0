import GrammarDesk.Query.Target

/-!
Contract: the note an editor shows for a name.

Owns: the note's text and what it is attached to.
-/

namespace GrammarDesk

open Text

/-- A note about the name under a cursor. -/
structure Hover where
  contents : String
  range : Range
  span : Span
  /-- The declaration the note is about, if there is one. -/
  symbol : Option Symbol
  /-- Whether the cursor is on the declaration itself. -/
  isDefinition : Bool
deriving DecidableEq, Repr

namespace Hover

/-- Grammar text set off from the words of a note. -/
def quote (text : String) : String :=
  "```antlr\n" ++ text ++ "\n```\n"

/-- A part of a note that is there only if it has something to say. -/
def part (render : String → String) : Option String → String
  | some text => render text
  | none => ""

/-- The note about a declaration: its signature, its documentation, its kind, and
where it is declared. -/
def ofSymbol (snapshot : Snapshot) (symbol : Symbol) : String :=
  let fileName := (snapshot.path? symbol.file).bind File.Path.fileName
  quote symbol.signature ++
    part (fun doc => "\n---\n\n" ++ doc ++ "\n") symbol.doc ++
    "\n*" ++ symbol.kind.display ++ "*" ++
    part (fun mode => " in mode `" ++ mode ++ "`") symbol.mode ++
    part (fun name => " declared in `" ++ name ++ "`") fileName ++
    "\n"

/-- The note about a reference: its definition, or why it has none. -/
def ofReference (snapshot : Snapshot) (reference : Reference) : String :=
  let kind := reference.kind.display
  match reference.resolution with
  | .resolved targets =>
      match targets with
      | [] => ""
      | definition :: _ =>
          let ambiguity :=
            if reference.resolution.isAmbiguous then
              "\n*Ambiguous: " ++ toString targets.length ++
                " declarations in imported grammars*\n"
            else
              ""
          ofSymbol snapshot definition ++ ambiguity
  | .builtIn =>
      let note :=
        match reference.kind with
        | .literal => "implicit token"
        | _ => "built-in " ++ kind
      quote reference.name ++ "\n*" ++ note ++ "*\n"
  | .unresolved => quote reference.name ++ "\n*Unresolved " ++ kind ++ " reference*\n"

/-- The note about what stands under a cursor. -/
def ofTarget (snapshot : Snapshot) (source : SourceFile) (target : Target) : Hover :=
  { contents :=
      match target with
      | .declaration symbol | .word symbol _ => ofSymbol snapshot symbol
      | .reference reference => ofReference snapshot reference
    range := target.range
    span := source.analysis.index.cutSpan target.range
    symbol := target.symbol?
    isDefinition := target.isDeclaration }

end Hover

/-- The note for a position, if something stands there. -/
def Snapshot.hover (snapshot : Snapshot) (path : File.Path) (position : Position) :
    Answer (Option Hover) := do
  let found ← snapshot.targetAt path position
  return found.map fun (source, target) => Hover.ofTarget snapshot source target

end GrammarDesk
