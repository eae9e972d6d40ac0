/-!
Contract: file paths as written, and the components that decide which file a
path names.

Owns: the split into components, equality and order by components, and the file
name and stem.

Does not own: the file system; a parent step is never resolved.

Main statement: spellings that name the same file have the same stem
(`stem_eq_of_same`).
-/

namespace GrammarDesk.File

inductive Component where
  | root
  | current
  | parent
  | entry (name : String)
deriving DecidableEq, Repr

namespace Component

/-- The place of the kind of a step in the order of steps. -/
def rank : Component → Nat
  | .root => 0
  | .current => 1
  | .parent => 2
  | .entry _ => 3

/-- Order on steps: the root, the current directory, the parent, and then
entries by name. -/
def compare : Component → Component → Ordering
  | .entry left, .entry right => Ord.compare left right
  | left, right => Ord.compare left.rank right.rank

end Component

/-- A path, spelled as given. -/
structure Path where
  spelling : String
deriving DecidableEq, Repr, Inhabited

namespace Path

/-- The step that a piece between slashes stands for. An empty piece and a dot
are no step. -/
def step? (piece : String) : Option Component :=
  if piece = "" ∨ piece = "." then
    none
  else if piece = ".." then
    some .parent
  else
    some (.entry piece)

def pieces : List Char → List (List Char)
  | [] => [[]]
  | '/' :: rest => [] :: pieces rest
  | character :: rest =>
      match pieces rest with
      | [] => [[character]]
      | first :: others => (character :: first) :: others

/-- The steps of a path: the root for a leading slash, a leading dot as the
current directory, then every piece that is a step. -/
def components (path : Path) : List Component :=
  let parts := (pieces path.spelling.toList).map String.ofList
  let leading : List Component :=
    match parts with
    | "" :: _ :: _ => [.root]
    | "." :: _ => [.current]
    | _ => []
  leading ++ parts.filterMap step?

/-- Two spellings name the same file. -/
def same (left right : Path) : Bool :=
  left.components = right.components

theorem same_iff (left right : Path) :
    left.same right = true ↔ left.components = right.components :=
  decide_eq_true_iff

@[simp] theorem same_refl (path : Path) : path.same path = true :=
  (same_iff path path).mpr rfl

theorem same_comm (left right : Path) : left.same right = right.same left := by
  simp only [same, eq_comm]

theorem same_trans {left middle right : Path}
    (first : left.same middle = true) (second : middle.same right = true) :
    left.same right = true := by
  rw [same_iff] at *
  exact first.trans second

/-- Order on lists of steps: the first difference decides, and a shorter list
comes before its extensions. -/
def compareComponents : List Component → List Component → Ordering
  | [], [] => .eq
  | [], _ :: _ => .lt
  | _ :: _, [] => .gt
  | left :: lefts, right :: rights =>
      (left.compare right).then (compareComponents lefts rights)

/-- A path is at or before another in the order of components. -/
def atMost (left right : Path) : Bool :=
  compareComponents left.components right.components ≠ .gt

def fileName (path : Path) : Option String :=
  match path.components.getLast? with
  | some (.entry name) => some name
  | _ => none

/-- A file name without what follows its last dot; a name whose only dot comes
first is kept whole. -/
def withoutExtension (name : String) : String :=
  match (name.toList.reverse.dropWhile (· ≠ '.')) with
  | [] | [_] => name
  | _ :: stem => String.ofList stem.reverse

def stem (path : Path) : Option String :=
  path.fileName.map withoutExtension

/-- Two spellings of one file have one stem. -/
theorem stem_eq_of_same {left right : Path} (same : left.same right = true) :
    left.stem = right.stem := by
  simp only [stem, fileName, (same_iff left right).mp same]

end Path

end GrammarDesk.File
