import GrammarDesk.File.Path

/-!
Contract: the numbering of files by path.

Owns: the table of paths seen so far, which carries the proof that no two of them
name the same file. A file's number is the count of distinct files seen before it,
and its path keeps the spelling it was first seen with.

Main statements: the number of a path is that of the one entry that names the same
file (`id?_eq_some_iff`); numbers given out stay (`path?_intern`).
-/

namespace GrammarDesk.File

/-- The number of a file. Numbers have no largest one: where 32 bits hold them, this is the
number as long as fewer than 2^32 paths are seen, and nothing here says what follows when
they wrap. -/
abbrev Id := Nat

/-- The paths of the numbered files, in order of their numbers. -/
structure Table where
  paths : List Path
  distinct : paths.Pairwise fun left right => left.same right = false
deriving DecidableEq, Repr

namespace Table

def empty : Table := ⟨[], .nil⟩

def id? (table : Table) (path : Path) : Option Id :=
  table.paths.findIdx? path.same

/-- The path a file was first seen with. -/
def path? (table : Table) (file : Id) : Option Path :=
  table.paths[file]?

theorem append_distinct (table : Table) {path : Path} (new : table.id? path = none) :
    (table.paths ++ [path]).Pairwise fun left right => left.same right = false := by
  refine List.pairwise_append.mpr ⟨table.distinct, List.pairwise_singleton _ _, ?_⟩
  intro known member other isPath
  rw [List.mem_singleton.mp isPath, Path.same_comm]
  exact List.findIdx?_eq_none_iff.mp new known member

/-- The number of the file a path names, given out now if the file is new. -/
def intern (table : Table) (path : Path) : Id × Table :=
  match new : table.id? path with
  | some file => (file, table)
  | none => (table.paths.length, ⟨table.paths ++ [path], table.append_distinct new⟩)

def size (table : Table) : Nat :=
  table.paths.length

/-! ## Numbers and paths -/

/-- Two entries that name the same file are one. -/
theorem eq_of_same (table : Table) {left right : Id} {path other : Path}
    (atLeft : table.path? left = some path) (atRight : table.path? right = some other)
    (same : path.same other = true) :
    left = right := by
  obtain ⟨leftBelow, leftIs⟩ := List.getElem?_eq_some_iff.mp atLeft
  obtain ⟨rightBelow, rightIs⟩ := List.getElem?_eq_some_iff.mp atRight
  have apart := List.pairwise_iff_getElem.mp table.distinct
  rcases Nat.lt_trichotomy left right with before | equal | after
  · have := apart left right leftBelow rightBelow before
    simp [leftIs, rightIs, same] at this
  · exact equal
  · have := apart right left rightBelow leftBelow after
    simp [leftIs, rightIs, Path.same_comm other path, same] at this

/-- The number of a path is that of the entry that names the same file. -/
theorem id?_eq_some_iff (table : Table) (path : Path) (file : Id) :
    table.id? path = some file ↔
      ∃ known, table.path? file = some known ∧ path.same known = true := by
  constructor
  · intro found
    obtain ⟨below, names, _⟩ := List.findIdx?_eq_some_iff_getElem.mp found
    exact ⟨table.paths[file], List.getElem?_eq_getElem below, names⟩
  · rintro ⟨known, listed, names⟩
    cases found : table.id? path with
    | none =>
        have unlisted := List.findIdx?_eq_none_iff.mp found known (List.mem_of_getElem? listed)
        simp [names] at unlisted
    | some other =>
        obtain ⟨below, otherNames, _⟩ := List.findIdx?_eq_some_iff_getElem.mp found
        have atOther : table.path? other = some table.paths[other] :=
          List.getElem?_eq_getElem below
        have together : known.same table.paths[other] = true :=
          Path.same_trans (Path.same_comm known path ▸ names) otherNames
        rw [table.eq_of_same listed atOther together]

/-- Paths that name the same file have the same number. -/
theorem id?_congr (table : Table) {left right : Path} (same : left.same right = true) :
    table.id? left = table.id? right := by
  have alike : left.same = right.same := by
    funext other
    simp only [Path.same, (Path.same_iff left right).mp same]
  unfold id?
  rw [alike]

/-- Entering a path gives it the number of the entry that names the same file. -/
theorem path?_intern (table : Table) (path : Path) :
    ∃ known, (table.intern path).2.path? (table.intern path).1 = some known ∧
      path.same known = true := by
  unfold intern
  split
  · rename_i file found
    exact (table.id?_eq_some_iff path file).mp found
  · exact ⟨path, by simp [path?], path.same_refl⟩

/-- Entering a path changes no entry. -/
theorem path?_intern_of_some (table : Table) (path : Path) {file : Id} {known : Path}
    (listed : table.path? file = some known) :
    (table.intern path).2.path? file = some known := by
  unfold intern
  split
  · exact listed
  · have below := (List.getElem?_eq_some_iff.mp listed).1
    simpa [path?, List.getElem?_append_left below] using listed

/-- Entering a path gives it that number. -/
theorem id?_intern (table : Table) (path : Path) :
    (table.intern path).2.id? path = some (table.intern path).1 :=
  (id?_eq_some_iff _ path _).mpr (table.path?_intern path)

/-- Entering a path keeps the numbers of all others. -/
theorem id?_intern_of_some (table : Table) (path : Path) {other : Path} {file : Id}
    (numbered : table.id? other = some file) :
    (table.intern path).2.id? other = some file := by
  obtain ⟨known, listed, names⟩ := (table.id?_eq_some_iff other file).mp numbered
  exact (id?_eq_some_iff _ other file).mpr ⟨known, table.path?_intern_of_some path listed, names⟩

/-- Entering a path gives a number to no path that names another file. -/
theorem id?_of_id?_intern (table : Table) {path other : Path} {file : Id}
    (different : other.same path = false)
    (numbered : (table.intern path).2.id? other = some file) :
    table.id? other = some file := by
  obtain ⟨known, listed, names⟩ := (id?_eq_some_iff _ other file).mp numbered
  unfold intern at listed
  split at listed
  · exact (table.id?_eq_some_iff other file).mpr ⟨known, listed, names⟩
  · rcases Nat.lt_or_ge file table.paths.length with below | beyond
    · refine (table.id?_eq_some_iff other file).mpr ⟨known, ?_, names⟩
      simpa [path?, List.getElem?_append_left below] using listed
    · simp only [path?, List.getElem?_append_right beyond] at listed
      rw [List.mem_singleton.mp (List.mem_of_getElem? listed), different] at names
      cases names

/-- Paths of one number name the same file. -/
theorem same_of_id? (table : Table) {left right : Path} {file : Id}
    (atLeft : table.id? left = some file) (atRight : table.id? right = some file) :
    left.same right = true := by
  obtain ⟨known, listed, names⟩ := (table.id?_eq_some_iff left file).mp atLeft
  obtain ⟨known', listed', names'⟩ := (table.id?_eq_some_iff right file).mp atRight
  obtain rfl : known = known' := Option.some.inj (listed.symm.trans listed')
  exact Path.same_trans names (Path.same_comm right known ▸ names')

/-- Paths of different files have different numbers. -/
theorem ne_of_not_same {table : Table} {left right : Path} {file number : Id}
    (different : left.same right = false) (atLeft : table.id? left = some file)
    (atRight : table.id? right = some number) :
    file ≠ number := by
  rintro rfl
  rw [table.same_of_id? atLeft atRight] at different
  cases different

end Table

end GrammarDesk.File
