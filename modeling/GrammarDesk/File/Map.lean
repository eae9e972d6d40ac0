import GrammarDesk.File.Table

/-!
Contract: values kept per file, in ascending order of file numbers.

Owns: the map, which carries the proof of its order, its view as a list, and
putting, finding and erasing a value.

Main statements: finding a value after putting or erasing one, for every file;
a file's value is the one that stands beside it in the list (`get?_eq_some_iff`).
-/

namespace GrammarDesk.File

universe u v

/-- A value for each of some files, by ascending file number. -/
structure Map (Value : Type u) where
  entries : List (Id × Value)
  ascending : entries.Pairwise fun left right => left.1 < right.1
deriving Repr

namespace Map

variable {Value : Type u}

def empty : Map Value := ⟨[], .nil⟩

def get? (map : Map Value) (file : Id) : Option Value :=
  map.entries.lookup file

def contains (map : Map Value) (file : Id) : Bool :=
  (map.get? file).isSome

def files (map : Map Value) : List Id :=
  map.entries.map Prod.fst

def values (map : Map Value) : List Value :=
  map.entries.map Prod.snd

def size (map : Map Value) : Nat :=
  map.entries.length

def putEntry (file : Id) (value : Value) : List (Id × Value) → List (Id × Value)
  | [] => [(file, value)]
  | (other, old) :: rest =>
      if file < other then
        (file, value) :: (other, old) :: rest
      else if file = other then
        (file, value) :: rest
      else
        (other, old) :: putEntry file value rest

/-- Putting a value in place adds no entry but its own. -/
theorem mem_putEntry {file : Id} {value : Value} {entries : List (Id × Value)}
    {entry : Id × Value}
    (member : entry ∈ putEntry file value entries) :
    entry.1 = file ∨ entry ∈ entries := by
  induction entries with
  | nil => simp_all [putEntry]
  | cons first rest inductionHypothesis =>
      obtain ⟨other, old⟩ := first
      unfold putEntry at member
      by_cases before : file < other
      · rw [if_pos before] at member
        rcases List.mem_cons.mp member with rfl | member
        · exact .inl rfl
        · exact .inr member
      · rw [if_neg before] at member
        by_cases same : file = other
        · rw [if_pos same] at member
          rcases List.mem_cons.mp member with rfl | member
          · exact .inl rfl
          · exact .inr (List.mem_cons_of_mem _ member)
        · rw [if_neg same] at member
          rcases List.mem_cons.mp member with rfl | member
          · exact .inr List.mem_cons_self
          · exact (inductionHypothesis member).imp id (List.mem_cons_of_mem _)

/-- Entries stay in ascending order: a new file goes before the first one with a larger number.
-/
theorem putEntry_ascending (file : Id) (value : Value) {entries : List (Id × Value)}
    (ascending : entries.Pairwise fun left right => left.1 < right.1) :
    (putEntry file value entries).Pairwise fun left right => left.1 < right.1 := by
  induction ascending with
  | nil => simp [putEntry]
  | @cons first rest below ascending inductionHypothesis =>
      obtain ⟨other, old⟩ := first
      unfold putEntry
      by_cases before : file < other
      · rw [if_pos before]
        refine .cons (fun entry member => ?_) (.cons below ascending)
        rcases List.mem_cons.mp member with rfl | member
        · exact before
        · exact Nat.lt_trans before (below entry member)
      · rw [if_neg before]
        by_cases same : file = other
        · subst same
          rw [if_pos rfl]
          exact .cons below ascending
        · rw [if_neg same]
          refine .cons (fun entry member => ?_) inductionHypothesis
          rcases mem_putEntry member with atFile | member
          · rw [atFile]
            exact Nat.lt_of_le_of_ne (Nat.le_of_not_lt before) (Ne.symm same)
          · exact below entry member

def put (map : Map Value) (file : Id) (value : Value) : Map Value :=
  ⟨putEntry file value map.entries, putEntry_ascending file value map.ascending⟩

def erase (map : Map Value) (file : Id) : Map Value :=
  ⟨map.entries.filter fun entry => entry.1 ≠ file, map.ascending.filter _⟩

def modify (map : Map Value) (file : Id) (change : Value → Value) : Map Value :=
  match map.get? file with
  | some value => map.put file (change value)
  | none => map

def map {Other : Type v} (source : Map Value) (change : Value → Other) : Map Other :=
  ⟨source.entries.map fun (file, value) => (file, change value),
    List.pairwise_map.mpr source.ascending⟩

/-- Entries whose values are computed one after another, each from what those
before it have left. -/
def threadEntries {State Other : Type v} (change : State → Value → Other × State) :
    State → List (Id × Value) → List (Id × Other) × State
  | state, [] => ([], state)
  | state, (file, value) :: rest =>
      let (next, left) := change state value
      let (others, last) := threadEntries change left rest
      ((file, next) :: others, last)

theorem map_fst_threadEntries {State Other : Type v} (change : State → Value → Other × State)
    (state : State) (entries : List (Id × Value)) :
    (threadEntries change state entries).1.map Prod.fst = entries.map Prod.fst := by
  induction entries generalizing state with
  | nil => rfl
  | cons entry rest inductionHypothesis =>
      simp only [threadEntries, List.map_cons, inductionHypothesis]

/-- The map whose values are computed one after another from the values of
another, by ascending file number, and what they leave. -/
def thread {State Other : Type v} (source : Map Value) (change : State → Value → Other × State)
    (state : State) : Map Other × State :=
  let threaded := threadEntries change state source.entries
  (⟨threaded.1, by
    have files : threaded.1.map Prod.fst = source.entries.map Prod.fst :=
      map_fst_threadEntries change state source.entries
    have ascending := List.pairwise_map.mpr source.ascending
    rw [← files] at ascending
    exact List.pairwise_map.mp ascending⟩, threaded.2)

@[simp] theorem get?_empty (file : Id) : (empty : Map Value).get? file = none := rfl

/-- Reading back what was put in place, and nothing else changed. -/
theorem lookup_putEntry (file other : Id) (value : Value) (entries : List (Id × Value)) :
    (putEntry file value entries).lookup other =
      if other = file then some value else entries.lookup other := by
  induction entries with
  | nil =>
      by_cases same : other = file
      · simp [putEntry, same]
      · simp [putEntry, same, List.lookup_cons, beq_eq_false_iff_ne.mpr same]
  | cons entry rest inductionHypothesis =>
      obtain ⟨next, old⟩ := entry
      unfold putEntry
      by_cases before : file < next
      · rw [if_pos before]
        by_cases same : other = file
        · simp [same]
        · simp [same, List.lookup_cons, beq_eq_false_iff_ne.mpr same]
      · rw [if_neg before]
        by_cases equal : file = next
        · subst equal
          by_cases same : other = file
          · simp [same]
          · simp [same, List.lookup_cons, beq_eq_false_iff_ne.mpr same]
        · rw [if_neg equal]
          by_cases atNext : other = next
          · subst atNext
            simp [Ne.symm equal]
          · simp [List.lookup_cons, beq_eq_false_iff_ne.mpr atNext, inductionHypothesis]

/-- A file's value is the one put last. -/
theorem get?_put (map : Map Value) (file other : Id) (value : Value) :
    (map.put file value).get? other = if other = file then some value else map.get? other :=
  lookup_putEntry file other value map.entries

/-- An erased file has no value, and every other file keeps its own. -/
theorem get?_erase (map : Map Value) (file other : Id) :
    (map.erase file).get? other = if other = file then none else map.get? other := by
  obtain ⟨entries, ascending⟩ := map
  simp only [get?, erase]
  clear ascending
  induction entries with
  | nil => simp
  | cons entry rest inductionHypothesis =>
      obtain ⟨next, value⟩ := entry
      by_cases same : next = file
      · subst same
        rw [List.filter_cons_of_neg (by simp), inductionHypothesis]
        by_cases atNext : other = next
        · simp [atNext]
        · simp [atNext, List.lookup_cons, beq_eq_false_iff_ne.mpr atNext]
      · rw [List.filter_cons_of_pos (by simp [same])]
        by_cases atNext : other = next
        · subst atNext
          simp [same]
        · simp only [List.lookup_cons, beq_eq_false_iff_ne.mpr atNext, inductionHypothesis]

/-- Changing a file's value changes that value only, and gives no value to a file that
has none. -/
theorem get?_modify (map : Map Value) (file other : Id) (change : Value → Value) :
    (map.modify file change).get? other =
      if other = file then (map.get? file).map change else map.get? other := by
  unfold modify
  cases known : map.get? file with
  | none =>
      by_cases same : other = file
      · rw [if_pos same, same]
        exact known
      · rw [if_neg same]
  | some value => exact map.get?_put file other (change value)

/-- A computed map has the value computed from each file's own. -/
theorem get?_map {Other : Type v} (source : Map Value) (change : Value → Other) (file : Id) :
    (source.map change).get? file = (source.get? file).map change := by
  obtain ⟨entries, ascending⟩ := source
  simp only [get?, map]
  clear ascending
  induction entries with
  | nil => rfl
  | cons entry rest inductionHypothesis =>
      obtain ⟨next, value⟩ := entry
      by_cases atNext : file = next
      · subst atNext
        simp
      · simp [List.lookup_cons, beq_eq_false_iff_ne.mpr atNext, inductionHypothesis]

/-- Where every change makes one value, whatever state that is kept it finds, the
values are those of the computed map. -/
theorem thread_eq_map {State Other : Type v} {change : State → Value → Other × State}
    {plain : Value → Other} {Kept : State → Prop}
    (step : ∀ state value, Kept state →
      (change state value).1 = plain value ∧ Kept (change state value).2)
    (source : Map Value) {state : State} (kept : Kept state) :
    (source.thread change state).1 = source.map plain ∧ Kept (source.thread change state).2 := by
  have entries : ∀ entries state, Kept state →
      (threadEntries change state entries).1 =
          entries.map (fun (file, value) => (file, plain value)) ∧
        Kept (threadEntries change state entries).2 := by
    intro entries
    induction entries with
    | nil => exact fun state kept => ⟨rfl, kept⟩
    | cons entry rest inductionHypothesis =>
        intro state kept
        have first := step state entry.2 kept
        have later := inductionHypothesis (change state entry.2).2 first.2
        simp only [threadEntries, List.map_cons, first.1, later.1, true_and]
        exact later.2
  have threaded := entries source.entries state kept
  unfold thread map
  simp only [threaded.1, true_and]
  exact threaded.2

/-- A file's value is the one that stands beside it. -/
theorem get?_eq_some_iff (map : Map Value) (file : Id) (value : Value) :
    map.get? file = some value ↔ (file, value) ∈ map.entries := by
  obtain ⟨entries, ascending⟩ := map
  simp only [get?]
  induction ascending with
  | nil => simp
  | @cons first rest below ascending inductionHypothesis =>
      obtain ⟨other, old⟩ := first
      by_cases same : file = other
      · subst same
        have notBelow : (file, value) ∉ rest :=
          fun member => Nat.lt_irrefl file (below (file, value) member)
        simp [notBelow, eq_comm]
      · simp [List.lookup_cons, beq_eq_false_iff_ne.mpr same, inductionHypothesis, same]

/-- The files of a map are those that have a value. -/
theorem mem_files_iff (map : Map Value) (file : Id) :
    file ∈ map.files ↔ ∃ value, map.get? file = some value := by
  simp [files, get?_eq_some_iff]

/-- No file stands twice in a map. -/
theorem files_ascending (map : Map Value) : map.files.Pairwise (· < ·) :=
  List.pairwise_map.mpr map.ascending

/-- A computed map has values for the same files. -/
theorem files_map {Other : Type v} (source : Map Value) (change : Value → Other) :
    (source.map change).files = source.files := by
  simp [files, map]

/-- After several values have been put, a file has one of those put for it, or else its
own. -/
theorem get?_foldl_put {Item : Type v} (key : Item → Id) (value : Item → Value)
    (items : List Item) (map : Map Value) (file : Id) :
    (∃ item ∈ items, key item = file ∧
        (items.foldl (fun map item => map.put (key item) (value item)) map).get? file =
          some (value item)) ∨
      (∀ item ∈ items, key item ≠ file) ∧
        (items.foldl (fun map item => map.put (key item) (value item)) map).get? file =
          map.get? file := by
  induction items generalizing map with
  | nil => exact .inr ⟨fun item member => absurd member List.not_mem_nil, rfl⟩
  | cons first rest inductionHypothesis =>
      rw [List.foldl_cons]
      rcases inductionHypothesis (map.put (key first) (value first)) with
        ⟨item, member, isFile, found⟩ | ⟨others, found⟩
      · exact .inl ⟨item, List.mem_cons_of_mem _ member, isFile, found⟩
      · rw [get?_put] at found
        by_cases here : file = key first
        · rw [if_pos here] at found
          exact .inl ⟨first, List.mem_cons_self, here.symm, found⟩
        · rw [if_neg here] at found
          refine .inr ⟨fun item member => ?_, found⟩
          rcases List.mem_cons.mp member with rfl | later
          · exact Ne.symm here
          · exact others item later

theorem mem_values_iff (map : Map Value) (value : Value) :
    value ∈ map.values ↔ ∃ file, map.get? file = some value := by
  simp [values, get?_eq_some_iff]

/-- Maps with the same value for every file are the same. -/
theorem ext_get? {left right : Map Value} (same : ∀ file, left.get? file = right.get? file) :
    left = right := by
  obtain ⟨entries, ascending⟩ := left
  obtain ⟨others, ascending'⟩ := right
  have members : ∀ entry, entry ∈ entries ↔ entry ∈ others := by
    rintro ⟨file, value⟩
    have sameValue := same file
    rw [← get?_eq_some_iff ⟨entries, ascending⟩, ← get?_eq_some_iff ⟨others, ascending'⟩,
      sameValue]
  have sameEntries : entries = others := by
    clear same
    induction ascending generalizing others with
    | nil => exact (List.eq_nil_iff_forall_not_mem.mpr fun entry => by simp [← members entry]).symm
    | @cons first rest below ascending inductionHypothesis =>
        cases ascending' with
        | nil => simpa using members first
        | @cons other others below' ascending' =>
            -- both lists begin with the entry of the least number
            have heads : first = other := by
              rcases List.mem_cons.mp ((members first).mp List.mem_cons_self) with same | later
              · exact same
              · rcases List.mem_cons.mp ((members other).mpr List.mem_cons_self) with same | later'
                · exact same.symm
                · exact absurd (below' first later) (Nat.lt_asymm (below other later'))
            subst heads
            have tails : ∀ entry, entry ∈ rest ↔ entry ∈ others := by
              intro entry
              constructor
              · intro member
                rcases List.mem_cons.mp ((members entry).mp (List.mem_cons_of_mem _ member))
                  with rfl | later
                · exact absurd (below entry member) (Nat.lt_irrefl _)
                · exact later
              · intro member
                rcases List.mem_cons.mp ((members entry).mpr (List.mem_cons_of_mem _ member))
                  with rfl | later
                · exact absurd (below' entry member) (Nat.lt_irrefl _)
                · exact later
            rw [inductionHypothesis others ascending' tails]
  subst sameEntries
  rfl

end Map

end GrammarDesk.File
