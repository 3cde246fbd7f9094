import TestReach.Ordered
import TestReach.Text.Blank

/-!
# Marker sets

The names of the types that mark a method as a test. They are kept twice: in the order they were
given, for reports, and as an ascending list, for lookup. Both are built in one pass over the names,
and a set carries the proof that they have the same names (`MarkerSet.inStep`).
-/

namespace TestReach

/-- The names of marker types: trimmed, not blank, and without repeats. -/
@[ext]
structure MarkerSet where
  /-- The names in the order they were given. -/
  names : List String
  /-- The names once more, for lookup. -/
  lookup : List String
  inStep : ∀ name, name ∈ lookup ↔ name ∈ names
  deriving DecidableEq, Repr

namespace MarkerSet

/-- The set without names. -/
def empty : MarkerSet where
  names := []
  lookup := []
  inStep _ := Iff.rfl

instance : Inhabited MarkerSet :=
  ⟨empty⟩

theorem inStep_insert {names lookup : List String} (h : ∀ s, s ∈ lookup ↔ s ∈ names)
    (name s : String) : s ∈ insertOrdered name lookup ↔ s ∈ names ++ [name] := by
  rw [mem_insertOrdered, List.mem_append, List.mem_singleton, h, or_comm]

/-- A set with one more name. Blanks at the ends of the name do not count; a blank name, and one
that is there already, changes nothing. -/
def insert (s : MarkerSet) (text : String) : MarkerSet :=
  let name := Text.trim text
  if name.isEmpty || s.lookup.contains name then s
  else
    { names := s.names ++ [name]
      lookup := insertOrdered name s.lookup
      inStep := inStep_insert s.inStep name }

/-- The set of the given names. -/
def ofNames (names : List String) : MarkerSet :=
  names.foldl insert empty

def contains (s : MarkerSet) (name : String) : Bool :=
  s.lookup.contains name

def size (s : MarkerSet) : Nat :=
  s.names.length

def isEmpty (s : MarkerSet) : Bool :=
  s.names.isEmpty

/-! ## Names and lookup -/

theorem contains_iff_mem (s : MarkerSet) (name : String) :
    s.contains name = true ↔ name ∈ s.names := by
  rw [contains, List.contains_iff_mem, s.inStep]

/-- One more text adds the trimmed text, if it is new and not blank. -/
theorem names_insert (s : MarkerSet) (text : String) :
    (s.insert text).names =
      s.names ++ firstNew s.names ([Text.trim text].filter fun name => !name.isEmpty) := by
  have hmem : s.lookup.contains (Text.trim text) = s.names.contains (Text.trim text) := by
    rw [Bool.eq_iff_iff, List.contains_iff_mem, List.contains_iff_mem, s.inStep]
  unfold insert
  cases hempty : (Text.trim text).isEmpty <;>
    cases hthere : s.names.contains (Text.trim text) <;>
    simp_all [firstNew]

/-- The names of a set are the first occurrences of the given names that are not blank. -/
theorem names_ofNames_eq (names : List String) :
    (ofNames names).names =
      firstNew [] ((names.map Text.trim).filter fun name => !name.isEmpty) := by
  -- what is new after a set depends on the names it has, so the statement is about every set
  have hfold : ∀ s : MarkerSet, (names.foldl insert s).names =
      s.names ++ firstNew s.names ((names.map Text.trim).filter fun name => !name.isEmpty) := by
    induction names with
    | nil => simp [firstNew]
    | cons text names ih =>
      intro s
      have hseen : ∀ name, name ∈ (s.insert text).names ↔
          name ∈ s.names ++ [Text.trim text].filter fun name => !name.isEmpty := by
        intro name
        rw [names_insert, List.mem_append, List.mem_append, mem_firstNew]
        by_cases hname : name ∈ s.names <;> simp [hname]
      have hsplit : ((text :: names).map Text.trim).filter (fun name => !name.isEmpty) =
          [Text.trim text].filter (fun name => !name.isEmpty) ++
            (names.map Text.trim).filter fun name => !name.isEmpty := by
        rw [← List.filter_append]
        rfl
      rw [List.foldl_cons, ih, firstNew_congr hseen, names_insert, hsplit, firstNew_append,
        List.append_assoc]
  rw [ofNames, hfold]
  exact List.nil_append _

/-- What is looked up is the ascending list of the names. -/
theorem lookup_ofNames (names : List String) :
    (ofNames names).lookup = ordered (ofNames names).names := by
  have hstep : ∀ (s : MarkerSet) (text : String), s.lookup = ordered s.names →
      (s.insert text).lookup = ordered (s.insert text).names := by
    intro s text h
    unfold insert
    dsimp only
    split
    · exact h
    · simp [ordered, List.foldl_append, h]
  have hfold : ∀ s : MarkerSet, s.lookup = ordered s.names →
      (names.foldl insert s).lookup = ordered (names.foldl insert s).names := by
    induction names with
    | nil => exact fun s h => h
    | cons text names ih =>
      intro s h
      rw [List.foldl_cons]
      exact ih _ (hstep s text h)
  exact hfold empty rfl

end MarkerSet

end TestReach
