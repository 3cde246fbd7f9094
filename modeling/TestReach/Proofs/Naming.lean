import TestReach.SymbolTable.Declare

/-!
# Qualified names, step by step

A qualified name is computed by going from a symbol up to the global namespace. Here it is read the
other way: `placePrefix t c` is what stands before the names of the types and namespaces directly in
`c`, and the qualified name of such a symbol is its own name after that prefix
(`qualifiedName_eq`). This holds in tables whose symbols have containers with smaller numbers
(`Nested`), and adding symbols changes no name (`Extends`).
-/

namespace TestReach.SymbolTable

variable {t t' : SymbolTable} {id c n : Nat} {s : Symbol}

/-! ## Tables that grow -/

theorem symbol?_eq_some_lt (h : t.symbol? id = some s) : id < t.size := by
  unfold symbol? at h
  exact (Array.getElem?_eq_some_iff.1 h).1

theorem exists_symbol? (h : id < t.size) : ∃ s, t.symbol? id = some s :=
  ⟨t.symbols[id], Array.getElem?_eq_getElem h⟩

/-- Every symbol of `t` is a symbol of `t'` with the same number. -/
def Extends (t t' : SymbolTable) : Prop :=
  ∀ id s, t.symbol? id = some s → t'.symbol? id = some s

theorem Extends.refl (t : SymbolTable) : Extends t t :=
  fun _ _ h => h

theorem Extends.trans {t'' : SymbolTable} (h : Extends t t') (h' : Extends t' t'') :
    Extends t t'' :=
  fun id s hs => h' id s (h id s hs)

theorem Extends.symbol?_eq (h : Extends t t') (hid : id < t.size) :
    t'.symbol? id = t.symbol? id := by
  obtain ⟨s, hs⟩ := exists_symbol? hid
  rw [hs, h id s hs]

theorem Extends.size_le (h : Extends t t') : t.size ≤ t'.size := by
  refine Nat.le_of_not_lt fun hlt => ?_
  obtain ⟨s, hs⟩ := exists_symbol? hlt
  exact absurd (symbol?_eq_some_lt (h _ _ hs)) (Nat.lt_irrefl _)

/-- The table with more symbols. -/
def pushAll (t : SymbolTable) (ss : List Symbol) : SymbolTable :=
  { t with symbols := t.symbols ++ ss.toArray }

theorem symbol?_pushAll_of_lt (ss : List Symbol) (h : id < t.size) :
    (t.pushAll ss).symbol? id = t.symbol? id := by
  unfold symbol? pushAll
  exact Array.getElem?_append_left h

theorem symbol?_pushAll_add (t : SymbolTable) (ss : List Symbol) (j : Nat) :
    (t.pushAll ss).symbol? (t.size + j) = ss[j]? := by
  unfold symbol? pushAll size
  rw [Array.getElem?_append_right (Nat.le_add_right _ _)]
  simp

/-- A symbol of an extended table is an old one or one of those added. -/
theorem symbol?_pushAll_cases {ss : List Symbol} (h : (t.pushAll ss).symbol? id = some s) :
    t.symbol? id = some s ∨ ∃ j, id = t.size + j ∧ ss[j]? = some s := by
  by_cases hid : id < t.size
  · exact .inl (symbol?_pushAll_of_lt ss hid ▸ h)
  · obtain ⟨j, rfl⟩ := Nat.exists_eq_add_of_le (Nat.le_of_not_lt hid)
    exact .inr ⟨j, rfl, symbol?_pushAll_add t ss j ▸ h⟩

theorem extends_pushAll (t : SymbolTable) (ss : List Symbol) : Extends t (t.pushAll ss) :=
  fun _ _ h => (symbol?_pushAll_of_lt ss (symbol?_eq_some_lt h)).trans h

/-! ## Containment -/

/-- Number 0 is the global namespace, and every other symbol is in one with a smaller number. -/
structure Nested (t : SymbolTable) : Prop where
  root : t.symbol? 0 = some ⟨"", none, .root⟩
  inner : ∀ id s, t.symbol? id = some s → id ≠ 0 →
    s.isRoot = false ∧ ∃ c, s.container = some c ∧ c < id

theorem Nested.size_pos (h : t.Nested) : 0 < t.size :=
  symbol?_eq_some_lt h.root

theorem Nested.container_lt (h : t.Nested) (hs : t.symbol? id = some s)
    (hc : s.container = some c) : c < id := by
  by_cases hid : id = 0
  · rw [hid, h.root] at hs
    rw [← Option.some.inj hs] at hc
    exact absurd hc (by simp)
  · obtain ⟨-, c', hc', hlt⟩ := h.inner id s hs hid
    rw [hc] at hc'
    exact Option.some.inj hc' ▸ hlt

theorem initial_nested : initial.Nested := by
  refine ⟨rfl, fun id s hs hid => ?_⟩
  have hlt := symbol?_eq_some_lt hs
  exact absurd (Nat.lt_one_iff.1 hlt) hid

/-- The containers of a symbol are found within as many steps as its number. -/
theorem containers_eq_of_le (h : t.Nested) {m : Nat} (hn : id ≤ n) (hm : id ≤ m) :
    t.containers n id = t.containers m id := by
  -- both bounds are spent together, and a container has a smaller number than what is in it
  induction n generalizing id m with
  | zero =>
    obtain rfl : id = 0 := Nat.le_zero.1 hn
    cases m with
    | zero => rfl
    | succ m => simp [containers, h.root]
  | succ n ih =>
    cases m with
    | zero =>
      obtain rfl : id = 0 := Nat.le_zero.1 hm
      simp [containers, h.root]
    | succ m =>
      unfold containers
      cases hs : t.symbol? id with
      | none => rfl
      | some s =>
        cases hc : s.container with
        | none => simp [hc]
        | some outer =>
          have hlt := h.container_lt hs hc
          simp only [Option.bind_some, hc, ih (Nat.le_of_lt_succ (Nat.lt_of_lt_of_le hlt hn))
            (Nat.le_of_lt_succ (Nat.lt_of_lt_of_le hlt hm))]

/-- Added symbols change no chain of containers. -/
theorem containers_extends (h : t.Nested) (hx : Extends t t') (hid : id < t.size) :
    t'.containers n id = t.containers n id := by
  induction n generalizing id with
  | zero => rfl
  | succ n ih =>
    unfold containers
    rw [hx.symbol?_eq hid]
    obtain ⟨s, hs⟩ := exists_symbol? hid
    cases hc : s.container with
    | none => simp [hs, hc]
    | some outer =>
      have hlt : outer < t.size := Nat.lt_trans (h.container_lt hs hc) hid
      simp only [hs, Option.bind_some, hc, hx.symbol?_eq hlt, ih hlt]

theorem containers_size_extends (h : t.Nested) (hx : Extends t t') (hid : id < t.size) :
    t'.containers t'.size id = t.containers t.size id := by
  rw [containers_extends h hx hid]
  exact containers_eq_of_le h (Nat.le_of_lt (Nat.lt_of_lt_of_le hid hx.size_le)) (Nat.le_of_lt hid)

/-! ## Prefixes -/

theorem qualify_append (name rest : String) (inner : Symbol) (outers : List Symbol) :
    qualify (name ++ rest) inner outers = qualify name inner outers ++ rest := by
  induction outers generalizing name inner with
  | nil => rfl
  | cons outer outers ih =>
    unfold qualify
    rw [← String.append_assoc, ih]

/-- The display name of a symbol after those of its containers; nothing for the global
namespace. -/
def displayPath (t : SymbolTable) (id : SymbolId) : String :=
  match t.symbol? id with
  | none => ""
  | some s => if s.isRoot then "" else qualify s.display s (t.containers t.size id)

/-- What stands before the names of the types and namespaces directly in a symbol. -/
def placePrefix (t : SymbolTable) (c : SymbolId) : String :=
  match t.symbol? c with
  | none => ""
  | some s => if s.isRoot then "" else t.displayPath c ++ if s.isType then "+" else "."

theorem qualifiedName_extends (h : t.Nested) (hx : Extends t t') (hid : id < t.size) :
    t'.qualifiedName id = t.qualifiedName id := by
  unfold qualifiedName
  rw [hx.symbol?_eq hid, containers_size_extends h hx hid]

theorem displayPath_extends (h : t.Nested) (hx : Extends t t') (hid : id < t.size) :
    t'.displayPath id = t.displayPath id := by
  unfold displayPath
  rw [hx.symbol?_eq hid, containers_size_extends h hx hid]

theorem placePrefix_extends (h : t.Nested) (hx : Extends t t') (hc : c < t.size) :
    t'.placePrefix c = t.placePrefix c := by
  unfold placePrefix
  rw [hx.symbol?_eq hc, displayPath_extends h hx hc]

theorem placePrefix_root (h : t.Nested) : t.placePrefix 0 = "" := by
  unfold placePrefix
  rw [h.root]
  rfl

/-- A name with the containers of its symbol before it is the name after the prefix of the
container, if the symbol is a type or its container is no type. -/
theorem qualify_containers (h : t.Nested) (hs : t.symbol? id = some s) (hc : s.container = some c)
    (hplace : s.isType = true ∨ ∀ o, t.symbol? c = some o → o.isType = false) (name : String) :
    qualify name s (t.containers t.size id) = t.placePrefix c ++ name := by
  have hlt := h.container_lt hs hc
  have hid := symbol?_eq_some_lt hs
  obtain ⟨o, ho⟩ := exists_symbol? (Nat.lt_trans hlt hid)
  obtain ⟨n, hn⟩ : ∃ n, t.size = n + 1 := ⟨t.size - 1, by omega⟩
  -- one step up from `id` is `c`, whose containers need one step less
  have hsteps : t.containers t.size c = t.containers n c :=
    containers_eq_of_le h (by omega) (by omega)
  have hsep : separator o s = if o.isType then "+" else "." := by
    unfold separator
    rcases hplace with hs' | ho'
    · rw [hs', Bool.and_true]
    · rw [ho' o ho]
      rfl
  unfold placePrefix displayPath
  rw [hsteps, hn, containers]
  simp only [hs, Option.bind_some, hc, ho]
  cases hr : o.isRoot with
  | true => simp [qualify]
  | false =>
    simp only [Bool.false_eq_true, if_false, qualify]
    rw [String.append_assoc, qualify_append, hsep, String.append_assoc]

/-- A type, or a namespace in a namespace, is named after the prefix of its container. -/
theorem qualifiedName_eq (h : t.Nested) (hs : t.symbol? id = some s) (hc : s.container = some c)
    (hplace : s.isType = true ∨ ∀ o, t.symbol? c = some o → o.isType = false) :
    t.qualifiedName id = t.placePrefix c ++ s.name := by
  have hid : id ≠ 0 := Nat.ne_of_gt (Nat.lt_of_le_of_lt (Nat.zero_le c) (h.container_lt hs hc))
  unfold qualifiedName
  simp only [hs, (h.inner id s hs hid).1, Bool.false_eq_true, if_false]
  exact qualify_containers h hs hc hplace s.name

theorem placePrefix_eq (h : t.Nested) (hs : t.symbol? id = some s) (hc : s.container = some c)
    (hplace : s.isType = true ∨ ∀ o, t.symbol? c = some o → o.isType = false) :
    t.placePrefix id = t.placePrefix c ++ s.display ++ if s.isType then "+" else "." := by
  have hid : id ≠ 0 := Nat.ne_of_gt (Nat.lt_of_le_of_lt (Nat.zero_le c) (h.container_lt hs hc))
  have hp : t.displayPath id = t.placePrefix c ++ s.display := by
    unfold displayPath
    simp only [hs, (h.inner id s hs hid).1, Bool.false_eq_true, if_false]
    exact qualify_containers h hs hc hplace s.display
  rw [← hp]
  unfold placePrefix
  simp only [hs, (h.inner id s hs hid).1, Bool.false_eq_true, if_false]

end TestReach.SymbolTable
