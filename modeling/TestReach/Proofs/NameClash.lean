import TestReach.Proofs.Lookup

/-!
# Names of types against names of namespaces

While a solution is declared, a namespace may not take the name of a type, and a type may not take
the name of a namespace; both are looked up in indexes that grow. The index of namespaces does not
have the global namespace, whose name is empty. So there is one name that a type and a namespace
can share, the empty one, and one way to come to it: a type that is not nested, is in no namespace
and has a blank name (`Program.type_shares_name_iff`).

Nested types cannot have the empty name, since a `+` stands before their own names, and a type in a
namespace cannot, since a dot does.
-/

namespace TestReach

open Text

namespace TypeDecl

/-- A blank name, in no namespace. -/
def Nameless (d : TypeDecl) : Prop :=
  trim d.name = "" ∧ d.spacePath = []

instance (d : TypeDecl) : Decidable d.Nameless :=
  inferInstanceAs (Decidable (_ ∧ _))

/-- The names of a type and of the types in it begin with what stands before the type. -/
theorem exists_name_eq_append {d : TypeDecl} {pre : String} {T : TypeSite}
    (h : T ∈ d.sitesUnder pre) : ∃ rest, T.name = pre ++ rest := by
  induction d using induction_nested generalizing pre with
  | h d ih =>
    rw [sitesUnder_eq, List.mem_cons, nestedSites_eq, List.mem_flatMap] at h
    rcases h with rfl | ⟨n, hn, hT⟩
    · exact ⟨trim d.name, rfl⟩
    · obtain ⟨rest, hname⟩ := ih n hn hT
      refine ⟨d.display ++ "+" ++ rest, ?_⟩
      rw [hname, String.append_assoc, String.append_assoc, String.append_assoc]

theorem dotted_eq_empty_iff (path : List String) : dotted path = "" ↔ path = [] := by
  cases path with
  | nil => simp [dotted]
  | cons segment rest => simp [dotted]

/-- A type or a type in it has the empty name exactly when the outermost is nameless. -/
theorem exists_site_eq_empty_iff (d : TypeDecl) : (∃ T ∈ d.sites, T.name = "") ↔ d.Nameless := by
  rw [sites, sitesUnder_eq]
  constructor
  · rintro ⟨T, hT, hname⟩
    rcases List.mem_cons.1 hT with rfl | hT
    · obtain ⟨hpath, hown⟩ := String.append_eq_empty_iff.1 hname
      exact ⟨hown, (dotted_eq_empty_iff _).1 hpath⟩
    · rw [nestedSites_eq, List.mem_flatMap] at hT
      obtain ⟨n, -, hT⟩ := hT
      obtain ⟨rest, hrest⟩ := exists_name_eq_append hT
      simp [hrest] at hname
  · rintro ⟨hown, hpath⟩
    refine ⟨_, List.mem_cons_self, ?_⟩
    rw [hown, hpath]
    rfl

end TypeDecl

/-- The empty name is declared exactly when one of the types that are not nested is nameless. -/
theorem Solution.exists_site_eq_empty_iff (s : Solution) :
    (∃ T ∈ s.sites, T.name = "") ↔ ∃ d ∈ s.topTypes, d.Nameless := by
  simp only [← TypeDecl.exists_site_eq_empty_iff, sites, List.mem_flatMap]
  constructor
  · rintro ⟨T, ⟨d, hd, hT⟩, hname⟩
    exact ⟨d, hd, T, hT, hname⟩
  · rintro ⟨d, hd, T, hT, hname⟩
    exact ⟨T, ⟨d, hd, hT⟩, hname⟩

/-! ## The two indexes -/

namespace SymbolTable.Layout

variable {t : SymbolTable} {blocks : List Block} {paths : List String} {name : String}
  {id id' : SymbolId}

theorem findSpace_isSome_iff (h : t.Layout blocks paths) :
    (t.findSpace name).isSome = true ↔ name = "" ∨ name ∈ paths := by
  rw [findSpace]
  by_cases hempty : name = ""
  · simp [hempty]
  · have hpath : (t.spaces.lookup name).isSome = true ↔ name ∈ paths := by
      rw [Option.isSome_iff_ne_none, ne_eq, h.lookup_space_eq_none_iff, not_not]
    simp [hempty, hpath]

/-- A name in both indexes is empty, since that is the only name of a namespace without a path. -/
theorem found_twice_iff (h : t.Layout blocks paths) :
    (t.findType name).isSome = true ∧ (t.findSpace name).isSome = true ↔
      name = "" ∧ "" ∈ blockNames blocks := by
  rw [h.findType_isSome_iff, h.findSpace_isSome_iff]
  constructor
  · rintro ⟨htype, rfl | hspace⟩
    · exact ⟨rfl, htype⟩
    · exact absurd hspace (h.names.apart name htype)
  · rintro ⟨rfl, htype⟩
    exact ⟨htype, .inl rfl⟩

/-- The numbers of a type and of a namespace have one name exactly when the namespace is the global
one and the type is what is found under the empty name. -/
theorem qualifiedName_eq_iff (h : t.Layout blocks paths) (hid : t.HasType id)
    (hid' : id' = 0 ∨ t.HasSpace id') :
    t.qualifiedName id = t.qualifiedName id' ↔ id' = 0 ∧ t.findType "" = some id := by
  rcases hid' with rfl | hspace
  · rw [h.nested.qualifiedName_root, h.findType_iff]
    simp [hid]
  · apply iff_of_false
    · intro hname
      have hfound := h.lookup_space_iff.2 ⟨hspace, hname.symm⟩
      have htype : (t.findType (t.qualifiedName id)).isSome = true :=
        Option.isSome_of_eq_some (h.findType_iff.2 ⟨hid, rfl⟩)
      have hnone := h.lookup_space_eq_none_iff.2 (h.names.apart _ (h.findType_isSome_iff.1 htype))
      rw [hnone] at hfound
      exact absurd hfound (by simp)
    · rintro ⟨rfl, -⟩
      obtain ⟨symbol, hsymbol, hbody⟩ := hspace
      rw [h.nested.root, Option.some.injEq] at hsymbol
      subst hsymbol
      exact absurd hbody (by simp)

end SymbolTable.Layout

/-! ## Loaded programs -/

namespace Program

/-- In a loaded program a type and a namespace are found under one name exactly when the name is
empty and a nameless type is declared. So no type has the name of a namespace other than the global
one, and the type that is found under the empty name is the only one with the name of that. -/
theorem type_shares_name_iff {s : Solution} {p : Program} (hload : load s = .ok p) :
    (∀ name, (p.table.findType name).isSome = true ∧ (p.table.findSpace name).isSome = true ↔
      name = "" ∧ ∃ d ∈ s.topTypes, d.Nameless) ∧
    ∀ id id', p.table.HasType id → id' = 0 ∨ p.table.HasSpace id' →
      (p.table.qualifiedName id = p.table.qualifiedName id' ↔
        id' = 0 ∧ p.table.findType "" = some id) := by
  obtain ⟨-, news, outside, order, hloaded⟩ := (load_meets s).of_ok hload
  have hlayout := hloaded.placed.layout
  refine ⟨fun name => ?_, fun id id' hid hid' => hlayout.qualifiedName_eq_iff hid hid'⟩
  have hnames : SymbolTable.blockNames (news.flatten ++ outside) = s.sites.map (·.name) := by
    rw [← hloaded.placed.sites_eq, List.map_map]
    rfl
  rw [hlayout.found_twice_iff, ← s.exists_site_eq_empty_iff, hnames, List.mem_map]

/-- The solution has a nameless type beside namespaces with blank and padded segments. -/
theorem type_shares_name_iff_nestedNames :
    ∃ p, load nestedNames = .ok p ∧ p.table.findType "" = some 7 ∧
      p.table.findSpace "App.Models" = some 2 ∧ p.table.HasType 7 ∧
      p.table.qualifiedName 7 = p.table.qualifiedName 0 ∧
      (∃ d ∈ nestedNames.topTypes, d.Nameless) ∧
      ∀ name, (p.table.findType name).isSome = true ∧ (p.table.findSpace name).isSome = true ↔
        name = "" ∧ ∃ d ∈ nestedNames.topTypes, d.Nameless := by
  have hfound : (load nestedNames).toOption.map (fun p =>
      (p.table.findType "", p.table.findSpace "App.Models",
        (p.table.symbol? 7).map Symbol.isType)) = some (some 7, some 2, some true) := by
    decide +kernel
  obtain ⟨p, hload, hp⟩ := exists_ok_of_map hfound
  simp only [Prod.mk.injEq] at hp
  obtain ⟨hempty, hspace, htype⟩ := hp
  have hhas : p.table.HasType 7 := Option.map_eq_some_iff.1 htype
  have hshares := type_shares_name_iff hload
  exact ⟨p, hload, hempty, hspace, hhas, (hshares.2 7 0 hhas (.inl rfl)).2 ⟨rfl, hempty⟩,
    by decide +kernel, hshares.1⟩

/-- A type without a name, in no namespace. -/
def oneNameless : Solution where
  projects := [{ name := "P", types := [{ name := "" }] }]

/-- The solution loads, and its type has the name of the global namespace. -/
theorem type_shares_global_name :
    ∃ p, load oneNameless = .ok p ∧ p.table.findType "" = some 1 ∧ p.table.findSpace "" = some 0 ∧
      p.table.qualifiedName 1 = p.table.qualifiedName 0 := by
  have hfound : (load oneNameless).toOption.map (fun p =>
      (p.table.findType "", p.table.findSpace "",
        decide (p.table.qualifiedName 1 = p.table.qualifiedName 0))) =
      some (some 1, some 0, true) := by
    decide +kernel
  obtain ⟨p, hload, hp⟩ := exists_ok_of_map hfound
  simp only [Prod.mk.injEq, decide_eq_true_eq] at hp
  exact ⟨p, hload, hp⟩

end Program

end TestReach
