import TestReach.Config
import TestReach.Proofs.MethodRef
import TestReach.Proofs.Ordered

/-!
# What is accepted as a configuration

A marker has to be a qualified name: between its dots stand segments that are not empty and hold
neither blanks nor commas (`IsQualifiedName`). The check never cuts a marker into segments. It looks
for a dot at either end and for two dots in a row, which comes to the same
(`Config.nil_mem_splitOn_iff`).

So a configuration is accepted exactly when it has markers, all of them are qualified names, and its
options are in range (`Config.fault?_eq_none_iff`). The names of its marker set are its markers
without the blanks around them, each once (`MarkerSet.firstOccurrences_ofNames`), and they make the
same set again (`MarkerSet.ofNames_names`).
-/

namespace TestReach

open Text

/-- Segments with dots between them. Each segment has a character, and none is blank or a comma. -/
def IsQualifiedName (name : String) : Prop :=
  ∀ segment ∈ name.toList.splitOn '.', segment ≠ [] ∧ ∀ c ∈ segment, isBlank c = false ∧ c ≠ ','

instance (name : String) : Decidable (IsQualifiedName name) :=
  decidable_of_iff ((name.toList.splitOn '.').all fun segment =>
      !segment.isEmpty && segment.all fun c => !isBlank c && c != ',') (by simp [IsQualifiedName])

/-! ## Segments -/

theorem exists_splitOn_eq_cons (sep : Char) (cs : List Char) :
    ∃ p ps, cs.splitOn sep = p :: ps :=
  List.exists_cons_of_ne_nil (List.splitOn_ne_nil sep cs)

/-- The characters of the pieces are those of the whole, except the one at which it is cut. -/
theorem forall_mem_splitOn_iff (sep : Char) (cs : List Char) (P : Char → Prop) :
    (∀ piece ∈ cs.splitOn sep, ∀ c ∈ piece, P c) ↔ ∀ c ∈ cs, c ≠ sep → P c := by
  induction cs with
  | nil => simp
  | cons d cs ih =>
    rw [List.splitOn_cons_eq_if_modifyHead]
    by_cases hd : d = sep
    · simp [hd, ih]
    · obtain ⟨p, ps, hps⟩ := exists_splitOn_eq_cons sep cs
      rw [hps, List.forall_mem_cons] at ih
      simp only [beq_iff_eq, hd, if_false, hps, List.modifyHead_cons, List.forall_mem_cons]
      rw [and_assoc, ih]
      simp [hd]

namespace Config

theorem hasEmptySegment_dot (cs : List Char) :
    hasEmptySegment ('.' :: cs) = true ↔ cs.head? = some '.' ∨ hasEmptySegment cs = true := by
  cases cs with
  | nil => simp [hasEmptySegment]
  | cons d cs =>
    by_cases hd : d = '.'
    · simp [hd, hasEmptySegment]
    · rw [hasEmptySegment.eq_2 _ _ (by simp [hd])]
      simp [hd]

theorem hasEmptySegment_cons {c : Char} (h : c ≠ '.') (cs : List Char) :
    hasEmptySegment (c :: cs) = hasEmptySegment cs :=
  hasEmptySegment.eq_2 c cs fun _ hc _ => h hc

theorem head?_splitOn_eq_nil_iff (cs : List Char) :
    (cs.splitOn '.').head? = some [] ↔ cs = [] ∨ cs.head? = some '.' := by
  cases cs with
  | nil => simp
  | cons c cs =>
    obtain ⟨p, ps, hps⟩ := exists_splitOn_eq_cons '.' cs
    rw [List.splitOn_cons_eq_if_modifyHead, hps]
    by_cases hc : c = '.' <;> simp [hc]

theorem nil_mem_iff_head?_or_tail {l : List (List Char)} :
    [] ∈ l ↔ l.head? = some [] ∨ [] ∈ l.tail := by
  cases l with
  | nil => simp
  | cons p ps => simp [eq_comm]

/-- A segment after the first is empty where the text ends with a dot or has two in a row. -/
theorem nil_mem_tail_splitOn_iff (cs : List Char) :
    [] ∈ (cs.splitOn '.').tail ↔ cs.getLast? = some '.' ∨ hasEmptySegment cs = true := by
  induction cs with
  | nil => simp [hasEmptySegment]
  | cons c cs ih =>
    rw [List.splitOn_cons_eq_if_modifyHead]
    by_cases hc : c = '.'
    · -- the cut makes the first segment of the rest a later one
      have hlast : (c :: cs).getLast? = some '.' ↔ cs = [] ∨ cs.getLast? = some '.' := by
        cases cs with
        | nil => simp [hc]
        | cons d cs => simp [List.getLast?_cons_cons]
      rw [hlast, hc, hasEmptySegment_dot]
      simp only [beq_self_eq_true, if_true, List.tail_cons]
      rw [nil_mem_iff_head?_or_tail, head?_splitOn_eq_nil_iff, ih, or_assoc, or_assoc]
      exact or_congr_right or_left_comm
    · have hlast : (c :: cs).getLast? = some '.' ↔ cs.getLast? = some '.' := by
        cases cs with
        | nil => simp [hc]
        | cons d cs => rw [List.getLast?_cons_cons]
      obtain ⟨p, ps, hps⟩ := exists_splitOn_eq_cons '.' cs
      rw [hps] at ih
      rw [hlast, hasEmptySegment_cons hc, ← ih]
      simp [hc, hps]

theorem nil_mem_splitOn_iff (cs : List Char) :
    [] ∈ cs.splitOn '.' ↔ cs = [] ∨ cs.head? = some '.' ∨ cs.getLast? = some '.' ∨
      hasEmptySegment cs = true := by
  rw [nil_mem_iff_head?_or_tail, head?_splitOn_eq_nil_iff, nil_mem_tail_splitOn_iff, or_assoc]

/-! ## Checking -/

/-- The grammar without a cut into segments, as it is checked. -/
theorem isQualifiedName_iff {name : String} :
    IsQualifiedName name ↔ name.toList ≠ [] ∧
      (∀ c ∈ name.toList, isBlank c = false ∧ c ≠ ',') ∧ name.toList.head? ≠ some '.' ∧
      name.toList.getLast? ≠ some '.' ∧ hasEmptySegment name.toList = false := by
  have hdot : isBlank '.' = false ∧ '.' ≠ ',' := by decide
  have hchars : (∀ segment ∈ name.toList.splitOn '.', ∀ c ∈ segment, isBlank c = false ∧ c ≠ ',') ↔
      ∀ c ∈ name.toList, isBlank c = false ∧ c ≠ ',' := by
    rw [forall_mem_splitOn_iff '.' name.toList fun c => isBlank c = false ∧ c ≠ ',']
    refine forall₂_congr fun c _ => ⟨fun h => ?_, fun h _ => h⟩
    by_cases hc : c = '.'
    · exact hc ▸ hdot
    · exact h hc
  have hsegments : IsQualifiedName name ↔ [] ∉ name.toList.splitOn '.' ∧
      ∀ segment ∈ name.toList.splitOn '.', ∀ c ∈ segment, isBlank c = false ∧ c ≠ ',' := by
    constructor
    · intro h
      exact ⟨fun hnil => (h [] hnil).1 rfl, fun segment hsegment => (h segment hsegment).2⟩
    · rintro ⟨hnil, h⟩ segment hsegment
      exact ⟨fun hempty => hnil (hempty ▸ hsegment), h segment hsegment⟩
  rw [hsegments, hchars, nil_mem_splitOn_iff]
  simp only [not_or, Bool.not_eq_true]
  tauto

theorem ite_some_eq_none_iff {α : Type} {p : Prop} [Decidable p] {a : α} {o : Option α} :
    (if p then some a else o) = none ↔ ¬p ∧ o = none := by
  by_cases hp : p <;> simp [hp]

/-- One marker passes the check exactly when it is a qualified name with blanks around it. -/
theorem markerFault?_eq_none_iff (marker : String) :
    markerFault? marker = none ↔ IsQualifiedName (trim marker) := by
  rw [isQualifiedName_iff, trim, String.toList_ofList, markerFault?]
  simp only [ite_some_eq_none_iff, List.isEmpty_iff, List.any_eq_true, Bool.or_eq_true, beq_iff_eq,
    not_or, not_exists, not_and, Bool.not_eq_true, and_true, ne_eq, and_assoc]

/-- The options are in range: the share is a percentage and the timeout is not zero. -/
theorem optionFault?_eq_none_iff (c : Config) :
    c.optionFault? = none ↔
      (∀ p, c.minTestedPercent = some p → 0.0 ≤ p ∧ p ≤ 100.0) ∧ c.projectTimeout ≠ some 0 := by
  rw [optionFault?]
  cases hp : c.minTestedPercent with
  | none => simp
  | some p =>
    have hrange : isPercentage p = true ↔ 0.0 ≤ p ∧ p ≤ 100.0 := by simp [isPercentage]
    cases hpercent : isPercentage p with
    | true =>
      rw [Option.filter_some_neg (by simp [hpercent])]
      simp [hrange.1 hpercent]
    | false =>
      rw [Option.filter_some_pos (by simp [hpercent])]
      simp [← hrange, hpercent]

theorem ne_empty_of_isQualifiedName {name : String} (h : IsQualifiedName name) : name ≠ "" := by
  simpa using (isQualifiedName_iff.1 h).1

/-- A configuration is accepted exactly when it has markers, all of them are qualified names, and
its options are in range. -/
theorem fault?_eq_none_iff (c : Config) :
    c.fault? = none ↔ c.markers ≠ [] ∧ (∀ m ∈ c.markers, IsQualifiedName (trim m)) ∧
      (∀ p, c.minTestedPercent = some p → 0.0 ≤ p ∧ p ≤ 100.0) ∧ c.projectTimeout ≠ some 0 := by
  rw [fault?, ite_some_eq_none_iff, Option.or_eq_none_iff, List.findSome?_eq_none_iff,
    optionFault?_eq_none_iff]
  simp only [markerFault?_eq_none_iff]
  refine and_congr_left fun h => not_congr ?_
  have hmarkers := h.1
  constructor
  · -- a marker that passed its own check is not blank
    intro hblank
    rw [List.eq_nil_iff_forall_not_mem]
    intro m hm
    exact ne_empty_of_isQualifiedName (hmarkers m hm)
      (isBlankText_iff.1 (List.all_eq_true.1 hblank m hm))
  · intro hnone
    simp [hnone]

end Config

/-! ## Marker sets -/

namespace MarkerSet

theorem names_ofNames (names : List String) :
    (ofNames names).names = firstNew [] ((names.filter fun m => !isBlankText m).map trim) := by
  have hblank : ∀ m, (trim m).isEmpty = isBlankText m := by
    intro m
    rw [Bool.eq_iff_iff, isBlankText_iff, String.isEmpty_iff]
  rw [names_ofNames_eq, List.filter_map]
  simp [Function.comp_def, hblank]

theorem firstOccurrences_ofNames (names : List String) :
    FirstOccurrences ((names.filter fun m => !isBlankText m).map trim) (ofNames names).names := by
  rw [names_ofNames]
  exact firstOccurrences_firstNew _

theorem mem_names_ofNames {names : List String} {s : String} :
    s ∈ (ofNames names).names ↔ ∃ m ∈ names, isBlankText m = false ∧ trim m = s := by
  rw [(firstOccurrences_ofNames names).mem_iff]
  simp [and_assoc]

/-- The names of a set make the same set again. -/
theorem ofNames_names (names : List String) : ofNames (ofNames names).names = ofNames names := by
  have htrimmed : ∀ s ∈ (ofNames names).names, trim s = s := by
    intro s hs
    obtain ⟨m, -, -, rfl⟩ := mem_names_ofNames.1 hs
    exact trim_trim m
  have hkept : ∀ s ∈ (ofNames names).names, (!isBlankText s) = true := by
    intro s hs
    obtain ⟨m, -, hm, rfl⟩ := mem_names_ofNames.1 hs
    rw [Bool.not_eq_true', Bool.eq_false_iff] at *
    rwa [ne_eq, isBlankText_iff, trim_trim, ← isBlankText_iff]
  have hnames : (ofNames (ofNames names).names).names = (ofNames names).names := by
    rw [names_ofNames (ofNames names).names, List.filter_eq_self.2 hkept,
      List.map_congr_left htrimmed, List.map_id']
    exact firstNew_eq_self (firstOccurrences_ofNames names).nodup (by simp)
  refine MarkerSet.ext hnames ?_
  rw [lookup_ofNames, lookup_ofNames, hnames]

end MarkerSet

namespace Config

/-- An accepted configuration marks at least one type, and by qualified names only. -/
theorem markerSet_of_fault?_eq_none {c : Config} (h : c.fault? = none) :
    c.markerSet.isEmpty = false ∧ ∀ s ∈ c.markerSet.names, IsQualifiedName s := by
  obtain ⟨hne, hmarkers, -⟩ := c.fault?_eq_none_iff.1 h
  constructor
  · obtain ⟨m, rest, hm⟩ := List.exists_cons_of_ne_nil hne
    have hmem : m ∈ c.markers := hm ▸ List.mem_cons_self
    have hname : trim m ∈ c.markerSet.names := by
      refine MarkerSet.mem_names_ofNames.2 ⟨m, hmem, ?_, rfl⟩
      rw [Bool.eq_false_iff, ne_eq, isBlankText_iff]
      exact ne_empty_of_isQualifiedName (hmarkers m hmem)
    rw [MarkerSet.isEmpty, List.isEmpty_eq_false_iff]
    exact List.ne_nil_of_mem hname
  · intro s hs
    obtain ⟨m, hm, -, rfl⟩ := MarkerSet.mem_names_ofNames.1 hs
    exact hmarkers m hm

/-- The check accepts exactly the grammar of markers, and the marker set is what was checked: the
markers that are not blank, without the blanks around them and each at its first occurrence. -/
theorem accepts_marker_grammar (c : Config) :
    ((∀ p, c.minTestedPercent = some p → 0.0 ≤ p ∧ p ≤ 100.0) →
        (c.fault? = none ↔ c.markers ≠ [] ∧ c.projectTimeout ≠ some 0 ∧
          ∀ m ∈ c.markers, IsQualifiedName (trim m))) ∧
      FirstOccurrences ((c.markers.filter fun m => !isBlankText m).map trim) c.markerSet.names ∧
      (∀ s, c.markerSet.contains s = true ↔
        s ∈ (c.markers.filter fun m => !isBlankText m).map trim) ∧
      MarkerSet.ofNames c.markerSet.names = c.markerSet ∧
      (c.fault? = none →
        c.markerSet.isEmpty = false ∧ ∀ s ∈ c.markerSet.names, IsQualifiedName s) := by
  have hnames := MarkerSet.firstOccurrences_ofNames c.markers
  refine ⟨fun hpercent => ?_, hnames, fun s => ?_, MarkerSet.ofNames_names c.markers,
    markerSet_of_fault?_eq_none⟩
  · rw [fault?_eq_none_iff]
    constructor
    · rintro ⟨hne, hmarkers, -, htimeout⟩
      exact ⟨hne, htimeout, hmarkers⟩
    · rintro ⟨hne, htimeout, hmarkers⟩
      exact ⟨hne, hmarkers, hpercent, htimeout⟩
  · rw [MarkerSet.contains_iff_mem]
    exact hnames.mem_iff s

/-- Markers with blanks around them, one of them given twice. -/
def spacedMarkers : Config where
  markers := [" NUnit.Framework.Test ", "Xunit.Fact", "NUnit.Framework.Test"]
  projectTimeout := some 30

theorem accepts_marker_grammar_spacedMarkers :
    (∀ m ∈ spacedMarkers.markers, IsQualifiedName (trim m)) ∧ spacedMarkers.fault? = none ∧
      spacedMarkers.markerSet.names = ["NUnit.Framework.Test", "Xunit.Fact"] ∧
      spacedMarkers.markerSet.isEmpty = false ∧
      ∀ s ∈ spacedMarkers.markerSet.names, IsQualifiedName s := by
  have hmarkers : ∀ m ∈ spacedMarkers.markers, IsQualifiedName (trim m) := by decide +kernel
  obtain ⟨haccepted, -, -, -, hvalid⟩ := accepts_marker_grammar spacedMarkers
  have hfault : spacedMarkers.fault? = none :=
    (haccepted (by simp [spacedMarkers])).2 ⟨by simp [spacedMarkers], by decide, hmarkers⟩
  exact ⟨hmarkers, hfault, by decide +kernel, hvalid hfault⟩

end Config

end TestReach
