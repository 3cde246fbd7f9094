import TestReach.Command.Settings
import TestReach.Proofs.Meets
import TestReach.Workspace

/-!
# What a flag overrides

The settings of an analysis come from two places: a file, and the arguments that are put over it.
Three of the four flags change what is put over and nothing else, so with such a flag the settings
differ in its own field only. Markers also decide whether a file is looked for at all. They change
their own field alone if the arguments name a file; if the arguments name none, the settings are
what the arguments say and the usual files do not count (`Command.settings_flagsExact`). This is so
however the text of a file is read.
-/

namespace TestReach.Command

/-! ## The file -/

section File

variable {m : Type → Type} [Monad m] [LawfulMonad m]

/-- The file depends on its name in the arguments and, without one, on whether there are markers. -/
theorem baseConfig_congr (read : ConfigReader) (h : Host m) {options options' : AnalyzeOptions}
    (hconfig : options.config = options'.config)
    (hmarkers : options.config = none → options.markers.isEmpty = options'.markers.isEmpty) :
    baseConfig read h options = baseConfig read h options' := by
  unfold baseConfig configPath
  rw [← hconfig]
  cases hc : options.config with
  | none => rw [hmarkers hc]
  | some path => simp only [pure_bind]

/-- With markers and without the name of a file no file is read. -/
theorem baseConfig_of_markers (read : ConfigReader) (h : Host m) (options : AnalyzeOptions)
    (hconfig : options.config = none) (hmarkers : options.markers ≠ []) :
    baseConfig read h options = pure (.ok {}) := by
  have hsome : options.markers.isEmpty = false := by simpa using hmarkers
  simp [baseConfig, configPath, hconfig, hsome]

end File

/-! ## The arguments -/

variable {options : AnalyzeOptions} {mode : Option Propagation} {config b : Config}

/-- A configuration with what the arguments say instead, checked or not. -/
def overlay (options : AnalyzeOptions) (mode : Option Propagation) (config : Config) : Config :=
  { config with
    markers := if options.markers.isEmpty then config.markers else options.markers
    propagation := mode.or config.propagation
    minTestedPercent := options.threshold.or config.minTestedPercent
    projectTimeout := options.projectTimeout.or config.projectTimeout }

theorem override_eq_ok_iff :
    override options config = .ok b ↔
      ∃ mode, modeOf options = .ok mode ∧ overlay options mode config = b ∧ b.fault? = none := by
  unfold override
  cases hmode : modeOf options with
  | error e => simp
  | ok mode =>
    dsimp only
    split
    · rename_i fault hfault
      apply iff_of_false (by simp)
      rintro ⟨mode', hmode', rfl, hnone⟩
      cases hmode'
      exact absurd (hfault.symm.trans hnone) (by simp)
    · rename_i hnone
      constructor
      · intro hb
        cases hb
        exact ⟨mode, rfl, rfl, hnone⟩
      · rintro ⟨mode', hmode', rfl, -⟩
        cases hmode'
        rfl

theorem modeOf_eq_ok_iff_of_some {text : String} (htext : options.propagation = some text) :
    modeOf options = .ok mode ↔ ∃ v, Propagation.parse? text = some v ∧ mode = some v := by
  rw [modeOf, htext]
  dsimp only
  cases Propagation.parse? text with
  | none => simp
  | some v => simp [eq_comm]

theorem eq_of_modeOf (hmode : modeOf options = .ok mode) :
    mode = options.propagation.bind Propagation.parse? := by
  cases htext : options.propagation with
  | none =>
    rw [modeOf, htext] at hmode
    cases hmode
    rfl
  | some text =>
    obtain ⟨v, hv, rfl⟩ := (modeOf_eq_ok_iff_of_some htext).1 hmode
    exact hv.symm

/-! ## Settings -/

variable {σ : Type} {read : ConfigReader} {h : Host (StateM σ)} {world : σ}

/-- The settings that arguments give on a machine in some state. -/
def settled (read : ConfigReader) (h : Host (StateM σ)) (world : σ) (options : AnalyzeOptions) :
    Except SettingsError Config :=
  ((settings read h options).run world).1

/-- Arguments give settings if there is a configuration to start from, and what comes of it with the
arguments over it is valid. -/
theorem settled_eq_ok_iff :
    settled read h world options = .ok b ↔ ∃ config,
      ((baseConfig read h options).run world).1 = .ok config ∧ override options config = .ok b := by
  rw [settled, settings, StateT.run_bind]
  obtain ⟨result, world'⟩ := (baseConfig read h options).run world
  cases result with
  | error e => exact iff_of_false (by rintro ⟨⟩) (by simp)
  | ok config =>
    constructor
    · intro hb
      exact ⟨config, rfl, hb⟩
    · rintro ⟨config', hconfig, hb⟩
      cases hconfig
      exact hb

theorem settled_eq_ok_iff_of_base (hbase : ((baseConfig read h options).run world).1 = .ok config) :
    settled read h world options = .ok b ↔
      ∃ mode, modeOf options = .ok mode ∧ b = overlay options mode config ∧ b.fault? = none := by
  rw [settled_eq_ok_iff, hbase]
  simp only [Except.ok.injEq, exists_eq_left', override_eq_ok_iff, @eq_comm _ _ b]

theorem settled_eq_ok_iff_of_mode (hbase : ((baseConfig read h options).run world).1 = .ok config)
    (hmode : modeOf options = .ok mode) :
    settled read h world options = .ok b ↔ b = overlay options mode config ∧ b.fault? = none := by
  rw [settled_eq_ok_iff_of_base hbase, hmode]
  simp only [Except.ok.injEq, exists_eq_left']

/-- What each flag makes of arguments with the settings `a`. -/
structure FlagsExact (read : ConfigReader) (h : Host (StateM σ)) (world : σ)
    (options : AnalyzeOptions) (a : Config) : Prop where
  propagation : ∀ text b, settled read h world { options with propagation := some text } = .ok b ↔
    ∃ mode, Propagation.parse? text = some mode ∧ b = { a with propagation := some mode } ∧
      b.fault? = none
  threshold : ∀ x b, settled read h world { options with threshold := some x } = .ok b ↔
    b = { a with minTestedPercent := some x } ∧ b.fault? = none
  projectTimeout : ∀ n b, settled read h world { options with projectTimeout := some n } = .ok b ↔
    b = { a with projectTimeout := some n } ∧ b.fault? = none
  /-- Over a file that the arguments name, markers replace its markers. -/
  markersOver : ∀ ms b, ms ≠ [] → options.config.isSome = true →
    (settled read h world { options with markers := ms } = .ok b ↔
      b = { a with markers := ms } ∧ b.fault? = none)
  /-- If the arguments name no file, markers leave what the arguments say and nothing else. -/
  markersAlone : ∀ ms b, ms ≠ [] → options.config = none →
    (settled read h world { options with markers := ms } = .ok b ↔
      b =
        { markers := ms
          propagation := options.propagation.bind Propagation.parse?
          minTestedPercent := options.threshold
          projectTimeout := options.projectTimeout } ∧ b.fault? = none)

/-- Each flag overrides its own setting and no other, except for markers without the name of a file,
which also put the usual files aside. -/
theorem settings_flagsExact {a : Config} (ha : settled read h world options = .ok a) :
    FlagsExact read h world options a := by
  obtain ⟨config, hconfig, hover⟩ := settled_eq_ok_iff.1 ha
  obtain ⟨mode, hmode, rfl, -⟩ := override_eq_ok_iff.1 hover
  -- the same file is read with other arguments, unless they change what decides on the file
  have hsame : ∀ options' : AnalyzeOptions, options'.config = options.config →
      (options'.config = none → options'.markers.isEmpty = options.markers.isEmpty) →
      ((baseConfig read h options').run world).1 = .ok config := by
    intro options' hfile hmarkers
    rw [baseConfig_congr read h hfile hmarkers]
    exact hconfig
  constructor
  · intro text b
    have hbase := hsame { options with propagation := some text } rfl fun _ => rfl
    rw [settled_eq_ok_iff_of_base hbase]
    constructor
    · rintro ⟨mode', hmode', rfl, hb⟩
      obtain ⟨v, hparse, rfl⟩ := (modeOf_eq_ok_iff_of_some rfl).1 hmode'
      exact ⟨v, hparse, rfl, hb⟩
    · rintro ⟨v, hparse, rfl, hb⟩
      exact ⟨some v, (modeOf_eq_ok_iff_of_some rfl).2 ⟨v, hparse, rfl⟩, rfl, hb⟩
  · intro x b
    have hbase := hsame { options with threshold := some x } rfl fun _ => rfl
    exact settled_eq_ok_iff_of_mode hbase hmode
  · intro n b
    have hbase := hsame { options with projectTimeout := some n } rfl fun _ => rfl
    exact settled_eq_ok_iff_of_mode hbase hmode
  · intro ms b hms hfile
    have hbase := hsame { options with markers := ms } rfl fun hnone => by
      rw [show options.config = none from hnone] at hfile
      cases hfile
    rw [settled_eq_ok_iff_of_mode hbase hmode]
    simp [overlay, hms]
  · intro ms b hms hnone
    have hbase : ((baseConfig read h { options with markers := ms }).run world).1 = .ok {} := by
      rw [baseConfig_of_markers read h { options with markers := ms } hnone hms]
      rfl
    rw [settled_eq_ok_iff_of_mode hbase hmode, eq_of_modeOf hmode]
    simp [overlay, hms]

/-- A working directory with settings in one of the usual files. -/
def oneHopFile : Workspace :=
  ({} : Workspace).addFile "testtrace.yaml"
    "name: nightly\nmarkers: [Fact]\npropagation: one_hop\n".toUTF8

/-- Over the file by name, a marker and a timeout change their own fields. -/
theorem settings_flagsExact_oneHopFile :
    ∃ a, settled configOf Workspace.host oneHopFile
        { model := "m.json", config := "testtrace.yaml" } = .ok a ∧
      a.name = "nightly" ∧ a.propagation = some .oneHop ∧
      settled configOf Workspace.host oneHopFile
        { model := "m.json", config := "testtrace.yaml", markers := ["Theory"] } =
          .ok { a with markers := ["Theory"] } ∧
      settled configOf Workspace.host oneHopFile
        { model := "m.json", config := "testtrace.yaml", projectTimeout := some 60 } =
          .ok { a with projectTimeout := some 60 } := by
  have hfile : (settled configOf Workspace.host oneHopFile
      { model := "m.json", config := "testtrace.yaml" }).toOption.map (fun a =>
        (a.name, a.propagation, { a with markers := ["Theory"] }.fault?.isNone,
          { a with projectTimeout := some 60 }.fault?.isNone)) =
      some ("nightly", some .oneHop, true, true) := by decide +kernel
  obtain ⟨a, ha, hfields⟩ := exists_ok_of_map hfile
  simp only [Prod.mk.injEq, Option.isNone_iff_eq_none] at hfields
  obtain ⟨hname, hmode, hmarkers, htimeout⟩ := hfields
  have hflags := settings_flagsExact ha
  exact ⟨a, ha, hname, hmode,
    (hflags.markersOver ["Theory"] _ (by simp) rfl).2 ⟨rfl, hmarkers⟩,
    (hflags.projectTimeout 60 _).2 ⟨rfl, htimeout⟩⟩

/-- A marker switches off the usual file, and with it the mode. -/
theorem marker_flag_resets_propagation :
    ∃ a b, settled configOf Workspace.host oneHopFile { model := "m.json" } = .ok a ∧
      settled configOf Workspace.host oneHopFile { model := "m.json", markers := ["Fact"] } =
        .ok b ∧
      a.propagation = some .oneHop ∧ b.propagation = none := by
  have hfile : (settled configOf Workspace.host oneHopFile { model := "m.json" }).toOption.map
      (·.propagation) = some (some .oneHop) := by decide +kernel
  have hflag : (settled configOf Workspace.host oneHopFile
      { model := "m.json", markers := ["Fact"] }).toOption.map (·.propagation) = some none := by
    decide +kernel
  obtain ⟨a, ha, hmode⟩ := exists_ok_of_map hfile
  obtain ⟨b, hb, hnone⟩ := exists_ok_of_map hflag
  exact ⟨a, b, ha, hb, hmode, hnone⟩

end TestReach.Command
