import TestReach.Outcome
import TestReach.Proofs.MethodRef

/-!
# Writing a reference and reading it again

A method is written as its type, `::`, its name and, to tell overloads apart, its parameters between
parentheses. `MethodRef.Spells` says which texts write a reference: blanks may stand around the type
name and the name, at both ends, and anywhere between the parentheses. Whatever spelling is chosen
for a reference that is plain (`MethodRef.Plain`), reading gives the reference back
(`MethodRef.parse_spelling`). The type name may hold any mark of a cut.

A report has one spelling of its own, with a comma and a blank between one parameter and the next
(`Entry.reference`). Once names and parameters are as `Entry.Plain` says, only a `::` in a parameter
is left to do harm (`Entry.Plain.parse?_reference`), and there it does: the text is then read as
naming a type of a longer name (`Entry.Plain.typeName_ne_of_hasColons`).
-/

namespace TestReach

open Text

/-! ## Spellings -/

namespace MethodRef

/-- A reference whose parts are found again when it is written: no text in it is empty or has blanks
at its ends, the name has no mark of a cut, and parameters are plain and have no `::`. -/
structure Plain (ref : MethodRef) : Prop where
  typed : ref.typeName ≠ ""
  tightType : trim ref.typeName = ref.typeName
  named : ref.name ≠ ""
  tightName : trim ref.name = ref.name
  unopened : '(' ∉ ref.name.toList
  whole : ¬HasColons ref.name.toList
  first : ref.name.toList.head? ≠ some ':'
  parameters : ∀ ps ∈ ref.parameters, ∀ q ∈ ps, PlainParameter q ∧ ¬HasColons q.toList

theorem plain_iff {ref : MethodRef} :
    ref.Plain ↔ (ref.typeName ≠ "" ∧ trim ref.typeName = ref.typeName) ∧
      (ref.name ≠ "" ∧ trim ref.name = ref.name ∧ '(' ∉ ref.name.toList ∧
        ¬HasColons ref.name.toList ∧ ref.name.toList.head? ≠ some ':') ∧
      ∀ q ∈ ref.parameters.getD [], PlainParameter q ∧ ¬HasColons q.toList := by
  have hparameters : (∀ ps ∈ ref.parameters, ∀ q ∈ ps, PlainParameter q ∧ ¬HasColons q.toList) ↔
      ∀ q ∈ ref.parameters.getD [], PlainParameter q ∧ ¬HasColons q.toList := by
    cases ref.parameters <;> simp
  rw [← hparameters]
  exact ⟨fun h => ⟨⟨h.typed, h.tightType⟩,
      ⟨h.named, h.tightName, h.unopened, h.whole, h.first⟩, h.parameters⟩,
    fun h => ⟨h.1.1, h.1.2, h.2.1.1, h.2.1.2.1, h.2.1.2.2.1, h.2.1.2.2.2.1, h.2.1.2.2.2.2, h.2.2⟩⟩

instance (ref : MethodRef) : Decidable ref.Plain :=
  decidable_of_iff _ plain_iff.symm

/-- The texts that write a reference. Blanks may stand before and after the type name and the name,
at the ends of the text, and anywhere between the parentheses. -/
inductive Spells : MethodRef → String → Prop where
  | bare {typeName name : String} (b₀ b₁ b₂ b₃ : String)
      (blank : ∀ b ∈ [b₀, b₁, b₂, b₃], isBlankText b = true) :
      Spells ⟨typeName, name, none⟩ (b₀ ++ typeName ++ b₁ ++ "::" ++ b₂ ++ name ++ b₃)
  | listed {typeName name : String} {ps : List String} (b₀ b₁ b₂ b₃ inner b₄ : String)
      (blank : ∀ b ∈ [b₀, b₁, b₂, b₃, b₄], isBlankText b = true)
      (inside : squeeze inner = joinWith "," ps) :
      Spells ⟨typeName, name, some ps⟩
        (b₀ ++ typeName ++ b₁ ++ "::" ++ b₂ ++ name ++ b₃ ++ "(" ++ inner ++ ")" ++ b₄)

variable {ref : MethodRef}

theorem Plain.typeName_toList_ne_nil (h : ref.Plain) : ref.typeName.toList ≠ [] := by
  simpa using h.typed

theorem Plain.name_toList_ne_nil (h : ref.Plain) : ref.name.toList ≠ [] := by
  simpa using h.named

/-- After the `::` that divides type and name no other one begins before the parameters. -/
theorem Plain.not_hasColons_name (h : ref.Plain) {b b' : List Char} (hb : b.all isBlank = true)
    (hb' : b'.all isBlank = true) : ¬HasColons (':' :: (b ++ ref.name.toList ++ b')) := by
  rw [← List.cons_append, hasColons_append_blank_iff hb', hasColons_cons_iff,
    hasColons_blank_append_iff hb]
  rintro (⟨-, hhead⟩ | hwhole)
  · cases b with
    | nil => exact h.first hhead
    | cons c b =>
      rw [List.all_cons, Bool.and_eq_true] at hb
      exact ne_colon_of_isBlank hb.1 (by simpa using hhead)
  · exact h.whole hwhole

theorem not_mem_padded_name (h : '(' ∉ ref.name.toList) {b b' : List Char}
    (hb : b.all isBlank = true) (hb' : b'.all isBlank = true) :
    '(' ∉ b ++ ref.name.toList ++ b' := by
  rw [List.all_eq_true] at hb hb'
  have hopen : isBlank '(' ≠ true := by decide
  rw [List.mem_append, List.mem_append]
  rintro ((hmem | hmem) | hmem)
  · exact hopen (hb _ hmem)
  · exact h hmem
  · exact hopen (hb' _ hmem)

/-- A reference without parameters is read, with any blanks around its two parts. -/
theorem Plain.parse?_bare (h : ref.Plain) (hnone : ref.parameters = none) {raw : String}
    {b₀ b₁ b₂ b₃ : List Char} (h₀ : b₀.all isBlank = true) (h₁ : b₁.all isBlank = true)
    (h₂ : b₂.all isBlank = true) (h₃ : b₃.all isBlank = true)
    (hraw : raw.toList =
      b₀ ++ (ref.typeName.toList ++ (b₁ ++ ':' :: ':' :: b₂) ++ ref.name.toList) ++ b₃) :
    parse? raw = some ref := by
  have htype := tight_of_trim h.tightType
  have hname := tight_of_trim h.tightName
  have hcore := htype.append h.typeName_toList_ne_nil hname h.name_toList_ne_nil
    (b₁ ++ ':' :: ':' :: b₂)
  have hcut : cutAtLast (trimChars raw.toList) =
      some (ref.typeName.toList ++ b₁, b₂ ++ ref.name.toList) := by
    have hlast := h.not_hasColons_name h₂ all_isBlank_nil
    rw [List.append_nil] at hlast
    rw [hraw, hcore.trimChars_padded h₀ h₃, ← cutAtLast_append _ hlast]
    simp
  have hopen := not_mem_padded_name h.unopened h₂ all_isBlank_nil
  rw [List.append_nil] at hopen
  refine parse?_eq_some hcut (nameAndParameters_bare hopen) ?_ ?_ hnone.symm h.typed h.named
  · simpa using htype.trimChars_padded all_isBlank_nil h₁
  · simpa using hname.trimChars_padded h₂ all_isBlank_nil

/-- A reference with parameters is read, with any blanks around its parts and between the
parentheses. -/
theorem Plain.parse?_listed (h : ref.Plain) {ps : List String} (hsome : ref.parameters = some ps)
    {raw inner : String} {b₀ b₁ b₂ b₃ b₄ : List Char} (h₀ : b₀.all isBlank = true)
    (h₁ : b₁.all isBlank = true) (h₂ : b₂.all isBlank = true) (h₃ : b₃.all isBlank = true)
    (h₄ : b₄.all isBlank = true) (hinner : squeeze inner = joinWith "," ps)
    (hraw : raw.toList = b₀ ++ (ref.typeName.toList ++ (b₁ ++ ':' :: ':' ::
      (b₂ ++ ref.name.toList ++ b₃ ++ '(' :: inner.toList)) ++ [')']) ++ b₄) :
    parse? raw = some ref := by
  have htype := tight_of_trim h.tightType
  have hclose : Tight [')'] := tight_singleton (by decide)
  have hcore := htype.append h.typeName_toList_ne_nil hclose (by simp)
    (b₁ ++ ':' :: ':' :: (b₂ ++ ref.name.toList ++ b₃ ++ '(' :: inner.toList))
  have hps := h.parameters ps hsome
  have hcolons : ¬HasColons inner.toList := by
    intro hinside
    have hsqueezed := hinside.filter_not_isBlank
    rw [← String.toList_ofList (l := inner.toList.filter _), ← squeeze, hinner,
      hasColons_joinWith_iff rfl rfl] at hsqueezed
    obtain ⟨q, hq, hcolons⟩ := hsqueezed
    exact (hps q hq).2 hcolons
  have hcut : cutAtLast (trimChars raw.toList) = some (ref.typeName.toList ++ b₁,
      b₂ ++ ref.name.toList ++ b₃ ++ '(' :: (inner.toList ++ [')'])) := by
    have hlast : ¬HasColons
        (':' :: (b₂ ++ ref.name.toList ++ b₃ ++ '(' :: (inner.toList ++ [')']))) := by
      rw [← List.cons_append, hasColons_append_cons_iff (by decide),
        hasColons_append_cons_iff (by decide)]
      rintro (hname | hinner | hnil)
      · exact h.not_hasColons_name h₂ h₃ hname
      · exact hcolons hinner
      · exact not_hasColons_nil hnil
    rw [hraw, hcore.trimChars_padded h₀ h₄, ← cutAtLast_append _ hlast]
    simp
  refine parse?_eq_some hcut
    (nameAndParameters_append (not_mem_padded_name h.unopened h₂ h₃)) ?_ ?_ ?_ h.typed h.named
  · simpa using htype.trimChars_padded all_isBlank_nil h₁
  · exact (tight_of_trim h.tightName).trimChars_padded h₂ h₃
  · rw [hsome, Option.map_some, splitParameters_spaced (fun q hq => (hps q hq).1) hinner]

/-- Every spelling of a plain reference is read as that reference. -/
theorem parse_spelling (h : ref.Plain) {text : String} (htext : ref.Spells text) :
    parse? text = some ref := by
  cases htext with
  | bare b₀ b₁ b₂ b₃ blank =>
    refine h.parse?_bare rfl (blank b₀ (by simp)) (blank b₁ (by simp)) (blank b₂ (by simp))
      (blank b₃ (by simp)) ?_
    simp
  | listed b₀ b₁ b₂ b₃ inner b₄ blank inside =>
    refine h.parse?_listed rfl (blank b₀ (by simp)) (blank b₁ (by simp)) (blank b₂ (by simp))
      (blank b₃ (by simp)) (blank b₄ (by simp)) inside ?_
    simp

theorem parse_spelling_nestedBrackets :
    let ref : MethodRef :=
      ⟨"App::Outer:", "Run :", some ["Map<string,(int,int)[,]>", ":Set<:>", "int"]⟩
    let text := " App::Outer: ::\tRun : ( Map < string, (int , int)[ ,\n] > ,:Set<: >, int )\n"
    ref.Plain ∧ ref.Spells text ∧ parse? text = some ref := by
  intro ref text
  have hplain : ref.Plain := by decide +kernel
  have htext : ref.Spells text :=
    .listed " " " " "\t" " " " Map < string, (int , int)[ ,\n] > ,:Set<: >, int " "\n"
      (by decide) (by decide +kernel)
  exact ⟨hplain, htext, parse_spelling hplain htext⟩

end MethodRef

/-! ## References -/

namespace Entry

/-- The method as a reference to it is written. -/
def reference (e : Entry) : String :=
  e.typeName ++ "::" ++ e.signature

/-- The name has no mark of a cut, no text is empty, the type name has no blanks at its ends, and
in parameters brackets are balanced and commas stand inside them. -/
structure Plain (e : Entry) : Prop where
  named : e.name ≠ ""
  unopened : '(' ∉ e.name.toList
  whole : ¬HasColons e.name.toList
  first : e.name.toList.head? ≠ some ':'
  typed : e.typeName ≠ ""
  tight : trim e.typeName = e.typeName
  parameters : ∀ q ∈ e.parameters, q ≠ "" ∧ Bracketed q.toList

theorem plain_iff {e : Entry} :
    e.Plain ↔ (e.name ≠ "" ∧ '(' ∉ e.name.toList ∧ ¬HasColons e.name.toList ∧
      e.name.toList.head? ≠ some ':') ∧ (e.typeName ≠ "" ∧ trim e.typeName = e.typeName) ∧
      ∀ q ∈ e.parameters, q ≠ "" ∧ Bracketed q.toList :=
  ⟨fun h => ⟨⟨h.named, h.unopened, h.whole, h.first⟩, ⟨h.typed, h.tight⟩, h.parameters⟩,
    fun h => ⟨h.1.1, h.1.2.1, h.1.2.2.1, h.1.2.2.2, h.2.1.1, h.2.1.2, h.2.2⟩⟩

instance (e : Entry) : Decidable e.Plain :=
  decidable_of_iff _ plain_iff.symm

theorem reference_toList (e : Entry) :
    e.reference.toList = e.typeName.toList ++ ':' :: ':' ::
      (e.name.toList ++ '(' :: ((joinWith ", " e.parameters).toList ++ [')'])) := by
  simp [reference, signature, TestReach.signature]

variable {e : Entry}

theorem Plain.trimChars_reference (h : e.Plain) :
    trimChars e.reference.toList = e.reference.toList := by
  have htype : e.typeName.toList ≠ [] := by simpa using h.typed
  have hclose : Tight [')'] := tight_singleton (by decide)
  have htight := (tight_of_trim h.tight).append htype hclose (by simp)
    (':' :: ':' :: (e.name.toList ++ '(' :: (joinWith ", " e.parameters).toList))
  refine Tight.trimChars_eq_self ?_
  simpa [reference_toList] using htight

/-- What is written is read again, unless a parameter has a `::` in it. -/
theorem Plain.parse?_reference (h : e.Plain) (hname : trim e.name = e.name)
    (hsqueezed : ∀ q ∈ e.parameters, squeeze q = q)
    (hcolons : ∀ q ∈ e.parameters, ¬HasColons q.toList) :
    MethodRef.parse? e.reference = some ⟨e.typeName, e.name, some e.parameters⟩ := by
  have hplain : MethodRef.Plain ⟨e.typeName, e.name, some e.parameters⟩ := by
    refine ⟨h.typed, h.tight, h.named, hname, h.unopened, h.whole, h.first, ?_⟩
    rintro _ ⟨rfl⟩ q hq
    exact ⟨⟨(h.parameters q hq).1, hsqueezed q hq, (h.parameters q hq).2⟩, hcolons q hq⟩
  have hinner : squeeze (joinWith ", " e.parameters) = joinWith "," e.parameters :=
    squeeze_joinWith rfl (by decide) hsqueezed
  refine hplain.parse?_listed rfl all_isBlank_nil all_isBlank_nil all_isBlank_nil all_isBlank_nil
    all_isBlank_nil hinner ?_
  simp [reference_toList]

/-- A reference in which a parameter has a `::` is read as naming a type of a longer name. -/
theorem Plain.typeName_ne_of_hasColons (h : e.Plain)
    (hcolons : ∃ q ∈ e.parameters, HasColons q.toList) {ref : MethodRef}
    (href : MethodRef.parse? e.reference = some ref) : ref.typeName ≠ e.typeName := by
  have htail : HasColons
      (e.name.toList ++ '(' :: ((joinWith ", " e.parameters).toList ++ [')'])) := by
    rw [hasColons_append_cons_iff (by decide), hasColons_append_cons_iff (by decide),
      hasColons_joinWith_iff rfl (by decide)]
    exact .inr (.inl hcolons)
  obtain ⟨before, after, heq, hlast⟩ := exists_last_colons htail
  have hcut : MethodRef.cutAtLast (trimChars e.reference.toList) =
      some (e.typeName.toList ++ ':' :: ':' :: before, after) := by
    rw [h.trimChars_reference, reference_toList, heq, ← MethodRef.cutAtLast_append _ hlast]
    simp
  have hlonger := prefix_trimChars (tight_of_trim h.tight).first (d := ':') (by decide) (':' :: before)
  rw [MethodRef.typeName_of_cutAtLast hcut href]
  intro hsame
  rw [← String.toList_inj, String.toList_ofList] at hsame
  have hle := hlonger.length_le
  rw [hsame, List.length_append, List.length_singleton] at hle
  omega

end Entry

end TestReach
