import TestReach.MethodRef
import Mathlib.Data.List.DropRight
import Mathlib.Data.List.Infix

/-!
# Cutting a reference into its parts

A reference is read by dropping the blanks at its ends and cutting the rest at the last `::`, at the
first `(` after it and at the commas where no bracket is open. Each cut is described on its own: a
part may be cut at the wrong place only where it has the mark of the cut in it, that is a `::`
(`HasColons`), a `(`, or a comma outside brackets (`Bracketed`).

Between the parentheses blanks make no difference at all, because splitting commutes with dropping
them (`MethodRef.splitParameters_filter`). So parameters are read however they are spaced
(`splitParameters_spaced`).
-/

namespace TestReach

open Text

/-! ## Blanks at the ends -/

namespace Text

theorem trimChars_eq (cs : List Char) :
    trimChars cs = (cs.dropWhile isBlank).rdropWhile isBlank :=
  rfl

/-- Characters that neither begin nor end with a blank. -/
structure Tight (cs : List Char) : Prop where
  first : ∀ c ∈ cs.head?, isBlank c = false
  last : ∀ c ∈ cs.getLast?, isBlank c = false

theorem Tight.trimChars_eq_self {cs : List Char} (h : Tight cs) : trimChars cs = cs := by
  have hfirst : cs.dropWhile isBlank = cs := by
    rw [List.dropWhile_eq_self_iff]
    intro hpos
    simp [h.first _ (by rw [List.head?_eq_getElem?, List.getElem?_eq_getElem hpos]; rfl)]
  rw [trimChars_eq, hfirst, List.rdropWhile_eq_self_iff]
  intro hne
  simp [h.last _ (List.getLast?_eq_some_getLast hne)]

theorem tight_trimChars (cs : List Char) : Tight (trimChars cs) := by
  rw [trimChars_eq]
  constructor
  · intro c hc
    -- what is dropped at the end leaves the first character
    obtain ⟨rest, hrest⟩ := List.rdropWhile_prefix isBlank (cs.dropWhile isBlank)
    have hhead : (cs.dropWhile isBlank).head? = some c := by
      rw [← hrest, List.head?_append, Option.mem_def.1 hc, Option.some_or]
    have hnot := List.head?_dropWhile_not isBlank cs
    rwa [hhead] at hnot
  · intro c hc
    have hne : (cs.dropWhile isBlank).rdropWhile isBlank ≠ [] := by
      rintro hnil
      rw [hnil] at hc
      cases hc
    rw [List.getLast?_eq_some_getLast hne, Option.mem_some_iff] at hc
    have hnot := List.rdropWhile_last_not isBlank _ hne
    rw [hc] at hnot
    simpa using hnot

theorem all_isBlank_nil : ([] : List Char).all isBlank = true :=
  rfl

/-- Blanks that are put at the two ends are dropped again. -/
theorem Tight.trimChars_padded {cs lead trail : List Char} (h : Tight cs)
    (hlead : lead.all isBlank = true) (htrail : trail.all isBlank = true) :
    trimChars (lead ++ cs ++ trail) = cs := by
  rw [List.all_eq_true] at hlead htrail
  have hdropped : trail.dropWhile isBlank = [] := List.dropWhile_eq_nil_iff.2 htrail
  have htrail' : ∀ c ∈ trail.reverse, isBlank c = true := by simpa using htrail
  have hself := h.trimChars_eq_self
  rw [trimChars] at hself
  rw [trimChars, List.append_assoc, List.dropWhile_append_of_pos hlead, List.dropWhile_append]
  cases hcs : cs.dropWhile isBlank with
  | nil =>
    rw [hcs] at hself
    simp [hdropped, ← hself]
  | cons c rest =>
    rw [List.isEmpty_cons, if_neg (by simp), List.reverse_append,
      List.dropWhile_append_of_pos htrail', ← hcs, hself]

theorem tight_singleton {c : Char} (h : isBlank c = false) : Tight [c] :=
  ⟨by simpa using h, by simpa using h⟩

/-- What stands between two parts without blanks at their ends does not matter for the ends. -/
theorem Tight.append {cs ds : List Char} (hcs : Tight cs) (hne : cs ≠ []) (hds : Tight ds)
    (hne' : ds ≠ []) (between : List Char) : Tight (cs ++ between ++ ds) where
  first := by
    rw [List.append_assoc, List.head?_append_of_ne_nil _ hne]
    exact hcs.first
  last := by
    rw [List.getLast?_append_of_ne_nil _ hne']
    exact hds.last

theorem dropWhile_of_first {cs : List Char} {d : Char} (hfirst : ∀ c ∈ cs.head?, isBlank c = false)
    (hd : isBlank d = false) (more : List Char) :
    (cs ++ d :: more).dropWhile isBlank = cs ++ d :: more := by
  cases cs with
  | nil => simp [hd]
  | cons c cs => simp [hfirst c rfl]

/-- Nothing is lost up to a character that is no blank, if the first is none either. -/
theorem prefix_trimChars {cs : List Char} {d : Char} (hfirst : ∀ c ∈ cs.head?, isBlank c = false)
    (hd : isBlank d = false) (more : List Char) : cs ++ [d] <+: trimChars (cs ++ d :: more) := by
  rw [trimChars_eq, dropWhile_of_first hfirst hd, List.rdropWhile, List.reverse_append,
    List.reverse_cons, List.append_assoc, List.dropWhile_append]
  split
  · simp [hd]
  · simp

theorem trimChars_toList_of_trim {s : String} (h : trim s = s) : trimChars s.toList = s.toList := by
  rw [← String.toList_ofList (l := trimChars s.toList), ← trim, h]

theorem tight_of_trim {s : String} (h : trim s = s) : Tight s.toList :=
  trimChars_toList_of_trim h ▸ tight_trimChars s.toList

theorem trim_trim (s : String) : trim (trim s) = trim s := by
  rw [trim, trim, String.toList_ofList, (tight_trimChars _).trimChars_eq_self]

theorem filter_not_isBlank_eq_nil {cs : List Char} (h : cs.all isBlank = true) :
    cs.filter (fun c => !isBlank c) = [] := by
  rw [List.filter_eq_nil_iff]
  simpa using h

theorem squeeze_squeeze (s : String) : squeeze (squeeze s) = squeeze s := by
  simp [squeeze]

end Text

/-! ## The last `::` -/

/-- Two colons follow each other somewhere. -/
def HasColons (cs : List Char) : Prop :=
  [':', ':'] <:+: cs

instance (cs : List Char) : Decidable (HasColons cs) :=
  inferInstanceAs (Decidable ([':', ':'] <:+: cs))

theorem not_hasColons_nil : ¬HasColons [] := by
  decide

theorem hasColons_cons_iff {c : Char} {cs : List Char} :
    HasColons (c :: cs) ↔ c = ':' ∧ cs.head? = some ':' ∨ HasColons cs := by
  unfold HasColons
  rw [List.infix_cons_iff]
  cases cs with
  | nil => simp
  | cons d cs => simp [eq_comm]

/-- A character that is no colon keeps apart what stands on its two sides. -/
theorem hasColons_append_cons_iff {c : Char} (hc : c ≠ ':') {cs ds : List Char} :
    HasColons (cs ++ c :: ds) ↔ HasColons cs ∨ HasColons ds := by
  induction cs with
  | nil => simp [hasColons_cons_iff, hc, not_hasColons_nil]
  | cons a cs ih =>
    have hhead : (cs ++ c :: ds).head? = some ':' ↔ cs.head? = some ':' := by
      cases cs <;> simp [hc]
    rw [List.cons_append, hasColons_cons_iff, hasColons_cons_iff, ih, hhead, or_assoc]

theorem ne_colon_of_isBlank {c : Char} (h : isBlank c = true) : c ≠ ':' := by
  rintro rfl
  exact absurd h (by decide)

theorem hasColons_blank_append_iff {lead cs : List Char} (hlead : lead.all isBlank = true) :
    HasColons (lead ++ cs) ↔ HasColons cs := by
  induction lead with
  | nil => rfl
  | cons c lead ih =>
    rw [List.all_cons, Bool.and_eq_true] at hlead
    rw [List.cons_append, hasColons_cons_iff, ih hlead.2]
    simp [ne_colon_of_isBlank hlead.1]

theorem hasColons_append_blank_iff {cs trail : List Char} (htrail : trail.all isBlank = true) :
    HasColons (cs ++ trail) ↔ HasColons cs := by
  cases trail with
  | nil => rw [List.append_nil]
  | cons c trail =>
    rw [List.all_cons, Bool.and_eq_true] at htrail
    have hnone : ¬HasColons trail := by
      rw [← List.append_nil trail, hasColons_blank_append_iff htrail.2]
      exact not_hasColons_nil
    rw [hasColons_append_cons_iff (ne_colon_of_isBlank htrail.1), or_iff_left hnone]

/-- Dropping blanks may bring two colons together, but it never parts them. -/
theorem HasColons.filter_not_isBlank {cs : List Char} (h : HasColons cs) :
    HasColons (cs.filter fun c => !isBlank c) :=
  h.filter fun c => !isBlank c

namespace MethodRef

theorem cutAtLast_eq_none {cs : List Char} (h : ¬HasColons cs) : cutAtLast cs = none := by
  fun_induction cutAtLast cs with
  | case1 => rfl
  | case2 rest before after hcut ih => simp [hasColons_cons_iff] at h
  | case3 rest hcut ih => simp [hasColons_cons_iff] at h
  | case4 c rest hnot ih =>
    rw [hasColons_cons_iff, not_or] at h
    rw [ih h.2, Option.map_none]

theorem cutAtLast_cons {c : Char} {cs before after : List Char}
    (h : cutAtLast cs = some (before, after)) :
    cutAtLast (c :: cs) = some (c :: before, after) := by
  rw [cutAtLast.eq_def]
  split
  · rename_i heq
    cases heq
  · rename_i rest heq
    obtain ⟨rfl, rfl⟩ := List.cons.inj heq
    rw [h]
  · rename_i heq
    obtain ⟨rfl, rfl⟩ := List.cons.inj heq
    rw [h, Option.map_some]

/-- The cut is made at a `::` after which there is none, also not with its second colon. -/
theorem cutAtLast_append (before : List Char) {after : List Char}
    (h : ¬HasColons (':' :: after)) :
    cutAtLast (before ++ ':' :: ':' :: after) = some (before, after) := by
  induction before with
  | nil => rw [List.nil_append, cutAtLast, cutAtLast_eq_none h]
  | cons c before ih => exact cutAtLast_cons ih

/-- A text is read part by part. -/
theorem parse?_eq_some {raw : String} {ref : MethodRef} {before after name : List Char}
    {parameters : Option (List (List Char))}
    (hcut : cutAtLast (trimChars raw.toList) = some (before, after))
    (hafter : nameAndParameters after = some (name, parameters))
    (htype : trimChars before = ref.typeName.toList) (hname : trimChars name = ref.name.toList)
    (hparameters : parameters.map (·.map fun p => squeeze (String.ofList p)) = ref.parameters)
    (htyped : ref.typeName ≠ "") (hnamed : ref.name ≠ "") : parse? raw = some ref := by
  rw [parse?, hcut]
  dsimp only
  rw [hafter]
  dsimp only
  rw [htype, hname, if_neg (by simp [htyped, hnamed]), hparameters, String.ofList_toList,
    String.ofList_toList]

theorem typeName_of_cutAtLast {raw : String} {ref : MethodRef} {before after : List Char}
    (hcut : cutAtLast (trimChars raw.toList) = some (before, after))
    (href : parse? raw = some ref) : ref.typeName = String.ofList (trimChars before) := by
  rw [parse?, hcut] at href
  dsimp only at href
  split at href
  · cases href
  · split at href
    · cases href
    · obtain rfl := Option.some.inj href
      rfl

theorem forall_ne_opening {name : List Char} (h : '(' ∉ name) :
    ∀ c ∈ name, decide (c ≠ '(') = true := by
  intro c hc
  simpa using fun heq : c = '(' => h (heq ▸ hc)

theorem nameAndParameters_bare {name : List Char} (h : '(' ∉ name) :
    nameAndParameters name = some (name, none) := by
  have hname := forall_ne_opening h
  rw [nameAndParameters, List.span_eq_takeWhile_dropWhile, List.takeWhile_eq_self_iff.2 hname,
    List.dropWhile_eq_nil_iff.2 hname]

theorem nameAndParameters_append {name inner : List Char} (h : '(' ∉ name) :
    nameAndParameters (name ++ '(' :: (inner ++ [')'])) =
      some (name, some (splitParameters 0 [] inner)) := by
  have hname := forall_ne_opening h
  have hspan : (name ++ '(' :: (inner ++ [')'])).span (fun c => decide (c ≠ '(')) =
      (name, '(' :: (inner ++ [')'])) := by
    rw [List.span_eq_takeWhile_dropWhile, List.takeWhile_append_of_pos hname,
      List.dropWhile_append_of_pos hname]
    simp
  rw [nameAndParameters, hspan]
  simp

end MethodRef

theorem exists_last_colons {cs : List Char} (h : HasColons cs) :
    ∃ before after, cs = before ++ ':' :: ':' :: after ∧ ¬HasColons (':' :: after) := by
  induction cs with
  | nil => exact absurd h not_hasColons_nil
  | cons c cs ih =>
    by_cases hcs : HasColons cs
    · obtain ⟨before, after, rfl, hlast⟩ := ih hcs
      exact ⟨c :: before, after, rfl, hlast⟩
    · obtain ⟨rfl, hhead⟩ := (hasColons_cons_iff.1 h).resolve_right hcs
      obtain ⟨after, rfl⟩ : ∃ after, cs = ':' :: after := by
        cases cs with
        | nil => simp at hhead
        | cons d cs => exact ⟨cs, by simpa using hhead⟩
      exact ⟨[], after, rfl, hcs⟩

/-! ## Brackets and commas -/

/-- The number of brackets that are opened. -/
def openings (cs : List Char) : Nat :=
  cs.countP fun c => decide (c = '<' ∨ c = '[' ∨ c = '(')

/-- The number of brackets that are closed. -/
def closings (cs : List Char) : Nat :=
  cs.countP fun c => decide (c = '>' ∨ c = ']' ∨ c = ')')

/-- Brackets are closed after they are opened and all in the end, and commas stand inside
brackets. -/
structure Bracketed (cs : List Char) : Prop where
  closed : ∀ start, start <+: cs → closings start ≤ openings start
  balanced : openings cs = closings cs
  commas : ∀ start, start ++ [','] <+: cs → closings start < openings start

theorem bracketed_iff {cs : List Char} :
    Bracketed cs ↔ openings cs = closings cs ∧ ∀ start ∈ cs.inits,
      closings start ≤ openings start ∧
        (start ++ [','] <+: cs → closings start < openings start) := by
  simp only [List.mem_inits]
  constructor
  · rintro ⟨hclosed, hbalanced, hcommas⟩
    exact ⟨hbalanced, fun start hstart => ⟨hclosed start hstart, hcommas start⟩⟩
  · rintro ⟨hbalanced, hstarts⟩
    refine ⟨fun start hstart => (hstarts start hstart).1, hbalanced, fun start hcomma => ?_⟩
    exact (hstarts start ((List.prefix_append start [',']).trans hcomma)).2 hcomma

instance (cs : List Char) : Decidable (Bracketed cs) :=
  decidable_of_iff _ bracketed_iff.symm

namespace MethodRef

theorem depthAfter_add (depth : Nat) (c : Char) (h : closings [c] ≤ depth + openings [c]) :
    depthAfter depth c + closings [c] = depth + openings [c] := by
  unfold depthAfter openings closings at *
  rw [List.countP_singleton, List.countP_singleton] at *
  by_cases hopen : c = '<' ∨ c = '[' ∨ c = '('
  · have hclose : ¬(c = '>' ∨ c = ']' ∨ c = ')') := by
      rcases hopen with rfl | rfl | rfl <;> decide
    simp [hopen, hclose]
  · by_cases hclose : c = '>' ∨ c = ']' ∨ c = ')'
    · simp only [hopen, hclose, decide_true, decide_false, if_true, Bool.false_eq_true,
        if_false] at h ⊢
      omega
    · simp [hopen, hclose]

/-- As long as no bracket is closed that was not opened, the depth is the number of brackets that
are open. -/
theorem foldl_depthAfter {cs : List Char}
    (h : ∀ start, start <+: cs → closings start ≤ openings start) :
    cs.foldl depthAfter 0 + closings cs = openings cs := by
  -- from the end, since the bound is one on beginnings
  induction cs using List.reverseRecOn with
  | nil => rfl
  | append_singleton cs c ih =>
    have hcs := ih fun start hstart => h start (hstart.trans (List.prefix_append cs [c]))
    have hall := h _ List.prefix_rfl
    have hopenings : openings (cs ++ [c]) = openings cs + openings [c] := List.countP_append
    have hclosings : closings (cs ++ [c]) = closings cs + closings [c] := List.countP_append
    have hstep := depthAfter_add (cs.foldl depthAfter 0) c (by omega)
    rw [List.foldl_append, List.foldl_cons, List.foldl_nil, hopenings, hclosings]
    omega

theorem splitParameters_append {cs : List Char} {depth : Nat}
    (h : ∀ start, start ++ [','] <+: cs → start.foldl depthAfter depth ≠ 0)
    (current rest : List Char) :
    splitParameters depth current (cs ++ rest) =
      splitParameters (cs.foldl depthAfter depth) (cs.reverse ++ current) rest := by
  induction cs generalizing depth current with
  | nil => rfl
  | cons c cs ih =>
    have hsplit : ¬(c = ',' ∧ depth = 0) := by
      rintro ⟨rfl, rfl⟩
      exact h [] (by simp) rfl
    have hrest : ∀ start, start ++ [','] <+: cs →
        start.foldl depthAfter (depthAfter depth c) ≠ 0 := by
      intro start hstart
      exact h (c :: start) (List.cons_prefix_cons.2 ⟨rfl, hstart⟩)
    rw [List.cons_append, splitParameters, if_neg hsplit, ih hrest]
    simp

end MethodRef

theorem Bracketed.foldl_depthAfter {cs : List Char} (h : Bracketed cs) {start : List Char}
    (hstart : start <+: cs) :
    start.foldl MethodRef.depthAfter 0 + closings start = openings start :=
  MethodRef.foldl_depthAfter fun first hfirst => h.closed first (hfirst.trans hstart)

/-- A parameter is read to its end. -/
theorem Bracketed.splitParameters_append {cs : List Char} (h : Bracketed cs)
    (current rest : List Char) :
    MethodRef.splitParameters 0 current (cs ++ rest) =
      MethodRef.splitParameters 0 (cs.reverse ++ current) rest := by
  have hend := h.foldl_depthAfter List.prefix_rfl
  have hzero : cs.foldl MethodRef.depthAfter 0 = 0 := by
    rw [h.balanced] at hend
    omega
  rw [MethodRef.splitParameters_append, hzero]
  intro start hstart
  have hopen := h.commas start hstart
  have hdepth := h.foldl_depthAfter ((List.prefix_append start [',']).trans hstart)
  omega

/-! ## Parameters -/

theorem joinWith_toList_cons (sep q r : String) (rest : List String) :
    (joinWith sep (q :: r :: rest)).toList =
      q.toList ++ sep.toList ++ (joinWith sep (r :: rest)).toList := by
  simp [joinWith]

theorem hasColons_joinWith_iff {sep : String} {gap : List Char} (hsep : sep.toList = ',' :: gap)
    (hgap : gap.all isBlank = true) (ps : List String) :
    HasColons (joinWith sep ps).toList ↔ ∃ q ∈ ps, HasColons q.toList := by
  induction ps with
  | nil => simp [joinWith, not_hasColons_nil]
  | cons q ps ih =>
    cases ps with
    | nil => simp [joinWith]
    | cons r rest =>
      rw [joinWith_toList_cons, hsep, List.append_assoc, List.cons_append,
        hasColons_append_cons_iff (by decide), hasColons_blank_append_iff hgap, ih,
        List.exists_mem_cons_iff _ q (r :: rest)]

theorem squeeze_joinWith {sep : String} {gap : List Char} (hsep : sep.toList = ',' :: gap)
    (hgap : gap.all isBlank = true) {ps : List String} (hps : ∀ q ∈ ps, squeeze q = q) :
    squeeze (joinWith sep ps) = joinWith "," ps := by
  have hnone := filter_not_isBlank_eq_nil hgap
  induction ps with
  | nil => rfl
  | cons q ps ih =>
    have hq := hps q List.mem_cons_self
    cases ps with
    | nil => exact hq
    | cons r rest =>
      have hrest := ih fun p hp => hps p (List.mem_cons_of_mem q hp)
      rw [← String.toList_inj] at hq hrest ⊢
      rw [squeeze, String.toList_ofList] at hq hrest ⊢
      rw [joinWith_toList_cons, joinWith_toList_cons, List.filter_append, List.filter_append, hq,
        hrest, hsep, List.filter_cons_of_pos (by decide), hnone]
      rfl

namespace MethodRef

theorem depthAfter_of_isBlank {c : Char} (h : isBlank c = true) (depth : Nat) :
    depthAfter depth c = depth := by
  have hne : ∀ d, isBlank d = false → c ≠ d := by
    rintro d hd rfl
    rw [h] at hd
    cases hd
  simp [depthAfter, hne _ (by decide : isBlank '<' = false), hne _ (by decide : isBlank '[' = false),
    hne _ (by decide : isBlank '(' = false), hne _ (by decide : isBlank '>' = false),
    hne _ (by decide : isBlank ']' = false), hne _ (by decide : isBlank ')' = false)]

/-- It is the same to split and then to drop the blanks of each parameter, or to drop the blanks
first: they open and close nothing, divide nothing, and a parameter of blanks only is empty. -/
theorem splitParameters_filter (depth : Nat) (current cs : List Char) :
    (splitParameters depth current cs).map (List.filter fun c => !isBlank c) =
      splitParameters depth (current.filter fun c => !isBlank c)
        (cs.filter fun c => !isBlank c) := by
  induction cs generalizing depth current with
  | nil =>
    have hall : (current.filter fun c => !isBlank c).all isBlank = current.all isBlank := by
      rw [List.all_filter]
      simp
    rw [List.filter_nil, splitParameters, splitParameters, hall]
    split <;> simp
  | cons c cs ih =>
    rw [splitParameters]
    cases hc : isBlank c with
    | true =>
      have hcomma : ¬(c = ',' ∧ depth = 0) := by
        rintro ⟨rfl, -⟩
        exact absurd hc (by decide)
      rw [if_neg hcomma, ih, depthAfter_of_isBlank hc, List.filter_cons_of_neg (by simp [hc]),
        List.filter_cons_of_neg (by simp [hc])]
    | false =>
      rw [List.filter_cons_of_pos (by simp [hc]), splitParameters]
      split
      · rw [List.map_cons, ih, List.filter_reverse, List.filter_nil]
      · rw [ih, List.filter_cons_of_pos (by simp [hc])]

end MethodRef

/-- What a parameter of a reference may be: blanks in it are not kept, and neither an empty text nor
a comma outside brackets is read back. -/
structure PlainParameter (q : String) : Prop where
  nonempty : q ≠ ""
  squeezed : squeeze q = q
  bracketed : Bracketed q.toList

theorem plainParameter_iff {q : String} :
    PlainParameter q ↔ q ≠ "" ∧ squeeze q = q ∧ Bracketed q.toList :=
  ⟨fun h => ⟨h.nonempty, h.squeezed, h.bracketed⟩, fun h => ⟨h.1, h.2.1, h.2.2⟩⟩

instance (q : String) : Decidable (PlainParameter q) :=
  decidable_of_iff _ plainParameter_iff.symm

theorem PlainParameter.not_all_isBlank {q : String} (h : PlainParameter q) :
    ¬q.toList.all isBlank = true := by
  intro hall
  exact h.nonempty (h.squeezed.symm.trans (by rw [squeeze, filter_not_isBlank_eq_nil hall]))

theorem splitParameters_joinWith {ps : List String} (hps : ∀ q ∈ ps, PlainParameter q) :
    MethodRef.splitParameters 0 [] (joinWith "," ps).toList = ps.map String.toList := by
  induction ps with
  | nil => rfl
  | cons q ps ih =>
    have hq := hps q List.mem_cons_self
    cases ps with
    | nil =>
      have hread := hq.bracketed.splitParameters_append [] []
      rw [List.append_nil, List.append_nil] at hread
      rw [joinWith, hread, MethodRef.splitParameters, List.all_reverse, if_neg hq.not_all_isBlank]
      simp
    | cons r rest =>
      have hrest := ih fun p hp => hps p (List.mem_cons_of_mem q hp)
      rw [joinWith_toList_cons, List.append_assoc, hq.bracketed.splitParameters_append,
        show ",".toList = [','] from rfl, List.singleton_append, MethodRef.splitParameters,
        if_pos ⟨rfl, rfl⟩, hrest]
      simp

/-- What is written between the parentheses is read as the parameters, however it is spaced. -/
theorem splitParameters_spaced {inner : String} {ps : List String}
    (hps : ∀ q ∈ ps, PlainParameter q) (h : squeeze inner = joinWith "," ps) :
    (MethodRef.splitParameters 0 [] inner.toList).map (fun q => squeeze (String.ofList q)) = ps := by
  have hsqueezed : inner.toList.filter (fun c => !isBlank c) = (joinWith "," ps).toList := by
    rw [← h, squeeze, String.toList_ofList]
  have hread := MethodRef.splitParameters_filter 0 [] inner.toList
  rw [hsqueezed, List.filter_nil, splitParameters_joinWith hps] at hread
  calc (MethodRef.splitParameters 0 [] inner.toList).map (fun q => squeeze (String.ofList q))
      = ((MethodRef.splitParameters 0 [] inner.toList).map
          (List.filter fun c => !isBlank c)).map String.ofList := by
        simp [squeeze, Function.comp_def]
    _ = ps := by simp [hread, Function.comp_def]

end TestReach
