/-!
# Blank characters

The blank characters are those of the Unicode property `White_Space`. Names are compared after
`trim`, parameters after `squeeze`, so that spacing never tells two names apart.
-/

namespace TestReach.Text

/-- A character of the Unicode property `White_Space`. -/
def isBlank (c : Char) : Bool :=
  let n := c.toNat
  (0x9 ≤ n && n ≤ 0xD) || n == 0x20 || n == 0x85 || n == 0xA0 || n == 0x1680 ||
    (0x2000 ≤ n && n ≤ 0x200A) || n == 0x2028 || n == 0x2029 || n == 0x202F || n == 0x205F ||
    n == 0x3000

/-- A sequence of characters without the blanks at its two ends. -/
def trimChars (cs : List Char) : List Char :=
  ((cs.dropWhile isBlank).reverse.dropWhile isBlank).reverse

/-- A text without the blanks at its two ends. -/
def trim (s : String) : String :=
  String.ofList (trimChars s.toList)

/-- A text without any of its blanks. -/
def squeeze (s : String) : String :=
  String.ofList (s.toList.filter (fun c => !isBlank c))

/-- Nothing but blanks, or nothing at all. -/
def isBlankText (s : String) : Bool :=
  s.toList.all isBlank

/-! ## The two ends -/

theorem trimChars_of_all {cs : List Char} (h : cs.all isBlank = true) : trimChars cs = [] := by
  have hd : cs.dropWhile isBlank = [] := by
    induction cs with
    | nil => rfl
    | cons c cs ih =>
      simp only [List.all_cons, Bool.and_eq_true] at h
      simp [h.1, ih h.2]
  simp [trimChars, hd]

theorem all_of_dropWhile_eq_nil {cs : List Char} (h : cs.dropWhile isBlank = []) :
    cs.all isBlank = true := by
  rw [← List.takeWhile_append_dropWhile (p := isBlank) (l := cs), h, List.append_nil,
    List.all_takeWhile]

theorem trimChars_eq_nil_iff {cs : List Char} : trimChars cs = [] ↔ cs.all isBlank = true := by
  refine ⟨fun h => ?_, trimChars_of_all⟩
  rw [trimChars, List.reverse_eq_nil_iff] at h
  have hrest : (cs.dropWhile isBlank).all isBlank = true := by
    rw [← List.all_reverse]
    exact all_of_dropWhile_eq_nil h
  rw [← List.takeWhile_append_dropWhile (p := isBlank) (l := cs), List.all_append,
    List.all_takeWhile, hrest, Bool.true_and]

theorem isBlankText_iff {s : String} : isBlankText s = true ↔ trim s = "" := by
  rw [isBlankText, ← trimChars_eq_nil_iff, trim, String.ofList_eq_empty_iff]

end TestReach.Text
