import ClientTypes.Naming.Words

/-! Words and camel case. Camel case keeps ASCII letters and digits only, raises
the first letter, and changes nothing when it is applied again. -/
namespace ClientTypes.Naming

open Text

/-! ### Letters and digits as ranges -/

theorem isLower_iff_val {c : Char} : c.isLower = true ↔ 'a'.val ≤ c.val ∧ c.val ≤ 'z'.val := by
  change (decide ('a'.val ≤ c.val) && decide (c.val ≤ 'z'.val)) = true ↔ _
  rw [Bool.and_eq_true, decide_eq_true_eq, decide_eq_true_eq]

theorem isUpper_iff_val {c : Char} : c.isUpper = true ↔ 'A'.val ≤ c.val ∧ c.val ≤ 'Z'.val := by
  change decide ('A'.val ≤ c.val ∧ c.val ≤ 'Z'.val) = true ↔ _
  rw [decide_eq_true_eq]

theorem isLower_iff {c : Char} : c.isLower = true ↔ 97 ≤ c.toNat ∧ c.toNat ≤ 122 := by
  rw [isLower_iff_val, UInt32.le_iff_toNat_le, UInt32.le_iff_toNat_le]
  rfl

theorem isUpper_iff {c : Char} : c.isUpper = true ↔ 65 ≤ c.toNat ∧ c.toNat ≤ 90 := by
  rw [isUpper_iff_val, UInt32.le_iff_toNat_le, UInt32.le_iff_toNat_le]
  rfl

theorem isDigit_iff {c : Char} : c.isDigit = true ↔ 48 ≤ c.toNat ∧ c.toNat ≤ 57 := by
  simp [Char.isDigit, UInt32.le_iff_toNat_le, ← Char.toNat_val]

theorem isWordChar_iff {c : Char} :
    isWordChar c = true ↔ c.isUpper = true ∨ c.isLower = true ∨ c.isDigit = true := by
  change ((c.isUpper || c.isLower) || c.isDigit) = true ↔ _
  rw [Bool.or_eq_true, Bool.or_eq_true, or_assoc]

theorem toUpper_of_not_isLower {c : Char} (h : c.isLower ≠ true) : c.toUpper = c := by
  rw [ne_eq, isLower_iff_val] at h
  exact dif_neg h

theorem toNat_toUpper {c : Char} (h : c.isLower = true) : c.toUpper.toNat = c.toNat - 32 := by
  have hRange := isLower_iff.mp h
  have hRaised : c.toUpper.val = c.val + ('A'.val - 'a'.val) := by
    delta Char.toUpper
    rw [dif_pos (isLower_iff_val.mp h)]
  change c.toUpper.val.toNat = _
  rw [hRaised, UInt32.toNat_add]
  change (c.toNat + 4294967264) % 4294967296 = c.toNat - 32
  omega

/-- A raised character of a word is a capital or a digit. -/
theorem toUpper_cases {c : Char} (h : isWordChar c = true) :
    c.toUpper.isUpper = true ∨ c.toUpper.isDigit = true := by
  by_cases hLower : c.isLower = true
  · have hRange := isLower_iff.mp hLower
    have hUpper := toNat_toUpper hLower
    exact Or.inl (isUpper_iff.mpr (by omega))
  · rw [toUpper_of_not_isLower hLower]
    rcases isWordChar_iff.mp h with hCapital | hSmall | hDigit
    · exact Or.inl hCapital
    · exact absurd hSmall hLower
    · exact Or.inr hDigit

theorem isWordChar_toUpper {c : Char} (h : isWordChar c = true) : isWordChar c.toUpper = true := by
  rw [isWordChar_iff]
  rcases toUpper_cases h with hUpper | hDigit
  · exact Or.inl hUpper
  · exact Or.inr (Or.inr hDigit)

/-! ### Words -/

theorem mem_wordsFrom {word cs : List Char} (hWord : ∀ c ∈ word, isWordChar c = true)
    {w : List Char} (h : w ∈ wordsFrom word cs) : w ≠ [] ∧ ∀ c ∈ w, isWordChar c = true := by
  fun_induction wordsFrom word cs with
  | case1 => cases h
  | case2 word hNonempty =>
      cases List.mem_singleton.mp h
      exact ⟨by simpa using hNonempty, by simpa using hWord⟩
  | case3 word c rest hc ih =>
      apply ih _ h
      intro d hd
      rcases List.mem_cons.mp hd with rfl | hTail
      · exact hc
      · exact hWord d hTail
  | case4 c rest hc ih => exact ih (by simp) h
  | case5 word c rest hc hNonempty ih =>
      rcases List.mem_cons.mp h with rfl | hRest
      · exact ⟨by simpa using hNonempty, by simpa using hWord⟩
      · exact ih (by simp) hRest

/-- A text of letters and digits is one word. -/
theorem wordsFrom_of_all {word cs : List Char} (h : ∀ c ∈ cs, isWordChar c = true) :
    wordsFrom word cs = if word.reverse ++ cs = [] then [] else [word.reverse ++ cs] := by
  induction cs generalizing word with
  | nil => simp [wordsFrom]
  | cons c rest ih =>
      have hRest : ∀ d ∈ rest, isWordChar d = true := fun d hd => h d (List.mem_cons_of_mem _ hd)
      rw [wordsFrom, if_pos (h c (List.mem_cons_self ..)), ih hRest]
      simp

theorem mem_capitalized {w : List Char} (hWord : ∀ c ∈ w, isWordChar c = true) :
    ∀ c ∈ capitalized w, isWordChar c = true := by
  cases w with
  | nil => simp [capitalized]
  | cons c rest =>
      intro d hd
      rcases List.mem_cons.mp hd with rfl | hTail
      · exact isWordChar_toUpper (hWord c (List.mem_cons_self ..))
      · exact hWord d (List.mem_cons_of_mem _ hTail)

/-- Camel case has letters and digits only. -/
theorem isWordChar_of_mem_camelChars {cs : List Char} {c : Char} (h : c ∈ camelChars cs) :
    isWordChar c = true := by
  obtain ⟨w, hw, hc⟩ := List.mem_flatMap.mp h
  exact mem_capitalized (mem_wordsFrom (by simp) hw).2 c hc

/-- Camel case begins with a capital or a digit. -/
theorem camelChars_head {cs rest : List Char} {c : Char} (h : camelChars cs = c :: rest) :
    c.isUpper = true ∨ c.isDigit = true := by
  unfold camelChars at h
  cases hWords : words cs with
  | nil => simp [hWords] at h
  | cons w more =>
      have hw := mem_wordsFrom (by simp) (hWords ▸ List.mem_cons_self : w ∈ words cs)
      cases w with
      | nil => exact absurd rfl hw.1
      | cons d tail =>
          rw [hWords, List.flatMap_cons, capitalized, List.cons_append] at h
          cases h
          exact toUpper_cases (hw.2 d (List.mem_cons_self ..))

/-- A text of letters and digits in camel case has its first letter raised. -/
theorem camelChars_of_all {cs : List Char} (h : ∀ c ∈ cs, isWordChar c = true) :
    camelChars cs = capitalized cs := by
  unfold camelChars words
  rw [wordsFrom_of_all h]
  cases cs with
  | nil => rfl
  | cons c rest => simp

theorem capitalized_of_head {c : Char} {rest : List Char} (h : c.isUpper = true ∨ c.isDigit = true) :
    capitalized (c :: rest) = c :: rest := by
  have hNotLower : c.isLower ≠ true := by
    intro hLower
    have hRange := isLower_iff.mp hLower
    rcases h with hUpper | hDigit
    · have := isUpper_iff.mp hUpper
      omega
    · have := isDigit_iff.mp hDigit
      omega
  rw [capitalized, toUpper_of_not_isLower hNotLower]

theorem camelChars_camelChars (cs : List Char) : camelChars (camelChars cs) = camelChars cs := by
  rw [camelChars_of_all fun c hc => isWordChar_of_mem_camelChars hc]
  cases hChars : camelChars cs with
  | nil => rfl
  | cons c rest => exact capitalized_of_head (camelChars_head hChars)

end ClientTypes.Naming
