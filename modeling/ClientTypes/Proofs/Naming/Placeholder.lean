import ClientTypes.Naming.Placeholder
import ClientTypes.Proofs.Hints
import ClientTypes.Proofs.Naming.Spelling
import Mathlib.Data.List.TakeWhile

/-! Numbered names in camel case. The separators of a numbered name are lost in camel case, so what is left
of it is its front and its digits; a path behind it goes on right after the digits. When the path begins with
digits itself, they cannot be told from those of the number. -/
namespace ClientTypes.Naming

open Text

/-! ### Camel case across a separator -/

theorem wordsFrom_append_separator {separator : Char} (h : isWordChar separator = false)
    (word cs ds : List Char) :
    wordsFrom word (cs ++ separator :: ds) = wordsFrom word cs ++ wordsFrom [] ds := by
  induction cs generalizing word with
  | nil => by_cases hWord : word = [] <;> simp [wordsFrom, h, hWord]
  | cons c rest ih =>
      simp only [List.cons_append, wordsFrom, ih]
      split_ifs <;> simp

theorem camelChars_append_separator {separator : Char} (h : isWordChar separator = false)
    (cs ds : List Char) : camelChars (cs ++ separator :: ds) = camelChars cs ++ camelChars ds := by
  rw [camelChars, words, wordsFrom_append_separator h, List.flatMap_append]
  rfl

/-! ### Digits -/

/-- All characters are digits `0` to `9`. -/
def AreDigits (cs : List Char) : Prop := ∀ c ∈ cs, c.isDigit = true

/-- The text does not begin with a digit `0` to `9`. -/
def NoDigitAhead (cs : List Char) : Prop := ∀ c rest, cs = c :: rest → c.isDigit = false

/-- Where digits end is known from the text. -/
theorem digits_append_inj {ds es cs rest : List Char} (hds : AreDigits ds) (hes : AreDigits es)
    (hcs : NoDigitAhead cs) (hrest : NoDigitAhead rest) (hSame : ds ++ cs = es ++ rest) :
    ds = es ∧ cs = rest := by
  induction ds generalizing es with
  | nil =>
      cases es with
      | nil => exact ⟨rfl, hSame⟩
      | cons e more =>
          have hDigit := hes e (List.mem_cons_self ..)
          rw [hcs e (more ++ rest) hSame] at hDigit
          cases hDigit
  | cons d more ih =>
      cases es with
      | nil =>
          have hDigit := hds d (List.mem_cons_self ..)
          rw [hrest d (more ++ cs) hSame.symm] at hDigit
          cases hDigit
      | cons e others =>
          obtain ⟨rfl, hTail⟩ := List.cons.inj hSame
          obtain ⟨rfl, hBack⟩ := ih (fun c hc => hds c (List.mem_cons_of_mem _ hc))
            (fun c hc => hes c (List.mem_cons_of_mem _ hc)) hTail
          exact ⟨rfl, hBack⟩

theorem digitZeros_above_letters : ∀ first ∈ digitZeros, first = 48 ∨ 123 ≤ first := by decide +kernel

/-- Among letters and digits of ASCII, the digits of any script are `0` to `9`. -/
theorem isDigit_of_isDigitOfScript {c : Char} (h : isDigitOfScript c = true) (hWord : isWordChar c = true) :
    c.isDigit = true := by
  obtain ⟨first, hFound⟩ : ∃ first, digitZeros.find?
      (fun first => first ≤ c.toNat && c.toNat < first + 10) = some first := by
    simpa [isDigitOfScript, digitValue?, Option.isSome_iff_exists] using h
  have hRange : first ≤ c.toNat ∧ c.toNat < first + 10 := by simpa using List.find?_some hFound
  rcases digitZeros_above_letters first (List.mem_of_find?_eq_some hFound) with rfl | hAbove
  · exact isDigit_iff.mpr ⟨hRange.1, by omega⟩
  · rcases isWordChar_iff.mp hWord with hUpper | hLower | hDigit
    · have := isUpper_iff.mp hUpper
      omega
    · have := isLower_iff.mp hLower
      omega
    · exact hDigit

/-- If the only letters and digits of a text are digits, so are those of its words. -/
theorem areDigits_wordsFrom {word cs : List Char} (hWord : AreDigits word)
    (h : ∀ c ∈ cs, isWordChar c = true → c.isDigit = true) : ∀ w ∈ wordsFrom word cs, AreDigits w := by
  fun_induction wordsFrom word cs with
  | case1 => simp
  | case2 word hSome => simpa [AreDigits] using hWord
  | case3 word c rest hc ih =>
      refine ih ?_ fun d hd => h d (List.mem_cons_of_mem _ hd)
      exact List.forall_mem_cons.mpr ⟨h c (List.mem_cons_self ..) hc, hWord⟩
  | case4 c rest hc ih => exact ih (by simp [AreDigits]) fun d hd => h d (List.mem_cons_of_mem _ hd)
  | case5 word c rest hc hSome ih =>
      refine List.forall_mem_cons.mpr ⟨by simpa [AreDigits] using hWord, ?_⟩
      exact ih (by simp [AreDigits]) fun d hd => h d (List.mem_cons_of_mem _ hd)

theorem areDigits_camelChars {cs : List Char} (h : ∀ c ∈ cs, isWordChar c = true → c.isDigit = true) :
    AreDigits (camelChars cs) := by
  intro c hc
  obtain ⟨w, hw, hIn⟩ := List.mem_flatMap.mp hc
  have hDigits := areDigits_wordsFrom (by simp [AreDigits]) h w hw
  cases w with
  | nil => cases hIn
  | cons d rest =>
      have hHead := hDigits d (List.mem_cons_self ..)
      rw [capitalized_of_head (Or.inr hHead)] at hIn
      exact hDigits c hIn

/-! ### Numbered names -/

/-- The characters of a number: digits of any script, and what may separate or end it. -/
def IsNumberChar (c : Char) : Prop := isDigitOfScript c = true ∨ c = '_' ∨ c = '\n'

theorem isDigit_of_isNumberChar {c : Char} (h : IsNumberChar c) (hWord : isWordChar c = true) :
    c.isDigit = true := by
  rcases h with hDigit | rfl | rfl
  · exact isDigit_of_isDigitOfScript hDigit hWord
  · cases hWord
  · cases hWord

theorem numberChars_of_afterNumber? {s rest : List Char} (h : afterNumber? s = some rest)
    (hRest : ∀ c ∈ rest, IsNumberChar c) : ∀ c ∈ s, IsNumberChar c := by
  unfold afterNumber? at h
  cases s with
  | nil => cases h
  | cons d more =>
      dsimp only at h
      split at h
      next hDigit =>
        cases h
        refine List.forall_mem_cons.mpr ⟨Or.inl hDigit, fun c hc => ?_⟩
        rw [← List.takeWhile_append_dropWhile (p := isDigitOfScript) (l := more), List.mem_append] at hc
        exact hc.elim (fun hTaken => Or.inl (List.mem_takeWhile_imp hTaken)) (hRest c)
      next => cases h

theorem numberChars_of_isEnd {s : List Char} (h : isEnd s = true) : ∀ c ∈ s, IsNumberChar c := by
  rcases Bool.or_eq_true_iff.mp h with hNone | hBreak
  · simp [beq_iff_eq.mp hNone]
  · simp [beq_iff_eq.mp hBreak, IsNumberChar]

theorem numberChars_of_isNumber {s : List Char} (h : isNumber s = true) : ∀ c ∈ s, IsNumberChar c := by
  obtain ⟨rest, hRest, hEnd⟩ := (Option.any_eq_true ..).mp h
  exact numberChars_of_afterNumber? hRest (numberChars_of_isEnd hEnd)

end ClientTypes.Naming

namespace ClientTypes.Hints

open Naming Text

/-- What a placeholder is made of: its front, and a number. -/
theorem IsPlaceholder.split {name : String} (h : IsPlaceholder name) :
    ∃ front ∈ numberedFronts, ∃ digits, AreDigits digits ∧
      camelChars name.toList = front.toList ++ digits := by
  rcases h with hBody | hResponse
  · obtain ⟨rest, hRest, hNumber⟩ := (Option.any_eq_true ..).mp hBody
    refine ⟨"Body", by simp [numberedFronts], camelChars rest, ?_, ?_⟩
    · exact areDigits_camelChars fun c hc => isDigit_of_isNumberChar (numberChars_of_isNumber hNumber c hc)
    · rw [after?_eq_some_iff.mp hRest]
      exact camelChars_body rest
  · obtain ⟨back, hBack, hEnd⟩ := (Option.any_eq_true ..).mp hResponse
    obtain ⟨rest, hRest, hCode⟩ := Option.bind_eq_some_iff.mp hBack
    have hChars : ∀ c ∈ back, IsNumberChar c := by
      rcases Bool.or_eq_true_iff.mp hEnd with hEnd | hMore
      · exact numberChars_of_isEnd hEnd
      · split at hMore
        next more => exact List.forall_mem_cons.mpr ⟨Or.inr (Or.inl rfl), numberChars_of_isNumber hMore⟩
        next => cases hMore
    refine ⟨"InlineResponse", by simp [numberedFronts], camelChars rest, ?_, ?_⟩
    · exact areDigits_camelChars fun c hc =>
        isDigit_of_isNumberChar (numberChars_of_afterNumber? hCode hChars c hc)
    · rw [after?_eq_some_iff.mp hRest]
      exact camelChars_response rest

end ClientTypes.Hints
