import ClientTypes.Text.Piece
import Mathlib.Data.List.Nodup

/-! Laws of cutting the front and the back off a text, of cutting a text into pieces and replacing parts
of it, and of the characters in its parts. -/
namespace ClientTypes.Text

theorem after?_eq_some_iff {front s rest : List Char} :
    after? front s = some rest ↔ s = front ++ rest := by
  induction front generalizing s with
  | nil => simp [after?, eq_comm]
  | cons f front ih =>
      cases s with
      | nil => simp [after?]
      | cons c s =>
          by_cases h : f = c
          · simp [after?, h, ih]
          · simp [after?, h, Ne.symm h]

theorem dropFront?_eq_some_iff {front s rest : String} :
    dropFront? front s = some rest ↔ s.toList = front.toList ++ rest.toList := by
  simp only [dropFront?, Option.map_eq_some_iff, after?_eq_some_iff]
  constructor
  · rintro ⟨cs, hSplit, rfl⟩
    simpa using hSplit
  · intro hSplit
    exact ⟨rest.toList, hSplit, String.ofList_toList⟩

theorem dropBack?_eq_some_iff {back s front : String} :
    dropBack? back s = some front ↔ s = front ++ back := by
  simp only [dropBack?, Option.map_eq_some_iff, after?_eq_some_iff]
  constructor
  · rintro ⟨cs, hSplit, rfl⟩
    have hChars : s.toList = cs.reverse ++ back.toList := by simpa using congrArg List.reverse hSplit
    exact String.ext (by simpa using hChars)
  · rintro rfl
    exact ⟨front.toList.reverse, by simp, by simp⟩

theorem startsWith_iff {front s : String} :
    startsWith front s = true ↔ ∃ rest, s.toList = front.toList ++ rest := by
  simp [startsWith, Option.isSome_iff_exists, after?_eq_some_iff]

/-! ### Pieces and replacements -/

theorem pieces_eq_splitOn (separator : Char) (s : List Char) :
    pieces separator s = s.splitOn separator := by
  induction s with
  | nil => rfl
  | cons c rest ih =>
      obtain ⟨piece, more, hRest⟩ := List.exists_cons_of_ne_nil (List.splitOn_ne_nil separator rest)
      rw [List.splitOn, List.splitOnP_cons_eq_if_modifyHead, ← List.splitOn, pieces, ih, hRest]
      by_cases hCut : c = separator <;> simp [hCut]

/-- Pieces that do not contain the separator are found again in the text that joins them. -/
theorem pieces_intercalate {separator : Char} {parts : List (List Char)}
    (hParts : ∀ part ∈ parts, separator ∉ part) (hSome : parts ≠ []) :
    pieces separator ([separator].intercalate parts) = parts := by
  rw [pieces_eq_splitOn, List.splitOn_intercalate separator hParts hSome]

/-- A single character is replaced wherever it stands. -/
theorem replaceFrom_singleton (old : Char) (new s : List Char) :
    replaceFrom [old] new 0 s = s.flatMap fun c => if c = old then new else [c] := by
  induction s with
  | nil => rfl
  | cons c rest ih =>
      rw [List.flatMap_cons, ← ih]
      by_cases h : c = old
      · simp [replaceFrom, after?, h]
      · simp [replaceFrom, after?, h, Ne.symm h]

/-! ### Characters of a class -/

/-- Every character of a text is of a class. -/
def AllChars (ok : Char → Prop) (s : String) : Prop := ∀ c ∈ s.toList, ok c

variable {ok : Char → Prop}

theorem AllChars.append {s t : String} (h : AllChars ok s) (h' : AllChars ok t) :
    AllChars ok (s ++ t) := by
  intro c hc
  rw [String.toList_append, List.mem_append] at hc
  exact hc.elim (h c) (h' c)

/-- The back of a text has no other characters. -/
theorem AllChars.back {s back : String} {front : List Char} (h : AllChars ok s)
    (hSplit : s.toList = front ++ back.toList) : AllChars ok back :=
  fun c hc => h c (by simp [hSplit, hc])

end ClientTypes.Text
