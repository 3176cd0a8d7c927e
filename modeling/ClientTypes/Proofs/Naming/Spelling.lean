import ClientTypes.Naming.Spelling
import ClientTypes.Proofs.Naming.Identifier
import ClientTypes.Proofs.Naming.Words
import ClientTypes.Proofs.Text.Piece

/-! Type names. A type name begins with a capital, goes on with ASCII letters and
digits, and is not a reserved word in small letters; spelling it again gives it back. -/
namespace ClientTypes.Naming

open Text

/-- The text has ASCII letters and digits only. -/
def IsPlain (s : String) : Prop := ∀ c ∈ s.toList, isWordChar c = true

instance (s : String) : Decidable (IsPlain s) :=
  List.decidableBAll _ s.toList

theorem IsPlain.append {s t : String} (h : IsPlain s) (h' : IsPlain t) : IsPlain (s ++ t) :=
  AllChars.append h h'

theorem isPlain_join {parts : List String} (h : ∀ part ∈ parts, IsPlain part) :
    IsPlain (String.join parts) := by
  intro c hc
  obtain ⟨part, hPart, hIn⟩ : ∃ part ∈ parts, c ∈ part.toList := by
    simpa [String.toList_join] using hc
  exact h part hPart c hIn

/-- The shape of a type name. -/
structure IsTypeName (s : String) : Prop where
  head : ∃ c rest, s.toList = c :: rest ∧ c.isUpper = true
  plain : IsPlain s
  free : isReserved (String.ofList (s.toList.map Char.toLower)) = false

theorem isUpper_not_isDigit {c : Char} (h : c.isUpper = true) : c.isDigit = false := by
  rw [← Bool.not_eq_true]
  intro hDigit
  have := isUpper_iff.mp h
  have := isDigit_iff.mp hDigit
  omega

theorem IsTypeName.isIdentifier {s : String} (h : IsTypeName s) : IsIdentifier s.toList := by
  obtain ⟨c, rest, hSplit, hUpper⟩ := h.head
  have hLetter : c.isAlpha = true := Bool.or_eq_true_iff.mpr (Or.inl hUpper)
  refine ⟨c, rest, hSplit, by simp [startsIdentifier, hLetter], fun d hd => ?_⟩
  have hWord : d.isAlphanum = true := h.plain d (by simp [hSplit, hd])
  simp [continuesIdentifier, hWord]

/-- A type name is in camel case. -/
theorem IsTypeName.camelChars_eq {s : String} (h : IsTypeName s) : camelChars s.toList = s.toList := by
  obtain ⟨c, rest, hSplit, hUpper⟩ := h.head
  rw [camelChars_of_all h.plain, hSplit]
  exact capitalized_of_head (Or.inl hUpper)

theorem IsTypeName.camelize_eq {s : String} (h : IsTypeName s) : camelize s = s := by
  rw [camelize, h.camelChars_eq, String.ofList_toList]

/-- A type name is spelled as itself. -/
theorem IsTypeName.typeName_eq {s : String} (h : IsTypeName s) : typeName s = s := by
  obtain ⟨c, rest, hSplit, hUpper⟩ := h.head
  have hDigit : startsWithDigit s.toList = false := by
    simp [startsWithDigit, hSplit, isUpper_not_isDigit hUpper]
  unfold typeName
  dsimp only
  rw [h.camelChars_eq, hDigit, h.free, if_neg (by simp [hSplit])]
  simp

/-- No reserved word begins like this. -/
theorem isReserved_of_front {front : List Char} (rest : List Char)
    (h : reservedWords.all (fun w => !(after? front w.toList).isSome) = true) :
    isReserved (String.ofList (front ++ rest)) = false := by
  rw [isReserved, ← Bool.not_eq_true, List.contains_iff_mem]
  intro hMem
  have hFront := List.all_eq_true.mp h _ hMem
  rw [String.toList_ofList, after?_eq_some_iff.mpr rfl] at hFront
  cases hFront

/-- What begins as no reserved word does, and with a capital, is a type name. -/
theorem isTypeName_of_front {front back : String}
    (hHead : ∃ c more, front.toList = c :: more ∧ c.isUpper = true)
    (hFree : reservedWords.all
      (fun w => !(after? (front.toList.map Char.toLower) w.toList).isSome) = true)
    (hFront : IsPlain front) (hBack : IsPlain back) : IsTypeName (front ++ back) := by
  obtain ⟨c, more, hSplit, hUpper⟩ := hHead
  refine ⟨⟨c, more ++ back.toList, ?_, hUpper⟩, hFront.append hBack, ?_⟩
  · rw [String.toList_append, hSplit]
    rfl
  · rw [String.toList_append, List.map_append]
    exact isReserved_of_front _ hFree

theorem isTypeName_typeName (name : String) : IsTypeName (typeName name) := by
  have hChars : ∀ c ∈ camelChars name.toList, isWordChar c = true :=
    fun c hc => isWordChar_of_mem_camelChars hc
  unfold typeName
  dsimp only
  split_ifs with hEmpty hSpelled
  · exact ⟨⟨'O', "bject".toList, rfl, rfl⟩, by decide, by decide⟩
  · refine isTypeName_of_front ⟨'M', "odel".toList, rfl, rfl⟩ (by decide) (by decide) ?_
    intro c hc
    exact hChars c (by simpa using hc)
  · obtain ⟨hDigit, hFree⟩ : startsWithDigit (camelChars name.toList) = false ∧
        isReserved (String.ofList ((camelChars name.toList).map Char.toLower)) = false := by
      simpa using hSpelled
    cases hSplit : camelChars name.toList with
    | nil => exact absurd hSplit hEmpty
    | cons c rest =>
        rw [hSplit] at hDigit hFree hChars
        have hUpper : c.isUpper = true := by
          rcases camelChars_head hSplit with hUpper | hDigits
          · exact hUpper
          · simp [startsWithDigit, hDigits] at hDigit
        refine ⟨⟨c, rest, by simp, hUpper⟩, fun d hd => hChars d ?_, by simpa using hFree⟩
        rwa [String.toList_ofList] at hd

theorem typeName_typeName (name : String) : typeName (typeName name) = typeName name :=
  (isTypeName_typeName name).typeName_eq

/-- A reserved word that is capitalised is no type name. -/
theorem not_isTypeName_override : ¬ IsTypeName "Override" := by
  intro h
  exact absurd h.free (by decide)

end ClientTypes.Naming
