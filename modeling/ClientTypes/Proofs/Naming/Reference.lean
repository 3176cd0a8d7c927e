import ClientTypes.Naming.Reference
import ClientTypes.Proofs.Naming.Spelling

/-! The type that a whole reference spells, against the type of the schema it names. A separator
between the parts of a reference never stands inside a word, so camel case joins the parts; a path
with a letter or a digit in it shows in the type name. -/
namespace ClientTypes.Naming

open Text

/-! ### Words of a text in pieces -/

theorem pieces_ne_nil (separator : Char) (cs : List Char) : pieces separator cs ≠ [] := by
  cases cs with
  | nil => simp [pieces]
  | cons c rest =>
      unfold pieces
      split
      · simp
      · split <;> simp

/-- A word ends where a piece ends. -/
theorem wordsFrom_of_pieces {separator : Char} (hSeparator : isWordChar separator = false)
    {cs piece : List Char} {more : List (List Char)} (hPieces : pieces separator cs = piece :: more)
    (word : List Char) : wordsFrom word cs = wordsFrom word piece ++ more.flatMap words := by
  induction cs generalizing word piece more with
  | nil =>
      cases hPieces
      simp
  | cons c rest ih =>
      obtain ⟨first, others, hRest⟩ := List.exists_cons_of_ne_nil (pieces_ne_nil separator rest)
      by_cases hCut : c = separator
      · subst hCut
        have hBehind : wordsFrom [] rest = (first :: others).flatMap words := by
          rw [ih hRest [], List.flatMap_cons, words]
        have hHere : pieces c (c :: rest) = [] :: first :: others := by simp [pieces, hRest]
        obtain ⟨rfl, rfl⟩ := List.cons.inj (hHere.symm.trans hPieces)
        simp only [wordsFrom, hSeparator, Bool.false_eq_true, if_false, hBehind]
        split <;> simp
      · have hHere : pieces separator (c :: rest) = (c :: first) :: others := by
          simp [pieces, hRest, hCut]
        obtain ⟨rfl, rfl⟩ := List.cons.inj (hHere.symm.trans hPieces)
        simp only [wordsFrom, ih hRest]
        split_ifs <;> simp

theorem camelChars_of_pieces {separator : Char} (hSeparator : isWordChar separator = false)
    (cs : List Char) : camelChars cs = (pieces separator cs).flatMap camelChars := by
  obtain ⟨piece, more, hPieces⟩ := List.exists_cons_of_ne_nil (pieces_ne_nil separator cs)
  rw [hPieces, camelChars, words, wordsFrom_of_pieces hSeparator hPieces, List.flatMap_append,
    List.flatMap_cons, List.flatMap_assoc]
  rfl

/-! ### Spelling a type -/

/-- A name in camel case is put behind `Model` to make a type name. -/
def NeedsFront (model : List Char) : Prop :=
  startsWithDigit model = true ∨ isReserved (String.ofList (model.map Char.toLower)) = true

instance (model : List Char) : Decidable (NeedsFront model) := instDecidableOr

/-- The type name that a name in camel case makes. -/
def spelling (model : List Char) : List Char :=
  if model = [] then "Object".toList
  else if NeedsFront model then "Model".toList ++ model
  else model

theorem toList_typeName (name : String) :
    (typeName name).toList = spelling (camelChars name.toList) := by
  simp only [typeName, spelling, NeedsFront, Bool.or_eq_true]
  split_ifs <;> simp_all

/-- The text could be camel case: it begins with a capital or a digit. -/
def BeginsWord (cs : List Char) : Prop :=
  ∀ c rest, cs = c :: rest → c.isUpper = true ∨ c.isDigit = true

/-- What a reserved word is the front of, when it is also put behind `Model`: no text in camel case
makes up for the difference. -/
theorem not_reserved_of_append {front back : List Char} (hBack : BeginsWord back)
    (hSame : front ++ back = "Model".toList ++ front) :
    isReserved (String.ofList (front.map Char.toLower)) = false := by
  rw [isReserved, ← Bool.not_eq_true, List.contains_iff_mem]
  intro hMem
  have hWords : ∀ w ∈ reservedWords,
      after? w.toList ("model".toList ++ w.toList) = none ∨ w = "mod" := by decide +kernel
  have hLower := congrArg (List.map Char.toLower) hSame
  rcases hWords _ hMem with hNone | hMod
  · rw [String.toList_ofList, ← Option.not_isSome_iff_eq_none] at hNone
    refine hNone (Option.isSome_iff_exists.mpr ⟨back.map Char.toLower, after?_eq_some_iff.mpr ?_⟩)
    rw [← List.map_append, hSame, List.map_append]
    rfl
  · have hLength : front.length = 3 := by
      have hChars := congrArg String.toList hMod
      rw [String.toList_ofList] at hChars
      simpa using congrArg List.length hChars
    obtain ⟨a, b, c, rfl⟩ := List.length_eq_three.mp hLength
    have hTail := congrArg (List.drop 3) hSame
    rcases hBack 'e' _ hTail with hUpper | hDigit
    · cases hUpper
    · cases hDigit

/-- More words behind a name change its type name, unless there was no word and the further ones are
`Object`. -/
theorem spelling_append_eq_iff {front back : List Char} (hBack : BeginsWord back) :
    spelling (front ++ back) = spelling front ↔
      back = [] ∨ front = [] ∧ back = "Object".toList := by
  constructor
  · intro hSame
    by_cases hNone : back = []
    · exact Or.inl hNone
    · refine Or.inr ?_
      by_cases hFront : front = []
      · subst hFront
        refine ⟨rfl, ?_⟩
        rw [List.nil_append, spelling, if_neg hNone] at hSame
        split at hSame
        · cases hSame
        · exact hSame
      · have hWhole : front ++ back ≠ [] := by simp [hFront]
        have hLonger : 0 < back.length := List.length_pos_iff.mpr hNone
        rw [spelling, spelling, if_neg hWhole, if_neg hFront] at hSame
        have hLength := congrArg List.length hSame
        split_ifs at hSame hLength with hLong hShort hShort
        · simp only [List.length_append] at hLength
          omega
        · simp only [List.length_append] at hLength
          omega
        · have hDigit : startsWithDigit (front ++ back) = startsWithDigit front := by
            simp [startsWithDigit, List.head?_append_of_ne_nil _ hFront]
          rcases hShort with hFirst | hReserved
          · exact absurd (Or.inl (hDigit.trans hFirst)) hLong
          · rw [not_reserved_of_append hBack hSame] at hReserved
            cases hReserved
        · simp only [List.length_append] at hLength
          omega
  · rintro (rfl | ⟨rfl, rfl⟩)
    · rw [List.append_nil]
    · decide +kernel

theorem spelling_eq_value_iff {model : List Char} :
    spelling model = "Value".toList ↔ model = "Value".toList := by
  unfold spelling
  split_ifs with hNone hFront
  · subst hNone
    decide
  · constructor
    · intro hSame
      cases hSame
    · rintro rfl
      exact absurd hFront (by decide +kernel)
  · exact Iff.rfl

/-! ### References -/

/-- Names in camel case, one after the other. -/
def camelPath (path : List String) : String := String.join (path.map camelize)

theorem toList_camelPath (path : List String) :
    (camelPath path).toList = path.flatMap fun segment => camelChars segment.toList := by
  simp [camelPath, String.toList_join, camelize, List.flatMap_map]

theorem beginsWord_camelPath (path : List String) : BeginsWord (camelPath path).toList := by
  intro c rest hHead
  rw [toList_camelPath] at hHead
  induction path with
  | nil => cases hHead
  | cons segment more ih =>
      rw [List.flatMap_cons] at hHead
      cases hFirst : camelChars segment.toList with
      | nil =>
          rw [hFirst] at hHead
          exact ih hHead
      | cons d others =>
          rw [hFirst] at hHead
          cases hHead
          exact camelChars_head hFirst

/-- Camel case of a whole reference: that of the schema it names, and of the path behind it. -/
theorem camelChars_referenceName (reference : String) :
    camelChars (referenceName reference).toList =
      camelChars (Pointer.ofReference reference).schema.toList ++
        (camelPath (Pointer.ofReference reference).path).toList := by
  obtain ⟨piece, more, hPieces⟩ :=
    List.exists_cons_of_ne_nil (pieces_ne_nil '/' (referenceName reference).toList)
  rw [toList_camelPath, @camelChars_of_pieces '/' (by decide), Pointer.ofReference, split, hPieces]
  simp [List.flatMap_map]

/-- A whole reference spells the type of the schema it names exactly if its path has no letter and no
digit. A schema without any has the type `Object`, which a path may spell as well. -/
theorem typeName_referenceName_eq_iff (reference : String) :
    typeName (referenceName reference) = typeName (Pointer.ofReference reference).schema ↔
      camelPath (Pointer.ofReference reference).path = "" ∨
        camelize (Pointer.ofReference reference).schema = "" ∧
          camelPath (Pointer.ofReference reference).path = "Object" := by
  rw [← String.toList_inj, toList_typeName, toList_typeName, camelChars_referenceName,
    spelling_append_eq_iff (beginsWord_camelPath _), camelize]
  simp only [← String.toList_inj, String.toList_ofList, String.toList_empty]

theorem typeName_eq_value_iff (name : String) : typeName name = "Value" ↔ camelize name = "Value" := by
  rw [← String.toList_inj, toList_typeName, spelling_eq_value_iff, ← String.toList_inj, camelize,
    String.toList_ofList (l := camelChars name.toList)]

end ClientTypes.Naming
