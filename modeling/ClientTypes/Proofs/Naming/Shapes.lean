import ClientTypes.Proofs.Naming.SnakeCase
import ClientTypes.Proofs.Naming.Spelling
import ClientTypes.Proofs.Value.Display

/-! Names of fields and of enumeration members. Whatever text a name is made from, it is not empty, has the
letters of one case, digits and underscores only, and does not begin with a digit. -/
namespace ClientTypes.Naming

open Text

/-! ### The characters of snake case -/

/-- A letter of the class, a digit or an underscore. -/
def IsSnakeChar (letter : Char → Bool) (c : Char) : Prop := letter c = true ∨ c.isDigit = true ∨ c = '_'

theorem mem_joinRuns {inRun : Bool} {cs : List Char} {c : Char} (h : c ∈ joinRuns inRun cs) :
    isWordChar c = true ∨ c = '_' := by
  fun_induction joinRuns inRun cs with
  | case1 => cases h
  | case2 inRun d rest hd ih =>
      rcases List.mem_cons.mp h with rfl | hRest
      · exact Or.inl hd
      · exact ih hRest
  | case3 d rest hd ih => exact ih h
  | case4 inRun d rest hd hRun ih =>
      rcases List.mem_cons.mp h with rfl | hRest
      · exact Or.inr rfl
      · exact ih hRest

theorem toLower_cases {c : Char} (h : isWordChar c = true) : c.toLower.isLower = true ∨ c.toLower.isDigit = true := by
  rw [Char.isLower_toLower_eq_isAlpha]
  rcases isWordChar_iff.mp h with hUpper | hLower | hDigit
  · exact Or.inl (Bool.or_eq_true_iff.mpr (Or.inl hUpper))
  · exact Or.inl (Bool.or_eq_true_iff.mpr (Or.inr hLower))
  · have hCapital : ¬ c.isUpper = true := fun hUpper => by simp [isUpper_not_isDigit hUpper] at hDigit
    exact Or.inr (by rwa [Char.toLower_eq_of_not_isUpper hCapital])

theorem mem_trimBoth {cut : Char → Bool} {s : List Char} {c : Char} (h : c ∈ trimBoth cut s) : c ∈ s := by
  have hStart : c ∈ trimStart cut s := by
    rw [trimBoth, trimEnd, List.mem_reverse] at h
    exact List.mem_reverse.mp ((List.dropWhile_sublist _).mem h)
  exact (List.dropWhile_sublist _).mem hStart

theorem isSnakeChar_of_mem_bareSnakeChars {name : List Char} {c : Char} (h : c ∈ bareSnakeChars name) :
    IsSnakeChar Char.isLower c := by
  obtain ⟨d, hd, rfl⟩ := List.mem_map.mp (mem_trimBoth h)
  rcases mem_joinRuns hd with hWord | rfl
  · exact (toLower_cases hWord).imp_right Or.inl
  · exact Or.inr (Or.inr rfl)

theorem isSnakeChar_of_mem_upperSnakeChars {name : List Char} {c : Char} (h : c ∈ upperSnakeChars name) :
    IsSnakeChar Char.isUpper c := by
  obtain ⟨d, hd, rfl⟩ := List.mem_map.mp h
  rcases isSnakeChar_of_mem_bareSnakeChars hd with hLower | hDigit | rfl
  · exact (toUpper_cases (isWordChar_iff.mpr (Or.inr (Or.inl hLower)))).imp_right Or.inl
  · exact (toUpper_cases (isWordChar_iff.mpr (Or.inr (Or.inr hDigit)))).imp_right Or.inl
  · exact Or.inr (Or.inr rfl)

/-! ### Names in snake case -/

/-- The shape of a name in snake case with the letters of a class. -/
structure IsSnakeName (letter : Char → Bool) (s : String) : Prop where
  nonempty : s ≠ ""
  chars : ∀ c ∈ s.toList, IsSnakeChar letter c
  head : ∀ c ∈ s.toList.head?, c.isDigit = false

variable {letter : Char → Bool} {cs : List Char}

theorem isSnakeName_of_chars (hSome : cs ≠ []) (hChars : ∀ c ∈ cs, IsSnakeChar letter c)
    (hHead : startsWithDigit cs = false) : IsSnakeName letter (String.ofList cs) where
  nonempty := by simpa [String.ext_iff] using hSome
  chars := by simpa using hChars
  head := by
    intro c hc
    rw [String.toList_ofList, Option.mem_def] at hc
    simpa [startsWithDigit, hc] using hHead

theorem underscore_append (cs : List Char) : "_" ++ String.ofList cs = String.ofList ('_' :: cs) := by
  rw [String.ofList_cons]
  rfl

/-- An underscore in front makes a name of anything. -/
theorem isSnakeName_underscore (hChars : ∀ c ∈ cs, IsSnakeChar letter c) :
    IsSnakeName letter ("_" ++ String.ofList cs) := by
  rw [underscore_append]
  exact isSnakeName_of_chars (List.cons_ne_nil _ _)
    (List.forall_mem_cons.mpr ⟨Or.inr (Or.inr rfl), hChars⟩) rfl

/-- The shape of a field name. -/
structure IsFieldName (s : String) : Prop extends IsSnakeName Char.isLower s where
  free : isReserved s = false

theorem isFieldName_fieldName (name : String) : IsFieldName (fieldName name) := by
  have hChars : ∀ c ∈ bareSnakeChars name.toList, IsSnakeChar Char.isLower c :=
    fun c hc => isSnakeChar_of_mem_bareSnakeChars hc
  unfold fieldName
  dsimp only
  split_ifs with hEmpty hGuarded
  · have hMark : ∀ c ∈ ['_'], IsSnakeChar Char.isLower c := by simp [IsSnakeChar]
    exact ⟨isSnakeName_of_chars (by simp) hMark rfl, by decide⟩
  · refine ⟨isSnakeName_underscore hChars, ?_⟩
    rw [underscore_append]
    exact @isReserved_of_front ['_'] _ (by decide)
  · simp only [Bool.or_eq_true, not_or, Bool.not_eq_true] at hGuarded
    exact ⟨isSnakeName_of_chars hEmpty hChars hGuarded.2, hGuarded.1.2⟩

theorem isSnakeName_memberName (text : String) : IsSnakeName Char.isUpper (memberName text) := by
  have hChars : ∀ c ∈ upperSnakeChars text.toList, IsSnakeChar Char.isUpper c :=
    fun c hc => isSnakeChar_of_mem_upperSnakeChars hc
  unfold memberName
  dsimp only
  split_ifs with hEmpty hDigit
  · have hCapitals : ∀ c ∈ ['E', 'M', 'P', 'T', 'Y'], IsSnakeChar Char.isUpper c := by simp [IsSnakeChar]
    exact isSnakeName_of_chars (by simp) hCapitals rfl
  · exact isSnakeName_underscore hChars
  · exact isSnakeName_of_chars hEmpty hChars (by simpa using hDigit)

/-- Whatever the source is, the target language accepts the name that is made from it. A type name is spelled as
itself, and every value that is read from JSON text has a text to make a name from. -/
theorem generated_names_accepted :
    (∀ name, IsTypeName (typeName name) ∧ typeName (typeName name) = typeName name) ∧
    (∀ name, IsFieldName (fieldNameBy [] name)) ∧
    (∀ text, IsSnakeName Char.isUpper (memberName text)) ∧
    ∀ source v, Json.parse? source = some v →
      ∃ text, v.display? = some text ∧ IsSnakeName Char.isUpper (memberName text) := by
  refine ⟨fun name => ⟨isTypeName_typeName name, typeName_typeName name⟩, isFieldName_fieldName,
    isSnakeName_memberName, fun source v hRead => ?_⟩
  obtain ⟨text, hText⟩ := (Json.writable_of_parse? hRead).display
  exact ⟨text, hText, isSnakeName_memberName text⟩

/-- A list of JSON names its member by the text that the list has. -/
theorem generated_names_accepted_list : ∃ v, Json.parse? "[1, \"a\"]" = some v ∧
    v.display? = some "[1, 'a']" ∧ memberName "[1, 'a']" = "_1_A" ∧ IsSnakeName Char.isUpper "_1_A" := by
  have hShown : (Json.parse? "[1, \"a\"]").bind Value.display? = some "[1, 'a']" := by decide +kernel
  have hName : memberName "[1, 'a']" = "_1_A" := by decide +kernel
  obtain ⟨v, hRead, hText⟩ := Option.bind_eq_some_iff.mp hShown
  obtain ⟨_, _, _, hJson⟩ := generated_names_accepted
  obtain ⟨text, hFound, hAccepted⟩ := hJson _ v hRead
  obtain rfl : text = "[1, 'a']" := Option.some.inj (hFound.symm.trans hText)
  exact ⟨v, hRead, hText, hName, hName ▸ hAccepted⟩

end ClientTypes.Naming
