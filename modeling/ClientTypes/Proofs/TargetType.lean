import ClientTypes.TargetType
import ClientTypes.Proofs.Naming.RepeatedRenaming
import ClientTypes.Proofs.Naming.Spelling

/-! The type expressions of the target language. Leaves are the types that are
built in and the names of models; lists and maps are built around them. Renaming
models replaces the leaves and leaves the rest of an expression in place. -/
namespace ClientTypes.TargetType

open Naming

/-- The types that are built in. -/
def leaves : List String :=
  ["String", "bool", "i32", "i64", "f32", "f64", "Vec<u8>", "Uuid", "Value", "DateTime<Utc>"]

/-- The type expressions over the names of some models. -/
inductive IsType (names : String → Prop) : String → Prop where
  | leaf {type : String} (hLeaf : type ∈ leaves) : IsType names type
  | model {type : String} (hName : names type) : IsType names type
  | list {inner : String} (hInner : IsType names inner) : IsType names (listOf inner)
  | map {inner : String} (hInner : IsType names inner) : IsType names (mapOf inner)

variable {names names' : String → Prop} {type : String}

theorem IsType.mono (h : IsType names type) (hNames : ∀ name, names name → names' name) :
    IsType names' type := by
  induction h with
  | leaf hLeaf => exact .leaf hLeaf
  | model hName => exact .model (hNames _ hName)
  | list _ ih => exact .list ih
  | map _ ih => exact .map ih

theorem isType_fallback : IsType names fallback := .leaf (by decide)

theorem isType_dateTime : IsType names dateTime := .leaf (by decide)

theorem isType_fixedWidth : IsType names "i64" := .leaf (by decide)

theorem isType_openMap : IsType names openMap := IsType.map isType_fallback

theorem startsWith_listOf (inner : String) : Text.startsWith "Vec<" (listOf inner) = true := by
  rw [Text.startsWith_iff, listOf, String.append_assoc, String.toList_append]
  exact ⟨_, rfl⟩

/-- The text of a map. Unfolding by a rewrite is slow here, because the definition is compared with its
text character by character. -/
theorem mapOf_eq (inner : String) : mapOf inner = "HashMap<String, " ++ inner ++ ">" := by
  delta mapOf
  rfl

theorem startsWith_mapOf (inner : String) : Text.startsWith "HashMap<" (mapOf inner) = true := by
  have hSplit : mapOf inner = "HashMap<" ++ ("String, " ++ inner ++ ">") := by
    rw [mapOf_eq, ← String.append_assoc, ← String.append_assoc]
    rfl
  rw [Text.startsWith_iff, hSplit, String.toList_append]
  exact ⟨_, rfl⟩

/-- A type that is no leaf, and no list or map, is the name of a model. -/
theorem IsType.name_of (h : IsType names type) (hLeaf : type ∉ leaves)
    (hList : Text.startsWith "Vec<" type = false)
    (hMap : Text.startsWith "HashMap<" type = false) : names type := by
  cases h with
  | leaf hIs => exact absurd hIs hLeaf
  | model hName => exact hName
  | list _ => simp [startsWith_listOf] at hList
  | map _ => simp [startsWith_mapOf] at hMap

theorem isBuiltIn_leaves : ∀ leaf ∈ leaves, isBuiltIn leaf = true := by decide +kernel

/-- A type that is not built in is the name of a model. -/
theorem IsType.name_of_not_isBuiltIn (h : IsType names type) (hOwn : isBuiltIn type = false) :
    names type := by
  have hParts := hOwn
  simp only [isBuiltIn, Bool.or_eq_false_iff] at hParts
  refine h.name_of (fun hLeaf => ?_) hParts.1.2 hParts.2
  rw [isBuiltIn_leaves type hLeaf] at hOwn
  cases hOwn

/-! ### Renaming -/

/-- The identifiers that the built-in parts of a type expression consist of. -/
def fixedNames : List String :=
  ["String", "bool", "i32", "i64", "f32", "f64", "Vec", "u8", "Uuid", "Value", "DateTime", "Utc",
   "HashMap"]

theorem identifiers_leaves : ∀ leaf ∈ leaves, ∀ name ∈ identifiers leaf, name ∈ fixedNames := by
  decide +kernel

/-! ### The scan of a list and of a map -/

theorem tokens_closed (inner : String) : tokens (inner ++ ">") = tokens inner ++ [.mark '>'] :=
  tokens_append_mark (by decide) inner "" (by simp)

theorem tokens_listOf (inner : String) :
    tokens (listOf inner) = .identifier "Vec".toList :: .mark '<' :: (tokens inner ++ [.mark '>']) := by
  have hHead : tokens (listOf inner) = tokens "Vec" ++ .mark '<' :: tokens (inner ++ ">") :=
    tokens_append_mark (by decide) _ _ (by simp [listOf])
  rw [hHead, tokens_closed]
  rfl

theorem tokens_mapOf (inner : String) :
    tokens (mapOf inner) = .identifier "HashMap".toList :: .mark '<' ::
      .identifier "String".toList :: .mark ',' :: .mark ' ' :: (tokens inner ++ [.mark '>']) := by
  have hHead : tokens (mapOf inner) =
      tokens "HashMap" ++ .mark '<' :: tokens ("String, " ++ inner ++ ">") :=
    tokens_append_mark (by decide) _ _ (by simp [mapOf_eq])
  have hKey : tokens ("String, " ++ inner ++ ">") =
      tokens "String" ++ .mark ',' :: tokens (" " ++ inner ++ ">") :=
    tokens_append_mark (by decide) _ _ (by simp)
  have hBlank : tokens (" " ++ inner ++ ">") = tokens "" ++ .mark ' ' :: tokens (inner ++ ">") :=
    tokens_append_mark (by decide) _ _ (by simp)
  rw [hHead, hKey, hBlank, tokens_closed]
  rfl

theorem identifiers_listOf (inner : String) :
    identifiers (listOf inner) = "Vec" :: identifiers inner := by
  simp [identifiers, tokens_listOf]

theorem identifiers_mapOf (inner : String) :
    identifiers (mapOf inner) = "HashMap" :: "String" :: identifiers inner := by
  simp [identifiers, tokens_mapOf]

/-- The identifiers of a type are those of built-in types and of the names in it. -/
theorem IsType.identifier_cases (h : IsType names type) {name : String}
    (hName : name ∈ identifiers type) :
    name ∈ fixedNames ∨ ∃ model, names model ∧ name ∈ identifiers model := by
  induction h with
  | leaf hLeaf => exact Or.inl (identifiers_leaves _ hLeaf name hName)
  | model hModel => exact Or.inr ⟨_, hModel, hName⟩
  | list _ ih =>
      rw [identifiers_listOf] at hName
      rcases List.mem_cons.mp hName with rfl | hInner
      · exact Or.inl (by decide)
      · exact ih hInner
  | map _ ih =>
      rw [identifiers_mapOf] at hName
      rcases List.mem_cons.mp hName with rfl | hRest
      · exact Or.inl (by decide)
      · rcases List.mem_cons.mp hRest with rfl | hInner
        · exact Or.inl (by decide)
        · exact ih hInner

variable {renames : Table String String}

theorem rename_kept {name : String} (hKept : renames.get? name = none) :
    (Token.identifier name.toList).rename renames = name.toList :=
  Token.rename_unknown (by rwa [String.ofList_toList])

theorem renameIdentifiers_listOf (hList : renames.get? "Vec" = none) (inner : String) :
    renameIdentifiers renames (listOf inner) = listOf (renameIdentifiers renames inner) := by
  apply String.toList_injective
  rw [renameIdentifiers, tokens_listOf, List.flatMap_cons, rename_kept hList]
  simp [listOf, renameIdentifiers]

theorem renameIdentifiers_mapOf (hMap : renames.get? "HashMap" = none) (hText : renames.get? "String" = none)
    (inner : String) :
    renameIdentifiers renames (mapOf inner) = mapOf (renameIdentifiers renames inner) := by
  apply String.toList_injective
  rw [renameIdentifiers, tokens_mapOf, List.flatMap_cons, List.flatMap_cons, List.flatMap_cons,
    rename_kept hMap, rename_kept hText]
  simp [mapOf_eq, renameIdentifiers]

/-- Renaming models gives a type over their new names. -/
theorem IsType.rename (h : IsType names type)
    (hFixed : ∀ name ∈ fixedNames, renames.get? name = none)
    (hNames : ∀ name, names name → names' (renameIdentifiers renames name)) :
    IsType names' (renameIdentifiers renames type) := by
  induction h with
  | @leaf type hLeaf =>
      rw [renameIdentifiers_of_settled fun name hName =>
        hFixed name (identifiers_leaves type hLeaf name hName)]
      exact .leaf hLeaf
  | model hName => exact .model (hNames _ hName)
  | list _ ih =>
      rw [renameIdentifiers_listOf (hFixed _ (by decide))]
      exact .list ih
  | map _ ih =>
      rw [renameIdentifiers_mapOf (hFixed _ (by decide)) (hFixed _ (by decide))]
      exact .map ih

end ClientTypes.TargetType
