import ClientTypes.Proofs.CrossReference.Stamps

/-! Reference stubs inside lists and maps. The last pass replaces the type of a field and the type of its
element, each of them once. A stub that stands deeper is left, and so is a stub that a replacement
brings in. -/
namespace ClientTypes.CrossReference

open TargetType

/-! ### Stubs -/

/-- The type is the reference stub of a live model. -/
def IsStub (live : List String) (type : String) : Prop :=
  ∃ name ∈ live, name ≠ "" ∧ type = name ++ stubBack

section Stub

variable {live : List String} {type target : String}

theorem stubTarget?_eq_some_iff : stubTarget? live type = some target ↔
    type = target ++ stubBack ∧ target ≠ "" ∧ target ∈ live := by
  simp [stubTarget?, Option.filter_eq_some_iff, Text.dropBack?_eq_some_iff]

theorem isStub_iff : IsStub live type ↔ (stubTarget? live type).isSome = true := by
  simp only [Option.isSome_iff_exists, stubTarget?_eq_some_iff, IsStub]
  exact ⟨fun ⟨name, hLive, hName, hType⟩ => ⟨name, hType, hName, hLive⟩,
    fun ⟨name, hType, hName, hLive⟩ => ⟨name, hLive, hName, hType⟩⟩

instance (live : List String) (type : String) : Decidable (IsStub live type) :=
  decidable_of_iff _ isStub_iff.symm

/-- A list or map is no stub, whatever is inside it. -/
theorem not_isStub_of_container (h : IsContainerType type) : ¬ IsStub live type := by
  rintro ⟨name, -, -, rfl⟩
  have hBack := h.dropBack?
  rw [show Text.dropBack? "Reference" (name ++ stubBack) = some name from
    Text.dropBack?_eq_some_iff.mpr rfl] at hBack
  cases hBack

/-- What a type is replaced by: a stub by the model that it refers to. -/
def referredType (live : List String) (type : String) : String := (stubTarget? live type).getD type

/-- The type is the stub of a live model that is called like a stub itself. -/
def IsStubOfStub (live : List String) (type : String) : Prop :=
  ∃ name ∈ live, IsStub live name ∧ type = name ++ stubBack

/-- A replacement leaves a stub only of a stub of a stub. -/
theorem isStub_referredType_iff : IsStub live (referredType live type) ↔ IsStubOfStub live type := by
  unfold referredType
  constructor
  · intro h
    cases hTarget : stubTarget? live type with
    | none =>
        rw [hTarget, Option.getD_none] at h
        exact absurd (isStub_iff.mp h) (by simp [hTarget])
    | some name =>
        rw [hTarget, Option.getD_some] at h
        obtain ⟨hType, -, hLive⟩ := stubTarget?_eq_some_iff.mp hTarget
        exact ⟨name, hLive, h, hType⟩
  · rintro ⟨name, hLive, hStub, hType⟩
    have hName : name ≠ "" := by
      rintro rfl
      obtain ⟨inner, -, -, hEmpty⟩ := hStub
      simpa [stubBack] using congrArg String.toList hEmpty
    rw [stubTarget?_eq_some_iff.mpr ⟨hType, hName, hLive⟩]
    exact hStub

end Stub

/-! ### Types from the outside in -/

mutual
/-- The types of a property from the outside in: its own, that of its element, that of the element
of that. -/
def elementTypes : Property → List String
  | { datatype, items, .. } => datatype :: typesInside items
/-- The types of the element of a container from the outside in. -/
def typesInside : Option Property → List String
  | none => []
  | some p => elementTypes p
end

theorem elementTypes_eq (p : Property) : elementTypes p = p.datatype :: typesInside p.items := by
  cases p
  rfl

section Field

variable {live : List String} {p : Property}

/-- The type of a field without an element is replaced. -/
theorem unstubProperty_single (hItems : p.items = none) :
    unstubProperty live p = { p with datatype := referredType live p.datatype } := by
  simp [unstubProperty, unstub, hItems, referredType]

/-- In a list or map the type of the element is replaced, and the types inside the element stay. -/
theorem unstubProperty_element {item : Property} (hItems : p.items = some item) :
    unstubProperty live p = { p with
      datatype := wrapped p.container (referredType live item.datatype) (referredType live p.datatype)
      items := some { item with datatype := referredType live item.datatype } } := by
  simp [unstubProperty, unstub, hItems, referredType]

/-- Every stub of a field is in reach of the last pass: none stands deeper than the element, and none refers to
another. -/
structure InReach (live : List String) (p : Property) : Prop where
  own : p.container = none ∨ p.items = none → ¬ IsStubOfStub live p.datatype
  element : ∀ item, p.items = some item → ¬ IsStubOfStub live item.datatype
  deeper : ∀ type ∈ (elementTypes p).drop 2, ¬ IsStub live type

theorem isStub_wrapped_iff {container : Option Container} {inner current : String} :
    IsStub live (wrapped container inner current) ↔ container = none ∧ IsStub live current := by
  cases container with
  | none => simp [wrapped]
  | some container =>
      have hContainer : IsContainerType (wrapped (some container) inner current) := by
        cases container with
        | array => exact isContainerType_listOf inner
        | map => exact isContainerType_mapOf inner
      simp [not_isStub_of_container hContainer]

/-- A field is without stubs at every depth exactly when all of them are in reach. -/
theorem stubless_unstubProperty_iff :
    (∀ type ∈ elementTypes (unstubProperty live p), ¬ IsStub live type) ↔ InReach live p := by
  cases hItems : p.items with
  | none =>
      rw [unstubProperty_single hItems, elementTypes_eq]
      simp only [hItems, typesInside, List.forall_mem_singleton, isStub_referredType_iff]
      exact ⟨fun h => ⟨fun _ => h, by simp [hItems], by simp [elementTypes_eq, hItems, typesInside]⟩,
        fun h => h.own (Or.inr hItems)⟩
  | some item =>
      have hDeeper : (elementTypes p).drop 2 = typesInside item.items := by
        simp [elementTypes_eq, hItems, typesInside]
      rw [unstubProperty_element hItems, elementTypes_eq]
      simp only [typesInside, elementTypes_eq, List.forall_mem_cons, isStub_wrapped_iff, isStub_referredType_iff]
      constructor
      · rintro ⟨hOwn, hElement, hInside⟩
        refine ⟨fun hBare hStub => ?_, ?_, hDeeper ▸ hInside⟩
        · exact hOwn ⟨hBare.resolve_right (by simp [hItems]), hStub⟩
        · rw [hItems]
          rintro _ ⟨⟩
          exact hElement
      · intro h
        exact ⟨fun hOwn => h.own (Or.inl hOwn.1) hOwn.2, h.element item hItems, hDeeper ▸ h.deeper⟩

/-- What the last pass makes of a field whose references are not kept. -/
structure Referred (live : List String) (p p' : Property) : Prop where
  stubless_iff : (∀ type ∈ elementTypes p', ¬ IsStub live type) ↔ InReach live p
  list : p'.container = some .array → ∀ item, p'.items = some item → p'.datatype = listOf item.datatype
  map : p'.container = some .map → ∀ item, p'.items = some item → p'.datatype = mapOf item.datatype
  deeper : (elementTypes p').drop 2 = (elementTypes p).drop 2

theorem unstubProperty_referred (live : List String) (p : Property) :
    Referred live p (unstubProperty live p) := by
  refine ⟨stubless_unstubProperty_iff, ?_, ?_, ?_⟩
  all_goals cases hItems : p.items with
    | none => simp [unstubProperty_single hItems, elementTypes_eq, hItems, typesInside]
    | some item =>
        rw [unstubProperty_element hItems]
        simp +contextual [wrapped, elementTypes_eq, hItems, typesInside]

end Field

/-! ### All passes -/

/-- What the last pass makes of a model: the fields of a live one are replaced one by one, but for those
whose references are kept. -/
structure FieldsReferred (config : Config) (live : List String) (m m' : Model) : Prop where
  classname : m'.classname = m.classname
  removed : m'.removed = m.removed
  fields : m'.removed = false → List.Forall₂ (fun p p' => p'.baseName = p.baseName ∧
    (config.keepsReferenceOf m'.classname p'.baseName = false → Referred live p p')) m.vars m'.vars

theorem unstubModel_fieldsReferred (config : Config) (live : List String) (m : Model) :
    FieldsReferred config live m (unstubModel config live m) := by
  have hClassname := classname_unstubModel config live m
  have hRemoved := (unstubModel_standing config live m).removed
  refine ⟨hClassname, hRemoved, fun hLive => ?_⟩
  rw [(unstubModel_live config live (hRemoved.symm.trans hLive)).1, hClassname, List.forall₂_map_right_iff]
  refine List.forall₂_same.mpr fun p _ => ?_
  rw [baseName_unstubField]
  refine ⟨rfl, fun hReplaced => ?_⟩
  rw [unstubField, if_neg (by simp [hReplaced])]
  exact unstubProperty_referred live p

/-- Stubs are replaced by the models that are live at the end. -/
theorem run_fieldsReferred (config : Config) (hints : Hints) {r : Registry}
    (hFresh : r.crossReferenced = false) :
    let models := (run config hints r).registry.models
    List.Forall₂ (FieldsReferred config (liveNames models)) (beforeStubs config hints r) models :=
  run_lastPass config hints hFresh fun live m _ => unstubModel_fieldsReferred config live m

end ClientTypes.CrossReference
