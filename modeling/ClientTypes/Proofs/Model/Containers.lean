import ClientTypes.CrossReference.Renaming
import ClientTypes.Proofs.TargetType

/-! Containers that agree with their elements. The type of an element stands twice: as a text
inside the type of the container, and at the element itself. -/
namespace ClientTypes

open CrossReference TargetType

/-! ### Built-in containers -/

/-- The text of a list or of a map. -/
def IsContainerType (type : String) : Prop := ∃ inner, type = listOf inner ∨ type = mapOf inner

theorem isContainerType_listOf (inner : String) : IsContainerType (listOf inner) := ⟨inner, Or.inl rfl⟩

theorem isContainerType_mapOf (inner : String) : IsContainerType (mapOf inner) := ⟨inner, Or.inr rfl⟩

theorem isContainerType_openMap : IsContainerType openMap := isContainerType_mapOf fallback

/-- A list or map is built in. -/
theorem IsContainerType.isBuiltIn {type : String} (h : IsContainerType type) :
    isBuiltIn type = true := by
  obtain ⟨inner, rfl | rfl⟩ := h
  · simp [TargetType.isBuiltIn, startsWith_listOf]
  · simp [TargetType.isBuiltIn, startsWith_mapOf]

/-- A list or map ends with a bracket, so it is no reference stub. -/
theorem IsContainerType.dropBack? {type : String} (h : IsContainerType type) :
    Text.dropBack? "Reference" type = none := by
  obtain ⟨front, hEnd⟩ : ∃ front, type.toList = front ++ ['>'] := by
    obtain ⟨inner, rfl | rfl⟩ := h
    · exact ⟨"Vec<".toList ++ inner.toList, by simp [listOf]⟩
    · exact ⟨"HashMap<String, ".toList ++ inner.toList, by simp [mapOf_eq]⟩
  rw [Text.dropBack?, hEnd, List.reverse_append]
  rfl

/-! ### One property -/

/-- A single value has no element. The type of a list is that of its element, and so is the type of
a map that has one; a map without an element is open. -/
inductive Coherent (p : Property) : Prop where
  | single (hContainer : p.container = none) (hItems : p.items = none)
  | array {item : Property} (hContainer : p.container = some .array) (hItems : p.items = some item)
      (hType : p.datatype = listOf item.datatype)
  | map {item : Property} (hContainer : p.container = some .map) (hItems : p.items = some item)
      (hType : p.datatype = mapOf item.datatype)
  | openMap (hContainer : p.container = some .map) (hItems : p.items = none)
      (hType : p.datatype = TargetType.openMap)

/-- The type of a container is that of a list or of a map. -/
theorem Coherent.isContainerType {p : Property} (h : Coherent p) (hContainer : p.container ≠ none) :
    IsContainerType p.datatype := by
  cases h with
  | single hNone _ => exact absurd hNone hContainer
  | array _ _ hType => exact hType ▸ isContainerType_listOf _
  | map _ _ hType => exact hType ▸ isContainerType_mapOf _
  | openMap _ _ hType => exact hType ▸ isContainerType_openMap

/-- Another type of a single value, or the same type of a container, leaves it coherent. -/
theorem Coherent.congr {p p' : Property} (h : Coherent p) (hContainer : p'.container = p.container)
    (hItems : p'.items = p.items) (hType : p.container ≠ none → p'.datatype = p.datatype) :
    Coherent p' := by
  cases h with
  | single hNone hBare => exact .single (hContainer.trans hNone) (hItems.trans hBare)
  | array hArray hItem hIs =>
      exact .array (hContainer.trans hArray) (hItems.trans hItem) ((hType (by simp [hArray])).trans hIs)
  | map hMap hItem hIs =>
      exact .map (hContainer.trans hMap) (hItems.trans hItem) ((hType (by simp [hMap])).trans hIs)
  | openMap hMap hBare hIs =>
      exact .openMap (hContainer.trans hMap) (hItems.trans hBare) ((hType (by simp [hMap])).trans hIs)

/-! ### A property and what is inside it -/

/-- The properties that are reached from a property: itself, and those that are reached from its
element and from its entries. -/
inductive Reaches : Property → Property → Prop where
  | self (p : Property) : Reaches p p
  | item {p item q : Property} (hItem : p.items = some item) (hInside : Reaches item q) : Reaches p q
  | entry {p e q : Property} (hEntry : e ∈ p.marks.entries) (hInside : Reaches e q) : Reaches p q

/-- All properties that are reached meet `P`. -/
def Throughout (P : Property → Prop) (p : Property) : Prop := ∀ q, Reaches p q → P q

theorem throughout_iff {P : Property → Prop} {p : Property} : Throughout P p ↔ P p ∧
    (∀ item, p.items = some item → Throughout P item) ∧ ∀ e ∈ p.marks.entries, Throughout P e := by
  constructor
  · intro h
    exact ⟨h p (.self p), fun item hItem q hInside => h q (.item hItem hInside),
      fun e hEntry q hInside => h q (.entry hEntry hInside)⟩
  · rintro ⟨hOwn, hItems, hEntries⟩ q hReaches
    cases hReaches with
    | self => exact hOwn
    | item hItem hInside => exact hItems _ hItem q hInside
    | entry hEntry hInside => exact hEntries _ hEntry q hInside

/-- Only the property itself may change. -/
theorem Throughout.congr {P : Property → Prop} {p p' : Property} (h : Throughout P p) (hOwn : P p')
    (hItems : p'.items = p.items) (hEntries : p'.marks.entries = p.marks.entries) :
    Throughout P p' := by
  obtain ⟨_, hInItems, hInEntries⟩ := throughout_iff.mp h
  refine throughout_iff.mpr ⟨hOwn, ?_, ?_⟩
  · rwa [hItems]
  · rwa [hEntries]

/-- Every property that is reached is coherent. -/
def AllCoherent (p : Property) : Prop := ∀ q, Reaches p q → Coherent q

theorem allCoherent_iff {p : Property} : AllCoherent p ↔ Coherent p ∧
    (∀ item, p.items = some item → AllCoherent item) ∧ ∀ e ∈ p.marks.entries, AllCoherent e :=
  throughout_iff

/-- Only the property itself may change, and only the type of a single value. -/
theorem AllCoherent.congr {p p' : Property} (h : AllCoherent p)
    (hContainer : p'.container = p.container) (hItems : p'.items = p.items)
    (hEntries : p'.marks.entries = p.marks.entries)
    (hType : p.container ≠ none → p'.datatype = p.datatype) : AllCoherent p' :=
  Throughout.congr h ((allCoherent_iff.mp h).1.congr hContainer hItems hType) hItems hEntries

/-! ### Changing every type -/

theorem mapItems_eq_map (onType : String → String) (onValues : AllowableValues → AllowableValues)
    (items : Option Property) :
    mapItems onType onValues items = items.map (mapProperty onType onValues) := by
  cases items <;> rfl

theorem mapProperties_eq_map (onType : String → String)
    (onValues : AllowableValues → AllowableValues) (ps : List Property) :
    mapProperties onType onValues ps = ps.map (mapProperty onType onValues) := by
  induction ps with
  | nil => rfl
  | cons p rest ih => rw [mapProperties, ih, List.map_cons]

section MapProperty

variable (onType : String → String) (onValues : AllowableValues → AllowableValues) (p : Property)

@[simp] theorem container_mapProperty : (mapProperty onType onValues p).container = p.container := by
  cases p
  rfl

@[simp] theorem datatype_mapProperty :
    (mapProperty onType onValues p).datatype = onType p.datatype := by
  cases p
  rfl

@[simp] theorem items_mapProperty :
    (mapProperty onType onValues p).items = p.items.map (mapProperty onType onValues) := by
  cases p
  exact mapItems_eq_map onType onValues _

@[simp] theorem entries_mapProperty :
    (mapProperty onType onValues p).marks.entries = p.marks.entries.map (mapProperty onType onValues) := by
  cases p
  exact mapProperties_eq_map onType onValues _

/-- What is reached after the change is what was reached before, changed. -/
theorem reaches_mapProperty {q : Property} (h : Reaches (mapProperty onType onValues p) q) :
    ∃ before, Reaches p before ∧ q = mapProperty onType onValues before := by
  generalize hStart : mapProperty onType onValues p = start at h
  induction h generalizing p with
  | self => exact ⟨p, .self p, hStart.symm⟩
  | item hItem hInside ih =>
      rw [← hStart, items_mapProperty] at hItem
      obtain ⟨inner, hInner, hSame⟩ := Option.map_eq_some_iff.mp hItem
      obtain ⟨before, hBefore, hIs⟩ := ih inner hSame
      exact ⟨before, .item hInner hBefore, hIs⟩
  | entry hEntry hInside ih =>
      rw [← hStart, entries_mapProperty] at hEntry
      obtain ⟨inner, hInner, hSame⟩ := List.mem_map.mp hEntry
      obtain ⟨before, hBefore, hIs⟩ := ih inner hSame
      exact ⟨before, .entry hInner hBefore, hIs⟩

variable {onType onValues p}

theorem Throughout.mapProperty {P : Property → Prop} (h : Throughout P p)
    (hKeeps : ∀ q, P q → P (mapProperty onType onValues q)) :
    Throughout P (mapProperty onType onValues p) := by
  intro q hReaches
  obtain ⟨before, hBefore, rfl⟩ := reaches_mapProperty onType onValues p hReaches
  exact hKeeps before (h before hBefore)

variable (hList : ∀ inner, onType (listOf inner) = listOf (onType inner))
  (hMap : ∀ inner, onType (mapOf inner) = mapOf (onType inner))
  (hOpen : onType TargetType.openMap = TargetType.openMap)

include hList hMap hOpen

theorem Coherent.mapProperty (h : Coherent p) : Coherent (mapProperty onType onValues p) := by
  cases h with
  | single hContainer hItems => exact .single (by simp [hContainer]) (by simp [hItems])
  | @array item hContainer hItems hType =>
      have hElement : (CrossReference.mapProperty onType onValues p).items =
          some (CrossReference.mapProperty onType onValues item) := by simp [hItems]
      exact .array (by simp [hContainer]) hElement (by simp [hType, hList])
  | @map item hContainer hItems hType =>
      have hElement : (CrossReference.mapProperty onType onValues p).items =
          some (CrossReference.mapProperty onType onValues item) := by simp [hItems]
      exact .map (by simp [hContainer]) hElement (by simp [hType, hMap])
  | openMap hContainer hItems hType =>
      exact .openMap (by simp [hContainer]) (by simp [hItems]) (by simp [hType, hOpen])

/-- A change of types that goes inside lists and maps leaves everything coherent. -/
theorem AllCoherent.mapProperty (h : AllCoherent p) : AllCoherent (mapProperty onType onValues p) :=
  Throughout.mapProperty h fun _ hOwn => hOwn.mapProperty hList hMap hOpen

end MapProperty

/-! ### Models -/

/-- Every property that is reached from a model is coherent, and a model that stands for a list or
a map has its type. -/
structure ModelCoherent (m : Model) : Prop where
  vars : ∀ p ∈ m.vars, AllCoherent p
  array : m.container = some .array →
    ∃ inner, m.containerInner = some inner ∧ m.dataType = some (listOf inner)
  map : m.container = some .map →
    ∃ inner, m.containerInner = some inner ∧ m.dataType = some (mapOf inner)

end ClientTypes
