import ClientTypes.CrossReference.Renaming

/-! The type expressions of a model, listed in a fixed order. Types of variants
are listed apart, because a list of variants may be shown in several places. -/
namespace ClientTypes

open CrossReference

mutual
/-- The types of a property: its own, those of its element, those of its entries. -/
def typesInProperty : Property → List String
  | { datatype, items, marks := { entries, .. }, .. } =>
    datatype :: (typesInItems items ++ typesInProperties entries)
/-- The types of the element of a container. -/
def typesInItems : Option Property → List String
  | none => []
  | some p => typesInProperty p
/-- The types of properties in order. -/
def typesInProperties : List Property → List String
  | [] => []
  | p :: rest => typesInProperty p ++ typesInProperties rest
end

/-- The types of a model, those of its variants left out. -/
def typesInModel (m : Model) : List String :=
  m.dataType.toList ++ m.containerInner.toList ++ m.marks.paginationInner.toList ++
    typesInProperties m.vars

/-- The types of the variants that a model shows, at the model and at its properties. -/
def armTypesInModel (m : Model) : List String :=
  (valuesInModel m).flatMap fun v => v.variants.map (·.datatype)

theorem mem_typesInProperties {type : String} {ps : List Property} :
    type ∈ typesInProperties ps ↔ ∃ p ∈ ps, type ∈ typesInProperty p := by
  induction ps with
  | nil => simp [typesInProperties]
  | cons p rest ih => simp [typesInProperties, ih]

variable (onType : String → String) (onValues : AllowableValues → AllowableValues)

mutual

theorem typesInProperty_mapProperty (p : Property) :
    typesInProperty (mapProperty onType onValues p) = (typesInProperty p).map onType := by
  obtain ⟨_, _, _, _, _, items, _, _, _, marks⟩ := p
  obtain ⟨_, _, _, _, _, _, _, _, _, entries, _⟩ := marks
  simp only [mapProperty, typesInProperty, List.map_cons, List.map_append]
  rw [typesInItems_mapItems items, typesInProperties_mapProperties entries]

theorem typesInItems_mapItems (items : Option Property) :
    typesInItems (mapItems onType onValues items) = (typesInItems items).map onType := by
  cases items with
  | none => rfl
  | some p => exact typesInProperty_mapProperty p

theorem typesInProperties_mapProperties (ps : List Property) :
    typesInProperties (mapProperties onType onValues ps) = (typesInProperties ps).map onType := by
  cases ps with
  | nil => rfl
  | cons p rest =>
      simp only [mapProperties, typesInProperties, List.map_append]
      rw [typesInProperty_mapProperty p, typesInProperties_mapProperties rest]

end

mutual

theorem valuesInProperty_mapProperty (p : Property) :
    valuesInProperty (mapProperty onType onValues p) = (valuesInProperty p).map onValues := by
  obtain ⟨_, _, _, _, _, items, values, _, _, marks⟩ := p
  obtain ⟨_, _, _, _, _, _, _, _, _, entries, _⟩ := marks
  simp only [mapProperty, valuesInProperty, List.map_append]
  rw [valuesInItems_mapItems items, valuesInProperties_mapProperties entries]
  cases values <;> rfl

theorem valuesInItems_mapItems (items : Option Property) :
    valuesInItems (mapItems onType onValues items) = (valuesInItems items).map onValues := by
  cases items with
  | none => rfl
  | some p => exact valuesInProperty_mapProperty p

theorem valuesInProperties_mapProperties (ps : List Property) :
    valuesInProperties (mapProperties onType onValues ps) =
      (valuesInProperties ps).map onValues := by
  cases ps with
  | nil => rfl
  | cons p rest =>
      simp only [mapProperties, valuesInProperties, List.map_append]
      rw [valuesInProperty_mapProperty p, valuesInProperties_mapProperties rest]

end

mutual

theorem mapProperty_id (p : Property) : mapProperty id id p = p := by
  obtain ⟨_, _, _, _, _, items, values, _, _, marks⟩ := p
  obtain ⟨_, _, _, _, _, _, _, _, _, entries, _⟩ := marks
  simp [mapProperty, mapItems_id items, mapProperties_id entries]

theorem mapItems_id (items : Option Property) : mapItems id id items = items := by
  cases items with
  | none => rfl
  | some p => simp [mapItems, mapProperty_id p]

theorem mapProperties_id (ps : List Property) : mapProperties id id ps = ps := by
  cases ps with
  | nil => rfl
  | cons p rest => simp [mapProperties, mapProperty_id p, mapProperties_id rest]

end

end ClientTypes
