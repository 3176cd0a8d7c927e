import ClientTypes.Schema.Conversion
import ClientTypes.Proofs.Checked
import ClientTypes.Proofs.Ensures
import ClientTypes.Proofs.Resolution.Nesting

/-! What a value is read into, kind by kind. A schema is of one of six forms, and the schemas that it is
made of are those that the values in it were read into. Whatever holds of these in each of their roles
holds of the parts, so a property of all schemas that are read is an induction over the value. -/
namespace ClientTypes

/-- In each of its roles a value is read into schemas with a property, and into tables of properties
with another one. -/
structure SchemaRoles.Gives (P : Schema → Prop) (Q : List (Scalar × Schema) → Prop) (r : SchemaRoles) :
    Prop where
  schema : ∀ s, r.schema () = .ok s → P s
  members : ∀ ms, r.members () = .ok ms → ∀ m ∈ ms, P m
  properties : ∀ ps, r.properties () = .ok ps → Q ps

/-- The parts of a schema are of one of six forms: those of a reference, a composition, an array, a map,
a primitive type, or an object. The schemas among them have a property, and the table of properties has
another one. -/
inductive KindParts.OfForm (P : Schema → Prop) (Q : List (Scalar × Schema) → Prop) : KindParts → Prop
  | reference (reference : Value) : OfForm P Q { kind := .object, reference }
  | composed (type required : Value) {properties : List (Scalar × Schema)}
      {allOf oneOf anyOf : List Schema} (hProperties : Q properties) (hAllOf : ∀ m ∈ allOf, P m)
      (hOneOf : ∀ m ∈ oneOf, P m) (hAnyOf : ∀ m ∈ anyOf, P m) :
      OfForm P Q { kind := .composed, type, properties, required, allOf, oneOf, anyOf }
  | array {items : Schema} (hItems : P items) :
      OfForm P Q { kind := .array, type := .text "array", items := some items }
  | map (required : Value) {properties : List (Scalar × Schema)} {additional : Additional Schema}
      (hProperties : Q properties) (hValues : additional = .anything ∨ ∃ c, additional = .each c ∧ P c) :
      OfForm P Q { kind := .map, type := .text "object", properties, required, additional }
  | primitive {type : String} (hType : type ∈ primitiveTypes) :
      OfForm P Q { kind := .primitive, type := .text type }
  | object (required : Value) {properties : List (Scalar × Schema)} {additional : Additional Schema}
      (hProperties : Q properties) (hNone : ∀ c, additional ≠ .each c) :
      OfForm P Q { kind := .object, type := .text "object", properties, required, additional }

section Kinds

variable {P : Schema → Prop} {Q : List (Scalar × Schema) → Prop}
  {readings : List (Scalar × SchemaRoles)} (hReadings : ∀ e ∈ readings, e.2.Gives P Q)

include hReadings

theorem roles?_gives {name : String} {r : SchemaRoles} (h : roles? readings name = some r) :
    r.Gives P Q := by
  induction readings with
  | nil => cases h
  | cons entry rest ih =>
      rw [List.forall_mem_cons] at hReadings
      unfold roles? at h
      split at h
      · cases h
        exact hReadings.1
      · exact ih hReadings.2 h

theorem propertiesOf_gives (hNone : Q []) {ps : List (Scalar × Schema)}
    (h : propertiesOf readings = .ok ps) : Q ps := by
  unfold propertiesOf at h
  split at h
  next r hRole => exact (roles?_gives hReadings hRole).properties ps h
  next =>
    cases h
    exact hNone

theorem membersOf_gives {name : String} {ms : List Schema} (h : membersOf readings name = .ok ms) :
    ∀ m ∈ ms, P m := by
  unfold membersOf at h
  split at h
  next r hRole => exact (roles?_gives hReadings hRole).members ms h
  next =>
    cases h
    simp

variable {entries : List (Scalar × Value)} {own : KindParts}

theorem composedParts_form (hNone : Q []) (h : composedParts entries readings = .ok own) :
    own.OfForm P Q := by
  obtain ⟨properties, hProperties, h⟩ := ok_of_bind h
  obtain ⟨allOf, hAllOf, h⟩ := ok_of_bind h
  obtain ⟨oneOf, hOneOf, h⟩ := ok_of_bind h
  obtain ⟨anyOf, hAnyOf, h⟩ := ok_of_bind h
  cases h
  exact .composed _ _ (propertiesOf_gives hReadings hNone hProperties)
    (membersOf_gives hReadings hAllOf) (membersOf_gives hReadings hOneOf)
    (membersOf_gives hReadings hAnyOf)

theorem arrayParts_form (hObject : P { type := some "object" }) (h : arrayParts readings = .ok own) :
    own.OfForm P Q := by
  unfold arrayParts at h
  split at h
  next r hRole =>
    obtain ⟨items, hItems, h⟩ := ok_of_bind h
    cases h
    exact .array ((roles?_gives hReadings hRole).schema items hItems)
  next =>
    cases h
    exact .array hObject

theorem mapValues?_gives {values : Except DocumentFault (Additional Schema)}
    {additional : Additional Schema} (h : mapValues? entries readings = some values)
    (hValues : values = .ok additional) : additional = .anything ∨ ∃ c, additional = .each c ∧ P c := by
  have hRead {r : SchemaRoles} (hRole : roles? readings "additionalProperties" = some r)
      (hSchema : (r.schema ()).map Additional.each = .ok additional) :
      additional = .anything ∨ ∃ c, additional = .each c ∧ P c := by
    obtain ⟨c, hc, rfl⟩ := ok_of_map hSchema
    exact Or.inr ⟨c, rfl, (roles?_gives hReadings hRole).schema c hc⟩
  unfold mapValues? at h
  split at h
  · cases h
    cases hValues
    exact Or.inl rfl
  · cases h
    cases hValues
    exact Or.inl rfl
  next _ _ _ _ hRole =>
    cases h
    exact hRead hRole hValues
  next _ _ _ hRole =>
    cases h
    exact hRead hRole hValues
  · cases h

theorem mapParts_form (hNone : Q []) {values : Except DocumentFault (Additional Schema)}
    (hValues : mapValues? entries readings = some values)
    (h : mapParts entries readings values = .ok own) : own.OfForm P Q := by
  obtain ⟨properties, hProperties, h⟩ := ok_of_bind h
  obtain ⟨additional, hAdditional, h⟩ := ok_of_bind h
  cases h
  exact .map _ (propertiesOf_gives hReadings hNone hProperties)
    (mapValues?_gives hReadings hValues hAdditional)

theorem objectParts_form (hNone : Q []) (h : objectParts entries readings = .ok own) :
    own.OfForm P Q := by
  obtain ⟨properties, hProperties, h⟩ := ok_of_bind h
  cases h
  refine .object _ (propertiesOf_gives hReadings hNone hProperties) fun c hEach => ?_
  split at hEach <;> cases hEach

/-- The rules lead to one of the six forms, whichever of them is the first that fits. -/
theorem kindParts_form (hNone : Q []) (hObject : P { type := some "object" })
    (h : kindParts entries readings = .ok own) : own.OfForm P Q := by
  unfold kindParts at h
  split at h
  · cases h
    exact .reference _
  · split at h
    · exact composedParts_form hReadings hNone h
    · dsimp only at h
      split at h
      next t hType =>
        split at h
        · exact arrayParts_form hReadings hObject h
        · split at h
          next values hValues => exact mapParts_form hReadings hNone hValues h
          next =>
            split at h
            next hPrimitive =>
              cases h
              rw [hType]
              exact .primitive (List.contains_iff_mem.mp hPrimitive)
            next => exact objectParts_form hReadings hNone h
      next =>
        split at h
        · exact arrayParts_form hReadings hObject h
        · split at h
          next values hValues => exact mapParts_form hReadings hNone hValues h
          next => exact objectParts_form hReadings hNone h

end Kinds

/-! ### The schema of the parts -/

/-- A schema is put together from parts: its kind and the schemas among the parts are taken over, texts and
keys are checked. -/
structure KindParts.Makes (own : KindParts) (s : Schema) : Prop where
  kind : s.kind = own.kind
  type : Checked.optional .text own.type = .valid s.type
  reference : Checked.optional .text own.reference = .valid s.reference
  properties : own.properties = s.properties.map fun e => (.text e.1, e.2)
  items : s.items = own.items
  additional : s.additional = own.additional
  allOf : s.allOf = own.allOf
  oneOf : s.oneOf = own.oneOf
  anyOf : s.anyOf = own.anyOf

theorem checkedProperties_eq {properties : List (Scalar × Schema)} {t : List (String × Schema)}
    (h : checkedProperties properties = .valid t) :
    properties = t.map fun e => (.text e.1, e.2) := by
  induction properties generalizing t with
  | nil =>
      cases h
      rfl
  | cons entry rest ih =>
      obtain ⟨key, s⟩ := entry
      obtain ⟨_, more, hFirst, hMore, rfl⟩ := Checked.valid_of_seq h
      obtain ⟨name, hName, rfl⟩ := Checked.valid_of_map hFirst
      rw [ih hMore, Checked.textKey_eq_valid.mp hName]
      rfl

theorem makes_of_assemble {common : CommonParts} {own : KindParts} {s : Schema}
    (h : assemble common own = .valid s) : own.Makes s := by
  obtain ⟨_, _, h8, _, rfl⟩ := Checked.valid_of_seq h
  obtain ⟨_, _, h7, _, rfl⟩ := Checked.valid_of_seq h8
  obtain ⟨_, _, h6, _, rfl⟩ := Checked.valid_of_seq h7
  obtain ⟨_, _, h5, hProperties, rfl⟩ := Checked.valid_of_seq h6
  obtain ⟨_, _, h4, _, rfl⟩ := Checked.valid_of_seq h5
  obtain ⟨_, _, h3, _, rfl⟩ := Checked.valid_of_seq h4
  obtain ⟨_, _, h2, hReference, rfl⟩ := Checked.valid_of_seq h3
  obtain ⟨_, _, h1, _, rfl⟩ := Checked.valid_of_seq h2
  obtain ⟨_, hType, rfl⟩ := Checked.valid_of_map h1
  exact {
    kind := rfl
    type := Checked.valid_of_inside hType
    reference := Checked.valid_of_inside hReference
    properties := checkedProperties_eq (Checked.valid_of_inside hProperties)
    items := rfl
    additional := rfl
    allOf := rfl
    oneOf := rfl
    anyOf := rfl }

/-- A mapping is read into a schema of one of the six forms. -/
theorem form_of_schemaOfEntries {P : Schema → Prop} {Q : List (Scalar × Schema) → Prop}
    {entries : List (Scalar × Value)} {readings : List (Scalar × SchemaRoles)} {s : Schema}
    (hReadings : ∀ e ∈ readings, e.2.Gives P Q) (hNone : Q []) (hObject : P { type := some "object" })
    (h : schemaOfEntries entries readings = .ok s) : ∃ own : KindParts, own.OfForm P Q ∧ own.Makes s := by
  obtain ⟨common, _, h⟩ := ok_of_bind h
  obtain ⟨own, hOwn, h⟩ := ok_of_bind h
  exact ⟨own, kindParts_form hReadings hNone hObject hOwn, makes_of_assemble (Checked.valid_of_orThrow h)⟩

namespace KindParts.OfForm

variable {P : Schema → Prop} {Q : List (Scalar × Schema) → Prop} {own : KindParts}
  (hForm : own.OfForm P Q)

include hForm

theorem properties (hNone : Q []) : Q own.properties := by
  cases hForm with
  | reference => exact hNone
  | composed _ _ hProperties => exact hProperties
  | array => exact hNone
  | map _ hProperties => exact hProperties
  | primitive => exact hNone
  | object _ hProperties => exact hProperties

theorem items {c : Schema} (hc : own.items = some c) : P c := by
  cases hForm with
  | array hItems => exact Option.some.inj hc ▸ hItems
  | _ => cases hc

theorem additional {c : Schema} (hc : own.additional = .each c) : P c := by
  cases hForm with
  | map _ _ hValues =>
      rcases hValues with hAny | ⟨c', hEach, hGood⟩
      · cases hAny.symm.trans hc
      · cases hEach.symm.trans hc
        exact hGood
  | object _ _ hNone => exact absurd hc (hNone c)
  | _ => cases hc

theorem members {m : Schema} (hm : m ∈ own.oneOf ∨ m ∈ own.anyOf ∨ m ∈ own.allOf) : P m := by
  cases hForm with
  | composed _ _ _ hAllOf hOneOf hAnyOf => exact hm.elim (hOneOf m) (Or.rec (hAnyOf m) (hAllOf m))
  | _ => simp at hm

/-- What a schema is made of was read from the values that it was made of. -/
theorem component (hNone : Q []) (hSchemas : ∀ ps, Q ps → ∀ e ∈ ps, P e.2) {s c : Schema}
    (h : own.Makes s) (hc : Component s c) : P c := by
  rcases component_iff.mp hc with hProperty | hItems | hEach | hMember
  · obtain ⟨e, he, rfl⟩ := List.mem_map.mp hProperty
    refine hSchemas _ (hForm.properties hNone) (.text e.1, e.2) ?_
    rw [h.properties]
    exact List.mem_map_of_mem he
  · exact hForm.items (h.items.symm.trans hItems)
  · exact hForm.additional (h.additional.symm.trans hEach)
  · rw [h.oneOf, h.anyOf, h.allOf] at hMember
    exact hForm.members hMember

end KindParts.OfForm

/-! ### Lists and tables of schemas -/

theorem allSchemas_gives {P : Schema → Prop} {items : List SchemaRoles}
    (hItems : ∀ r ∈ items, ∀ s, r.schema () = .ok s → P s) {ms : List Schema}
    (h : allSchemas items = .ok ms) : ∀ m ∈ ms, P m := by
  induction items generalizing ms with
  | nil =>
      cases h
      simp
  | cons r rest ih =>
      rw [List.forall_mem_cons] at hItems
      obtain ⟨first, hFirst, h⟩ := ok_of_bind h
      obtain ⟨more, hMore, h⟩ := ok_of_bind h
      cases h
      exact List.forall_mem_cons.mpr ⟨hItems.1 first hFirst, ih hItems.2 hMore⟩

theorem allProperties_gives {P : Schema → Prop} {readings : List (Scalar × SchemaRoles)}
    (hReadings : ∀ e ∈ readings, ∀ s, e.2.schema () = .ok s → P s)
    {ps : List (Scalar × Schema)} (h : allProperties readings = .ok ps) :
    ps.map Prod.fst = readings.map Prod.fst ∧ ∀ e ∈ ps, P e.2 := by
  induction readings generalizing ps with
  | nil =>
      cases h
      simp
  | cons entry rest ih =>
      rw [List.forall_mem_cons] at hReadings
      obtain ⟨first, hFirst, h⟩ := ok_of_bind h
      obtain ⟨more, hMore, h⟩ := ok_of_bind h
      cases h
      obtain ⟨hKeys, hSchemas⟩ := ih hReadings.2 hMore
      exact ⟨by rw [List.map_cons, hKeys, List.map_cons],
        List.forall_mem_cons.mpr ⟨hReadings.1 first hFirst, hSchemas⟩⟩

theorem rolesOfItems_eq_map (items : List Value) : rolesOfItems items = items.map .ofValue := by
  induction items with
  | nil => rfl
  | cons v rest ih => rw [rolesOfItems, ih, List.map_cons]

theorem rolesOfEntries_eq_map (entries : List (Scalar × Value)) :
    rolesOfEntries entries = entries.map fun e => (e.1, .ofValue e.2) := by
  induction entries with
  | nil => rfl
  | cons entry rest ih => rw [rolesOfEntries, ih, List.map_cons]

theorem forall_of_replicate {P : Schema → Prop} (hEmpty : P {}) {n : Nat} {ms : List Schema}
    (h : List.replicate n {} = ms) : ∀ m ∈ ms, P m := by
  intro m hm
  rw [← h] at hm
  rw [List.eq_of_mem_replicate hm]
  exact hEmpty

/-- A scalar is read into nothing but schemas without content. -/
theorem scalarRoles_gives {P : Schema → Prop} {Q : List (Scalar × Schema) → Prop} (hEmpty : P {})
    (hNone : Q []) (s : Scalar) : (scalarRoles s).Gives P Q := by
  refine ⟨fun t ht => ?_, fun ms hms => ?_, fun ps hps => ?_⟩
  · cases ht
    exact hEmpty
  · unfold scalarRoles at hms
    dsimp only at hms
    split at hms
    · exact forall_of_replicate hEmpty (Except.ok.inj hms)
    · cases hms
  · unfold scalarRoles at hps
    dsimp only at hps
    split at hps
    · cases hps
    · cases hps
      exact hNone

end ClientTypes
