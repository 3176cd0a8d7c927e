import ClientTypes.Proofs.Model.Tidy
import ClientTypes.Proofs.Model.Written

/-! Compiled models as values lose nothing. A model, a property or an operation is read back from its
full form, and a record of marks from its sparse form, whatever is nested in them. -/
namespace ClientTypes

open Checked CrossReference

/-! ### Equal records -/

/-- The values without the number of their list. Two records are equal when they are equal without
such numbers: these say which lists are one, and not what is in them. -/
def AllowableValues.unshared (v : AllowableValues) : AllowableValues := { v with sharedList := none }

def Property.unshared : Property → Property := mapProperty id AllowableValues.unshared

def PropertyMarks.unshared (m : PropertyMarks Property) : PropertyMarks Property :=
  { m with entries := m.entries.map Property.unshared }

def Model.unshared (m : Model) : Model :=
  { m with
    vars := m.vars.map Property.unshared
    values := m.values.map AllowableValues.unshared }

theorem Property.unshared_eq (p : Property) : p.unshared = { p with
    items := p.items.map unshared
    values := p.values.map AllowableValues.unshared
    marks := p.marks.unshared } := by
  cases p
  simp [unshared, PropertyMarks.unshared, mapProperty, mapItems_eq_map, mapProperties_eq_map]

/-! ### Members, arms and values -/

section Values

variable (form : Form)

theorem EnumMember.ofValue_toValue (m : EnumMember) : ofValue (m.toValue form) = .valid m := by
  rw [ofValue, toValue, recordOf_write]
  simp

theorem Variant.ofValue_toValue (v : Variant) : ofValue (v.toValue form) = .valid v := by
  rw [ofValue, toValue, recordOf_write]
  simp

theorem AllowableValues.ofValue_toValue (v : AllowableValues) :
    ofValue (v.toValue form) = .valid v.unshared := by
  have hMembers := form.readBack_list "enum_vars" v.enumMembers fun m _ => m.ofValue_toValue form
  have hArms := form.readBack_list "variants" v.variants fun a _ => a.ofValue_toValue form
  rw [ofValue, toValue, recordOf_write]
  simp [hMembers, hArms, unshared]

/-- The members of an enumeration stand for values of the text format. -/
def AllowableValues.HasJsonMembers (v : AllowableValues) : Prop :=
  ∀ m ∈ v.enumMembers, m.value.IsJson

theorem EnumMember.isJson_toValue {m : EnumMember} (h : m.value.IsJson) :
    (m.toValue form).IsJson :=
  form.isJson_write (by simp) (by simp [Entry.always, h, Value.IsJson.text])

theorem Variant.isJson_toValue (v : Variant) : (v.toValue form).IsJson :=
  form.isJson_write (by simp) (by simp)

theorem AllowableValues.isJson_toValue {v : AllowableValues} (h : v.HasJsonMembers) :
    (v.toValue form).IsJson := by
  have hMembers := Entry.isJson_list "enum_vars" v.enumMembers fun m hm =>
    EnumMember.isJson_toValue form (h m hm)
  have hArms := Entry.isJson_list "variants" v.variants fun a _ => a.isJson_toValue form
  exact form.isJson_write (by simp) (by simp [hMembers, hArms])

end Values

/-! ### What is written of a property -/

section Written

variable (form : Form)

theorem writeItems_eq_map (items : Option Property) :
    writeItems form items = items.map (Property.toValue form) := by
  cases items <;> rfl

theorem writeProperties_eq_map (ps : List Property) :
    writeProperties form ps = ps.map (Property.toValue form) := by
  induction ps with
  | nil => rfl
  | cons p rest ih => rw [writeProperties, ih, List.map_cons]

/-- The marks of a property, field by field. -/
def PropertyMarks.written (m : PropertyMarks Property) : List Entry :=
  m.entryList (m.entries.map (Property.toValue form))

/-- A property, field by field. -/
def Property.written (p : Property) : List Entry :=
  [.always "base_name" (.text p.baseName), .always "name" (.text p.name),
   .always "datatype" (.text p.datatype), .optionalText "data_format" p.dataFormat,
   Container.entry p.container, .optional "items" (p.items.map (toValue form)),
   .optional "allowable_values" (p.values.map (·.toValue form)),
   .optionalText "description" p.description, .flag "required" p.required,
   .marks form (p.marks.written form)]

theorem PropertyMarks.toValue_eq (m : PropertyMarks Property) :
    m.toValue form = form.write (m.written form) := by
  rw [toValue, writeProperties_eq_map]
  rfl

theorem Property.toValue_eq (p : Property) : p.toValue form = form.write (p.written form) := by
  cases p
  rw [toValue, writeItems_eq_map, writeProperties_eq_map]
  rfl

/-- The element of a property is less deep than the property. -/
theorem Property.depth_item_lt {p item : Property} (hItem : p.items = some item) :
    (item.toValue form).depth < (p.toValue form).depth := by
  rw [toValue_eq form p]
  exact Form.depth_lt_write (e := .optional "items" (some (item.toValue form)))
    (by simp [written, hItem]) rfl

theorem PropertyMarks.depth_entry_lt {m : PropertyMarks Property} {e : Property}
    (hEntry : e ∈ m.entries) : (e.toValue form).depth < (form.write (m.written form)).depth := by
  have hList : (e.toValue form).depth <
      (Entry.list "x-rustgen-map-entries" (m.entries.map (Property.toValue form))).value.depth :=
    Value.depth_lt_list (List.mem_map_of_mem hEntry)
  refine Nat.lt_trans hList (Form.depth_lt_write (by simp [written, entryList]) ?_)
  simp [Entry.list, List.ne_nil_of_mem hEntry]

/-- The entries of a property are less deep than the property. -/
theorem Property.depth_entry_lt {p e : Property} (hEntry : e ∈ p.marks.entries) :
    (e.toValue form).depth < (p.toValue form).depth := by
  have hMarks : (Entry.marks form (p.marks.written form)).value.depth < (p.toValue form).depth := by
    rw [toValue_eq form p]
    refine Form.depth_lt_write (by simp [written]) ?_
    simp [Entry.marks, PropertyMarks.written, PropertyMarks.entryList, Entry.list,
      List.ne_nil_of_mem hEntry]
  exact Nat.lt_trans (PropertyMarks.depth_entry_lt form hEntry) hMarks

end Written

/-! ### Reading a property back -/

section ReadBack

variable {form : Form} {inner : Value → Checked Property}

/-- Marks are read back if their entries are. -/
theorem PropertyMarks.ofValueWith_write {m : PropertyMarks Property}
    (hEntries : ∀ e ∈ m.entries, inner (e.toValue form) = .valid e.unshared) :
    ofValueWith inner (form.write (m.written form)) = .valid m.unshared := by
  have hRead := form.readBack_list "x-rustgen-map-entries" m.entries hEntries
  rw [ofValueWith, recordOf_write, written, entryList]
  simp [hRead, unshared]

/-- A property is read back if its element and its entries are. -/
theorem Property.ofValueWith_toValue {p : Property}
    (hItems : ∀ item, p.items = some item → inner (item.toValue form) = .valid item.unshared)
    (hEntries : ∀ e ∈ p.marks.entries, inner (e.toValue form) = .valid e.unshared) :
    ofValueWith inner (p.toValue form) = .valid p.unshared := by
  have hItem := form.readBack_optional "items" p.items hItems fun item => by
    rw [toValue_eq]
    exact form.write_ne_null _
  have hValues := form.readBack_optional "allowable_values" p.values
    (fun v _ => v.ofValue_toValue form) fun v => form.write_ne_null _
  have hMarks := Form.readBack_marks (PropertyMarks.ofValueWith_write hEntries) rfl
  rw [ofValueWith, toValue_eq, recordOf_write, written]
  simp [hItem, hValues, hMarks, unshared_eq]

/-- Reading as far as the value is deep gives the property back. -/
theorem Property.ofValueWithin_toValue {limit : Nat} {p : Property}
    (hDepth : (p.toValue form).depth < limit) :
    ofValueWithin limit (p.toValue form) = .valid p.unshared := by
  induction limit generalizing p with
  | zero => exact absurd hDepth (Nat.not_lt_zero _)
  | succ limit ih =>
      refine ofValueWith_toValue (fun item hItem => ih ?_) fun e hEntry => ih ?_
      · have hLess := depth_item_lt form hItem
        omega
      · have hLess := depth_entry_lt form hEntry
        omega

variable (form)

theorem Property.ofValue_toValue (p : Property) : ofValue (p.toValue form) = .valid p.unshared :=
  ofValueWithin_toValue (Nat.lt_succ_self _)

theorem PropertyMarks.ofValue_toValue (m : PropertyMarks Property) :
    ofValue (m.toValue form) = .valid m.unshared := by
  rw [ofValue, toValue_eq]
  exact ofValueWith_write fun e _ => e.ofValue_toValue form

/-- Wherever a property has members of an enumeration, they stand for values of the text format. -/
def Property.HasJsonMembers (p : Property) : Prop :=
  Throughout (fun q => ∀ v, q.values = some v → v.HasJsonMembers) p

theorem PropertyMarks.isJson_write {m : PropertyMarks Property}
    (hEntries : ∀ e ∈ m.entries, (e.toValue form).IsJson) :
    (form.write (m.written form)).IsJson := by
  have hList := Entry.isJson_list "x-rustgen-map-entries" m.entries hEntries
  exact form.isJson_write (by simp [written, entryList]) (by simp [written, entryList, hList])

theorem Property.isJson_toValue {p : Property} (h : p.HasJsonMembers) :
    (p.toValue form).IsJson := by
  induction hDepth : (p.toValue form).depth using Nat.strongRecOn generalizing p with
  | ind depth ih =>
      subst hDepth
      obtain ⟨hOwn, hInItems, hInEntries⟩ := throughout_iff.mp h
      have hItem := Entry.isJson_optional "items" p.items fun item hItem =>
        ih _ (depth_item_lt form hItem) (hInItems item hItem) rfl
      have hValues := Entry.isJson_optional "allowable_values" p.values fun v hv =>
        AllowableValues.isJson_toValue form (hOwn v hv)
      have hMarks := Entry.isJson_marks <| PropertyMarks.isJson_write form fun e hEntry =>
        ih _ (depth_entry_lt form hEntry) (hInEntries e hEntry) rfl
      rw [toValue_eq]
      exact form.isJson_write (by simp [written]) (by simp [written, hItem, hValues, hMarks])

end ReadBack

/-! ### Marks -/

section Marks

variable (form : Form)

theorem FieldDefault.ofValue_toValue (d : FieldDefault) : ofValue (d.toValue form) = .valid d := by
  rw [ofValue, toValue, recordOf_write]
  simp

theorem FieldDefault.isJson_toValue (d : FieldDefault) : (d.toValue form).IsJson :=
  form.isJson_write (by simp) (by simp)

theorem ModelMarks.ofValue_toValue (m : ModelMarks) : ofValue (m.toValue form) = .valid m := by
  have hDefaults := form.readBack_list "x-rustgen-default-impl" m.defaults fun d _ =>
    d.ofValue_toValue form
  rw [ofValue, toValue, recordOf_write, entryList]
  simp [hDefaults]

theorem ModelMarks.isJson_toValue (m : ModelMarks) : (m.toValue form).IsJson := by
  have hDefaults := Entry.isJson_list "x-rustgen-default-impl" m.defaults fun d _ =>
    d.isJson_toValue form
  exact form.isJson_write (by simp [entryList]) (by simp [entryList, hDefaults])

theorem ParameterMarks.ofValue_write (m : ParameterMarks) :
    ofValue (form.write m.entryList) = .valid m := by
  rw [ofValue, recordOf_write, entryList]
  simp

theorem ParameterMarks.isJson_write (m : ParameterMarks) : (form.write m.entryList).IsJson :=
  form.isJson_write (by simp [entryList]) (by simp [entryList])

theorem ResponseMarks.ofValue_write (m : ResponseMarks) :
    ofValue (form.write m.entryList) = .valid m := by
  rw [ofValue, recordOf_write, entryList]
  simp

theorem ResponseMarks.isJson_write (m : ResponseMarks) : (form.write m.entryList).IsJson :=
  form.isJson_write (by simp [entryList]) (by simp [entryList])

theorem OperationMarks.ofValue_toValue (m : OperationMarks) :
    ofValue (m.toValue form) = .valid m := by
  rw [ofValue, toValue, recordOf_write, entryList]
  simp

theorem OperationMarks.isJson_toValue (m : OperationMarks) : (m.toValue form).IsJson :=
  form.isJson_write (by simp [entryList]) (by simp [entryList])

end Marks

/-! ### Models and operations -/

/-- The members of enumerations in a model stand for values of the text format. -/
structure Model.HasJsonMembers (m : Model) : Prop where
  vars : ∀ p ∈ m.vars, p.HasJsonMembers
  values : ∀ v, m.values = some v → v.HasJsonMembers

theorem Model.ofValue_toValue (m : Model) : ofValue m.toValue = .valid m.unshared := by
  have hVars := Form.full.readBack_list "vars" m.vars fun p _ => p.ofValue_toValue .full
  have hValues := Form.full.readBack_optional "allowable_values" m.values
    (fun v _ => v.ofValue_toValue .full) fun v => Form.full.write_ne_null _
  have hMarks := Form.readBack_marks (m.marks.ofValue_toValue .full) rfl
  rw [ofValue, toValue, recordOf_write]
  simp [writeProperties_eq_map, hVars, hValues, hMarks, unshared]

theorem Model.isJson_toValue {m : Model} (h : m.HasJsonMembers) : m.toValue.IsJson := by
  have hVars := Entry.isJson_list "vars" m.vars fun p hp =>
    Property.isJson_toValue .full (h.vars p hp)
  have hRequired := Entry.isJson_list "required_vars" m.requiredVars fun p hp =>
    Property.isJson_toValue .full (h.vars p (List.mem_filter.mp hp).1)
  have hValues := Entry.isJson_optional "allowable_values" m.values fun v hv =>
    AllowableValues.isJson_toValue .full (h.values v hv)
  have hMarks := Entry.isJson_marks (m.marks.isJson_toValue .full)
  exact Form.full.isJson_write (by simp)
    (by simp [writeProperties_eq_map, hVars, hRequired, hValues, hMarks])

theorem Parameter.ofValue_toValue (p : Parameter) : ofValue p.toValue = .valid p := by
  have hMarks := Form.readBack_marks (p.marks.ofValue_write .full) rfl
  rw [ofValue, toValue, recordOf_write]
  simp [hMarks]

theorem Parameter.isJson_toValue (p : Parameter) : p.toValue.IsJson := by
  have hMarks := Entry.isJson_marks (p.marks.isJson_write .full)
  exact Form.full.isJson_write (by simp) (by simp [hMarks])

theorem Response.ofValue_toValue (r : Response) : ofValue r.toValue = .valid r := by
  have hMarks := Form.readBack_marks (r.marks.ofValue_write .full) rfl
  rw [ofValue, toValue, recordOf_write]
  simp [hMarks]

theorem Response.isJson_toValue (r : Response) : r.toValue.IsJson := by
  have hMarks := Entry.isJson_marks (r.marks.isJson_write .full)
  exact Form.full.isJson_write (by simp) (by simp [hMarks])

theorem Operation.ofValue_toValue (o : Operation) : ofValue o.toValue = .valid o := by
  have hBody := Form.full.readBack_optional "body_param" o.bodyParam
    (fun p _ => p.ofValue_toValue) fun p => Form.full.write_ne_null _
  have hParameters (key : String) (ps : List Parameter) :=
    Form.full.readBack_list key ps fun p _ => p.ofValue_toValue
  have hResponses := Form.full.readBack_list "responses" o.responses fun r _ => r.ofValue_toValue
  have hMarks := Form.readBack_marks (o.marks.ofValue_toValue .full) rfl
  rw [ofValue, toValue, recordOf_write]
  simp [hBody, hParameters, hResponses, hMarks]

theorem Operation.isJson_toValue (o : Operation) : o.toValue.IsJson := by
  have hBody := Entry.isJson_optional "body_param" o.bodyParam fun p _ => p.isJson_toValue
  have hParameters (key : String) (ps : List Parameter) :=
    Entry.isJson_list key ps fun p _ => p.isJson_toValue
  have hResponses := Entry.isJson_list "responses" o.responses fun r _ => r.isJson_toValue
  have hMarks := Entry.isJson_marks (o.marks.isJson_toValue .full)
  exact Form.full.isJson_write (by simp) (by simp [hBody, hParameters, hResponses, hMarks])

/-! ### Nothing is lost -/

/-- What is written of records and of marks says everything about them. -/
structure NothingLost : Prop where
  property : ∀ p : Property, p.HasJsonMembers →
    (p.toValue .full).IsJson ∧ Property.ofValue (p.toValue .full) = .valid p.unshared
  model : ∀ m : Model, m.HasJsonMembers →
    m.toValue.IsJson ∧ Model.ofValue m.toValue = .valid m.unshared
  operation : ∀ o : Operation, o.toValue.IsJson ∧ Operation.ofValue o.toValue = .valid o
  /-- Marks are listed without those that have their default, and are read back all the same. -/
  propertyMarks : ∀ m : PropertyMarks Property,
    SameDefaults (m.written .sparse) (({} : PropertyMarks Property).written .sparse) ∧
      PropertyMarks.ofValue (m.toValue .sparse) = .valid m.unshared
  modelMarks : ∀ m : ModelMarks,
    SameDefaults (m.entryList .sparse) (({} : ModelMarks).entryList .sparse) ∧
      ModelMarks.ofValue (m.toValue .sparse) = .valid m
  parameterMarks : ∀ m : ParameterMarks,
    SameDefaults m.entryList ({} : ParameterMarks).entryList ∧
      ParameterMarks.ofValue (Form.sparse.write m.entryList) = .valid m
  responseMarks : ∀ m : ResponseMarks,
    SameDefaults m.entryList ({} : ResponseMarks).entryList ∧
      ResponseMarks.ofValue (Form.sparse.write m.entryList) = .valid m
  operationMarks : ∀ m : OperationMarks,
    SameDefaults m.entryList ({} : OperationMarks).entryList ∧
      OperationMarks.ofValue (m.toValue .sparse) = .valid m

theorem nothing_lost : NothingLost where
  property p h := ⟨p.isJson_toValue .full h, p.ofValue_toValue .full⟩
  model m h := ⟨m.isJson_toValue h, m.ofValue_toValue⟩
  operation o := ⟨o.isJson_toValue, o.ofValue_toValue⟩
  propertyMarks m := ⟨by simp [SameDefaults, PropertyMarks.written, PropertyMarks.entryList],
    m.ofValue_toValue .sparse⟩
  modelMarks m := ⟨by simp [SameDefaults, ModelMarks.entryList], m.ofValue_toValue .sparse⟩
  parameterMarks m := ⟨by simp [SameDefaults, ParameterMarks.entryList], m.ofValue_write .sparse⟩
  responseMarks m := ⟨by simp [SameDefaults, ResponseMarks.entryList], m.ofValue_write .sparse⟩
  operationMarks m := ⟨by simp [SameDefaults, OperationMarks.entryList], m.ofValue_toValue .sparse⟩

/-- An enumeration of values of different kinds. -/
def levelProperty : Property where
  baseName := "level"
  name := "level"
  datatype := "Level"
  values := some { kind := .enum, enumMembers := [⟨"ONE", .int 1⟩, ⟨"NO", .list [.bool false]⟩] }
  marks := { isEnum := true }

/-- A map with a documented entry. -/
def labelsProperty : Property where
  baseName := "labels"
  name := "labels"
  datatype := TargetType.openMap
  container := some .map
  marks := { entries := [levelProperty] }

theorem labelsProperty_hasJsonMembers : labelsProperty.HasJsonMembers := by
  have hLevel : levelProperty.HasJsonMembers := by
    refine throughout_iff.mpr ⟨?_, by simp [levelProperty], by simp [levelProperty]⟩
    simp [levelProperty, AllowableValues.HasJsonMembers, Value.IsJson.int, Value.IsJson.bool,
      Value.IsJson.list]
  refine throughout_iff.mpr ⟨by simp [labelsProperty], by simp [labelsProperty], fun e he => ?_⟩
  rw [List.mem_singleton.mp he]
  exact hLevel

theorem nothing_lost_labels : labelsProperty.HasJsonMembers ∧
    Property.ofValue (labelsProperty.toValue .full) = .valid labelsProperty ∧
    PropertyMarks.ofValue (labelsProperty.marks.toValue .sparse) = .valid labelsProperty.marks :=
  ⟨labelsProperty_hasJsonMembers, (nothing_lost.property _ labelsProperty_hasJsonMembers).2,
    (nothing_lost.propertyMarks labelsProperty.marks).2⟩

end ClientTypes
