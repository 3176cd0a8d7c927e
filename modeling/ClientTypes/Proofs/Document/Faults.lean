import ClientTypes.Document.Reader

/-! What can be wrong with a value that is read into a document. The faults of the file and of its text lie
in front of the reading of the value: it has neither the file's name nor its bytes, and no step of it
has such a fault. -/
namespace ClientTypes

/-- The fault is one of the file or of its text, and not of the value that the text stands for. -/
def DocumentFault.OfFile : DocumentFault → Prop
  | .unreadable _ | .notADescription _ | .badEncoding | .badScalar _ => True
  | .danglingReference _ | .namelessParameter _ | .invalid _ | .noMembers | .notIterable | .noText | .endless =>
    False

/-- If a reading fails, the fault is not one of the file. -/
def Spares {α : Type} (x : Except DocumentFault α) : Prop := ∀ fault, x = .error fault → ¬ fault.OfFile

namespace Spares

variable {α β : Type} {x : Except DocumentFault α}

protected theorem ok (a : α) : Spares (.ok a) := by
  intro fault h
  cases h

protected theorem error {fault : DocumentFault} (h : ¬ fault.OfFile) : Spares (.error fault : Except _ α) := by
  rintro _ ⟨⟩
  exact h

theorem noMembers : Spares (.error .noMembers : Except _ α) := .error not_false

theorem notIterable : Spares (.error .notIterable : Except _ α) := .error not_false

theorem endless : Spares (.error .endless : Except _ α) := .error not_false

theorem dangling (reference : String) : Spares (.error (.danglingReference reference) : Except _ α) :=
  .error not_false

/-- A reading in two steps has the faults of either. -/
protected theorem bind {f : α → Except DocumentFault β} (hx : Spares x) (hf : ∀ a, Spares (f a)) :
    Spares (x >>= f) := by
  cases x with
  | ok a => exact hf a
  | error fault =>
      rintro _ ⟨⟩
      exact hx fault rfl

protected theorem map {f : α → β} (hx : Spares x) : Spares (x.map f) := by
  cases x with
  | ok a => exact .ok _
  | error fault =>
      rintro _ ⟨⟩
      exact hx fault rfl

protected theorem mapM {f : α → Except DocumentFault β} (hf : ∀ a, Spares (f a)) (as : List α) :
    Spares (as.mapM f) := by
  induction as with
  | nil => exact .ok _
  | cons a rest ih =>
      rw [List.mapM_cons]
      exact .bind (hf a) fun b => .bind ih fun more => .ok _

/-- A check names the parts of the value that have the wrong type. -/
theorem orThrow (checked : Checked α) : Spares (checked.orThrow DocumentFault.invalid) := by
  cases checked with
  | valid a => exact .ok a
  | invalid issues => exact .error not_false

end Spares

/-! ### Schemas -/

theorem extensionsOf_spares (entries : List (Scalar × Value)) : Spares (extensionsOf entries) := by
  induction entries with
  | nil => exact .ok _
  | cons entry rest ih =>
      obtain ⟨key, v⟩ := entry
      cases key with
      | text k => exact .map ih
      | _ => exact .noMembers

/-- In each of its roles a value is read without a fault of the file. -/
structure SchemaRoles.Spared (r : SchemaRoles) : Prop where
  schema : Spares (r.schema ())
  members : Spares (r.members ())
  properties : Spares (r.properties ())

section Readings

variable {entries : List (Scalar × Value)} {readings : List (Scalar × SchemaRoles)}
  (hReadings : ∀ e ∈ readings, e.2.Spared)

include hReadings

theorem roles?_spared {name : String} {r : SchemaRoles} (h : roles? readings name = some r) : r.Spared := by
  induction readings with
  | nil => cases h
  | cons entry rest ih =>
      rw [List.forall_mem_cons] at hReadings
      rw [roles?] at h
      split at h
      · cases h
        exact hReadings.1
      · exact ih hReadings.2 h

theorem propertiesOf_spares : Spares (propertiesOf readings) := by
  unfold propertiesOf
  split
  next r h => exact (roles?_spared hReadings h).properties
  · exact .ok _

theorem membersOf_spares (name : String) : Spares (membersOf readings name) := by
  unfold membersOf
  split
  next r h => exact (roles?_spared hReadings h).members
  · exact .ok _

theorem composedParts_spares : Spares (composedParts entries readings) :=
  .bind (propertiesOf_spares hReadings) fun _ => .bind (membersOf_spares hReadings _) fun _ =>
    .bind (membersOf_spares hReadings _) fun _ => .bind (membersOf_spares hReadings _) fun _ => .ok _

theorem arrayParts_spares : Spares (arrayParts readings) := by
  unfold arrayParts
  split
  next r h => exact .bind (roles?_spared hReadings h).schema fun _ => .ok _
  · exact .bind (.ok _) fun _ => .ok _

theorem mapValues?_spares {values : Except DocumentFault (Additional Schema)}
    (h : mapValues? entries readings = some values) : Spares values := by
  unfold mapValues? at h
  split at h
  · cases h
    exact .ok _
  · cases h
    exact .ok _
  next r hRoles =>
    cases h
    exact .map (roles?_spared hReadings hRoles).schema
  next r hRoles =>
    cases h
    exact .map (roles?_spared hReadings hRoles).schema
  · cases h

theorem mapParts_spares {values : Except DocumentFault (Additional Schema)}
    (h : mapValues? entries readings = some values) : Spares (mapParts entries readings values) :=
  .bind (propertiesOf_spares hReadings) fun _ => .bind (mapValues?_spares hReadings h) fun _ => .ok _

theorem objectParts_spares : Spares (objectParts entries readings) :=
  .bind (propertiesOf_spares hReadings) fun _ => .ok _

theorem kindParts_spares : Spares (kindParts entries readings) := by
  unfold kindParts
  split
  · exact .ok _
  · split
    · exact composedParts_spares hReadings
    · dsimp only
      split
      · split
        · exact arrayParts_spares hReadings
        · split
          next values hValues => exact mapParts_spares hReadings hValues
          next =>
            split
            · exact .ok _
            · exact objectParts_spares hReadings
      · split
        · exact arrayParts_spares hReadings
        · split
          next values hValues => exact mapParts_spares hReadings hValues
          next => exact objectParts_spares hReadings

theorem schemaOfEntries_spares : Spares (schemaOfEntries entries readings) :=
  .bind (.map (extensionsOf_spares entries)) fun _ => .bind (kindParts_spares hReadings) fun _ => .orThrow _

theorem allProperties_spares : Spares (allProperties readings) := by
  induction readings with
  | nil => exact .ok _
  | cons entry rest ih =>
      rw [List.forall_mem_cons] at hReadings
      exact .bind hReadings.1.schema fun _ => .bind (ih hReadings.2) fun _ => .ok _

end Readings

theorem allSchemas_spares {items : List SchemaRoles} (h : ∀ r ∈ items, r.Spared) :
    Spares (allSchemas items) := by
  induction items with
  | nil => exact .ok _
  | cons r rest ih =>
      rw [List.forall_mem_cons] at h
      exact .bind h.1.schema fun _ => .bind (ih h.2) fun _ => .ok _

theorem scalarRoles_spared (s : Scalar) : (scalarRoles s).Spared where
  schema := .ok _
  members := by
    unfold scalarRoles
    dsimp only
    split
    · exact .ok _
    · exact .notIterable
  properties := by
    unfold scalarRoles
    dsimp only
    split
    · exact .noMembers
    · exact .ok _

mutual

theorem rolesOfValue_spared (v : Value) : (SchemaRoles.ofValue v).Spared := by
  cases v with
  | scalar s => exact scalarRoles_spared s
  | list items =>
      refine ⟨.ok _, allSchemas_spares (rolesOfItems_spared items), ?_⟩
      unfold SchemaRoles.ofValue
      dsimp only
      split
      · exact .ok _
      · exact .noMembers
  | map entries =>
      have hReadings := rolesOfEntries_spared entries
      exact ⟨schemaOfEntries_spares hReadings, .ok _, allProperties_spares hReadings⟩
  | knot _ v => exact rolesOfValue_spared v
  | loop v => exact rolesOfValue_spared v
  | beyond => exact ⟨.endless, .endless, .endless⟩
termination_by sizeOf v

theorem rolesOfItems_spared (items : List Value) : ∀ r ∈ rolesOfItems items, r.Spared := by
  cases items with
  | nil => simp [rolesOfItems]
  | cons v rest => exact List.forall_mem_cons.mpr ⟨rolesOfValue_spared v, rolesOfItems_spared rest⟩
termination_by sizeOf items

theorem rolesOfEntries_spared (entries : List (Scalar × Value)) :
    ∀ e ∈ rolesOfEntries entries, e.2.Spared := by
  cases entries with
  | nil => simp [rolesOfEntries]
  | cons entry rest =>
      obtain ⟨key, v⟩ := entry
      exact List.forall_mem_cons.mpr ⟨rolesOfValue_spared v, rolesOfEntries_spared rest⟩
termination_by sizeOf entries

end

theorem Schema.ofValue_spares (v : Value) : Spares (Schema.ofValue v) := (rolesOfValue_spared v).schema

namespace Document

/-! ### Picking from values -/

theorem member_spares (v : Value) (name : String) (default : Value) : Spares (member v name default) := by
  unfold member
  split
  · exact .ok _
  · exact .noMembers

theorem entriesOrNone_spares (v : Value) : Spares (entriesOrNone v) := by
  unfold entriesOrNone
  split
  · split
    · exact .ok _
    · exact .noMembers
  · exact .ok _

theorem holdsText_spares (v : Value) (s : String) : Spares (holdsText v s) := by
  unfold holdsText
  split
  · exact .ok _
  · exact .ok _
  · exact .ok _
  · exact .notIterable

theorem valueAt_spares (v : Value) (name : String) : Spares (valueAt v name) := by
  unfold valueAt
  split
  · exact .ok _
  · exact .notIterable

theorem joined_spares (first second : Value) : Spares (joined first second) := by
  unfold joined
  split
  · exact .ok _
  · exact .ok _
  · exact .notIterable

theorem neededText_spares (text : Option String) : Spares (neededText text) := by
  cases text with
  | some s => exact .ok s
  | none => exact .error not_false

theorem pickContent_spares (content : Value) : Spares (pickContent content) := by
  unfold pickContent
  have hUnder (name : String) (contentType : Scalar) :
      Spares (do return (← member (← valueAt content name) "schema" .null, contentType)) :=
    .bind (valueAt_spares _ _) fun _ => .bind (member_spares _ _ _) fun _ => .ok _
  refine .bind (holdsText_spares _ _) fun isJson => ?_
  split
  · exact hUnder _ _
  · refine .bind (holdsText_spares _ _) fun isForm => ?_
    split
    · exact hUnder _ _
    · split
      · exact .ok _
      · exact .bind (member_spares _ _ _) fun _ => .ok _
      · exact .noMembers

theorem followFrom_spares (doc : Value) (fuel : Nat) (seen : List String) (v : Value) :
    Spares (followFrom doc fuel seen v) := by
  -- Every way to stop short names the reference; only going on depends on what comes later.
  fun_induction followFrom doc fuel seen v with
  | case1 => exact .ok _
  | case2 => exact .dangling _
  | case3 => exact .dangling _
  | case4 =>
      rename_i ih
      exact .bind (extensionsOf_spares _) ih
  | case5 => exact .dangling _
  | case6 => exact .noMembers
  | case7 => exact .ok _

theorem follow_spares (doc v : Value) : Spares (follow doc v) := followFrom_spares _ _ _ _

/-! ### Readings with a state -/

/-- From whatever state a reading starts, if it fails, the fault is not one of the file. -/
def SparesFrom {α : Type} (x : Reading α) : Prop := ∀ h, Spares (x h)

namespace SparesFrom

variable {α β : Type}

protected theorem pure (a : α) : SparesFrom (pure a) := fun _ => .ok _

protected theorem bind {x : Reading α} {f : α → Reading β} (hx : SparesFrom x)
    (hf : ∀ a, SparesFrom (f a)) : SparesFrom (x >>= f) :=
  fun h => .bind (hx h) fun r => hf r.1 r.2

protected theorem map {x : Reading α} {f : α → β} (hx : SparesFrom x) : SparesFrom (f <$> x) := by
  rw [map_eq_pure_bind]
  exact .bind hx fun a => .pure _

theorem lift {x : Except DocumentFault α} (hx : Spares x) : SparesFrom (liftM x : Reading α) :=
  fun _ => .bind hx fun _ => .ok _

theorem modifyGet (f : Hoisting → α × Hoisting) : SparesFrom (modifyGet f : Reading α) := fun _ => .ok _

theorem throwing {fault : DocumentFault} (h : ¬ fault.OfFile) : SparesFrom (throw fault : Reading α) :=
  fun _ => .error h

protected theorem mapM {f : α → Reading β} (hf : ∀ a, SparesFrom (f a)) (as : List α) :
    SparesFrom (as.mapM f) := by
  induction as with
  | nil => exact .pure _
  | cons a rest ih =>
      rw [List.mapM_cons]
      exact .bind (hf a) fun b => .bind ih fun more => .pure _

end SparesFrom

/-! ### Parameters and bodies -/

theorem readParameter_spares (parameter : Value) (entries : List (Scalar × Value)) :
    Spares (readParameter parameter entries) := by
  have hChecked (checked : Schema → Checked ParameterDef) :
      Spares (Schema.ofValue (parameterSchema entries) >>= fun schema => (checked schema).orThrow .invalid) :=
    .bind (Schema.ofValue_spares _) fun _ => .orThrow _
  unfold readParameter
  split
  · refine .bind (neededText_spares _) fun shown => ?_
    exact .bind (.error not_false) fun _ => hChecked _
  · exact hChecked _

theorem readParameters_spares (parameters : List Value) : Spares (readParameters parameters) := by
  induction parameters with
  | nil => exact .ok _
  | cons parameter rest ih =>
      rw [readParameters]
      split
      · split
        · exact ih
        · exact .bind (readParameter_spares _ _) fun _ => .bind ih fun _ => .ok _
      · exact .noMembers

theorem bodySource?_spares (body : Value) (parameters : List Value) :
    Spares (bodySource? body parameters) := by
  unfold bodySource?
  split
  · refine .bind (member_spares _ _ _) fun content => ?_
    refine .bind (pickContent_spares _) fun picked => ?_
    split
    split
    · exact .ok _
    · exact .ok _
    · exact .noMembers
  · split
    · exact .ok _
    · split
      · exact .ok _
      · exact .ok _

theorem readBody_spares (source : BodySource) : SparesFrom (readBody source) := by
  unfold readBody
  refine .bind (.lift (extensionsOf_spares _)) fun extensions => ?_
  refine .bind (.lift (Schema.ofValue_spares _)) fun schema => ?_
  exact .bind (.modifyGet _) fun name => .lift (.orThrow _)

theorem readOptionalBody_spares (source : Option BodySource) : SparesFrom (readOptionalBody source) := by
  cases source with
  | none => exact .pure _
  | some source => exact .map (readBody_spares source)

/-! ### Responses -/

theorem placeResponseSchema_spares (code : String) (schema : Option Schema) :
    SparesFrom (placeResponseSchema code schema) := by
  cases schema with
  | none => exact .pure _
  | some s => exact .modifyGet _

theorem readResponse_spares (doc : Value) (primary : Option String) (code : String) (raw : Value) :
    SparesFrom (readResponse doc primary code raw) := by
  unfold readResponse
  refine .bind (.lift (follow_spares _ _)) fun followed => ?_
  refine .bind (.lift ?_) fun rawSchema => ?_
  · refine .bind (holdsText_spares _ _) fun hasContent => ?_
    split
    · exact .bind (valueAt_spares _ _) fun _ => .bind (pickContent_spares _) fun _ => .ok _
    · exact member_spares _ _ _
  · split
    · refine .bind (.lift (extensionsOf_spares _)) fun extensions => ?_
      refine .bind (.lift ?_) fun schema => ?_
      · split
        · exact .ok _
        · exact .map (Schema.ofValue_spares _)
      · refine .bind (placeResponseSchema_spares _ _) fun name => ?_
        exact .bind (.lift (.orThrow _)) fun _ => .pure _
    · exact .throwing not_false

theorem readResponseEntries_spares (doc : Value) (primary : Option String) (entries : List (String × Value)) :
    SparesFrom (readResponseEntries doc primary entries) := by
  induction entries with
  | nil => exact .pure _
  | cons entry rest ih => exact .bind (readResponse_spares _ _ _ _) fun _ => .bind ih fun _ => .pure _

theorem readResponses_spares (doc responses : Value) : SparesFrom (readResponses doc responses) := by
  unfold readResponses
  split
  · exact .bind (.lift (.mapM (fun _ => neededText_spares _) _)) fun codes => readResponseEntries_spares _ _ _
  · exact .bind (.lift (.mapM (fun _ => neededText_spares _) _)) fun _ => .throwing not_false
  · exact .throwing not_false
  · exact .throwing not_false

/-! ### Operations -/

theorem defaultOperationId_spares (method : String) (path : Scalar) :
    Spares (defaultOperationId method path) := by
  cases path with
  | text p => exact .ok _
  | _ => exact .noMembers

theorem readOperation_spares (doc : Value) (path : Scalar) (method : String) (operation shared : Value) :
    SparesFrom (readOperation doc path method operation shared) := by
  unfold readOperation
  have hPart (name : String) (default : Value) :
      SparesFrom (liftM (member operation name default) : Reading Value) := .lift (member_spares _ _ _)
  refine .bind (hPart _ _) fun own => ?_
  refine .bind (.lift (joined_spares _ _)) fun listed => ?_
  refine .bind (.mapM (fun _ => .lift (follow_spares _ _)) _) fun followed => ?_
  refine .bind (.lift (readParameters_spares _)) fun parameters => ?_
  refine .bind (hPart _ _) fun ownBody => ?_
  refine .bind (.lift (follow_spares _ _)) fun rawBody => ?_
  refine .bind (.lift (bodySource?_spares _ _)) fun source => ?_
  refine .bind (readOptionalBody_spares _) fun body => ?_
  refine .bind (hPart _ _) fun givenId => ?_
  refine .bind (.lift ?_) fun operationId => ?_
  · split
    · exact .ok _
    · exact defaultOperationId_spares _ _
  refine .bind (hPart _ _) fun summary => ?_
  refine .bind (hPart _ _) fun notes => ?_
  refine .bind (hPart _ _) fun tags => ?_
  refine .bind (hPart _ _) fun rawResponses => ?_
  exact .bind (readResponses_spares _ _) fun responses => .lift (.orThrow _)

theorem readMethods_spares (doc : Value) (path : Scalar) (shared : Value) (entries : List (Scalar × Value)) :
    SparesFrom (readMethods doc path shared entries) := by
  induction entries with
  | nil => exact .pure _
  | cons entry rest ih =>
      obtain ⟨key, operation⟩ := entry
      cases key with
      | text key =>
          rw [readMethods]
          split
          · exact .bind (readOperation_spares _ _ _ _ _) fun _ => .bind ih fun _ => .pure _
          · exact ih
      | _ => exact .throwing not_false

theorem readPaths_spares (doc : Value) (entries : List (Scalar × Value)) :
    SparesFrom (readPaths doc entries) := by
  induction entries with
  | nil => exact .pure _
  | cons entry rest ih =>
      refine .bind (.lift (member_spares _ _ _)) fun shared => ?_
      refine .bind (.lift (entriesOrNone_spares _)) fun methods => ?_
      exact .bind (readMethods_spares _ _ _ _) fun _ => .bind ih fun _ => .pure _

/-! ### Documents -/

theorem declaredSchemas_spares (doc : Value) : Spares (declaredSchemas doc) := by
  refine .bind ?_ fun entries => allProperties_spares (rolesOfEntries_spared entries)
  refine .bind (member_spares _ _ _) fun components => ?_
  refine .bind (member_spares _ _ _) fun newer => ?_
  exact .bind (member_spares _ _ _) fun older => entriesOrNone_spares _

/-- Reading a value as a document never has a fault of the file that the value is from. -/
theorem ofValue_spares (doc : Value) : Spares (ofValue doc) := by
  refine .bind (declaredSchemas_spares doc) fun schemas => ?_
  refine .bind (member_spares _ _ _) fun rawPaths => ?_
  refine .bind (entriesOrNone_spares _) fun paths => ?_
  refine .bind (readPaths_spares doc paths _) fun read => ?_
  refine .bind (member_spares _ _ _) fun info => ?_
  refine .bind (member_spares _ _ _) fun title => ?_
  refine .bind (member_spares _ _ _) fun version => ?_
  exact .bind (neededText_spares _) fun shown => .orThrow _

end Document

end ClientTypes
