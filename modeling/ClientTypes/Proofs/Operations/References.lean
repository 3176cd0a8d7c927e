import ClientTypes.Document.Hoisting
import ClientTypes.Proofs.Operations
import ClientTypes.Proofs.Naming.Reference
import ClientTypes.Proofs.Resolution.Typing

/-! A reference as the type of a body or a response, against the same reference as the type of a
property. A property looks its schema up in the table; a body or a response spells the whole
reference. The two types are the same where the reference spells what the table says. -/
namespace ClientTypes.Operations

open Naming Resolution

variable {setup : Setup} {s : Schema} {reference : String}

/-! ### The type of a property -/

/-- The type that the table gives a reference. -/
def tableType (setup : Setup) (reference : String) : String :=
  let target := (Pointer.ofReference reference).schema
  if setup.schemas.has target then typeName target else TargetType.fallback

theorem isTypeName_tableType (setup : Setup) (reference : String) :
    IsTypeName (tableType setup reference) := by
  unfold tableType
  dsimp only
  split
  · exact isTypeName_typeName _
  · have hSpelled := isTypeName_typeName "Value"
    rwa [show typeName "Value" = TargetType.fallback by decide +kernel] at hSpelled

theorem referenceProperty_gives (p : Property) (reference : String) (w : Workspace) :
    Gives (referenceProperty setup p reference) w fun p' =>
      p'.datatype = tableType setup reference ∧ p'.dataFormat = p.dataFormat := by
  unfold referenceProperty tableType
  dsimp only
  by_cases hHas : setup.schemas.has (Pointer.ofReference reference).schema = true
  · rw [if_pos hHas, if_pos hHas]
    refine .pure ?_
    dsimp only
    exact ⟨rfl, rfl⟩
  · rw [if_neg hHas, if_neg hHas]
    exact .bind (.modify _) fun _ _ _ => .pure ⟨rfl, rfl⟩

/-- A property that is a reference is always resolved, and gets the type that the table gives. -/
theorem resolveProperty_reference {r : Request} (hTarget : r.schema.target? = some reference)
    (hPlain : Unrefined setup.config r.schema (tableType setup reference)) (w : Workspace) :
    Gives (resolveProperty setup r) w fun p => p.datatype = tableType setup reference := by
  obtain ⟨fuel, hFuel⟩ : ∃ fuel, setup.budget r.schema = fuel + 1 :=
    Nat.exists_eq_add_one_of_ne_zero (Nat.succ_ne_zero _)
  rw [resolveProperty, hFuel, propertyWithin, propertyStep, typedProperty]
  simp only [hTarget]
  refine .bind (referenceProperty_gives _ reference w) fun p w' ⟨hType, hFormat⟩ => ?_
  refine .bind (.modify _) fun _ _ _ => .pure ?_
  rw [datatype_enrich (hType ▸ hPlain) (hType ▸ isTypeName_tableType ..) hFormat]
  exact hType

/-! ### The type of a body or a response -/

/-- The type that an operation writes for a reference: its whole name, unless that is empty. -/
def writtenType (setup : Setup) (reference : String) : String :=
  if referenceName reference = "" then tableType setup reference
  else typeName (referenceName reference)

theorem namedOrResolved_none (operationId place : String) (hTarget : s.target? = some reference)
    (hPlain : Unrefined setup.config s (tableType setup reference)) (w : Workspace) :
    Gives (namedOrResolved setup operationId place none s) w (· = tableType setup reference) :=
  .map (resolveProperty_reference (r := ⟨place, s, operationId, false⟩) hTarget hPlain w)

/-- The empty name counts as none. -/
theorem filter_name (name : String) :
    (some name).filter (· ≠ "") = if name = "" then none else some name := by
  by_cases hEmpty : name = "" <;> simp [Option.filter, hEmpty]

theorem namedOrResolved_reference (operationId place : String) (hTarget : s.target? = some reference)
    (hPlain : Unrefined setup.config s (tableType setup reference)) (w : Workspace) :
    Gives (namedOrResolved setup operationId place (some (referenceName reference)) s) w
      (· = writtenType setup reference) := by
  rw [namedOrResolved, filter_name, writtenType]
  by_cases hEmpty : referenceName reference = ""
  · rw [if_pos hEmpty, if_pos hEmpty]
    exact namedOrResolved_none operationId place hTarget hPlain w
  · rw [if_neg hEmpty, if_neg hEmpty]
    exact .pure rfl

theorem responseType_reference (operationId : String) {d : ResponseDef} (hSchema : d.schema = some s)
    (hName : d.schemaName = some (referenceName reference)) (hTarget : s.target? = some reference)
    (hPlain : Unrefined setup.config s (tableType setup reference)) (w : Workspace) :
    Gives (responseType setup operationId d) w (· = some (writtenType setup reference)) := by
  rw [responseType, hName, hSchema, filter_name, writtenType]
  by_cases hEmpty : referenceName reference = ""
  · rw [if_pos hEmpty, if_pos hEmpty]
    have hNone := namedOrResolved_none operationId "response" hTarget hPlain w
    exact .map (hNone.imp fun _ hType => congrArg some hType)
  · rw [if_neg hEmpty, if_neg hEmpty]
    exact .pure rfl

/-- The type of a body is what was found for its schema. -/
theorem buildBody_datatype {operationId type : String} {d : BodyDef} {w : Workspace}
    (hType : Gives (namedOrResolved setup operationId "body" d.schemaName d.schema) w (· = type)) :
    Ensures (buildBody setup operationId d) w fun body _ => body.datatype = type :=
  .bind hType.ensures fun _ _ hSame => .bind .any fun _ _ _ => .pure hSame

/-! ### Where the two agree -/

/-- The whole name of a reference spells the type that the table gives it. The path behind a known
schema has no letter and no digit; a schema whose name has none either may be followed by `Object`. An
unknown schema is spelled as the type of any value. -/
def Faithful (setup : Setup) (reference : String) : Prop :=
  let pointer := Pointer.ofReference reference
  referenceName reference = "" ∨
    if setup.schemas.has pointer.schema then
      camelPath pointer.path = "" ∨ camelize pointer.schema = "" ∧ camelPath pointer.path = "Object"
    else camelize (referenceName reference) = "Value"

instance (setup : Setup) (reference : String) : Decidable (Faithful setup reference) :=
  inferInstanceAs (Decidable (_ ∨ ite ..))

theorem writtenType_eq_iff : writtenType setup reference = tableType setup reference ↔
    Faithful setup reference := by
  unfold writtenType Faithful
  split
  next hEmpty => simp [hEmpty]
  next hGiven =>
    simp only [hGiven, false_or, tableType]
    split
    · exact typeName_referenceName_eq_iff reference
    · exact typeName_eq_value_iff _

theorem buildResponse_datatype {operationId : String} {declared : Option String} {d : ResponseDef}
    {w : Workspace} (hType : Gives (responseType setup operationId d) w (· = declared)) :
    Ensures (buildResponse setup operationId d) w fun response _ =>
      response.datatype = declared.map fun t => (setup.config.responseTypes.get? t).getD t :=
  .bind hType.ensures fun _ _ hSame => .bind .any fun _ _ _ => .pure (by rw [hSame])

/-- A reference gives a property the type of the table, and a body or a response of the same schema the
type that it spells. Both have a type from every workspace, and the types are the same exactly where the
reference is faithful to the table. For a response, this is before its type is replaced by one that is
set for it. -/
theorem referenced_types_agree_iff (h : Document.Hoisting) (operationId : String)
    (hTarget : s.target? = some reference)
    (hPlain : Unrefined setup.config s (tableType setup reference)) {r : Request}
    (hSchema : r.schema = s) (w w' : Workspace) :
    Gives (resolveProperty setup r) w fun p =>
      p.datatype = tableType setup reference ∧
      (∀ d : BodyDef, d.schema = s → d.schemaName = (h.placeBody s).1 →
        Gives (namedOrResolved setup operationId "body" d.schemaName d.schema) w' fun type =>
          Ensures (buildBody setup operationId d) w' (fun body _ => body.datatype = type) ∧
          (type = p.datatype ↔ Faithful setup reference)) ∧
      ∀ d : ResponseDef, d.schema = some s → d.schemaName = (h.placeResponse d.code s).1 →
        Gives (responseType setup operationId d) w' fun declared =>
          Ensures (buildResponse setup operationId d) w' (fun response _ => response.datatype =
            declared.map fun t => (setup.config.responseTypes.get? t).getD t) ∧
          (declared = some p.datatype ↔ Faithful setup reference) := by
  subst hSchema
  refine (resolveProperty_reference hTarget hPlain w).imp fun p hType => ⟨hType, ?_, ?_⟩
  · intro d hSame hPlaced
    have hName : d.schemaName = some (referenceName reference) := by
      rw [hPlaced, Document.Hoisting.placeBody, hTarget]
    rw [hName, hSame]
    have hWritten := namedOrResolved_reference operationId "body" hTarget hPlain w'
    refine hWritten.imp fun type hWrites => ?_
    subst hWrites
    rw [hType]
    exact ⟨buildBody_datatype (by rwa [hName, hSame]), writtenType_eq_iff⟩
  · intro d hSame hPlaced
    have hName : d.schemaName = some (referenceName reference) := by
      rw [hPlaced, Document.Hoisting.placeResponse, hTarget]
    have hWritten := responseType_reference operationId hSame hName hTarget hPlain w'
    refine hWritten.imp fun declared hWrites => ?_
    subst hWrites
    rw [hType, Option.some.injEq]
    exact ⟨buildResponse_datatype hWritten, writtenType_eq_iff⟩

/-! ### References in a table with one schema -/

/-- A table with the schema `Pet` only. -/
def petSetup : Setup where
  config := Config.shipped
  schemas := [("Pet", {})]

/-- A body with a reference, as it is read. -/
def referringBody (reference : String) : BodyDef where
  schema := { reference }
  schemaName := (Document.Hoisting.placeBody { schemas := [] } { reference }).1
  description := ""
  required := false
  contentType := "application/json"
  extensions := []

theorem referenced_types_agree_pet :
    Gives (resolveProperty petSetup ⟨"pet", { reference := "#/definitions/Pet" }, "Owner", true⟩) {}
      fun p => Gives (buildBody petSetup "addPet" (referringBody "#/definitions/Pet")) {}
        fun body => body.datatype = p.datatype := by
  have hAgree := @referenced_types_agree_iff petSetup { reference := "#/definitions/Pet" }
    "#/definitions/Pet" { schemas := [] } "addPet" rfl ⟨by decide, by decide +kernel⟩
    ⟨"pet", { reference := "#/definitions/Pet" }, "Owner", true⟩ rfl {} {}
  refine hAgree.imp fun p ⟨_, hBody, _⟩ => ?_
  obtain ⟨type, _, _, hTyped, hSame⟩ := hBody (referringBody "#/definitions/Pet") rfl rfl
  refine ⟨_, _, rfl, ?_⟩
  exact (hTyped _ _ rfl).trans (hSame.mpr (by decide +kernel))

/-- A response with a reference, as it is read. -/
def referringResponse (reference : String) : ResponseDef where
  code := "200"
  description := ""
  schema := some { reference }
  schemaName := (Document.Hoisting.placeResponse { schemas := [] } "200" { reference }).1
  isDefault := true
  extensions := []

/-- A reference that goes on into a schema gives a property the type of that schema, and a reference to
no schema the type of any value. A body and a response get types that no schema has. -/
theorem referenced_types_differ :
    (Gives (resolveProperty petSetup ⟨"pet", { reference := "#/components/schemas/Pet/allOf/0" }, "", true⟩)
        {} (fun p => p.datatype = "Pet") ∧
      Gives (buildBody petSetup "addPet" (referringBody "#/components/schemas/Pet/allOf/0")) {}
        fun body => body.datatype = "PetAllOf0") ∧
    Gives (resolveProperty petSetup ⟨"tag", { reference := "#/components/schemas/Tag" }, "", true⟩)
        {} (fun p => p.datatype = "Value") ∧
      Gives (responseType petSetup "getTag" (referringResponse "#/components/schemas/Tag")) {}
        fun declared => declared = some "Tag" := by
  refine ⟨⟨?_, ⟨_, _, rfl, by decide +kernel⟩⟩, ?_, ⟨_, _, rfl, by decide +kernel⟩⟩
  · have hTable := @resolveProperty_reference petSetup "#/components/schemas/Pet/allOf/0"
      ⟨"pet", { reference := "#/components/schemas/Pet/allOf/0" }, "", true⟩ rfl
      ⟨by decide, by decide +kernel⟩ {}
    exact hTable.imp fun p hType => hType.trans (by decide +kernel)
  · have hTable := @resolveProperty_reference petSetup "#/components/schemas/Tag"
      ⟨"tag", { reference := "#/components/schemas/Tag" }, "", true⟩ rfl
      ⟨by decide, by decide +kernel⟩ {}
    exact hTable.imp fun p hType => hType.trans (by decide +kernel)

end ClientTypes.Operations
