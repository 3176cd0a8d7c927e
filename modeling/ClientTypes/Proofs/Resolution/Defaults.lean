import ClientTypes.Proofs.Resolution.Steady
import ClientTypes.Proofs.Schema.WellFormed

/-! Defaults of the resolver that no schema of a description leads to. A primitive schema whose type is
not primitive would be an open object, and an array without items one of objects. Both defaults are
there for schemas that are put together by hand; schemas that are read never take them, wherever
resolving leads, so any other default would do as well. -/
namespace ClientTypes.Resolution

/-- Resolving the schema takes a default: its type is not a primitive one, or its items are missing. -/
def fallsBack (s : Schema) : Bool :=
  s.target?.isNone && match s.kind with
    | .primitive => TargetType.ofPrimitive s.type s.format == TargetType.openObject
    | .array => s.items.isNone
    | _ => false

/-- Resolve properties, and do something else `instead` where a default would be taken. -/
def detour (setup : Setup) (instead : Resolve) : (fuel : Nat) → Resolve
  | 0, _ => halt .endless
  | fuel + 1, r =>
    if fallsBack r.schema then instead r else propertyStep setup (detour setup instead fuel) r

theorem ofPrimitive_ne_openObject {type : String} (h : type ∈ primitiveTypes) (format : Option String) :
    TargetType.ofPrimitive (some type) format ≠ TargetType.openObject := by
  simp only [primitiveTypes, List.mem_cons, List.not_mem_nil, or_false] at h
  rcases h with rfl | rfl | rfl | rfl
  · change TargetType.ofText format ≠ _
    unfold TargetType.ofText
    split <;> decide
  · change TargetType.ofInteger format ≠ _
    unfold TargetType.ofInteger
    split <;> decide
  · change TargetType.ofNumber format ≠ _
    unfold TargetType.ofNumber
    split <;> decide
  · change "bool" ≠ TargetType.openObject
    decide

theorem fallsBack_of_wellShaped {s : Schema} (h : s.WellShaped) : fallsBack s = false := by
  unfold fallsBack
  cases hKind : s.kind with
  | primitive =>
      obtain ⟨⟨type, hPrimitive, hType⟩, -, -⟩ := h.primitive hKind
      have hOther := ofPrimitive_ne_openObject hPrimitive s.format
      simp [hType, hOther]
  | array =>
      obtain ⟨items, hItems⟩ := h.array hKind
      simp [hItems]
  | _ => simp

variable {setup : Setup}

theorem closedUnderAsking_wellFormed (hTable : ∀ e ∈ setup.schemas, e.2.WellFormed) :
    ClosedUnderAsking setup Schema.WellFormed :=
  closedUnderAsking_of_contained Schema.isRead_empty.wellFormed (fun _ _ h => h.contained)
    hTable

variable (hTable : ∀ e ∈ setup.schemas, e.2.WellFormed) (instead : Resolve) (fuel : Nat)

include hTable

/-- Among well-formed schemas the other way is never gone, at any depth. -/
theorem detour_eq {r : Request} (h : r.schema.WellFormed) :
    detour setup instead fuel r = propertyWithin setup fuel r := by
  induction fuel generalizing r with
  | zero => rfl
  | succ fuel ih =>
      have hStays : fallsBack r.schema = false := fallsBack_of_wellShaped (h _ .refl)
      rw [detour, hStays]
      exact SameRun.true_iff.mp (propertyStep_congr (fun r hr => SameRun.true_iff.mpr (ih hr))
        (closedUnderAsking_wellFormed hTable _ h) trivial)

theorem modelStep_detour (name : String) {s : Schema} (h : s.WellFormed) :
    modelStep setup (detour setup instead fuel) name s =
      modelStep setup (propertyWithin setup fuel) name s :=
  SameRun.true_iff.mp (modelStep_congr
    (fun _ hr => SameRun.true_iff.mpr (detour_eq hTable instead fuel hr))
    (closedUnderAsking_wellFormed hTable _ h) trivial name fun _ => h)

theorem unionValues_detour (name owner : String) {members : List Schema}
    (h : ∀ m ∈ members, m.WellFormed) :
    unionValues setup (detour setup instead fuel) name owner members =
      unionValues setup (propertyWithin setup fuel) name owner members :=
  SameRun.true_iff.mp (unionValues_congr
    (fun _ hr => SameRun.true_iff.mpr (detour_eq hTable instead fuel hr)) name owner h)

omit hTable

/-- Every schema that is read is well shaped at every depth. So when the schemas of the table are read ones,
resolving read schemas as properties, models, or members of a union gives what it gives when
something else is done wherever a default would be taken. -/
theorem read_schemas_take_no_default :
    (∀ v s, Schema.ofValue v = .ok s → s.WellFormed) ∧
      ∀ setup : Setup, (∀ e ∈ setup.schemas, e.2.IsRead) → ∀ (instead : Resolve) (fuel : Nat),
        (∀ r : Request, r.schema.IsRead →
          detour setup instead fuel r = propertyWithin setup fuel r) ∧
        (∀ (name : String) (s : Schema), s.IsRead →
          modelStep setup (detour setup instead fuel) name s =
            modelStep setup (propertyWithin setup fuel) name s) ∧
        ∀ (name owner : String) (members : List Schema), (∀ m ∈ members, m.IsRead) →
          unionValues setup (detour setup instead fuel) name owner members =
            unionValues setup (propertyWithin setup fuel) name owner members := by
  refine ⟨fun v s hRead => Schema.IsRead.wellFormed ⟨v, hRead⟩, fun setup hSchemas instead fuel => ?_⟩
  have hTable : ∀ e ∈ setup.schemas, e.2.WellFormed := fun e he => (hSchemas e he).wellFormed
  refine ⟨fun r hr => detour_eq hTable instead fuel hr.wellFormed,
    fun name s hs => modelStep_detour hTable instead fuel name hs.wellFormed,
    fun name owner members hm => unionValues_detour hTable instead fuel name owner fun m hMember =>
      (hm m hMember).wellFormed⟩

/-- A pet with a name, and with tags that are not described. -/
def taggedPetValue : Value :=
  .record [("type", .text "object"), ("properties", .record
    [("name", .record [("type", .text "string")]), ("tags", .record [("type", .text "array")])])]

/-- The schema that is read from it. The items of the tags are there. -/
def taggedPet : Schema where
  type := some "object"
  properties :=
    [("name", { kind := .primitive, type := some "string" }),
     ("tags", { kind := .array, type := some "array", items := some { type := some "object" } })]

def taggedPetSetup : Setup where
  config := Config.shipped
  schemas := [("Pet", taggedPet)]

/-- Stopping where a default would be taken does not stop a pet. Tags that are put together by hand, without
items, would take one. -/
theorem read_schemas_take_no_default_pet :
    Schema.ofValue taggedPetValue = .ok taggedPet ∧ taggedPet.WellFormed ∧
      modelStep taggedPetSetup (detour taggedPetSetup (fun _ => halt .noText) 3) "Pet" taggedPet =
        modelStep taggedPetSetup (propertyWithin taggedPetSetup 3) "Pet" taggedPet ∧
      (modelStep taggedPetSetup (detour taggedPetSetup (fun _ => halt .noText) 3) "Pet" taggedPet
        {}).toOption.map (fun r => r.1.vars.map (·.datatype)) =
          some ["String", "Vec<HashMap<String, Value>>"] ∧
      fallsBack { kind := .array, type := some "array" } = true := by
  obtain ⟨hFormed, hDetour⟩ := read_schemas_take_no_default
  have hRead : Schema.ofValue taggedPetValue = .ok taggedPet := rfl
  have hTable : ∀ e ∈ taggedPetSetup.schemas, e.2.IsRead :=
    List.forall_mem_singleton.mpr ⟨taggedPetValue, hRead⟩
  obtain ⟨-, hModel, -⟩ := hDetour taggedPetSetup hTable (fun _ => halt .noText) 3
  exact ⟨hRead, hFormed taggedPetValue taggedPet hRead,
    hModel "Pet" taggedPet ⟨taggedPetValue, hRead⟩, by decide +kernel, rfl⟩

end ClientTypes.Resolution
