import ClientTypes.Proofs.Resolution.Asked
import ClientTypes.Proofs.Resolution.Run

/-! What the small steps keep, resolving keeps: each step of the resolver is made of
reports, numbers for lists and new synthetic models, given that resolving the
properties inside is, and so is resolving to any depth. New are the models of the
schemas that are asked for and those of unions. Synthetic models are only added, for
one. -/
namespace ClientTypes.Resolution

variable {inv : Workspace → Prop}

theorem enumMembers_preserves (values : List Value) : Preserves inv (enumMembers values) := by
  induction values with
  | nil => exact .pure _
  | cons v rest ih =>
      exact .bind (.textOf v) fun _ => .bind ih fun _ => .pure _

theorem enumValues_preserves (values : List Value) : Preserves inv (enumValues values) :=
  .bind (enumMembers_preserves values) fun _ => .pure _

/-- The values of a union are its arms. -/
theorem unionValues_arms {setup : Setup} {resolve : Resolve} {w : Workspace} (name owner : String)
    (members : List Schema) :
    Ensures (unionValues setup resolve name owner members) w fun values _ =>
      values.isUnion = true ∧ values.enumMembers = [] := by
  refine .bind .any fun variants _ _ => .pure ⟨?_, rfl⟩
  unfold unionKind
  split <;> rfl

/-- The models that are registered on the way are new: those that good schemas are resolved to, and
those that show the arms of a union. -/
structure Registers (setup : Setup) (resolve : Resolve) (good : Schema → Prop) (new : Model → Prop) :
    Prop where
  model : ∀ name s w m w1, good s → modelStep setup resolve name s w = .ok (m, w1) → new m
  union : ∀ name description values, values.isUnion = true → values.enumMembers = [] →
    new (unionModel name description values)

theorem registers_all (setup : Setup) (resolve : Resolve) (good : Schema → Prop) :
    Registers setup resolve good fun _ => True :=
  ⟨fun _ _ _ _ _ _ _ => trivial, fun _ _ _ _ _ => trivial⟩

section Steps

variable {setup : Setup} {resolve : Resolve} {good : Schema → Prop} {new : Model → Prop}
  (hSteps : KeptBySteps new inv) (hNew : Registers setup resolve good new)
  (hResolve : ∀ r, good r.schema → Preserves inv (resolve r))

include hResolve

theorem arrayProperty_preserves (p : Property) {s : Schema} (owner : String)
    (h : good (s.items.getD {})) : Preserves inv (arrayProperty resolve p s owner) := by
  refine .bind (hResolve _ h) fun item => ?_
  dsimp only
  split
  · exact .pure _
  · exact .pure _

theorem mapProperty_preserves (p : Property) {s : Schema} (owner : String)
    (h : ∀ c, s.additional = .each c → good c) : Preserves inv (mapProperty resolve p s owner) := by
  unfold mapProperty
  split
  next inner hInner => exact .bind (hResolve _ (h inner hInner)) fun _ => .pure _
  next => exact .pure _

theorem resolveVars_preserves (owner : String) (required : List String)
    {properties : List (String × Schema)} (h : ∀ e ∈ properties, good e.2) :
    Preserves inv (resolveVars resolve owner required properties) := by
  induction properties with
  | nil => exact .pure _
  | cons entry rest ih =>
      rw [List.forall_mem_cons] at h
      exact .bind (hResolve _ h.1) fun _ => .bind (ih h.2) fun _ => .pure _

theorem mapEntries_preserves (owner : String) (required : List String)
    {entries : List (String × Schema)} (h : ∀ e ∈ entries, good e.2) :
    Preserves inv (mapEntries resolve owner required entries) := by
  rw [mapEntries_eq]
  exact .bind (resolveVars_preserves hResolve _ _ h) fun _ => .pure _

theorem documentedMap_preserves (p : Property) {s : Schema} (owner : String)
    (h : ∀ e ∈ s.properties, good e.2) : Preserves inv (documentedMap resolve p s owner) :=
  .bind (mapEntries_preserves hResolve _ _ h) fun _ => .pure _

theorem wrapper_preserves (name : String) {s : Schema} (m : Model) (h : good s) :
    Preserves inv (modelStep.wrapper resolve name s m) :=
  .bind (hResolve _ h) fun _ => .pure _

include hSteps

omit hResolve in
theorem referenceProperty_preserves (setup : Setup) (p : Property) (reference : String) :
    Preserves inv (referenceProperty setup p reference) := by
  unfold referenceProperty
  dsimp only
  split
  · exact .pure _
  · exact .bind (.report hSteps.report _ _ _) fun _ => .pure _

omit hResolve in
theorem referenceVariant_preserves (setup : Setup) (reference : String) :
    Preserves inv (referenceVariant setup reference) := by
  unfold referenceVariant
  dsimp only
  split
  · exact .pure _
  · exact .bind (.report hSteps.report _ _ _) fun _ => .pure _

theorem memberVariant_preserves (name owner : String) (place : Nat) {member : Schema}
    (h : good member) : Preserves inv (memberVariant setup resolve name owner place member) := by
  unfold memberVariant
  split
  · exact referenceVariant_preserves hSteps setup _
  · exact .bind (hResolve _ h) fun _ => .pure _

theorem variantsFrom_preserves (name owner : String) (found : List Variant) {members : List Schema}
    (h : ∀ m ∈ members, good m) :
    Preserves inv (variantsFrom setup resolve name owner found members) := by
  induction members generalizing found with
  | nil => exact .pure _
  | cons member rest ih =>
      rw [List.forall_mem_cons] at h
      refine .bind (memberVariant_preserves hSteps hResolve _ _ _ h.1) fun variant => ?_
      split
      · exact .bind (.report hSteps.report _ _ _) fun _ => ih _ h.2
      · exact ih _ h.2

theorem unionValues_preserves (name owner : String) {members : List Schema}
    (h : ∀ m ∈ members, good m) : Preserves inv (unionValues setup resolve name owner members) :=
  .bind (variantsFrom_preserves hSteps hResolve _ _ _ h) fun _ => .pure _

theorem mergedModel_preserves (m : Model) {s : Schema}
    (h : ∀ f, flatten setup.schemas m.name s = .merged f → ∀ e ∈ f.properties, good e.2) :
    Preserves inv (mergedModel setup resolve m s) := by
  refine .bind (.reportAll hSteps.report _ _ _) fun _ => ?_
  split
  · exact .bind (.report hSteps.report _ _ _) fun _ => .pure _
  next f hFlat => exact .bind (resolveVars_preserves hResolve _ _ (h f hFlat)) fun _ => .pure _

theorem composedModel_preserves (m : Model) {s : Schema} (hTarget : s.target? = none)
    (hKind : s.kind = .composed) (hAsks : AsksFor setup good s) :
    Preserves inv (composedModel setup resolve m s) := by
  unfold composedModel
  split
  next hAllOf =>
    have hMerge : s.isMerge = true := by simp [Schema.isMerge, hKind, hAllOf]
    exact mergedModel_preserves hSteps hResolve m fun f => hAsks.merged hTarget hMerge m.name f
  next =>
    split
    · exact .bind (resolveVars_preserves hResolve _ _ hAsks.properties) fun _ => .pure _
    · exact .bind (unionValues_preserves hSteps hResolve _ _ hAsks.unionMembers) fun _ => .pure _

theorem modelStep_preserves (name : String) {s : Schema} (hGood : good s)
    (hAsks : AsksFor setup good s) : Preserves inv (modelStep setup resolve name s) := by
  unfold modelStep
  dsimp only
  split
  · exact .bind (.report hSteps.report _ _ _) fun _ => .pure _
  · split
    · exact .bind (hResolve _ hGood) fun _ => .pure _
    next hInPlace =>
      have hTarget : s.target? = none := by simpa [Option.isSome_iff_ne_none] using hInPlace
      cases hKind : s.kind with
      | composed => exact composedModel_preserves hSteps hResolve _ hTarget hKind hAsks
      | map =>
          dsimp only
          split
          · exact .bind (mapEntries_preserves hResolve _ _ hAsks.properties) fun _ => .pure _
          · exact wrapper_preserves hResolve name _ hGood
      | array => exact wrapper_preserves hResolve name _ hGood
      | primitive =>
          refine .bind (hResolve _ hGood) fun _ => ?_
          split
          · exact .pure _
          · exact .bind (enumValues_preserves _) fun _ => .pure _
      | object => exact .bind (resolveVars_preserves hResolve _ _ hAsks.properties) fun _ => .pure _

include hNew

theorem unionProperty_preserves (p : Property) {s : Schema} (owner : String)
    (h : ∀ m ∈ s.unionMembers, good m) : Preserves inv (unionProperty setup resolve p s owner) := by
  intro w hInv
  refine .bind .self fun values w1 hValues => ?_
  have hArms := unionValues_arms p.baseName owner s.unionMembers values w1 hValues
  have hInv1 := unionValues_preserves hSteps hResolve p.baseName owner h w hInv values w1 hValues
  refine .bind (Preserves.nextList hSteps.number w1 hInv1) fun number w2 hInv2 => ?_
  refine .bind (.modifyGet (hSteps.register _ w2 (hNew.union _ _ _ ?_ ?_) hInv2)) fun _ _ hInv3 => .pure hInv3
  · exact hArms.1
  · exact hArms.2

variable {s : Schema} (hAsks : AsksFor setup good s)

include hAsks

theorem hoist_preserves (name : String) (hGood : good s) : Preserves inv (hoist setup resolve name s) := by
  refine fun w hInv => hoist_ensures (fun _ _ => hInv) fun _ => .bind .self fun m w1 hModel => ?_
  have hInv1 := modelStep_preserves hSteps hResolve name hGood hAsks w hInv m w1 hModel
  have hKept := hSteps.register m w1 (hNew.model name s w m w1 hGood hModel) hInv1
  exact .bind (.modifyGet hKept) fun _ _ hInv2 => .pure hInv2

theorem composedProperty_preserves (p : Property) (owner : String) (hGood : good s) :
    Preserves inv (composedProperty setup resolve p s owner) := by
  unfold composedProperty
  split
  · split
    · exact .pure _
    · exact unionProperty_preserves hSteps hNew hResolve p owner hAsks.unionMembers
  · split
    · exact referenceProperty_preserves hSteps setup p _
    · exact .bind (hoist_preserves hSteps hNew hResolve hAsks _ hGood) fun _ => .pure _

omit hAsks in
theorem typedProperty_preserves {r : Request} (hGood : good r.schema)
    (hAsks : AsksFor setup good r.schema) : Preserves inv (typedProperty setup resolve r) := by
  unfold typedProperty
  dsimp only
  split
  · exact referenceProperty_preserves hSteps setup _ _
  · cases hKind : r.schema.kind with
    | array => exact arrayProperty_preserves hResolve _ _ (hAsks.items hKind)
    | map =>
        dsimp only
        split
        · exact documentedMap_preserves hResolve _ _ hAsks.properties
        · exact mapProperty_preserves hResolve _ _ fun c hEach => hAsks.placed c (.entries hEach)
    | composed => exact composedProperty_preserves hSteps hNew hResolve hAsks _ _ hGood
    | primitive =>
        dsimp only
        split
        · exact .pure _
        · exact .bind (enumValues_preserves _) fun _ => .pure _
    | object =>
        dsimp only
        split
        · exact .pure _
        · exact .bind (hoist_preserves hSteps hNew hResolve hAsks _ hGood) fun _ => .pure _

omit hAsks in
theorem propertyStep_preserves {r : Request} (hGood : good r.schema)
    (hAsks : AsksFor setup good r.schema) : Preserves inv (propertyStep setup resolve r) :=
  .bind (typedProperty_preserves hSteps hNew hResolve hGood hAsks) fun _ =>
    .bind (.reportAll hSteps.report _ _ _) fun _ => .pure _

end Steps

section Depth

variable {setup : Setup} {good : Schema → Prop} {new : Model → Prop} (hSteps : KeptBySteps new inv)
  (hAsks : ClosedUnderAsking setup good)
  (hNew : ∀ fuel, Registers setup (propertyWithin setup fuel) good new)

include hSteps hAsks hNew

theorem propertyWithin_preserves (fuel : Nat) (r : Request) (hGood : good r.schema) :
    Preserves inv (propertyWithin setup fuel r) := by
  induction fuel generalizing r with
  | zero => exact .halt _
  | succ fuel ih => exact propertyStep_preserves hSteps (hNew fuel) ih hGood (hAsks r.schema hGood)

theorem modelWithin_preserves (fuel : Nat) (name : String) {s : Schema} (hGood : good s) :
    Preserves inv (modelStep setup (propertyWithin setup fuel) name s) :=
  modelStep_preserves hSteps (propertyWithin_preserves hSteps hAsks hNew fuel) name hGood (hAsks s hGood)

end Depth

/-! ### Synthetic models are only added -/

section Growth

variable (setup : Setup) (w : Workspace)

theorem propertyWithin_grows (fuel : Nat) (r : Request) :
    Preserves (Grows w) (propertyWithin setup fuel r) :=
  propertyWithin_preserves (kept_grows w) (closedUnderAsking_all setup)
    (fun fuel => registers_all setup (propertyWithin setup fuel) _) fuel r trivial

theorem modelWithin_grows (fuel : Nat) (name : String) (s : Schema) :
    Preserves (Grows w) (modelStep setup (propertyWithin setup fuel) name s) :=
  modelWithin_preserves (kept_grows w) (closedUnderAsking_all setup)
    (fun fuel => registers_all setup (propertyWithin setup fuel) _) fuel name trivial

end Growth

end ClientTypes.Resolution
