import ClientTypes.Proofs.Resolution.Asked
import ClientTypes.Proofs.Resolution.Run

/-! Two ways to resolve the properties inside a schema that lead to the same. Each step of
the resolver only asks for the parts of its schema, and a merge for the fields that it
flattens to; where two ways agree on those, the steps agree. -/
namespace ClientTypes.Resolution

variable {α β : Type}

/-- Both runs lead to the same from every workspace, and stop before their end for allowed reasons only. -/
def SameRun (allowed : Obstacle → Prop) (x y : Run α) : Prop :=
  ∀ w, x w = y w ∧ ∀ stop, x w = .error stop → allowed stop.obstacle

/-- Both runs lead to the same from every workspace, and neither runs out of fuel. -/
abbrev Steady (x y : Run α) : Prop := SameRun (· ≠ .endless) x y

variable {allowed : Obstacle → Prop}

namespace SameRun

variable {x y : Run α}

/-- Runs that may stop for any reason lead to the same when they are equal. -/
theorem true_iff : SameRun (fun _ => True) x y ↔ x = y :=
  ⟨fun h => funext fun w => (h w).1, fun h _ => ⟨congrFun h _, fun _ _ => trivial⟩⟩

protected theorem pure (a : α) : SameRun allowed (pure a) (pure a) := fun _ => ⟨rfl, nofun⟩

protected theorem bind {f g : α → Run β} (hx : SameRun allowed x y) (hf : ∀ a, SameRun allowed (f a) (g a)) :
    SameRun allowed (x >>= f) (y >>= g) := by
  intro w
  obtain ⟨hSame, hEnds⟩ := hx w
  change (x w >>= fun r => f r.1 r.2) = (y w >>= fun r => g r.1 r.2) ∧
    ∀ stop, (x w >>= fun r => f r.1 r.2) = .error stop → allowed stop.obstacle
  rw [← hSame]
  cases hFirst : x w with
  | error stop =>
      refine ⟨rfl, fun stop' hStop => ?_⟩
      cases hStop
      exact hEnds stop hFirst
  | ok result => exact hf result.1 result.2

protected theorem map {f : α → β} (hx : SameRun allowed x y) : SameRun allowed (f <$> x) (f <$> y) := by
  rw [map_eq_pure_bind, map_eq_pure_bind]
  exact hx.bind fun _ => .pure _

theorem modifyGet (f : Workspace → α × Workspace) :
    SameRun allowed (modifyGet f : Run α) (modifyGet f : Run α) :=
  fun _ => ⟨rfl, nofun⟩

theorem report (part : Part) (level : Level) (message : String) :
    SameRun allowed (report part level message) (report part level message) := fun _ => ⟨rfl, nofun⟩

theorem reportAll (part : Part) (level : Level) (messages : List String) :
    SameRun allowed (reportAll part level messages) (reportAll part level messages) := fun _ => ⟨rfl, nofun⟩

theorem get : SameRun allowed (get : Run Workspace) (get : Run Workspace) := fun _ => ⟨rfl, nofun⟩

theorem textOf (hText : allowed .noText) (v : Value) : SameRun allowed (textOf v) (textOf v) := by
  unfold Resolution.textOf
  split
  · exact .pure _
  · intro w
    refine ⟨rfl, fun stop hStop => ?_⟩
    cases hStop
    exact hText

end SameRun

theorem enumMembers_congr (hText : allowed .noText) (values : List Value) :
    SameRun allowed (enumMembers values) (enumMembers values) := by
  induction values with
  | nil => exact .pure _
  | cons v rest ih => exact .bind (.textOf hText v) fun _ => .bind ih fun _ => .pure _

theorem enumValues_congr (hText : allowed .noText) (values : List Value) :
    SameRun allowed (enumValues values) (enumValues values) :=
  .bind (enumMembers_congr hText values) fun _ => .pure _

theorem referenceProperty_congr (setup : Setup) (p : Property) (reference : String) :
    SameRun allowed (referenceProperty setup p reference) (referenceProperty setup p reference) := by
  unfold referenceProperty
  dsimp only
  split
  · exact .pure _
  · exact .bind (.report _ _ _) fun _ => .pure _

theorem referenceVariant_congr (setup : Setup) (reference : String) :
    SameRun allowed (referenceVariant setup reference) (referenceVariant setup reference) := by
  unfold referenceVariant
  dsimp only
  split
  · exact .pure _
  · exact .bind (.report _ _ _) fun _ => .pure _

section Steps

variable {setup : Setup} {good : Schema → Prop} {resolve resolve' : Resolve}
  (hResolve : ∀ r, good r.schema → SameRun allowed (resolve r) (resolve' r))

include hResolve

/-! ### Containers -/

theorem arrayProperty_congr (p : Property) {s : Schema} (owner : String) (h : good (s.items.getD {})) :
    SameRun allowed (arrayProperty resolve p s owner) (arrayProperty resolve' p s owner) := by
  refine .bind (hResolve _ h) fun item => ?_
  dsimp only
  split
  · exact .pure _
  · exact .pure _

theorem mapProperty_congr (p : Property) {s : Schema} (owner : String)
    (h : ∀ c, s.additional = .each c → good c) :
    SameRun allowed (mapProperty resolve p s owner) (mapProperty resolve' p s owner) := by
  unfold mapProperty
  split
  next inner hInner => exact .bind (hResolve _ (h inner hInner)) fun _ => .pure _
  next => exact .pure _

theorem resolveVars_congr (owner : String) (required : List String)
    {properties : List (String × Schema)} (h : ∀ e ∈ properties, good e.2) :
    SameRun allowed (resolveVars resolve owner required properties)
      (resolveVars resolve' owner required properties) := by
  induction properties with
  | nil => exact .pure _
  | cons entry rest ih =>
      rw [List.forall_mem_cons] at h
      exact .bind (hResolve _ h.1) fun _ => .bind (ih h.2) fun _ => .pure _

theorem mapEntries_congr (owner : String) (required : List String)
    {entries : List (String × Schema)} (h : ∀ e ∈ entries, good e.2) :
    SameRun allowed (mapEntries resolve owner required entries) (mapEntries resolve' owner required entries) := by
  rw [mapEntries_eq, mapEntries_eq]
  exact .bind (resolveVars_congr hResolve _ _ h) fun _ => .pure _

theorem documentedMap_congr (p : Property) {s : Schema} (owner : String)
    (h : ∀ e ∈ s.properties, good e.2) :
    SameRun allowed (documentedMap resolve p s owner) (documentedMap resolve' p s owner) :=
  .bind (mapEntries_congr hResolve _ _ h) fun _ => .pure _

/-! ### Unions -/

theorem memberVariant_congr (name owner : String) (place : Nat) {member : Schema} (h : good member) :
    SameRun allowed (memberVariant setup resolve name owner place member)
      (memberVariant setup resolve' name owner place member) := by
  unfold memberVariant
  split
  · exact referenceVariant_congr setup _
  · exact .bind (hResolve _ h) fun _ => .pure _

theorem variantsFrom_congr (name owner : String) (found : List Variant) {members : List Schema}
    (h : ∀ m ∈ members, good m) :
    SameRun allowed (variantsFrom setup resolve name owner found members)
      (variantsFrom setup resolve' name owner found members) := by
  induction members generalizing found with
  | nil => exact .pure _
  | cons member rest ih =>
      rw [List.forall_mem_cons] at h
      refine .bind (memberVariant_congr hResolve _ _ _ h.1) fun variant => ?_
      split
      · exact .bind (.report _ _ _) fun _ => ih _ h.2
      · exact ih _ h.2

theorem unionValues_congr (name owner : String) {members : List Schema} (h : ∀ m ∈ members, good m) :
    SameRun allowed (unionValues setup resolve name owner members)
      (unionValues setup resolve' name owner members) :=
  .bind (variantsFrom_congr hResolve _ _ _ h) fun _ => .pure _

theorem unionProperty_congr (p : Property) {s : Schema} (owner : String)
    (h : ∀ m ∈ s.unionMembers, good m) :
    SameRun allowed (unionProperty setup resolve p s owner) (unionProperty setup resolve' p s owner) :=
  .bind (unionValues_congr hResolve _ _ h) fun _ => .bind (.modifyGet _) fun _ =>
    .bind (.modifyGet _) fun _ => .pure _

/-! ### Models -/

theorem wrapper_congr (name : String) {s : Schema} (m : Model) (h : good s) :
    SameRun allowed (modelStep.wrapper resolve name s m) (modelStep.wrapper resolve' name s m) :=
  .bind (hResolve _ h) fun _ => .pure _

variable {s : Schema} (hAsks : AsksFor setup good s)

include hAsks

theorem mergedModel_congr (hTarget : s.target? = none) (hMerge : s.isMerge = true) (m : Model) :
    SameRun allowed (mergedModel setup resolve m s) (mergedModel setup resolve' m s) := by
  refine .bind (.reportAll _ _ _) fun _ => ?_
  cases hFlat : flatten setup.schemas m.name s with
  | unresolved reason => exact .bind (.report _ _ _) fun _ => .pure _
  | merged f =>
      exact .bind (resolveVars_congr hResolve _ _ (hAsks.merged hTarget hMerge _ _ hFlat)) fun _ => .pure _

theorem composedModel_congr (hTarget : s.target? = none) (hKind : s.kind = .composed) (m : Model) :
    SameRun allowed (composedModel setup resolve m s) (composedModel setup resolve' m s) := by
  unfold composedModel
  split
  next hAllOf =>
    have hMerge : s.isMerge = true := by simp [Schema.isMerge, hKind, hAllOf]
    exact mergedModel_congr hResolve hAsks hTarget hMerge m
  next =>
    split
    · exact .bind (resolveVars_congr hResolve _ _ hAsks.properties) fun _ => .pure _
    · exact .bind (unionValues_congr hResolve _ _ hAsks.unionMembers) fun _ => .pure _

variable (hText : allowed .noText)

include hText

/-- A model asks for its schema as a whole, unless the schema is an object or a composition. -/
theorem modelStep_congr (name : String)
    (hOwn : s.target? ≠ none ∨ (s.kind ≠ .composed ∧ s.kind ≠ .object) → good s) :
    SameRun allowed (modelStep setup resolve name s) (modelStep setup resolve' name s) := by
  unfold modelStep
  dsimp only
  split
  · exact .bind (.report _ _ _) fun _ => .pure _
  · split
    next hTarget =>
      have hGood : good s := hOwn (Or.inl (by simpa [Option.isSome_iff_ne_none] using hTarget))
      exact .bind (hResolve _ hGood) fun _ => .pure _
    next hInPlace =>
      have hTarget : s.target? = none := by simpa [Option.isSome_iff_ne_none] using hInPlace
      cases hKind : s.kind with
      | composed => exact composedModel_congr hResolve hAsks hTarget hKind _
      | map =>
          have hGood : good s := hOwn (Or.inr (by simp [hKind]))
          dsimp only
          split
          · exact .bind (mapEntries_congr hResolve _ _ hAsks.properties) fun _ => .pure _
          · exact wrapper_congr hResolve name _ hGood
      | array => exact wrapper_congr hResolve name _ (hOwn (Or.inr (by simp [hKind])))
      | primitive =>
          have hGood : good s := hOwn (Or.inr (by simp [hKind]))
          refine .bind (hResolve _ hGood) fun _ => ?_
          split
          · exact .pure _
          · exact .bind (enumValues_congr hText _) fun _ => .pure _
      | object => exact .bind (resolveVars_congr hResolve _ _ hAsks.properties) fun _ => .pure _

/-! ### Properties -/

theorem hoist_congr (name : String) (hTarget : s.target? = none)
    (hKind : s.kind = .composed ∨ s.kind = .object) :
    SameRun allowed (hoist setup resolve name s) (hoist setup resolve' name s) := by
  refine .bind .get fun w => ?_
  split
  · exact .pure _
  · have hModel := modelStep_congr hResolve hAsks hText name fun hOther => by
      rcases hOther with hSome | ⟨hNot, hNot'⟩
      · exact absurd hTarget hSome
      · exact absurd hKind (by simp [hNot, hNot'])
    exact .bind hModel fun _ => .bind (.modifyGet _) fun _ => .pure _

theorem composedProperty_congr (p : Property) (owner : String) (hTarget : s.target? = none)
    (hKind : s.kind = .composed) :
    SameRun allowed (composedProperty setup resolve p s owner) (composedProperty setup resolve' p s owner) := by
  unfold composedProperty
  split
  · split
    · exact .pure _
    · exact unionProperty_congr hResolve p owner hAsks.unionMembers
  · split
    · exact referenceProperty_congr setup p _
    · exact .bind (hoist_congr hResolve hAsks hText _ hTarget (Or.inl hKind)) fun _ => .pure _

end Steps

section Property

variable {setup : Setup} {good : Schema → Prop} {resolve resolve' : Resolve}
  (hResolve : ∀ r, good r.schema → SameRun allowed (resolve r) (resolve' r)) {r : Request}
  (hAsks : AsksFor setup good r.schema) (hText : allowed .noText)

include hResolve hAsks hText

theorem typedProperty_congr :
    SameRun allowed (typedProperty setup resolve r) (typedProperty setup resolve' r) := by
  unfold typedProperty
  dsimp only
  split
  · exact referenceProperty_congr setup _ _
  next hTarget =>
    cases hKind : r.schema.kind with
    | array => exact arrayProperty_congr hResolve _ _ (hAsks.items hKind)
    | map =>
        dsimp only
        split
        · exact documentedMap_congr hResolve _ _ hAsks.properties
        · exact mapProperty_congr hResolve _ _ fun c hEach => hAsks.placed c (.entries hEach)
    | composed => exact composedProperty_congr hResolve hAsks hText _ _ hTarget hKind
    | primitive =>
        dsimp only
        split
        · exact .pure _
        · exact .bind (enumValues_congr hText _) fun _ => .pure _
    | object =>
        dsimp only
        split
        · exact .pure _
        · exact .bind (hoist_congr hResolve hAsks hText _ hTarget (Or.inr hKind)) fun _ => .pure _

/-- Where two ways to resolve agree on everything that a property asks for, they agree on it. -/
theorem propertyStep_congr :
    SameRun allowed (propertyStep setup resolve r) (propertyStep setup resolve' r) :=
  .bind (typedProperty_congr hResolve hAsks hText) fun _ => .bind (.reportAll _ _ _) fun _ => .pure _

end Property

end ClientTypes.Resolution
