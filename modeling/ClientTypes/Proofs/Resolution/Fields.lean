import ClientTypes.Proofs.Resolution.Invariant
import ClientTypes.Proofs.Resolution.Enrichment

/-! The fields of a model. Which properties a model asks for is decided by its schema alone,
without a workspace; and a property that is resolved keeps the name that it is sent under
and whether it has to be given, and gets no flag. -/
namespace ClientTypes.Resolution

open Naming

/-! ### What a property is asked for -/

/-- The name that a field is sent under, and whether the field has to be given. -/
def label (p : Property) : String × Bool := (p.baseName, p.required)

/-- The label that a property is asked for under. -/
def Request.label (r : Request) : String × Bool := (r.name, r.required)

/-- Whether a field has to be there, whether it has a default value, and whether it is left out without a value. -/
def flags (p : Property) : Bool × Bool × Bool := (p.marks.isRequired, p.marks.hasDefault, p.marks.skipsNone)

/-- None of the three is set. -/
abbrev noFlags : Bool × Bool × Bool := (false, false, false)

@[simp] theorem label_enrich (config : Config) (p : Property) : label (enrich config p) = label p := by
  simp [label]

@[simp] theorem flags_enrich (config : Config) (p : Property) : flags (enrich config p) = flags p := by
  rw [enrich_refines config p]
  rfl

theorem flags_spelledEntry (p : Property) : flags (spelledEntry p) = flags p := by
  unfold spelledEntry
  split <;> rfl

theorem label_spelledEntry (p : Property) : label (spelledEntry p) = label p := by
  unfold spelledEntry
  split <;> rfl

/-- What is read off a property that is resolved is what was asked for. -/
def Answers {β : Type} (resolve : Resolve) (read : Property → β) (asked : Request → β) : Prop :=
  ∀ r w, Ensures (resolve r) w fun p _ => read p = asked r

/-- A property apart from its type and what comes with one. -/
def untyped (p : Property) : Property := { p with datatype := "", container := none, values := none, marks := {} }

/-- Apart from its type a property is the same, and its flags are. -/
structure SameAside (p p' : Property) : Prop where
  untyped : untyped p' = untyped p
  flags : flags p' = flags p

/-- The name under which a container asks for its element. Where there is no owner, an inline element must not get
the name that the container itself stands under. -/
def innerName (owner name : String) : Option Container → String
  | some .array => if owner = "" then name ++ "_inner" else name
  | _ => if owner = "" then name ++ "_value" else name

/-- An element was resolved for a property under the inner name, and got the names of the property. -/
def IsElement (resolve : Resolve) (owner : String) (p element : Property) : Prop :=
  ∃ item s w w', resolve { name := innerName owner p.baseName p.container, schema := s, owner } w = .ok (item, w') ∧
    element = { item with baseName := p.baseName, name := p.name }

section Steps

variable {setup : Setup} {resolve : Resolve} {w : Workspace}

theorem referenceProperty_sameAside (p : Property) (reference : String) :
    Ensures (referenceProperty setup p reference) w fun p' _ => SameAside p p' := by
  unfold referenceProperty
  dsimp only
  split
  · exact .pure ⟨rfl, rfl⟩
  · exact .bind .any fun _ _ _ => .pure ⟨rfl, rfl⟩

theorem unionProperty_sameAside (p : Property) (s : Schema) (owner : String) :
    Ensures (unionProperty setup resolve p s owner) w fun p' _ => SameAside p p' :=
  .bind .any fun _ _ _ => .bind .any fun _ _ _ => .bind .any fun _ _ _ => .pure ⟨rfl, rfl⟩

theorem composedProperty_sameAside (p : Property) (s : Schema) (owner : String) :
    Ensures (composedProperty setup resolve p s owner) w fun p' _ => SameAside p p' := by
  unfold composedProperty
  split
  · split
    · exact .pure ⟨rfl, rfl⟩
    · exact unionProperty_sameAside p s owner
  · split
    · exact referenceProperty_sameAside p _
    · exact .bind .any fun _ _ _ => .pure ⟨rfl, rfl⟩

/-- Finding the type of a property may give it an element, and leaves everything else apart from the type. -/
structure TypedFrom (resolve : Resolve) (owner : String) (blank p : Property) : Prop where
  untyped : untyped p = untyped { blank with items := p.items }
  element : ∀ e, p.items = some e → IsElement resolve owner p e

theorem SameAside.typedFrom {owner : String} {blank p : Property} (hBlank : blank.items = none)
    (h : SameAside blank p) : TypedFrom resolve owner blank p := by
  have hItems : p.items = none := (congrArg Property.items h.untyped).trans hBlank
  have hSame : { blank with items := none } = blank := by
    cases blank
    rw [← hBlank]
  exact ⟨by rw [hItems, hSame]; exact h.untyped, by simp [hItems]⟩

/-- What finding the type of a property leads to: the flags of the property stay. -/
abbrev Finds (resolve : Resolve) (owner : String) (blank p : Property) : Prop :=
  TypedFrom resolve owner blank p ∧ flags p = flags blank

theorem SameAside.finds {owner : String} {blank p : Property} (hBlank : blank.items = none)
    (h : SameAside blank p) : Finds resolve owner blank p :=
  ⟨h.typedFrom hBlank, h.flags⟩

theorem arrayProperty_finds (p : Property) (s : Schema) (owner : String) :
    Ensures (arrayProperty resolve p s owner) w fun p' _ => Finds resolve owner p p' := by
  refine .bind .self fun item w1 hItem => ?_
  dsimp only
  split
  · exact .pure ⟨⟨rfl, fun e he => ⟨item, _, w, w1, hItem, (Option.some.inj he).symm⟩⟩, rfl⟩
  · exact .pure ⟨⟨rfl, fun e he => ⟨item, _, w, w1, hItem, (Option.some.inj he).symm⟩⟩, rfl⟩

theorem mapProperty_finds {p : Property} (hBlank : p.items = none) (s : Schema) (owner : String) :
    Ensures (mapProperty resolve p s owner) w fun p' _ => Finds resolve owner p p' := by
  unfold mapProperty
  split
  · refine .bind .self fun item w1 hItem => .pure ?_
    exact ⟨⟨rfl, fun e he => ⟨item, _, w, w1, hItem, (Option.some.inj he).symm⟩⟩, rfl⟩
  · exact .pure (SameAside.finds hBlank ⟨rfl, rfl⟩)

theorem typedProperty_finds (r : Request) :
    Ensures (typedProperty setup resolve r) w fun p _ => Finds resolve r.owner (blankProperty r) p := by
  have hSingle {p : Property} : SameAside (blankProperty r) p → Finds resolve r.owner (blankProperty r) p :=
    SameAside.finds rfl
  unfold typedProperty
  dsimp only
  split
  · exact (referenceProperty_sameAside _ _).imp fun _ _ => hSingle
  · split
    · exact arrayProperty_finds _ _ _
    · split
      · exact .bind .any fun _ _ _ => .pure (hSingle ⟨rfl, rfl⟩)
      · exact mapProperty_finds rfl _ _
    · exact (composedProperty_sameAside _ _ _).imp fun _ _ => hSingle
    · split
      · exact .pure (hSingle ⟨rfl, rfl⟩)
      · exact .bind .any fun _ _ _ => .pure (hSingle ⟨rfl, rfl⟩)
    · split
      · exact .pure (hSingle ⟨rfl, rfl⟩)
      · exact .bind .any fun _ _ _ => .pure (hSingle ⟨rfl, rfl⟩)

theorem typedProperty_typed (r : Request) :
    Ensures (typedProperty setup resolve r) w fun p _ => TypedFrom resolve r.owner (blankProperty r) p :=
  (typedProperty_finds r).imp fun _ _ h => h.1

theorem typedProperty_flags (r : Request) :
    Ensures (typedProperty setup resolve r) w fun p _ => flags p = noFlags :=
  (typedProperty_finds r).imp fun _ _ h => h.2

theorem TypedFrom.label {owner : String} {blank p : Property} (h : TypedFrom resolve owner blank p) :
    label p = label blank := by
  have hBase : p.baseName = blank.baseName := (congrArg Property.baseName h.untyped :)
  have hRequired : p.required = blank.required := (congrArg Property.required h.untyped :)
  rw [Resolution.label, hBase, hRequired]
  rfl

/-- A property is resolved by finding its type and refining it. -/
theorem propertyStep_ensures (r : Request) :
    Ensures (propertyStep setup resolve r) w fun p w' => ∃ typed w1,
      typedProperty setup resolve r w = .ok (typed, w1) ∧ Grows w1 w' ∧
        p = enrich setup.config typed :=
  .bind .self fun typed w1 hTyped =>
    .bind (Preserves.reportAll (kept_grows w1).report _ _ _ w1 (.refl w1)) fun _ _ hGrows => .pure ⟨typed, w1, hTyped, hGrows, rfl⟩

theorem propertyStep_label : Answers (propertyStep setup resolve) label Request.label := by
  intro r w
  refine (propertyStep_ensures r).imp ?_
  rintro p w' ⟨typed, w1, hTyped, _, rfl⟩
  rw [label_enrich]
  exact (typedProperty_typed r typed w1 hTyped).label

theorem propertyWithin_label (setup : Setup) (fuel : Nat) :
    Answers (propertyWithin setup fuel) label Request.label := by
  cases fuel with
  | zero => exact fun _ _ => .halt
  | succ fuel => exact propertyStep_label

theorem propertyWithin_flags (setup : Setup) (fuel : Nat) :
    Answers (propertyWithin setup fuel) flags fun _ => noFlags := by
  intro r w
  cases fuel with
  | zero => exact .halt
  | succ fuel =>
      refine (propertyStep_ensures r).imp ?_
      rintro p w' ⟨typed, w1, hTyped, _, rfl⟩
      rw [flags_enrich]
      exact typedProperty_flags r typed w1 hTyped

/-- Properties that are resolved keep the name that they are sent under. -/
def Named (resolve : Resolve) : Prop :=
  ∀ r w, Ensures (resolve r) w fun p _ => p.baseName = r.name

theorem propertyWithin_named (setup : Setup) (fuel : Nat) : Named (propertyWithin setup fuel) :=
  fun r w => (propertyWithin_label setup fuel r w).imp fun _ _ hLabel => congrArg Prod.fst hLabel

theorem baseName_spelledEntry (p : Property) : (spelledEntry p).baseName = p.baseName :=
  congrArg Prod.fst (label_spelledEntry p)

/-! ### What a model asks for -/

/-- The properties of an owner, as they are asked for. -/
def requestsFor (owner : String) (required : List String) (properties : List (String × Schema)) :
    List Request :=
  properties.map fun e =>
    { name := e.1, schema := e.2, owner, required := required.contains e.1 }

theorem names_requestsFor (owner : String) (required : List String)
    (properties : List (String × Schema)) :
    (requestsFor owner required properties).map (·.name) = properties.map Prod.fst := by
  simp [requestsFor]

/-- The fields of a merge. A merge that fails has none. -/
def mergedRequests (name : String) : Flattening → List Request
  | .merged f => requestsFor name f.required f.properties
  | .unresolved _ => []

/-- The fields of a composition. A union has none. -/
def composedRequests (setup : Setup) (name : String) (s : Schema) : List Request :=
  if !s.allOf.isEmpty then mergedRequests name (flatten setup.schemas name s)
  else if s.unionMembers.isEmpty then requestsFor name s.required s.properties
  else []

/-- The fields that the model of a schema asks for, in order of declaration. A schema that is not
resolved on purpose has none, and neither has one that refers to another schema. -/
def fieldRequests (setup : Setup) (name : String) (s : Schema) : List Request :=
  if setup.config.denylist.contains name then []
  else if s.target?.isSome then []
  else match s.kind with
    | .object => requestsFor name s.required s.properties
    | .composed => composedRequests setup name s
    | .map => if s.isMapWithProperties then requestsFor name s.required s.properties else []
    | .array | .primitive => []

variable {β : Type} {read : Property → β} {asked : Request → β}
  (hResolve : Answers resolve read asked)

include hResolve

theorem resolveVars_reads (owner : String) (required : List String)
    (properties : List (String × Schema)) :
    Ensures (resolveVars resolve owner required properties) w fun vars _ =>
      vars.map read = (requestsFor owner required properties).map asked := by
  induction properties generalizing w with
  | nil => exact .pure rfl
  | cons entry rest ih =>
      refine .bind (hResolve _ w) fun first w1 hFirst => .bind ih fun more w2 hMore => .pure ?_
      rw [List.map_cons, hFirst, hMore]
      rfl

theorem mergedModel_reads {m : Model} (hBlank : m.vars = []) (s : Schema) :
    Ensures (mergedModel setup resolve m s) w fun m' _ => m'.name = m.name ∧
      m'.vars.map read = (mergedRequests m.name (flatten setup.schemas m.name s)).map asked := by
  refine .bind .any fun _ _ _ => ?_
  cases hFlat : flatten setup.schemas m.name s with
  | unresolved reason => exact .bind .any fun _ _ _ => .pure ⟨rfl, by simp [hBlank, mergedRequests]⟩
  | merged f =>
      exact .bind (resolveVars_reads hResolve _ _ _) fun vars _ hVars => .pure ⟨rfl, hVars⟩

theorem composedModel_reads {m : Model} (hBlank : m.vars = []) (s : Schema) :
    Ensures (composedModel setup resolve m s) w fun m' _ => m'.name = m.name ∧
      m'.vars.map read = (composedRequests setup m.name s).map asked := by
  unfold composedModel composedRequests
  split
  · exact mergedModel_reads hResolve hBlank s
  · split
    · exact .bind (resolveVars_reads hResolve _ _ _) fun vars _ hVars => .pure ⟨rfl, hVars⟩
    · exact .bind .any fun _ _ _ => .pure ⟨rfl, by simp [hBlank]⟩

variable (hSpelled : ∀ p, read (spelledEntry p) = read p)

include hSpelled

theorem mapEntries_reads (owner : String) (required : List String)
    (properties : List (String × Schema)) :
    Ensures (mapEntries resolve owner required properties) w fun entries _ =>
      entries.map read = (requestsFor owner required properties).map asked := by
  rw [mapEntries_eq]
  refine .bind (resolveVars_reads hResolve _ _ _) fun vars _ hVars => .pure ?_
  rw [List.map_map, ← hVars]
  exact List.map_congr_left fun p _ => hSpelled p

/-- A model has the fields that its schema asks for, in that order. -/
theorem modelStep_reads (name : String) (s : Schema) :
    Ensures (modelStep setup resolve name s) w fun m _ => m.name = name ∧
      m.vars.map read = (fieldRequests setup name s).map asked := by
  unfold modelStep fieldRequests
  dsimp only
  split
  · exact .bind .any fun _ _ _ => .pure ⟨rfl, rfl⟩
  · split
    · exact .bind .any fun _ _ _ => .pure ⟨rfl, rfl⟩
    · cases s.kind with
      | object => exact .bind (resolveVars_reads hResolve _ _ _) fun vars _ hVars => .pure ⟨rfl, hVars⟩
      | array => exact .bind .any fun _ _ _ => .pure ⟨rfl, rfl⟩
      | composed => exact composedModel_reads hResolve rfl s
      | map =>
          dsimp only
          split
          · exact .bind (mapEntries_reads hResolve hSpelled _ _ _) fun vars _ hVars =>
              .pure ⟨rfl, hVars⟩
          · exact .bind .any fun _ _ _ => .pure ⟨rfl, rfl⟩
      | primitive =>
          refine .bind .any fun single _ _ => ?_
          dsimp only
          split
          · exact .pure ⟨rfl, rfl⟩
          · exact .bind .any fun _ _ _ => .pure ⟨rfl, rfl⟩

end Steps

/-- A model has the name that it is asked for under, however the properties inside are resolved. -/
theorem modelStep_name (setup : Setup) (resolve : Resolve) (w : Workspace) (name : String) (s : Schema) :
    Ensures (modelStep setup resolve name s) w fun m _ => m.name = name := by
  have hReads : Answers resolve (fun _ => ()) fun _ => () := fun _ _ _ _ _ => rfl
  exact (modelStep_reads hReads (fun _ => rfl) name s).imp fun _ _ h => h.1

end ClientTypes.Resolution
