import ClientTypes.Proofs.Resolution.Fields

/-! Which model a property of an inline schema gets. A context holds one model for
each synthetic name, the first that was registered, and never replaces it. The
model is the property's own unless the name was taken before that model was
finished; names are put together from texts, so two schemas may ask for one. -/
namespace ClientTypes.Resolution

open Naming

section Steps

variable {setup : Setup} {resolve : Resolve} {w : Workspace}

/-! ### The model of an inline object -/

/-- A merge that only adds a description to a reference. -/
def wrapsReference (s : Schema) : Bool :=
  match s.allOf, s.properties with
  | [only], [] => only.target?.isSome
  | _, _ => false

/-- The schema of a property is described in place and gets a model of its own. -/
def isInlineObject (s : Schema) : Bool :=
  s.target?.isNone && match s.kind with
    | .object => !s.properties.isEmpty
    | .composed => !s.allOf.isEmpty && !wrapsReference s
    | .array | .map | .primitive => false

/-- The names that the fields of a merge are sent under. A merge that fails has none. -/
def mergedNames : Flattening → List String
  | .merged f => f.properties.keys
  | .unresolved _ => []

/-- The names that the fields of an inline object are sent under, in order of
declaration. A schema that is not resolved on purpose has none. -/
def fieldNames (setup : Setup) (name : String) (s : Schema) : List String :=
  if setup.config.denylist.contains name then []
  else if s.kind = .composed then mergedNames (flatten setup.schemas name s)
  else s.properties.map Prod.fst

theorem names_mergedRequests (name : String) (flattening : Flattening) :
    (mergedRequests name flattening).map (·.name) = mergedNames flattening := by
  cases flattening with
  | unresolved reason => rfl
  | merged f => exact names_requestsFor name f.required f.properties

/-- An inline object asks for the fields of its schema. -/
theorem fieldNames_eq {name : String} {s : Schema} (hInline : isInlineObject s = true) :
    (fieldRequests setup name s).map (·.name) = fieldNames setup name s := by
  obtain ⟨hTarget, hKind⟩ := Bool.and_eq_true_iff.mp hInline
  have hNoTarget : s.target?.isSome ≠ true := by simpa using hTarget
  unfold fieldRequests fieldNames
  rw [if_neg hNoTarget]
  split
  · rfl
  · cases hOf : s.kind with
    | object => exact names_requestsFor _ _ _
    | composed =>
        have hMerge : (!s.allOf.isEmpty) = true := by
          rw [hOf] at hKind
          exact (Bool.and_eq_true_iff.mp hKind).1
        rw [if_pos rfl]
        dsimp only
        rw [composedRequests, if_pos hMerge]
        exact names_mergedRequests _ _
    | array | map | primitive => simp [hOf] at hKind

/-- The model of an inline object has the fields of its schema. -/
theorem modelStep_baseNames (hResolve : Named resolve) {name : String} {s : Schema}
    (hInline : isInlineObject s = true) :
    Ensures (modelStep setup resolve name s) w fun m _ => m.name = name ∧
      m.vars.map (·.baseName) = fieldNames setup name s := by
  rw [← fieldNames_eq hInline]
  exact modelStep_reads hResolve baseName_spelledEntry name s

theorem typedProperty_of_inlineObject {r : Request} (hInline : isInlineObject r.schema = true) :
    typedProperty setup resolve r = (do
      let classname ← hoist setup resolve (inlineName r.owner r.name) r.schema
      return { blankProperty r with datatype := classname }) := by
  obtain ⟨hTarget, hKind⟩ := Bool.and_eq_true_iff.mp hInline
  have hNoTarget : r.schema.target? = none := by simpa using hTarget
  unfold typedProperty
  dsimp only
  rw [hNoTarget]
  cases hOf : r.schema.kind with
  | object =>
      have hFields : ¬ r.schema.properties.isEmpty = true := by simpa [hOf] using hKind
      dsimp only
      rw [if_neg hFields]
      rfl
  | composed =>
      rw [hOf] at hKind
      obtain ⟨hMerge, hWraps⟩ := Bool.and_eq_true_iff.mp hKind
      unfold composedProperty
      dsimp only
      split
      next hNone => simp [hNone] at hMerge
      next first rest hMembers =>
        split
        next reference hFirst hFields =>
          simp [wrapsReference, hMembers, hFields, hFirst] at hWraps
        next => rfl
  | array | map | primitive => simp [hOf] at hKind

/-- Which model a context holds for an inline object that asked for one in `w`: the
model that the name had there, or else the first that got the name until the own
model of the object was finished. -/
structure ObjectHeld (setup : Setup) (resolve : Resolve) (name : String) (s : Schema)
    (w later : Workspace) (held : Model) : Prop where
  stands : later.synthetic? name = some held
  taken : ∀ m, w.synthetic? name = some m → held = m
  own : w.synthetic? name = none → ∃ own w1, modelStep setup resolve name s w = .ok (own, w1) ∧
    own.vars.map (·.baseName) = fieldNames setup name s ∧ held = (w1.synthetic? name).getD own

theorem hoist_held (hResolve : Named resolve) {name : String} {s : Schema}
    (hInline : isInlineObject s = true) :
    Ensures (hoist setup resolve name s) w fun classname w' => ∃ held,
      ObjectHeld setup resolve name s w w' held ∧ classname = held.classname := by
  refine hoist_ensures (fun held hHeld => ⟨held, ⟨hHeld, by simp [hHeld], by simp [hHeld]⟩, rfl⟩) fun hNone => ?_
  refine .bind .self fun own w1 hOwn => ?_
  obtain ⟨hName, hFields⟩ := modelStep_baseNames hResolve hInline own w1 hOwn
  obtain ⟨hFirst, hKept⟩ := w1.addSynthetic_spec own
  rw [hName] at hFirst hKept
  refine .bind (P := fun kept w' => w'.synthetic? name = some kept ∧
    kept = (w1.synthetic? name).getD own) (.modifyGet ⟨hKept, hFirst⟩) ?_
  rintro kept w' ⟨hAfter, hIs⟩
  exact .pure ⟨kept, ⟨hAfter, by simp [hNone], fun _ => ⟨own, w1, hOwn, hFields, hIs⟩⟩, rfl⟩

theorem typedProperty_objectHeld (hResolve : Named resolve) {r : Request}
    (hInline : isInlineObject r.schema = true) :
    Ensures (typedProperty setup resolve r) w fun typed w' => ∃ held,
      ObjectHeld setup resolve (inlineName r.owner r.name) r.schema w w' held ∧
        typed.datatype = held.classname := by
  rw [typedProperty_of_inlineObject hInline]
  refine .bind (hoist_held hResolve hInline) ?_
  rintro classname w1 ⟨held, hHeld, hName⟩
  exact .pure ⟨held, hHeld, hName⟩

/-! ### The model of a union -/

/-- The schema of a property is a union that is described in place. -/
def isInlineUnion (s : Schema) : Bool :=
  s.target?.isNone && s.kind == .composed && s.allOf.isEmpty && !s.unionMembers.isEmpty

theorem typedProperty_of_inlineUnion {r : Request} (hInline : isInlineUnion r.schema = true) :
    typedProperty setup resolve r =
      unionProperty setup resolve (blankProperty r) r.schema r.owner := by
  simp only [isInlineUnion, Bool.and_eq_true, Option.isNone_iff_eq_none, beq_iff_eq,
    List.isEmpty_iff, Bool.not_eq_true'] at hInline
  obtain ⟨⟨⟨hTarget, hKind⟩, hNoMerge⟩, hMembers⟩ := hInline
  unfold typedProperty
  dsimp only
  rw [hTarget, hKind]
  dsimp only
  unfold composedProperty
  rw [hNoMerge]
  dsimp only
  rw [if_neg (by simp [hMembers])]

/-- Which model a context holds for the union of a property that was resolved in `w`:
the first that got the name of the union until the arms were resolved, or else the
union itself, which shows the list of the property. -/
structure UnionHeld (setup : Setup) (resolve : Resolve) (r : Request) (w later : Workspace)
    (p : Property) (held : Model) : Prop where
  stands : later.synthetic? p.datatype = some held
  own : ∃ values w1 shown,
    unionValues setup resolve r.name r.owner r.schema.unionMembers w = .ok (values, w1) ∧
    shown.variants = values.variants ∧ p.values = some shown ∧
    p.datatype = unionName r.schema values r.owner r.name ∧
    held = (w1.synthetic? p.datatype).getD (unionModel p.datatype r.schema.description shown)

theorem unionProperty_held (r : Request) :
    Ensures (unionProperty setup resolve (blankProperty r) r.schema r.owner) w fun p w' =>
      ∃ held, UnionHeld setup resolve r w w' p held := by
  refine .bind .self fun values w1 hValues => ?_
  refine .bind (P := fun _ w2 => w2.synthetic = w1.synthetic) (.modifyGet rfl) ?_
  intro number w2 hSame
  let shown := { values with sharedList := some number }
  let name := unionName r.schema shown r.owner r.name
  obtain ⟨hFirst, hKept⟩ := w2.addSynthetic_spec (unionModel name r.schema.description shown)
  have hFound : w2.synthetic? name = w1.synthetic? name := by
    rw [Workspace.synthetic?, hSame]
    rfl
  refine .bind (P := fun kept w3 => w3.synthetic? name = some kept ∧
    kept = (w1.synthetic? name).getD (unionModel name r.schema.description shown))
    (.modifyGet ⟨hKept, hFirst.trans (by rw [← hFound]; rfl)⟩) ?_
  rintro kept w3 ⟨hAfter, hIs⟩
  exact .pure ⟨kept, hAfter, values, w1, shown, hValues, rfl, rfl, rfl, hIs⟩

end Steps

/-! ### A whole session -/

/-- Every way in which a workspace changes while schemas are resolved in it: a
property or a model is resolved, to any depth, or one of the small steps between
two of these is taken. -/
inductive Later (setup : Setup) (w : Workspace) : Workspace → Prop where
  | start : Later setup w w
  | property {w1 w2 : Workspace} {fuel : Nat} {r : Request} {p : Property}
      (hSoFar : Later setup w w1) (hRun : propertyWithin setup fuel r w1 = .ok (p, w2)) :
      Later setup w w2
  | model {w1 w2 : Workspace} {fuel : Nat} {name : String} {s : Schema} {m : Model}
      (hSoFar : Later setup w w1)
      (hRun : modelStep setup (propertyWithin setup fuel) name s w1 = .ok (m, w2)) :
      Later setup w w2
  | register {w1 : Workspace} (m : Model) (hSoFar : Later setup w w1) :
      Later setup w (w1.addSynthetic m).2
  | number {w1 : Workspace} (hSoFar : Later setup w w1) : Later setup w w1.nextList.2
  | report {w1 : Workspace} (note : Report) (hSoFar : Later setup w w1) :
      Later setup w (w1.withReport note)

theorem Later.grows {setup : Setup} {w later : Workspace} (h : Later setup w later) :
    Grows w later := by
  induction h with
  | start => exact .refl w
  | property _ hRun ih =>
      exact propertyWithin_grows setup w _ _ _ ih _ _ hRun
  | model _ hRun ih =>
      exact modelWithin_grows setup w _ _ _ _ ih _ _ hRun
  | register m _ ih => exact ih.trans (Workspace.addSynthetic_grows _ m)
  | number _ ih => exact ih.trans (Workspace.nextList_grows _)
  | report note _ ih => exact ih.trans (Workspace.withReport_grows _ note)

/-- A parameter `filter` without an owner, described by an object of one field. -/
def filterBy (field : String) : Request where
  name := "filter"
  schema := { properties := [(field, { kind := .primitive, type := some "string" })] }

/-- The same object under a name that is not resolved on purpose. -/
def deniedFilter : Request := { filterBy "a" with name := "inline_response_200_11" }

/-- A union of two schemas of the table. -/
def eitherOf (name first second : String) : Request where
  name := name
  schema := { kind := .composed, oneOf := [{ reference := some first }, { reference := some second }] }

def filterSetup : Setup := ⟨Config.shipped, [("A", {}), ("BC", {}), ("AB", {}), ("C", {})]⟩

/-- The types of the arms that are shown with some values. -/
def armTypes (values : Option AllowableValues) : List String :=
  (values.map fun v => v.variants.map (·.datatype)).getD []

end ClientTypes.Resolution
