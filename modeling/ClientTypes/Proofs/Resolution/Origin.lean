import ClientTypes.Proofs.Resolution.Fields

/-! Where models come from. A model is resolved from one schema, or it shows the arms of a
union; there is no third way for a model to be registered. What resolving leaves in a model
for matching to find is decided by its schema. -/
namespace ClientTypes.Resolution

variable {setup : Setup} {good : Schema → Prop}

/-! ### Models of schemas and models of unions -/

/-- The model was resolved from the schema, under the name that it has. -/
def ResolvedFrom (setup : Setup) (m : Model) (s : Schema) : Prop :=
  ∃ fuel w w1, modelStep setup (propertyWithin setup fuel) m.name s w = .ok (m, w1)

/-- Where a model comes from: from a good schema, or from a union that stands at a property. -/
inductive Origin (setup : Setup) (good : Schema → Prop) (m : Model) : Prop where
  | schema {s : Schema} (hGood : good s) (hFrom : ResolvedFrom setup m s)
  | union {name : String} {description : Option String} {values : AllowableValues}
      (hArms : values.isUnion = true) (hBare : values.enumMembers = [])
      (hIs : m = unionModel name description values)

theorem resolvedFrom_of_run {fuel : Nat} {name : String} {s : Schema} {m : Model} {w w1 : Workspace}
    (hRun : modelStep setup (propertyWithin setup fuel) name s w = .ok (m, w1)) :
    m.name = name ∧ ResolvedFrom setup m s := by
  have hName : m.name = name :=
    (modelStep_reads (propertyWithin_label setup fuel) label_spelledEntry name s m w1 hRun).1
  exact ⟨hName, fuel, w, w1, by rw [hName]; exact hRun⟩

/-- Every synthetic model of the workspace has an origin. -/
def AllOriginate (setup : Setup) (good : Schema → Prop) (w : Workspace) : Prop :=
  ∀ m ∈ w.synthetic, Origin setup good m

theorem kept_allOriginate : KeptBySteps (Origin setup good) (AllOriginate setup good) where
  report _ _ h := h
  number _ h := h
  register m w hNew h held hMem := by
    rcases Workspace.mem_addSynthetic hMem with hOld | rfl
    · exact h held hOld
    · exact hNew

theorem registers_origin (fuel : Nat) :
    Registers setup (propertyWithin setup fuel) good (Origin setup good) where
  model _ _ _ _ _ hGood hRun := .schema hGood (resolvedFrom_of_run hRun).2
  union _ _ _ hArms hBare := .union hArms hBare rfl

section Runs

variable (hAsks : ClosedUnderAsking setup good)

include hAsks

theorem propertyWithin_originates (fuel : Nat) (r : Request) (hGood : good r.schema) :
    Preserves (AllOriginate setup good) (propertyWithin setup fuel r) :=
  propertyWithin_preserves kept_allOriginate hAsks registers_origin fuel r hGood

theorem modelWithin_originates (fuel : Nat) (name : String) {s : Schema} (hGood : good s) :
    Preserves (AllOriginate setup good) (modelStep setup (propertyWithin setup fuel) name s) :=
  modelWithin_preserves kept_allOriginate hAsks registers_origin fuel name hGood

end Runs

/-! ### What is left for matching -/

/-- The schema is a merge of which nothing can be resolved. A schema that is not resolved on purpose
is none, and neither is one that refers to another schema. -/
def mergeFails (setup : Setup) (name : String) (s : Schema) : Bool :=
  !setup.config.denylist.contains name && s.target?.isNone && s.isMerge &&
    match flatten setup.schemas name s with
    | .unresolved _ => true
    | .merged _ => false

/-- A model before matching. It is not removed and the mark of an enumeration is not set; and an
enumeration, a schema that is not resolved on purpose and a failed merge have no fields. -/
structure Unmatched (m : Model) : Prop where
  live : m.removed = false
  declared : m.marks.noop = false
  unmarked : m.marks.isEnum = false
  enumBare : m.isEnum = true → m.vars = []
  placeholderBare : m.marks.placeholder = true → m.vars = []
  failedBare : m.marks.resolutionFailed = true → m.vars = [] ∧ m.container = none

/-- A model with none of these marks. -/
theorem Unmatched.of_unmarked {m : Model} (hLive : m.removed = false) (hDeclared : m.marks.noop = false)
    (hUnmarked : m.marks.isEnum = false) (hEnum : m.isEnum = false)
    (hPlaceholder : m.marks.placeholder = false) (hFailed : m.marks.resolutionFailed = false) :
    Unmatched m := by
  refine ⟨hLive, hDeclared, hUnmarked, ?_, ?_, ?_⟩
  · simp [hEnum]
  · simp [hPlaceholder]
  · simp [hFailed]

/-- A model without fields, of whatever marks. -/
theorem Unmatched.of_bare {m : Model} (hLive : m.removed = false) (hDeclared : m.marks.noop = false)
    (hUnmarked : m.marks.isEnum = false) (hVars : m.vars = []) (hContainer : m.container = none) :
    Unmatched m :=
  ⟨hLive, hDeclared, hUnmarked, fun _ => hVars, fun _ => hVars, fun _ => ⟨hVars, hContainer⟩⟩

section Steps

variable {resolve : Resolve} {w : Workspace}

theorem mergeFails_of_not_merge {name : String} {s : Schema} (h : s.isMerge = false) :
    mergeFails setup name s = false := by
  simp [mergeFails, h]

theorem mergedModel_unmatched {name : String} {s : Schema}
    (hAllowed : setup.config.denylist.contains name = false) (hTarget : s.target? = none)
    (hMerge : s.isMerge = true) :
    Ensures (mergedModel setup resolve (blankModel name s) s) w fun m _ => Unmatched m ∧
      m.marks.resolutionFailed = mergeFails setup name s ∧ m.marks.defaults = [] := by
  refine .bind .any fun _ _ _ => ?_
  have hName : (blankModel name s).name = name := rfl
  rw [hName]
  cases hFlat : flatten setup.schemas name s with
  | unresolved reason =>
      refine .bind .any fun _ _ _ => .pure ⟨.of_bare rfl rfl rfl rfl rfl, ?_, rfl⟩
      rw [mergeFails, hAllowed, hTarget, hMerge, hFlat]
      rfl
  | merged f =>
      refine .bind .any fun vars _ _ => .pure ⟨.of_unmarked rfl rfl rfl rfl rfl rfl, ?_, rfl⟩
      simp [mergeFails, hFlat, blankModel]

theorem composedModel_unmatched {name : String} {s : Schema}
    (hAllowed : setup.config.denylist.contains name = false) (hTarget : s.target? = none)
    (hKind : s.kind = .composed) :
    Ensures (composedModel setup resolve (blankModel name s) s) w fun m _ => Unmatched m ∧
      m.marks.resolutionFailed = mergeFails setup name s ∧ m.marks.defaults = [] := by
  unfold composedModel
  split
  next hAllOf =>
    exact mergedModel_unmatched hAllowed hTarget (by simp [Schema.isMerge, hKind, hAllOf])
  next hNone =>
    have hFails : mergeFails setup name s = false :=
      mergeFails_of_not_merge (by simpa [Schema.isMerge, hKind] using hNone)
    rw [hFails]
    split
    · exact .bind .any fun _ _ _ => .pure ⟨.of_unmarked rfl rfl rfl rfl rfl rfl, rfl, rfl⟩
    · exact .bind .any fun _ _ _ => .pure ⟨.of_bare rfl rfl rfl rfl rfl, rfl, rfl⟩

theorem modelStep_unmatched (name : String) (s : Schema) :
    Ensures (modelStep setup resolve name s) w fun m _ => Unmatched m ∧
      m.marks.resolutionFailed = mergeFails setup name s ∧ m.marks.defaults = [] := by
  unfold modelStep
  dsimp only
  split
  next hDenied =>
    refine .bind .any fun _ _ _ => .pure ⟨.of_bare rfl rfl rfl rfl rfl, ?_, rfl⟩
    rw [mergeFails, hDenied]
    rfl
  next hAllowed =>
    split
    next hTarget =>
      refine .bind .any fun _ _ _ => .pure ⟨.of_unmarked rfl rfl rfl rfl rfl rfl, ?_, rfl⟩
      simp [mergeFails, Option.isNone_eq_false_iff.mpr hTarget, blankModel]
    next hTarget =>
      have hTarget : s.target? = none := by simpa [Option.isSome_iff_ne_none] using hTarget
      have hFails (hKind : s.kind ≠ .composed) : mergeFails setup name s = false :=
        mergeFails_of_not_merge (by simp [Schema.isMerge, hKind])
      cases hKind : s.kind with
      | composed => exact composedModel_unmatched (by simpa using hAllowed) hTarget hKind
      | object =>
          rw [hFails (by simp [hKind])]
          exact .bind .any fun _ _ _ => .pure ⟨.of_unmarked rfl rfl rfl rfl rfl rfl, rfl, rfl⟩
      | array =>
          rw [hFails (by simp [hKind])]
          exact .bind .any fun _ _ _ => .pure ⟨.of_unmarked rfl rfl rfl rfl rfl rfl, rfl, rfl⟩
      | map =>
          rw [hFails (by simp [hKind])]
          dsimp only
          split
          · exact .bind .any fun _ _ _ => .pure ⟨.of_unmarked rfl rfl rfl rfl rfl rfl, rfl, rfl⟩
          · exact .bind .any fun _ _ _ => .pure ⟨.of_unmarked rfl rfl rfl rfl rfl rfl, rfl, rfl⟩
      | primitive =>
          rw [hFails (by simp [hKind])]
          refine .bind .any fun _ _ _ => ?_
          split
          · exact .pure ⟨.of_unmarked rfl rfl rfl rfl rfl rfl, rfl, rfl⟩
          · exact .bind .any fun _ _ _ => .pure ⟨.of_bare rfl rfl rfl rfl rfl, rfl, rfl⟩

end Steps

theorem ResolvedFrom.unmatched {m : Model} {s : Schema} (h : ResolvedFrom setup m s) :
    Unmatched m ∧ m.marks.resolutionFailed = mergeFails setup m.name s := by
  obtain ⟨fuel, w, w1, hRun⟩ := h
  obtain ⟨hUnmatched, hFailed, _⟩ := modelStep_unmatched m.name s m w1 hRun
  exact ⟨hUnmatched, hFailed⟩

theorem Origin.unmatched {m : Model} (h : Origin setup good m) : Unmatched m := by
  cases h with
  | schema _ hFrom => exact hFrom.unmatched.1
  | union _ _ hIs =>
      rw [hIs]
      exact .of_bare rfl rfl rfl rfl rfl

/-- Nothing is decided about the fields of the model: which have to be there, which have a default value,
and which are left out. -/
structure Undecided (m : Model) : Prop where
  fields : ∀ p ∈ m.vars, flags p = noFlags
  defaults : m.marks.defaults = []

theorem ResolvedFrom.undecided {m : Model} {s : Schema} (h : ResolvedFrom setup m s) : Undecided m := by
  obtain ⟨fuel, w, w1, hRun⟩ := h
  obtain ⟨_, hFlags⟩ :=
    modelStep_reads (propertyWithin_flags setup fuel) flags_spelledEntry m.name s m w1 hRun
  refine ⟨fun p hp => ?_, (modelStep_unmatched m.name s m w1 hRun).2.2⟩
  have hFlag : flags p ∈ (fieldRequests setup m.name s).map fun _ => noFlags :=
    hFlags ▸ List.mem_map_of_mem hp
  obtain ⟨_, _, hNone⟩ := List.mem_map.mp hFlag
  exact hNone.symm

theorem Origin.undecided {m : Model} (h : Origin setup good m) : Undecided m := by
  cases h with
  | schema _ hFrom => exact hFrom.undecided
  | union _ _ hIs =>
      rw [hIs]
      exact ⟨by simp [unionModel], rfl⟩

/-- A model has the mark of a failed merge exactly when its schema is one. -/
theorem Origin.failed_iff {m : Model} (h : Origin setup good m) :
    m.marks.resolutionFailed = true ↔ ∃ s, ResolvedFrom setup m s ∧ mergeFails setup m.name s = true := by
  constructor
  · intro hFailed
    cases h with
    | schema _ hFrom => exact ⟨_, hFrom, hFrom.unmatched.2 ▸ hFailed⟩
    | union _ _ hIs =>
        rw [hIs] at hFailed
        cases hFailed
  · rintro ⟨s, hFrom, hFails⟩
    rw [hFrom.unmatched.2, hFails]

end ClientTypes.Resolution
