import ClientTypes.Operations
import ClientTypes.Proofs.Hints
import ClientTypes.Proofs.Resolution.Run

/-! Building operations only resolves properties, reports, and registers friendly names
for numbered schemas. What these three steps keep, the whole run keeps, where resolving may
rely on the schemas that operations mention. -/
namespace ClientTypes.Operations

open Naming Resolution

/-- The schemas that an operation mentions, those of its parameters first. -/
def schemasOf (d : OperationDef) : List Schema :=
  d.parameters.map (·.schema) ++ (d.body.map (·.schema)).toList ++ d.responses.filterMap (·.schema)

/-- The steps of building operations keep what holds of a workspace, as long as the schemas that are
resolved are good ones. -/
structure StepsPreserve (setup : Setup) (good : Schema → Prop) (inv : Workspace → Prop) : Prop where
  resolve : ∀ r, good r.schema → Preserves inv (resolveProperty setup r)
  report : ∀ w r, inv w → inv (w.withReport r)
  register : ∀ w placeholder friendly, Hints.IsPlaceholder placeholder → inv w →
    inv (w.register placeholder friendly)

variable {setup : Setup} {good : Schema → Prop} {inv : Workspace → Prop}
  (hSteps : StepsPreserve setup good inv)

include hSteps

theorem namedOrResolved_preserves (operationId place : String) (name : Option String) {s : Schema}
    (h : good s) : Preserves inv (namedOrResolved setup operationId place name s) := by
  unfold namedOrResolved
  split
  · exact .pure _
  · exact .map (hSteps.resolve _ h)

theorem registerHint_preserves {isNumberedName : String → Bool}
    (hNumbered : ∀ name, isNumberedName name = true → Hints.IsPlaceholder name)
    (extensions : Table String Value) (name : Option String) (suffix : String) :
    Preserves inv (registerHint setup extensions name isNumberedName suffix) := by
  unfold registerHint
  split
  · split
    next hGiven =>
      have hPlaceholder := hNumbered _ (Bool.and_eq_true_iff.mp hGiven).2
      exact .bind (.textOf _) fun _ w hInv => .modify (hSteps.register w _ _ hPlaceholder hInv)
    next => exact .pure _
  · exact .pure _

theorem buildParameter_preserves {d : ParameterDef} (h : good d.schema) :
    Preserves inv (buildParameter setup d) :=
  .bind (hSteps.resolve _ h) fun _ => .pure _

theorem buildParameters_preserves (operationId : String) {ds : List ParameterDef}
    (h : ∀ d ∈ ds, good d.schema) : Preserves inv (buildParameters setup operationId ds) := by
  induction ds with
  | nil => exact .pure _
  | cons d rest ih =>
      rw [List.forall_mem_cons] at h
      unfold buildParameters
      split
      · exact .bind (buildParameter_preserves hSteps h.1) fun _ => .bind (ih h.2) fun _ => .pure _
      · exact .bind (.report hSteps.report _ _ _) fun _ => ih h.2

theorem buildBody_preserves (operationId : String) {d : BodyDef} (h : good d.schema) :
    Preserves inv (buildBody setup operationId d) :=
  .bind (namedOrResolved_preserves hSteps _ _ _ h) fun _ =>
    .bind (registerHint_preserves hSteps (fun _ => Or.inl) _ _ _) fun _ => .pure _

theorem responseType_preserves (operationId : String) {d : ResponseDef}
    (h : ∀ s, d.schema = some s → good s) : Preserves inv (responseType setup operationId d) := by
  unfold responseType
  split
  · exact .pure _
  next s _ hSchema => exact .map (namedOrResolved_preserves hSteps _ _ _ (h s hSchema))
  · exact .pure _

theorem buildResponse_preserves (operationId : String) {d : ResponseDef}
    (h : ∀ s, d.schema = some s → good s) : Preserves inv (buildResponse setup operationId d) :=
  .bind (responseType_preserves hSteps _ h) fun _ =>
    .bind (registerHint_preserves hSteps (fun _ => Or.inr) _ _ _) fun _ => .pure _

theorem buildResponses_preserves (operationId : String) {ds : List ResponseDef}
    (h : ∀ d ∈ ds, ∀ s, d.schema = some s → good s) :
    Preserves inv (buildResponses setup operationId ds) := by
  induction ds with
  | nil => exact .pure _
  | cons d rest ih =>
      rw [List.forall_mem_cons] at h
      exact .bind (buildResponse_preserves hSteps operationId h.1) fun _ =>
        .bind (ih h.2) fun _ => .pure _

omit hSteps in
theorem buildOptional_preserves {α β : Type} {build : α → Run β} {part : Option α}
    (hBuild : ∀ a, part = some a → Preserves inv (build a)) :
    Preserves inv (buildOptional build part) := by
  cases part with
  | none => exact .pure _
  | some a => exact .map (hBuild a rfl)

theorem build_preserves {d : OperationDef} (h : ∀ s ∈ schemasOf d, good s) :
    Preserves inv (build setup d) := by
  have hParameters : ∀ p ∈ d.parameters, good p.schema := fun p hp => h _ (by
    simp only [schemasOf, List.mem_append, List.mem_map]
    exact Or.inl (Or.inl ⟨p, hp, rfl⟩))
  have hBody : ∀ b, d.body = some b → good b.schema := fun b hb => h _ (by simp [schemasOf, hb])
  have hResponses : ∀ r ∈ d.responses, ∀ s, r.schema = some s → good s := fun r hr s hs => h _ (by
    simp only [schemasOf, List.mem_append, List.mem_filterMap]
    exact Or.inr ⟨r, hr, hs⟩)
  exact .bind (buildParameters_preserves hSteps _ hParameters) fun _ =>
    .bind (buildOptional_preserves fun b hb => buildBody_preserves hSteps _ (hBody b hb)) fun _ =>
      .bind (buildResponses_preserves hSteps _ hResponses) fun _ => .pure _

theorem buildEach_preserves {definitions : List OperationDef}
    (h : ∀ d ∈ definitions, ∀ s ∈ schemasOf d, good s) :
    Preserves inv (buildEach setup definitions) := by
  induction definitions with
  | nil => exact .pure _
  | cons d rest ih =>
      rw [List.forall_mem_cons] at h
      exact .bind (build_preserves hSteps h.1) fun _ => .bind (ih h.2) fun _ => .pure _

/-- What holds of every workspace that the steps lead to holds after all operations. -/
theorem buildAll_preserves {definitions : List OperationDef}
    (h : ∀ d ∈ definitions, ∀ s ∈ schemasOf d, good s) :
    Preserves inv (buildAll setup definitions) :=
  .bind (buildEach_preserves hSteps h) fun _ =>
    .bind .get fun _ => .bind (.report hSteps.report _ _ _) fun _ => .pure _

end ClientTypes.Operations
