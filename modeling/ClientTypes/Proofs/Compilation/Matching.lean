import ClientTypes.Proofs.Compilation
import ClientTypes.Proofs.CrossReference.Distinct
import ClientTypes.Proofs.CrossReference.Standing

/-! From a resolved document to the models of the compiled one. What resolving leaves is fit
for matching; matching keeps which models are removed; and linking operations only sets marks. -/
namespace ClientTypes.Compilation

open Naming TargetType Resolution CrossReference

/-! ### What is matched -/

/-- What matching relies on: a registry that was not matched before, hints for numbered schemas, and
live models that are called after their schemas and have types over their classnames. -/
structure Matchable (hints : Hints) (r : Registry) : Prop where
  fresh : r.crossReferenced = false
  reached : hints.Reached
  numbered : hints.Numbered
  spelled : ∀ m ∈ r.models, IsTypeName m.classname
  live : ∀ m ∈ r.models, m.removed = false
  typed : ∀ m ∈ r.models, ModelTyped (IsClassname r.models) m

section Resolved

variable {config : Config} {document : ApiDocument} {operations : List Operation}
  {declared : List Model} {w : Workspace}

theorem matchable_of_resolved (hConfig : ShippedCorrections config)
    (hRun : (resolveDocument ⟨config, document.schemas⟩ document).run {} =
      .ok ((operations, declared), w)) :
    Matchable w.hints.freeze (registryOf declared w.synthetic) := by
  obtain ⟨hOrderly, hDeclared, hNames⟩ :=
    @resolveDocument_ensures ⟨config, document.schemas⟩ hConfig document _ _ hRun
  have hSound (m : Model) (hMem : m ∈ declared ∨ m ∈ w.synthetic) :
      ModelSound (Known ⟨config, document.schemas⟩ w) m :=
    hMem.elim (hDeclared m) (hOrderly.sound m)
  refine ⟨by simp [registryOf], .freeze hOrderly.reached, hOrderly.numbered, ?_, ?_, ?_⟩
  · intro m hm
    rw [(hSound m (mem_registryOf hm)).spelled]
    exact isTypeName_typeName _
  · exact fun m hm => (hSound m (mem_registryOf hm)).live
  · exact fun m hm => (hSound m (mem_registryOf hm)).toModelTyped.mono
      fun _ => isClassname_of_known hSound hNames

end Resolved

/-! ### Matching -/

/-- The models that are given their friendly names: the marks of their types are set, and
models that nobody can use are removed. -/
def pruned (hints : Hints) (r : Registry) : List Model := (r.models.map classify).map (prune hints)

variable {config : Config} {hints : Hints} {r : Registry}

theorem Matchable.spelled_pruned (h : Matchable hints r) :
    ∀ m ∈ pruned hints r, IsTypeName m.classname := by
  simpa [pruned, (prune_leavesTypes hints).classname, classname_classify] using h.spelled

/-- After renaming, matching leaves the names of live models alone. -/
theorem Matchable.liveNames_run (h : Matchable hints r) (config : Config) :
    liveNames (run config hints r).registry.models = liveNames (rename hints (pruned hints r)).1 := by
  rw [models_run config hints h.fresh]
  dsimp only
  rw [liveNames_map fun m => ⟨classname_unstubModel config _ m, (unstubModel_standing config _ m).removed⟩,
    liveNames_map fun m => ⟨(applyDefaults_leavesTypes config).classname m,
      (applyDefaults_standing config m).removed⟩]
  rfl

/-! ### Linking -/

/-- The pass changes nothing but marks. -/
def OnlyMarks (pass : Model → Model) : Prop := ∀ m, pass m = { m with marks := (pass m).marks }

/-- The pass notes at most the only field of a wrapper. -/
def OnlySingleField (pass : Model → Model) : Prop := ∀ m, pass m = { m with
  marks := { m.marks with
    singleKey := (pass m).marks.singleKey
    singleDatatype := (pass m).marks.singleDatatype } }

theorem OnlySingleField.onlyMarks {pass : Model → Model} (h : OnlySingleField pass) :
    OnlyMarks pass := by
  intro m
  rw [h m]

theorem OnlySingleField.comp {first next : Model → Model} (hNext : OnlySingleField next)
    (hFirst : OnlySingleField first) : OnlySingleField fun m => next (first m) := by
  intro m
  dsimp only
  rw [hNext (first m), hFirst m]

theorem OnlySingleField.standing {pass : Model → Model} (h : OnlySingleField pass) (m : Model) :
    SameStanding m (pass m) := by
  rw [h m]
  exact ⟨rfl, rfl, rfl, rfl, rfl, rfl, rfl, rfl, Iff.rfl⟩

theorem markModel_onlySingleField (shape : Linking.ResponseShape) :
    OnlySingleField (Linking.markModel shape) := by
  intro m
  unfold Linking.markModel
  repeat' split
  all_goals rfl

theorem linkAll_onlySingleField (config : Config) (renames : Table String String) (r : Registry)
    (operations : List Operation) : ∃ mark, OnlySingleField mark ∧
      (Linking.linkAll config renames r operations).2.models = r.models.map mark := by
  induction operations generalizing r with
  | nil => exact ⟨id, fun _ => rfl, by simp [Linking.linkAll]⟩
  | cons o rest ih =>
      obtain ⟨mark, hMark, hModels⟩ := ih (Linking.linkOperation config renames r o).2
      have hFirst := markModel_onlySingleField
        (Linking.responseShape r (Linking.renameOperation renames o))
      refine ⟨_, hMark.comp hFirst, ?_⟩
      rw [Linking.linkAll]
      dsimp only
      rw [hModels, Linking.linkOperation, List.map_map]
      rfl

/-! ### The registry at the end -/

/-- The registry of a document when it is compiled: matched, and with the marks of linking. -/
def finalRegistry (config : Config) (operations : List Operation) (declared : List Model)
    (w : Workspace) : Registry :=
  let matched := CrossReference.run config w.hints.freeze (registryOf declared w.synthetic)
  (Linking.linkAll config matched.renames matched.registry operations).2

theorem models_finalRegistry (config : Config) (operations : List Operation) (declared : List Model)
    (w : Workspace) : ∃ mark, OnlySingleField mark ∧
      (finalRegistry config operations declared w).models = (matchedModels config declared w).map mark :=
  linkAll_onlySingleField config _ _ operations

/-- A compiled document has the live models of its registry, and the names of the removed ones. -/
theorem compile_registry {config : Config} {document : ApiDocument} {result : Result}
    (h : compile config document = .ok result) : ∃ operations declared w,
      (resolveDocument ⟨config, document.schemas⟩ document).run {} =
        .ok ((operations, declared), w) ∧
      result.api.models = (finalRegistry config operations declared w).live ∧
      result.api.removedModels = (finalRegistry config operations declared w).removed.map (·.name) := by
  obtain ⟨⟨⟨operations, declared⟩, w⟩, hRun, hResult⟩ := ok_of_bind h
  cases hResult
  exact ⟨operations, declared, w, hRun, rfl, rfl⟩

/-- The models of a compiled document are the live ones after matching, with the marks of linking. -/
theorem compile_liveModels {config : Config} {document : ApiDocument} {result : Result}
    (h : compile config document = .ok result) : ∃ operations declared w,
      (resolveDocument ⟨config, document.schemas⟩ document).run {} =
        .ok ((operations, declared), w) ∧
      ∃ mark, OnlySingleField mark ∧ result.api.models =
        ((matchedModels config declared w).filter (!·.removed)).map mark := by
  obtain ⟨operations, declared, w, hRun, hLive, _⟩ := compile_registry h
  obtain ⟨mark, hMark, hModels⟩ := models_finalRegistry config operations declared w
  refine ⟨operations, declared, w, hRun, mark, hMark, ?_⟩
  have hStays : (fun m => !(mark m).removed) = fun m : Model => !m.removed := by
    funext m
    rw [(hMark.standing m).removed]
  rw [hLive, Registry.live, hModels, List.filter_map]
  simp only [Function.comp_def, hStays]

theorem compile_models {config : Config} {document : ApiDocument} {result : Result}
    (h : compile config document = .ok result) : ∃ operations declared w,
      (resolveDocument ⟨config, document.schemas⟩ document).run {} =
        .ok ((operations, declared), w) ∧
      ∃ mark, OnlyMarks mark ∧ result.api.models =
        ((matchedModels config declared w).filter (!·.removed)).map mark := by
  obtain ⟨operations, declared, w, hRun, mark, hMark, hModels⟩ := compile_liveModels h
  exact ⟨operations, declared, w, hRun, mark, hMark.onlyMarks, hModels⟩

/-- Linking leaves the classnames of the live models. -/
theorem classnames_eq_liveNames {mark : Model → Model} (hMark : OnlyMarks mark) (models : List Model) :
    ((models.filter (!·.removed)).map mark).map (·.classname) = liveNames models := by
  have hName (m : Model) : (mark m).classname = m.classname := by rw [hMark m]
  simp [liveNames, hName]

/-! ### The last pass -/

theorem forall₂_filter_live {R : Model → Model → Prop} {models models' : List Model}
    (h : List.Forall₂ (fun m m' => m'.removed = m.removed ∧ (m'.removed = false → R m m')) models models') :
    List.Forall₂ R (models.filter (!·.removed)) (models'.filter (!·.removed)) := by
  induction h with
  | nil => exact .nil
  | @cons m m' rest rest' hFirst _ ih =>
      obtain ⟨hRemoved, hFirst⟩ := hFirst
      cases hStays : m'.removed with
      | true => simpa [hStays, hRemoved.symm.trans hStays] using ih
      | false => simpa [hStays, hRemoved.symm.trans hStays] using ⟨hFirst hStays, ih⟩

/-- What live models before the last pass of matching have to do with those after it, they have to do with the models
of the compiled document, if linking does not matter to it. -/
theorem compile_lastPass {R : List String → Model → Model → Prop} {config : Config} {document : ApiDocument}
    {result : Result} (h : compile config document = .ok result)
    (hMark : ∀ live m m' mark, OnlySingleField mark → R live m m' → R live m (mark m'))
    (hLast : ∀ operations declared w,
      (resolveDocument ⟨config, document.schemas⟩ document).run {} = .ok ((operations, declared), w) →
      let models := matchedModels config declared w
      List.Forall₂ (fun m m' => m'.removed = m.removed ∧ (m'.removed = false → R (liveNames models) m m'))
        (beforeStubs config w.hints.freeze (registryOf declared w.synthetic)) models) :
    ∃ operations declared w,
      (resolveDocument ⟨config, document.schemas⟩ document).run {} = .ok ((operations, declared), w) ∧
      List.Forall₂ (R (result.api.models.map (·.classname)))
        ((beforeStubs config w.hints.freeze (registryOf declared w.synthetic)).filter (!·.removed))
        result.api.models := by
  obtain ⟨operations, declared, w, hRun, mark, hOnly, hModels⟩ := compile_liveModels h
  refine ⟨operations, declared, w, hRun, ?_⟩
  rw [hModels, classnames_eq_liveNames hOnly.onlyMarks, List.forall₂_map_right_iff]
  exact (forall₂_filter_live (hLast operations declared w hRun)).imp fun m m' => hMark _ m m' mark hOnly

end ClientTypes.Compilation
