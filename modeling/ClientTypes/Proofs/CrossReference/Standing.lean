import ClientTypes.Proofs.CrossReference.Distinct
import ClientTypes.Proofs.CrossReference.Typing

/-! What matching makes of each model. Every pass goes over the models one by one, so the models
after matching are those before it, in the same order; which ones are removed, and what they
are marked as, is decided by the models themselves and the friendly names. -/
namespace ClientTypes.CrossReference

variable {hints : Hints}

/-! ### Passes that leave the standing of a model alone -/

/-- Name, removal and the marks that go with it are the same, and so is everything that a reason to
remove the model may depend on. -/
structure SameStanding (m m' : Model) : Prop where
  name : m'.name = m.name
  removed : m'.removed = m.removed
  noop : m'.marks.noop = m.marks.noop
  isEnum : m'.isEnum = m.isEnum
  enumMark : m'.marks.isEnum = m.marks.isEnum
  placeholder : m'.marks.placeholder = m.marks.placeholder
  resolutionFailed : m'.marks.resolutionFailed = m.marks.resolutionFailed
  container : m'.container = m.container
  bare : m'.vars = [] ↔ m.vars = []

namespace SameStanding

variable {m m' m'' : Model}

theorem refl (m : Model) : SameStanding m m := ⟨rfl, rfl, rfl, rfl, rfl, rfl, rfl, rfl, Iff.rfl⟩

theorem trans (h : SameStanding m m') (h' : SameStanding m' m'') : SameStanding m m'' where
  name := h'.name.trans h.name
  removed := h'.removed.trans h.removed
  noop := h'.noop.trans h.noop
  isEnum := h'.isEnum.trans h.isEnum
  enumMark := h'.enumMark.trans h.enumMark
  placeholder := h'.placeholder.trans h.placeholder
  resolutionFailed := h'.resolutionFailed.trans h.resolutionFailed
  container := h'.container.trans h.container
  bare := h'.bare.trans h.bare

/-- There is the same reason to remove the model. -/
theorem reason (h : SameStanding m m') (hints : Hints) :
    pruneReason? hints m' = pruneReason? hints m := by
  have hBare : m'.vars.isEmpty = m.vars.isEmpty := by
    rw [Bool.eq_iff_iff, List.isEmpty_iff, List.isEmpty_iff]
    exact h.bare
  unfold pruneReason?
  rw [h.name, h.resolutionFailed, h.container, hBare]

end SameStanding

theorem namedType_standing (m : Model) : SameStanding m (namedType m) := by
  unfold namedType
  split
  · exact ⟨rfl, rfl, rfl, rfl, rfl, rfl, rfl, rfl, Iff.rfl⟩
  · exact .refl m

theorem markArray_standing (m : Model) : SameStanding m (markArray m) := by
  unfold markArray
  split
  · exact ⟨rfl, rfl, rfl, rfl, rfl, rfl, rfl, rfl, Iff.rfl⟩
  · exact .refl m

/-- A pass over the fields leaves the standing of a model. -/
theorem mapVars_standing (f : Property → Property) (m : Model) :
    SameStanding m { m with vars := m.vars.map f } :=
  ⟨rfl, rfl, rfl, rfl, rfl, rfl, rfl, rfl, by simp⟩

theorem markVars_standing (m : Model) : SameStanding m (markVars m) :=
  (mapVars_standing markProperty m).trans ⟨rfl, rfl, rfl, rfl, rfl, rfl, rfl, rfl, Iff.rfl⟩

theorem applyDefaults_standing (config : Config) (m : Model) :
    SameStanding m (applyDefaults config m) := by
  have hDefaults : SameStanding m (synthesizeDefaults config m) :=
    (mapVars_standing (markDefault config m) m).trans
      ⟨rfl, rfl, rfl, rfl, rfl, rfl, rfl, rfl, Iff.rfl⟩
  unfold applyDefaults
  split
  · exact .refl m
  · exact hDefaults.trans (mapVars_standing _ _)

theorem unstubModel_standing (config : Config) (live : List String) (m : Model) :
    SameStanding m (unstubModel config live m) := by
  have hContainer : SameStanding m (unstubContainer config live m) := by
    unfold unstubContainer
    split
    · exact .refl m
    · split
      · exact .refl m
      · exact ⟨rfl, rfl, rfl, rfl, rfl, rfl, rfl, rfl, Iff.rfl⟩
  unfold unstubModel
  split
  · exact .refl m
  · exact hContainer.trans (mapVars_standing _ _)

theorem Relabelled.standing {m m' : Model} (h : Relabelled m m') : SameStanding m m' := by
  rw [h]
  exact ⟨rfl, rfl, rfl, rfl, rfl, rfl, rfl, rfl, Iff.rfl⟩

theorem renameTypes_standing (renames : Table String String) (shown : Nat → Nat) (m : Model) :
    SameStanding m (renameTypes renames shown m) := by
  refine ⟨rfl, rfl, rfl, rfl, rfl, rfl, rfl, rfl, ?_⟩
  cases hVars : m.vars <;> simp [renameTypes, hVars, mapProperties]

/-! ### The mark of an enumeration -/

/-- A model with the mark of an enumeration, if it is one. -/
def withEnumMark (m : Model) : Model :=
  { m with marks := { m.marks with isEnum := m.marks.isEnum || m.isEnum } }

theorem markWrapper_standing (m : Model) : SameStanding (withEnumMark m) (markWrapper m) := by
  unfold markWrapper
  split
  next hEnum => exact ⟨rfl, rfl, rfl, rfl, by simp [withEnumMark, hEnum], rfl, rfl, rfl, Iff.rfl⟩
  next hOther =>
    have hMark : m.marks.isEnum = (withEnumMark m).marks.isEnum := by
      simp [withEnumMark, Bool.eq_false_iff.mpr hOther]
    repeat' split
    all_goals exact ⟨rfl, rfl, rfl, rfl, hMark, rfl, rfl, rfl, Iff.rfl⟩

theorem withEnumMark_standing {m m' : Model} (h : SameStanding m m') :
    SameStanding (withEnumMark m) (withEnumMark m') :=
  { h with enumMark := by simp [withEnumMark, h.enumMark, h.isEnum] }

theorem classify_standing (m : Model) : SameStanding (withEnumMark m) (classify m) :=
  (withEnumMark_standing (namedType_standing m)).trans ((markWrapper_standing _).trans
    ((markArray_standing _).trans (markVars_standing _)))

/-- The first pass marks the fields one by one, and leaves what matching notes about them later. -/
theorem classify_leaves (m : Model) : (classify m).vars = m.vars.map markProperty ∧
    (classify m).marks.paginationInner = m.marks.paginationInner ∧
    (classify m).marks.defaults = m.marks.defaults := by
  let read (m : Model) := (m.vars, m.marks.paginationInner, m.marks.defaults)
  have hNamed (m : Model) : read (namedType m) = read m := by
    unfold namedType
    split <;> rfl
  have hWrapper (m : Model) : read (markWrapper m) = read m := by
    unfold markWrapper
    repeat' split
    all_goals rfl
  have hArray (m : Model) : read (markArray m) = read m := by
    unfold markArray
    split <;> rfl
  have hAll : read (markArray (markWrapper (namedType m))) = read m :=
    (hArray _).trans ((hWrapper _).trans (hNamed m))
  simp only [read, Prod.mk.injEq] at hAll
  exact ⟨congrArg (List.map markProperty) hAll.1, hAll.2⟩

theorem reason_classify (hints : Hints) (m : Model) :
    pruneReason? hints (classify m) = pruneReason? hints m :=
  (classify_standing m).reason hints

/-! ### What becomes of a model -/

/-- What matching makes of a model: it is removed exactly when there is a reason to, and then its
classname stays. -/
structure Matched (hints : Hints) (m m' : Model) : Prop where
  name : m'.name = m.name
  removed : m'.removed = (m.removed || (pruneReason? hints m).isSome)
  noop : m'.marks.noop = (m.marks.noop || (pruneReason? hints m).isSome)
  isEnum : m'.isEnum = m.isEnum
  enumMark : m'.marks.isEnum = (m.marks.isEnum || m.isEnum)
  placeholder : m'.marks.placeholder = m.marks.placeholder
  resolutionFailed : m'.marks.resolutionFailed = m.marks.resolutionFailed
  bare : m'.vars = [] ↔ m.vars = []
  called : m'.removed = true → m'.classname = m.classname

/-- Removal sets two marks when there is a reason for it, and nothing else. -/
theorem prune_eq (hints : Hints) (m : Model) : prune hints m = { m with
    removed := m.removed || (pruneReason? hints m).isSome
    marks := { m.marks with noop := m.marks.noop || (pruneReason? hints m).isSome } } := by
  unfold prune
  cases pruneReason? hints m <;> simp [remove]

theorem prune_matched (hints : Hints) (m : Model) : Matched hints m (prune hints (classify m)) := by
  have hClassified := classify_standing m
  rw [prune_eq, reason_classify]
  exact {
    name := hClassified.name
    removed := congrArg (· || _) hClassified.removed
    noop := congrArg (· || _) hClassified.noop
    isEnum := hClassified.isEnum
    enumMark := hClassified.enumMark
    placeholder := hClassified.placeholder
    resolutionFailed := hClassified.resolutionFailed
    bare := hClassified.bare
    called := fun _ => classname_classify m }

/-- After removal nothing changes but types, classnames of live models, and other marks. -/
theorem Matched.of_standing {m m' m'' : Model} (h : Matched hints m m') (hSame : SameStanding m' m'')
    (hCalled : m'.removed = true → m''.classname = m'.classname) : Matched hints m m'' where
  name := hSame.name.trans h.name
  removed := hSame.removed.trans h.removed
  noop := hSame.noop.trans h.noop
  isEnum := hSame.isEnum.trans h.isEnum
  enumMark := hSame.enumMark.trans h.enumMark
  placeholder := hSame.placeholder.trans h.placeholder
  resolutionFailed := hSame.resolutionFailed.trans h.resolutionFailed
  bare := hSame.bare.trans h.bare
  called hRemoved := by
    rw [hSame.removed] at hRemoved
    exact (hCalled hRemoved).trans (h.called hRemoved)

theorem Renamed.standing {m m' : Model} (h : Renamed m m') (renames : Table String String)
    (shown : Nat → Nat) : SameStanding m (renameTypes renames shown m') ∧
      (m.removed = true → (renameTypes renames shown m').classname = m.classname) := by
  refine ⟨h.relabelled.standing.trans (renameTypes_standing renames shown m'), fun hRemoved => ?_⟩
  change m'.classname = m.classname
  rw [h.stays hRemoved]

/-- What registered models have and every pass up to renaming keeps, renamed models have. -/
theorem forall_renamed {P : Model → Prop} (hClassify : ∀ m, P m → P (classify m))
    (hPrune : ∀ m, P m → P (prune hints m)) (hRelabel : ∀ m m', Relabelled m m' → P m → P m')
    (hTypes : ∀ renames shown m, P m → P (renameTypes renames shown m)) {r : Registry}
    (h : ∀ m ∈ r.models, P m) :
    ∀ m ∈ (rename hints ((r.models.map classify).map (prune hints))).1, P m := by
  have hPruned : ∀ m ∈ (r.models.map classify).map (prune hints), P m := by
    simp only [List.forall_mem_map]
    exact fun m hm => hPrune _ (hClassify m (h m hm))
  have hLabelled := forall_of_relabelled hRelabel
    (renameModels_run hints (.initial ((r.models.map classify).map (prune hints))) _).relabelled hPruned
  simp only [rename, renameAllTypes_eq, List.forall_mem_map]
  exact fun m hm => hTypes _ _ m (hLabelled m hm)

/-- The models before the last pass. -/
def beforeStubs (config : Config) (hints : Hints) (r : Registry) : List Model :=
  (rename hints ((r.models.map classify).map (prune hints))).1.map (applyDefaults config)

/-- The last pass goes over the models one by one, and knows the classnames that are live at the end. -/
theorem models_run_beforeStubs (config : Config) (hints : Hints) {r : Registry}
    (hFresh : r.crossReferenced = false) :
    let models := (run config hints r).registry.models
    models = (beforeStubs config hints r).map (unstubModel config (liveNames models)) := by
  have hModels : (run config hints r).registry.models = (beforeStubs config hints r).map
      (unstubModel config (liveNames (beforeStubs config hints r))) := models_run config hints hFresh
  have hLive : liveNames (run config hints r).registry.models = liveNames (beforeStubs config hints r) := by
    rw [hModels, liveNames_map fun m =>
      ⟨classname_unstubModel config _ m, (unstubModel_standing config _ m).removed⟩]
  dsimp only
  rw [hLive]
  exact hModels

/-- What every model before the last pass has to do with what the pass makes of it, the two lists have
item by item. -/
theorem run_lastPass {R : List String → Model → Model → Prop} (config : Config) (hints : Hints) {r : Registry}
    (hFresh : r.crossReferenced = false)
    (h : ∀ live, ∀ m ∈ beforeStubs config hints r, R live m (unstubModel config live m)) :
    let models := (run config hints r).registry.models
    List.Forall₂ (R (liveNames models)) (beforeStubs config hints r) models := by
  intro models
  have hModels : models = (beforeStubs config hints r).map (unstubModel config (liveNames models)) :=
    models_run_beforeStubs config hints hFresh
  have hEach : List.Forall₂ (R (liveNames models)) (beforeStubs config hints r)
      ((beforeStubs config hints r).map (unstubModel config (liveNames models))) := by
    rw [List.forall₂_map_right_iff]
    exact List.forall₂_same.mpr (h _)
  rwa [← hModels] at hEach

/-- The models after matching are those before it, in the same order. -/
theorem run_matched (config : Config) (hints : Hints) {r : Registry}
    (hFresh : r.crossReferenced = false) :
    List.Forall₂ (Matched hints) r.models (run config hints r).registry.models := by
  have hRun := (renameModels_run hints (.initial ((r.models.map classify).map (prune hints)))
    ((r.models.map classify).map (prune hints))).renamed
  rw [List.map_map, List.forall₂_map_left_iff] at hRun
  rw [models_run config hints hFresh]
  simp only [rename, renameAllTypes_eq, List.map_map, List.forall₂_map_right_iff]
  refine hRun.imp fun m labelled hLabelled => ?_
  obtain ⟨hRenamed, hCalled⟩ := hLabelled.standing _ _
  refine (prune_matched hints m).of_standing (hRenamed.trans ((applyDefaults_standing config _).trans
    (unstubModel_standing config _ _))) fun hRemoved => ?_
  exact (classname_unstubModel config _ _).trans
    (((applyDefaults_leavesTypes config).classname _).trans (hCalled hRemoved))

end ClientTypes.CrossReference
