import ClientTypes.Proofs.CrossReference.Distinct
import ClientTypes.Proofs.CrossReference.Standing
import ClientTypes.Proofs.Model.Containers
import ClientTypes.Resolution.Resolver

/-! The stamp of a page: a model that extends a page carries the type of the elements of its first
list. Every pass of matching changes the stamp as it changes the list, but the last one: where a
reference stub is replaced, the stamp keeps the name of the stub. -/
namespace ClientTypes.CrossReference

open Naming Resolution

/-! ### The first list of a model -/

def isKnownList (p : Property) : Bool := p.container == some .array && p.items.isSome

/-- The first property that is a list whose elements are known. -/
def listField? (vars : List Property) : Option Property := vars.find? isKnownList

theorem firstListType?_eq (vars : List Property) :
    firstListType? vars = (listField? vars).bind fun p => p.items.map (·.datatype) := by
  induction vars with
  | nil => rfl
  | cons p rest ih =>
      rw [firstListType?] at ih ⊢
      rw [List.findSome?_cons, ih, listField?, listField?, List.find?_cons]
      cases hArray : p.container == some .array with
      | false => simp [isKnownList, hArray]
      | true => cases hItems : p.items <;> simp [isKnownList, hArray, hItems]

theorem firstList?_map_datatype (m : Model) :
    m.firstList?.map (·.datatype) = firstListType? m.vars := by
  rw [Model.firstList?, firstListType?, List.map_findSome?]
  congr 1
  funext p
  dsimp only [Function.comp_apply]
  split <;> rfl

/-- A change of properties that does not touch which of them are lists leaves the first list first. -/
theorem listField?_map {f : Property → Property} (hf : ∀ p, isKnownList (f p) = isKnownList p)
    (vars : List Property) : listField? (vars.map f) = (listField? vars).map f := by
  simp only [listField?, List.find?_map, Function.comp_def, hf]

/-- What a change makes of elements, it makes of the type of the first list. -/
theorem firstListType?_map {f : Property → Property} {onType : String → String}
    (hContainer : ∀ p, (f p).container = p.container)
    (hItems : ∀ p, (f p).items.map (·.datatype) = (p.items.map (·.datatype)).map onType)
    (vars : List Property) : firstListType? (vars.map f) = (firstListType? vars).map onType := by
  have hSame (p : Property) : isKnownList (f p) = isKnownList p := by
    have hKnown := congrArg Option.isSome (hItems p)
    simp only [Option.isSome_map] at hKnown
    rw [isKnownList, isKnownList, hContainer, hKnown]
  rw [firstListType?_eq, firstListType?_eq, listField?_map hSame]
  cases listField? vars with
  | none => rfl
  | some p => exact hItems p

/-! ### Passes before the last one -/

/-- The stamp, if there is one, is the type of the elements of the first list. -/
def Stamped (m : Model) : Prop :=
  ∀ type, m.marks.paginationInner = some type → firstListType? m.vars = some type

/-- A pass after which stamps still agree with the fields. -/
def KeepsStamp (pass : Model → Model) : Prop := ∀ m, Stamped m → Stamped (pass m)

theorem KeepsStamp.comp {first next : Model → Model} (hNext : KeepsStamp next)
    (hFirst : KeepsStamp first) : KeepsStamp fun m => next (first m) :=
  fun m h => hNext _ (hFirst m h)

theorem Stamped.congr {m m' : Model} (h : Stamped m)
    (hPage : m'.marks.paginationInner = m.marks.paginationInner) (hVars : m'.vars = m.vars) :
    Stamped m' := by
  rw [Stamped, hPage, hVars]
  exact h

/-- A pass over the fields that leaves containers and elements. -/
theorem Stamped.mapVars {m : Model} (h : Stamped m) {f : Property → Property}
    (hf : ∀ p, (f p).container = p.container ∧ (f p).items = p.items) {marks : ModelMarks}
    (hPage : marks.paginationInner = m.marks.paginationInner) :
    Stamped { m with vars := m.vars.map f, marks } := by
  intro type hStamp
  have hSame : firstListType? (m.vars.map f) = (firstListType? m.vars).map id :=
    firstListType?_map (fun p => (hf p).1) (fun p => by simp [(hf p).2]) m.vars
  rw [hSame, h type (hPage ▸ hStamp)]
  rfl

theorem classify_keepsStamp : KeepsStamp classify := by
  intro m h
  obtain ⟨hVars, hPage, _⟩ := classify_leaves m
  have hMarked : Stamped { m with vars := m.vars.map markProperty, marks := (classify m).marks } :=
    h.mapVars (f := markProperty) (fun _ => ⟨rfl, rfl⟩) hPage
  exact hMarked.congr rfl hVars

theorem prune_keepsStamp (hints : Hints) : KeepsStamp (prune hints) := by
  intro m h
  rw [prune_eq]
  exact h.congr rfl rfl

/-- The stamp is renamed as the types of fields are. -/
theorem renameTypes_keepsStamp (renames : Table String String) (shown : Nat → Nat) :
    KeepsStamp (renameTypes renames shown) := by
  intro m h type hStamp
  obtain ⟨before, hBefore, rfl⟩ := Option.map_eq_some_iff.mp hStamp
  have hVars : (renameTypes renames shown m).vars = m.vars.map
      (mapProperty (renameIdentifiers renames) (renameValues renames shown)) :=
    mapProperties_eq_map _ _ _
  have hTypes : firstListType? (renameTypes renames shown m).vars =
      (firstListType? m.vars).map (renameIdentifiers renames) := by
    rw [hVars]
    exact firstListType?_map (by simp) (fun p => by simp [Function.comp_def]) m.vars
  rw [hTypes, h before hBefore]
  rfl

theorem applyDefaults_keepsStamp (config : Config) : KeepsStamp (applyDefaults config) := by
  have hDefault (m : Model) (p : Property) : (markDefault config m p).container = p.container ∧
      (markDefault config m p).items = p.items := by
    unfold markDefault
    split <;> exact ⟨rfl, rfl⟩
  have hOptional (classname : String) (p : Property) :
      (markOptional config classname p).container = p.container ∧
        (markOptional config classname p).items = p.items := by
    unfold markOptional
    split_ifs <;> exact ⟨rfl, rfl⟩
  intro m h
  unfold applyDefaults
  split
  · exact h
  · have hDefaults : Stamped (synthesizeDefaults config m) := h.mapVars (hDefault m) rfl
    exact hDefaults.mapVars (hOptional m.classname) rfl

/-! ### Reference stubs -/

theorem stubTarget?_ne {live : List String} {type target : String}
    (h : stubTarget? live type = some target) : target ≠ type := by
  rintro rfl
  obtain ⟨hBack, _⟩ := Option.filter_eq_some_iff.mp h
  obtain ⟨front, hFront, hSame⟩ := Option.map_eq_some_iff.mp hBack
  have hLength := congrArg List.length (Text.after?_eq_some_iff.mp hFront)
  rw [← hSame] at hLength
  simp [stubBack] at hLength
  omega

/-- What the last pass makes of a field of a model. -/
def unstubField (config : Config) (live : List String) (classname : String) (p : Property) :
    Property :=
  if config.keepsReferenceOf classname p.baseName then p else unstubProperty live p

section Field

variable (config : Config) (live : List String) (classname : String) (p : Property)

theorem items_unstubProperty : (unstubProperty live p).items = p.items.map (unstub live) := by
  unfold unstubProperty
  cases hItems : p.items <;> simp [unstub, hItems]

@[simp] theorem baseName_unstubField : (unstubField config live classname p).baseName = p.baseName := by
  unfold unstubField unstubProperty
  repeat' split
  all_goals rfl

theorem isKnownList_unstubField :
    isKnownList (unstubField config live classname p) = isKnownList p := by
  have hContainer : (unstubProperty live p).container = p.container := by
    unfold unstubProperty
    split <;> rfl
  unfold unstubField
  split
  · rfl
  · rw [isKnownList, isKnownList, hContainer, items_unstubProperty, Option.isSome_map]

end Field

/-- The last pass goes over the fields of live models, and leaves the marks of all. -/
theorem unstubModel_live (config : Config) (live : List String) {m : Model} (hLive : m.removed = false) :
    (unstubModel config live m).vars = m.vars.map (unstubField config live m.classname) ∧
      (unstubModel config live m).marks = m.marks := by
  have hContainer : (unstubContainer config live m).classname = m.classname ∧
      (unstubContainer config live m).vars = m.vars ∧
      (unstubContainer config live m).marks = m.marks := by
    unfold unstubContainer
    repeat' split
    all_goals exact ⟨rfl, rfl, rfl⟩
  rw [unstubModel, if_neg (by simp [hLive])]
  refine ⟨?_, hContainer.2.2⟩
  rw [unstubVars, hContainer.1, hContainer.2.1]
  rfl

/-- The stamp of a live model is the name of a stub, and the first list of the model is a field whose
stubs are replaced. -/
def Outdated (config : Config) (live : List String) (m : Model) : Prop :=
  m.removed = false ∧ (m.marks.paginationInner.bind (stubTarget? live)).isSome = true ∧
    (listField? m.vars).any (fun p => !config.keepsReferenceOf m.classname p.baseName) = true

instance (config : Config) (live : List String) (m : Model) : Decidable (Outdated config live m) :=
  inferInstanceAs (Decidable (_ ∧ _ ∧ _))

/-- What the stamp of a model tells about its first list: the elements are of the type that the stamp
says, or of the type that the stub stands for when the stamp is outdated. -/
def TellsList (config : Config) (live : List String) (m : Model) : Prop :=
  ∀ type, m.marks.paginationInner = some type →
    firstListType? m.vars = if Outdated config live m then stubTarget? live type else some type

theorem TellsList.agrees_iff {config : Config} {live : List String} {m : Model}
    (h : TellsList config live m) {type : String} (hStamp : m.marks.paginationInner = some type) :
    ∃ inner, firstListType? m.vars = some inner ∧ (inner = type ↔ ¬ Outdated config live m) := by
  have hList := h type hStamp
  by_cases hOutdated : Outdated config live m
  · have hStub := hOutdated.2.1
    rw [hStamp, Option.bind_some] at hStub
    obtain ⟨target, hTarget⟩ := Option.isSome_iff_exists.mp hStub
    rw [if_pos hOutdated, hTarget] at hList
    exact ⟨target, hList, iff_of_false (stubTarget?_ne hTarget) (not_not_intro hOutdated)⟩
  · rw [if_neg hOutdated] at hList
    exact ⟨type, hList, iff_of_true rfl hOutdated⟩

/-- The last pass changes the first list of a live model, and never the stamp. -/
theorem unstubModel_tellsList {config : Config} {live : List String} {m : Model} (h : Stamped m) :
    TellsList config live (unstubModel config live m) := by
  intro type hStamp
  cases hRemoved : m.removed with
  | true =>
      have hSame : unstubModel config live m = m := by rw [unstubModel, if_pos hRemoved]
      rw [hSame] at hStamp ⊢
      rw [if_neg (by simp [Outdated, hRemoved])]
      exact h type hStamp
  | false =>
      obtain ⟨hVars, hMarks⟩ := unstubModel_live config live hRemoved
      rw [hMarks] at hStamp
      have hFirst := h type hStamp
      rw [firstListType?_eq] at hFirst
      obtain ⟨p, hList, hElement⟩ := Option.bind_eq_some_iff.mp hFirst
      obtain ⟨item, hItems, rfl⟩ := Option.map_eq_some_iff.mp hElement
      have hList' : listField? (unstubModel config live m).vars =
          some (unstubField config live m.classname p) := by
        rw [hVars, listField?_map (isKnownList_unstubField config live m.classname), hList]
        rfl
      have hOutdated : Outdated config live (unstubModel config live m) ↔
          (stubTarget? live item.datatype).isSome = true ∧
            config.keepsReferenceOf m.classname p.baseName = false := by
        simp [Outdated, (unstubModel_standing config live m).removed, hRemoved, hMarks, hStamp, hList',
          classname_unstubModel]
      simp only [hOutdated]
      rw [firstListType?_eq, hList', Option.bind_some, unstubField]
      cases hKept : config.keepsReferenceOf m.classname p.baseName with
      | true => simp [hItems]
      | false =>
          rw [if_neg (by simp), items_unstubProperty, hItems, Option.map_some, Option.map_some, unstub]
          cases hTarget : stubTarget? live item.datatype <;> simp

/-! ### All passes -/

/-- Before the last pass, stamps agree with the fields. -/
theorem beforeStubs_stamped (config : Config) (hints : Hints) {r : Registry}
    (h : ∀ m ∈ r.models, Stamped m) : ∀ m ∈ beforeStubs config hints r, Stamped m := by
  have hRelabel (m m' : Model) (hSame : Relabelled m m') (hm : Stamped m) : Stamped m' := by
    rw [hSame]
    exact hm.congr rfl rfl
  have hRenamed :=
    forall_renamed classify_keepsStamp (prune_keepsStamp hints) hRelabel renameTypes_keepsStamp h
  simp only [beforeStubs, List.forall_mem_map]
  exact fun m hm => applyDefaults_keepsStamp config m (hRenamed m hm)

theorem run_tellsList (config : Config) (hints : Hints) {r : Registry}
    (hFresh : r.crossReferenced = false) (h : ∀ m ∈ r.models, Stamped m) :
    let models := (run config hints r).registry.models
    ∀ m ∈ models, TellsList config (liveNames models) m := by
  have hStamped := beforeStubs_stamped config hints h
  intro models m' hm'
  have hModels : models = (beforeStubs config hints r).map (unstubModel config (liveNames models)) :=
    models_run_beforeStubs config hints hFresh
  rw [hModels] at hm'
  obtain ⟨m, hm, rfl⟩ := List.mem_map.mp hm'
  exact unstubModel_tellsList (hStamped m hm)

end ClientTypes.CrossReference
