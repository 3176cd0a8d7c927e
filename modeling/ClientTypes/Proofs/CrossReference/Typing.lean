import ClientTypes.CrossReference
import ClientTypes.Proofs.CrossReference.Substitution
import ClientTypes.Proofs.Resolution.Typing

/-! The types of models through the passes of matching. Marks, removal and default
values leave types as they are, except that the mark of an open object is replaced by
the name of its model. Renaming moves types to the new classnames, and a reference
stub is replaced by a live classname. -/
namespace ClientTypes.CrossReference

open Naming TargetType Resolution

/-- Every type of a model is an expression over the names. -/
def Closed (names : String → Prop) (m : Model) : Prop := ∀ type ∈ typesInModel m, IsType names type

/-- Some model has this classname. -/
def IsClassname (models : List Model) (name : String) : Prop := ∃ m ∈ models, m.classname = name

/-- Every type of every model is an expression over the classnames of the models. -/
def AllClosed (models : List Model) : Prop := ∀ m ∈ models, Closed (IsClassname models) m

variable {names names' : String → Prop} {m : Model} {models : List Model}

theorem closed_iff : Closed names m ↔
    (∀ type, m.dataType = some type → IsType names type) ∧
      (∀ type, m.containerInner = some type → IsType names type) ∧
      (∀ type, m.marks.paginationInner = some type → IsType names type) ∧
      ∀ p ∈ m.vars, PropertyTyped names p := by
  simp only [Closed, typesInModel, List.forall_mem_append, Option.mem_toList, and_assoc,
    propertiesTyped_iff]

theorem isClassname_map {pass : Model → Model} (hPass : ∀ m, (pass m).classname = m.classname) :
    IsClassname (models.map pass) = IsClassname models := by
  funext name
  simp [IsClassname, hPass]

/-! ### Passes that leave types as they are -/

/-- Types and classname of a model stay what they are. -/
structure LeavesTypes (pass : Model → Model) : Prop where
  types : ∀ m, typesInModel (pass m) = typesInModel m
  classname : ∀ m, (pass m).classname = m.classname

theorem LeavesTypes.closed {pass : Model → Model} (h : LeavesTypes pass) (hModel : Closed names m) :
    Closed names (pass m) := by
  rw [Closed, h.types]
  exact hModel

theorem LeavesTypes.comp {first next : Model → Model} (hNext : LeavesTypes next)
    (hFirst : LeavesTypes first) : LeavesTypes fun m => next (first m) where
  types m := (hNext.types _).trans (hFirst.types m)
  classname m := (hNext.classname _).trans (hFirst.classname m)

theorem AllClosed.map {pass : Model → Model} (h : AllClosed models) (hPass : LeavesTypes pass) :
    AllClosed (models.map pass) := by
  intro m' hMem
  obtain ⟨m, hm, rfl⟩ := List.mem_map.mp hMem
  rw [isClassname_map hPass.classname]
  exact hPass.closed (h m hm)

theorem typesInProperties_map {f : Property → Property}
    (hf : ∀ p, typesInProperty (f p) = typesInProperty p) (ps : List Property) :
    typesInProperties (ps.map f) = typesInProperties ps := by
  induction ps with
  | nil => rfl
  | cons p rest ih => rw [List.map_cons, typesInProperties, typesInProperties, hf, ih]

/-- A pass over the properties leaves the types of a model when it leaves those of each. -/
theorem typesInModel_mapVars {f : Property → Property}
    (hf : ∀ p, typesInProperty (f p) = typesInProperty p) (marks : ModelMarks)
    (hPage : marks.paginationInner = m.marks.paginationInner) :
    typesInModel { m with vars := m.vars.map f, marks } = typesInModel m := by
  rw [typesInModel, typesInModel, typesInProperties_map hf, hPage]

theorem typesInProperty_markProperty (p : Property) :
    typesInProperty (markProperty p) = typesInProperty p := by
  cases p
  rfl

theorem markWrapper_leavesTypes : LeavesTypes markWrapper := by
  constructor
  all_goals
    intro m
    unfold markWrapper
    repeat' split
    all_goals rfl

theorem markArray_leavesTypes : LeavesTypes markArray := by
  constructor
  all_goals
    intro m
    unfold markArray
    split <;> rfl

theorem markVars_leavesTypes : LeavesTypes markVars where
  types _ := typesInModel_mapVars typesInProperty_markProperty _ rfl
  classname _ := rfl

theorem prune_leavesTypes (hints : Hints) : LeavesTypes (prune hints) := by
  constructor
  all_goals
    intro m
    unfold prune
    split <;> rfl

theorem typesInProperty_markDefault (config : Config) (m : Model) (p : Property) :
    typesInProperty (markDefault config m p) = typesInProperty p := by
  unfold markDefault
  split
  · rfl
  · cases p
    rfl
  · cases p
    rfl

theorem typesInProperty_markOptional (config : Config) (classname : String) (p : Property) :
    typesInProperty (markOptional config classname p) = typesInProperty p := by
  cases p
  unfold markOptional
  repeat' split
  all_goals rfl

theorem synthesizeDefaults_leavesTypes (config : Config) : LeavesTypes (synthesizeDefaults config) where
  types m := typesInModel_mapVars (typesInProperty_markDefault config m) _ rfl
  classname _ := rfl

theorem deoptionalize_leavesTypes (config : Config) : LeavesTypes (deoptionalize config) where
  types m := typesInModel_mapVars (typesInProperty_markOptional config m.classname) m.marks rfl
  classname _ := rfl

theorem applyDefaults_leavesTypes (config : Config) : LeavesTypes (applyDefaults config) := by
  have hBoth := (deoptionalize_leavesTypes config).comp (synthesizeDefaults_leavesTypes config)
  constructor
  all_goals
    intro m
    unfold applyDefaults
    split
  · rfl
  · exact hBoth.types m
  · rfl
  · exact hBoth.classname m

/-! ### Marks -/

/-- The name of a model takes the place of the mark of an open object. -/
theorem namedType_closed (h : ModelTyped names m) (hOwn : names m.classname) :
    Closed names (namedType m) := by
  unfold namedType
  split
  next hOpen =>
    refine closed_iff.mpr ⟨?_, h.containerInner, h.paginationInner, h.vars⟩
    rintro type ⟨⟩
    exact .model hOwn
  next hOther =>
    refine closed_iff.mpr ⟨fun type hType => ?_, h.containerInner, h.paginationInner, h.vars⟩
    rcases h.dataType type hType with rfl | hTyped
    · exact absurd hType hOther
    · exact hTyped

theorem marks_leavesTypes : LeavesTypes fun m => markVars (markArray (markWrapper m)) :=
  markVars_leavesTypes.comp (markArray_leavesTypes.comp markWrapper_leavesTypes)

theorem classname_classify (m : Model) : (classify m).classname = m.classname := by
  have hNamed : (namedType m).classname = m.classname := by
    unfold namedType
    split <;> rfl
  exact (marks_leavesTypes.classname (namedType m)).trans hNamed

/-- Once marks are set, no open object is left. -/
theorem classify_closed (h : ∀ m ∈ models, ModelTyped (IsClassname models) m) :
    AllClosed (models.map classify) := by
  intro m' hMem
  obtain ⟨m, hm, rfl⟩ := List.mem_map.mp hMem
  rw [isClassname_map classname_classify]
  exact marks_leavesTypes.closed (namedType_closed (h m hm) ⟨m, hm, rfl⟩)

/-! ### Renaming -/

private theorem fixedNames_plain : ∀ name ∈ fixedNames, withoutUnionFront name = name ∧
    ∀ front ∈ Hints.numberedFronts, Text.startsWith front (camelize name) = false ∧
      Text.startsWith front name = false := by
  decide +kernel

/-- A model that is called like a part of a built-in type keeps its classname: such a
name is no placeholder, and goes on from none. -/
theorem friendlyName?_fixed {hints : Hints} (hNumbered : hints.Numbered)
    (hFixed : m.classname ∈ fixedNames) : friendlyName? hints m = none := by
  obtain ⟨hBare, hFronts⟩ := fixedNames_plain _ hFixed
  have hOwn : hints.get? m.classname = none := by
    refine Table.get?_eq_none_iff.mpr fun hKey => ?_
    obtain ⟨front, hFront, hStarts⟩ := hNumbered _ hKey
    simp [(hFronts front hFront).1] at hStarts
  have hNone : hints.longestFront? m.classname = none := by
    refine Option.eq_none_iff_forall_ne_some.mpr fun best hBest => ?_
    obtain ⟨hEntry, hAfter⟩ := Hints.longestFront?_spec hBest
    obtain ⟨front, hFront, hStarts⟩ := hNumbered _ (List.mem_map_of_mem hEntry)
    obtain ⟨more, hMore⟩ := Text.startsWith_iff.mp hStarts
    obtain ⟨rest, hRest⟩ := Option.isSome_iff_exists.mp hAfter
    have hSplit := Text.dropFront?_eq_some_iff.mp (Option.filter_eq_some_iff.mp hRest).1
    have hGoesOn : Text.startsWith front m.classname = true := by
      rw [Text.startsWith_iff, hSplit, hMore, List.append_assoc]
      exact ⟨_, rfl⟩
    simp [(hFronts front hFront).2] at hGoesOn
  simp [friendlyName?, hBare, hOwn, hNone]

section Run

variable {hints : Hints} {labelled : List Model} {s : RenameState}
  (hRun : RenameRun hints (.initial models) models labelled s)

include hRun

theorem RenameRun.fixed_stay (hNumbered : hints.Numbered) :
    ∀ name ∈ fixedNames, s.renames.get? name = none := by
  intro name hName
  by_contra hRenamed
  rcases hRun.offered hRenamed with hEarlier | ⟨m, _, rfl, hOffer⟩
  · exact hEarlier rfl
  · exact hOffer (friendlyName?_fixed hNumbered hName)

/-- What a classname is replaced by is a classname after the run. -/
theorem RenameRun.isClassname (hNames : ∀ m ∈ models, IsTypeName m.classname) {name : String}
    (hName : IsClassname models name) : IsClassname labelled (renameIdentifiers s.renames name) := by
  obtain ⟨m, hm, rfl⟩ := hName
  rw [renameIdentifiers_of_isIdentifier (hNames m hm).isIdentifier]
  cases hNew : s.renames.get? m.classname with
  | none => exact hRun.kept m hm hNew
  | some new =>
      have hStart : (RenameState.initial models).renames.get? m.classname ≠ some new := nofun
      exact (hRun.given hNew).resolve_left hStart

theorem RenameRun.closed_renameTypes (hNumbered : hints.Numbered)
    (hNames : ∀ m ∈ models, IsTypeName m.classname) (hClosed : AllClosed models)
    (shown : Nat → Nat) : AllClosed (labelled.map (renameTypes s.renames shown)) := by
  have hSameNames : IsClassname (labelled.map (renameTypes s.renames shown)) =
      IsClassname labelled := isClassname_map fun _ => rfl
  have hTypes : labelled.map typesInModel = models.map typesInModel :=
    map_eq_of_relabelled (fun _ _ h => h.typesInModel) hRun.relabelled
  intro m' hMem
  obtain ⟨relabelled, hRelabelled, rfl⟩ := List.mem_map.mp hMem
  obtain ⟨m, hm, hSame⟩ := List.mem_map.mp (hTypes ▸ List.mem_map_of_mem hRelabelled)
  rw [hSameNames, Closed, typesInModel_renameTypes, ← hSame, List.forall_mem_map]
  intro type hType
  exact (hClosed m hm type hType).rename (hRun.fixed_stay hNumbered)
    fun name hName => hRun.isClassname hNames hName

end Run

/-- Renaming keeps every type an expression over the classnames, also where models
share a classname. -/
theorem rename_closed {hints : Hints} (hNumbered : hints.Numbered)
    (hNames : ∀ m ∈ models, IsTypeName m.classname) (hClosed : AllClosed models) :
    AllClosed (rename hints models).1 := by
  have hRun := renameModels_run hints (.initial models) models
  simp only [rename, renameAllTypes_eq]
  exact hRun.closed_renameTypes hNumbered hNames hClosed _

theorem rename_words {hints : Hints} (hHints : hints.Reached)
    (hWords : ∀ m ∈ models, IsWord m.classname.toList) :
    ∀ m ∈ (rename hints models).1, IsWord m.classname.toList := by
  have hRun := renameModels_run hints (.initial models) models
  simp only [rename, renameAllTypes_eq, List.forall_mem_map]
  exact hRun.allChars (fun _ he => hHints.isWord he) isWord_enum hWords

/-! ### Reference stubs -/

variable {live : List String} (hLive : ∀ name ∈ live, names name)

include hLive

theorem stubTarget?_isType {type target : String} (h : stubTarget? live type = some target) :
    IsType names target := by
  have hFilter : target ≠ "" ∧ target ∈ live := by
    simpa using (Option.filter_eq_some_iff.mp h).2
  exact .model (hLive target hFilter.2)

theorem unstub_typed {p : Property} (h : PropertyTyped names p) :
    PropertyTyped names (unstub live p) := by
  refine ⟨?_, h.inside⟩
  change IsType names ((stubTarget? live p.datatype).getD p.datatype)
  cases hTarget : stubTarget? live p.datatype with
  | none => exact h.own
  | some target => exact stubTarget?_isType hLive hTarget

omit hLive in
theorem wrapped_isType {container : Option Container} {inner current : String}
    (hInner : IsType names inner) (hCurrent : container = none → IsType names current) :
    IsType names (wrapped container inner current) := by
  unfold wrapped
  split
  · exact .list hInner
  · exact .map hInner
  · exact hCurrent rfl

theorem unstubProperty_typed {p : Property} (h : PropertyTyped names p) :
    PropertyTyped names (unstubProperty live p) := by
  have hOuter := unstub_typed hLive h
  unfold unstubProperty
  cases hItems : p.items with
  | none => exact hOuter
  | some item =>
      have hItem := unstub_typed hLive (h.item hItems)
      refine ⟨wrapped_isType hItem.own fun _ => hOuter.own, fun type hType => ?_⟩
      rcases List.mem_append.mp hType with hInItem | hInEntries
      · exact propertyTyped_iff.mp hItem type hInItem
      · exact h.inside type (List.mem_append_right _ hInEntries)

theorem unstubContainer_closed {config : Config} (h : Closed names m) :
    Closed names (unstubContainer config live m) := by
  obtain ⟨hData, hInner, hPage, hVars⟩ := closed_iff.mp h
  unfold unstubContainer
  split
  · exact h
  · split
    next => exact h
    next inner hTarget =>
      obtain ⟨_, _, hStub⟩ := Option.bind_eq_some_iff.mp hTarget
      have hType := stubTarget?_isType hLive hStub
      refine closed_iff.mpr ⟨?_, by rintro _ ⟨⟩; exact hType, hPage, hVars⟩
      dsimp only
      split
      · exact hData
      · rintro _ ⟨⟩
        exact wrapped_isType hType nofun

theorem unstubVars_closed {config : Config} (h : Closed names m) :
    Closed names (unstubVars config live m) := by
  obtain ⟨hData, hInner, hPage, hVars⟩ := closed_iff.mp h
  refine closed_iff.mpr ⟨hData, hInner, hPage, fun p' hMem => ?_⟩
  obtain ⟨p, hp, rfl⟩ := List.mem_map.mp hMem
  split
  · exact hVars p hp
  · exact unstubProperty_typed hLive (hVars p hp)

theorem unstubModel_closed {config : Config} (h : Closed names m) :
    Closed names (unstubModel config live m) := by
  unfold unstubModel
  split
  · exact h
  · exact unstubVars_closed hLive (unstubContainer_closed hLive h)

omit hLive in
theorem classname_unstubModel (config : Config) (live : List String) (m : Model) :
    (unstubModel config live m).classname = m.classname := by
  have hContainer : (unstubContainer config live m).classname = m.classname := by
    unfold unstubContainer
    repeat' split
    all_goals rfl
  unfold unstubModel
  split
  · rfl
  · exact hContainer

omit hLive in
theorem unstub_closed (config : Config) (h : AllClosed models) :
    AllClosed (models.map (unstubModel config (liveNames models))) := by
  have hNames : ∀ name ∈ liveNames models, IsClassname models name := by
    intro name hName
    obtain ⟨m, hm, hIs⟩ := List.mem_map.mp hName
    exact ⟨m, List.mem_of_mem_filter hm, hIs⟩
  intro m' hMem
  obtain ⟨m, hm, rfl⟩ := List.mem_map.mp hMem
  rw [isClassname_map (classname_unstubModel config _)]
  exact unstubModel_closed hNames (h m hm)

/-! ### All passes -/

omit hLive in
theorem models_run (config : Config) (hints : Hints) {r : Registry}
    (hFresh : r.crossReferenced = false) :
    (run config hints r).registry.models =
      let renamed := (rename hints ((r.models.map classify).map (prune hints))).1
      let defaulted := renamed.map (applyDefaults config)
      defaulted.map (unstubModel config (liveNames defaulted)) := by
  rw [run, if_neg (by simp [hFresh])]

omit hLive in
/-- Matching models that are typed over their classnames leaves types over the new
classnames, and the new classnames are words. -/
theorem run_closed {config : Config} {hints : Hints} {r : Registry}
    (hFresh : r.crossReferenced = false) (hHints : hints.Reached) (hNumbered : hints.Numbered)
    (hNames : ∀ m ∈ r.models, IsTypeName m.classname)
    (hTyped : ∀ m ∈ r.models, ModelTyped (IsClassname r.models) m) :
    AllClosed (run config hints r).registry.models ∧
      ∀ m ∈ (run config hints r).registry.models, IsWord m.classname.toList := by
  have hPruned : AllClosed ((r.models.map classify).map (prune hints)) :=
    (classify_closed hTyped).map (prune_leavesTypes hints)
  have hSpelled : ∀ m ∈ (r.models.map classify).map (prune hints), IsTypeName m.classname := by
    simpa [(prune_leavesTypes hints).classname, classname_classify] using hNames
  have hRenamed := rename_closed hNumbered hSpelled hPruned
  have hWords := rename_words hHints fun m hm => (hSpelled m hm).isIdentifier.isWord
  rw [models_run config hints hFresh]
  refine ⟨unstub_closed config (hRenamed.map (applyDefaults_leavesTypes config)), ?_⟩
  simpa [classname_unstubModel, (applyDefaults_leavesTypes config).classname] using hWords

end ClientTypes.CrossReference
