import ClientTypes.Proofs.Compilation.Matching
import ClientTypes.Proofs.Model.Containers

/-! Lists and maps of a compiled document agree with their elements. What resolving builds
does, since refining leaves the type of a container alone; and each pass of matching changes
the type of a container together with that of its element. -/
namespace ClientTypes

open Naming TargetType Resolution CrossReference

/-! ### Refining -/

theorem IsContainerType.ne {type other : String} (h : IsContainerType type)
    (hOther : (Text.startsWith "Vec<" other || Text.startsWith "HashMap<" other) = false) :
    type ≠ other := by
  rintro rfl
  obtain ⟨inner, rfl | rfl⟩ := h
  · simp [startsWith_listOf] at hOther
  · simp [startsWith_mapOf] at hOther

variable {config : Config} {names : String → Prop} {p : Property}

/-- No correction that holds by itself is one of a list or a map. -/
theorem correctedType_container (hConfig : ShippedCorrections config) {type : String}
    (hType : IsContainerType type) (baseName : String) : correctedType config baseName type = type := by
  refine correctedType_of_forall_ne (fun c hMem => ?_) baseName
  rw [hConfig] at hMem
  simp only [Config.shipped, List.mem_cons, List.not_mem_nil, or_false] at hMem
  rcases hMem with rfl | rfl
  · exact (hType.ne (by decide)).symm
  · exact (hType.ne (by decide)).symm

theorem plainType_container (hContainer : p.container ≠ none) {type : String} (hType : IsContainerType type) :
    plainType p type = type := by
  rw [plainType, if_neg fun hMoment => hContainer hMoment.2, if_neg (hType.ne (by decide)),
    if_neg (hType.ne (by decide))]

theorem AllCoherent.enrich (hConfig : ShippedCorrections config) (h : AllCoherent p) :
    AllCoherent (enrich config p) := by
  have hRefines := enrich_refines config p
  refine h.congr (by rw [hRefines]) (by rw [hRefines]) (by rw [hRefines]) fun hContainer => ?_
  have hType := (allCoherent_iff.mp h).1.isContainerType hContainer
  have hPass : passType config p p.datatype = p.datatype := by
    rw [passType, plainType_container hContainer hType, correctedType_container hConfig hType]
  rw [datatype_enrich_eq, Function.iterate_fixed hPass]

theorem AllCoherent.spelledEntry (h : AllCoherent p) : AllCoherent (spelledEntry p) := by
  unfold Resolution.spelledEntry
  split
  next hOther =>
    refine h.congr rfl rfl rfl fun hContainer => ?_
    have hType := (allCoherent_iff.mp h).1.isContainerType hContainer
    exact absurd hType.isBuiltIn hOther.2
  next => exact h

/-! ### What resolving builds -/

theorem AllCoherent.named {item : Property} (h : AllCoherent item) (baseName name : String) :
    AllCoherent { item with baseName, name } :=
  h.congr rfl rfl rfl fun _ => rfl

theorem Resolution.Built.allCoherent (hConfig : ShippedCorrections config)
    (h : Built config names p) : AllCoherent p := by
  induction h with
  | @single p _ hContainer hItems hEntries =>
      have hFound : AllCoherent p :=
        allCoherent_iff.mpr ⟨.single hContainer hItems, by simp [hItems], by simp [hEntries]⟩
      exact hFound.enrich hConfig
  | @array p item _ hContainer hItems hType hEntries ih =>
      have hFound : AllCoherent p := by
        refine allCoherent_iff.mpr ⟨.array hContainer hItems hType, ?_, by simp [hEntries]⟩
        rw [hItems]
        rintro _ ⟨⟩
        exact ih.named _ _
      exact hFound.enrich hConfig
  | @map p item _ hContainer hItems hType hEntries ih =>
      have hFound : AllCoherent p := by
        refine allCoherent_iff.mpr ⟨.map hContainer hItems hType, ?_, by simp [hEntries]⟩
        rw [hItems]
        rintro _ ⟨⟩
        exact ih.named _ _
      exact hFound.enrich hConfig
  | @openMap p hContainer hItems hType _ ih =>
      have hFound : AllCoherent p :=
        allCoherent_iff.mpr ⟨.openMap hContainer hItems hType, by simp [hItems], ih⟩
      exact hFound.enrich hConfig
  | spelled _ ih => exact ih.spelledEntry

theorem Resolution.BuiltModel.coherent (hConfig : ShippedCorrections config) {m : Model}
    (h : BuiltModel config names m) : ModelCoherent m := by
  have hVars : ∀ p ∈ m.vars, AllCoherent p := fun p hp => (h.vars p hp).allCoherent hConfig
  cases h.standsFor with
  | nothing _ hContainer => exact ⟨hVars, by simp [hContainer], by simp [hContainer]⟩
  | object _ hContainer => exact ⟨hVars, by simp [hContainer], by simp [hContainer]⟩
  | value _ _ hContainer => exact ⟨hVars, by simp [hContainer], by simp [hContainer]⟩
  | openMap hType hContainer hInner =>
      exact ⟨hVars, by simp [hContainer], fun _ => ⟨_, hInner, hType⟩⟩
  | container hBuilt hType hContainer hInner =>
      -- The model has the type of a whole property, whose coherence decides.
      cases (allCoherent_iff.mp (hBuilt.allCoherent hConfig)).1 with
      | single hNone _ => exact ⟨hVars, by simp [hContainer, hNone], by simp [hContainer, hNone]⟩
      | array hArray hItems hIs =>
          refine ⟨hVars, fun _ => ⟨_, hInner, ?_⟩, by simp [hContainer, hArray]⟩
          rw [hType, hIs, hItems]
          rfl
      | map hMap hItems hIs =>
          refine ⟨hVars, by simp [hContainer, hMap], fun _ => ⟨_, hInner, ?_⟩⟩
          rw [hType, hIs, hItems]
          rfl
      | openMap hMap hItems hIs =>
          refine ⟨hVars, by simp [hContainer, hMap], fun _ => ⟨_, hInner, ?_⟩⟩
          rw [hType, hIs, hItems]
          rfl

/-! ### Marks, removal and default values -/

/-- What container, element and properties of a model say stays coherent under another type of a
model that is no container. -/
theorem ModelCoherent.congr {m m' : Model} (h : ModelCoherent m)
    (hContainer : m'.container = m.container) (hInner : m'.containerInner = m.containerInner)
    (hType : m.container ≠ none → m'.dataType = m.dataType)
    (hVars : ∀ p ∈ m'.vars, AllCoherent p) : ModelCoherent m' := by
  refine ⟨hVars, fun hArray => ?_, fun hMap => ?_⟩
  · rw [hContainer] at hArray
    rw [hInner, hType (by simp [hArray])]
    exact h.array hArray
  · rw [hContainer] at hMap
    rw [hInner, hType (by simp [hMap])]
    exact h.map hMap

/-- A model that stands for a container has the type of one. -/
theorem ModelCoherent.dataType_ne {m : Model} (h : ModelCoherent m) (hContainer : m.container ≠ none)
    {type : String}
    (hOther : (Text.startsWith "Vec<" type || Text.startsWith "HashMap<" type) = false) :
    m.dataType ≠ some type := by
  intro hType
  cases hIs : m.container with
  | none => exact hContainer hIs
  | some container =>
      cases container with
      | array =>
          obtain ⟨inner, _, hList⟩ := h.array hIs
          exact (isContainerType_listOf inner).ne hOther (Option.some.inj (hList.symm.trans hType))
      | map =>
          obtain ⟨inner, _, hMap⟩ := h.map hIs
          exact (isContainerType_mapOf inner).ne hOther (Option.some.inj (hMap.symm.trans hType))

/-- A pass that keeps all coherence. -/
def KeepsCoherent (pass : Model → Model) : Prop := ∀ m, ModelCoherent m → ModelCoherent (pass m)

theorem KeepsCoherent.comp {first next : Model → Model} (hNext : KeepsCoherent next)
    (hFirst : KeepsCoherent first) : KeepsCoherent fun m => next (first m) :=
  fun m h => hNext _ (hFirst m h)

theorem keepsCoherent_of_onlyMarks {pass : Model → Model} (hPass : Compilation.OnlyMarks pass) :
    KeepsCoherent pass := by
  intro m h
  rw [hPass m]
  exact h.congr rfl rfl (fun _ => rfl) h.vars

/-- A pass over the properties that only sets marks of each. -/
theorem ModelCoherent.mapVars {m : Model} (h : ModelCoherent m) {f : Property → Property}
    (hf : ∀ p, AllCoherent p → AllCoherent (f p)) (marks : ModelMarks) :
    ModelCoherent { m with vars := m.vars.map f, marks } := by
  refine h.congr rfl rfl (fun _ => rfl) fun p' hp' => ?_
  obtain ⟨p, hp, rfl⟩ := List.mem_map.mp hp'
  exact hf p (h.vars p hp)

theorem namedType_coherent : KeepsCoherent namedType := by
  intro m h
  unfold namedType
  split
  next hOpen =>
    exact h.congr rfl rfl (fun hContainer => absurd hOpen (h.dataType_ne hContainer (by decide))) h.vars
  next => exact h

theorem markWrapper_onlyMarks : Compilation.OnlyMarks markWrapper := by
  intro m
  unfold markWrapper
  repeat' split
  all_goals rfl

theorem markArray_onlyMarks : Compilation.OnlyMarks markArray := by
  intro m
  unfold markArray
  split <;> rfl

theorem markVars_coherent : KeepsCoherent markVars :=
  fun _ h => h.mapVars (f := markProperty) (fun _ hp => hp.congr rfl rfl rfl fun _ => rfl) _

theorem classify_coherent : KeepsCoherent classify :=
  markVars_coherent.comp <| (keepsCoherent_of_onlyMarks markArray_onlyMarks).comp <|
    (keepsCoherent_of_onlyMarks markWrapper_onlyMarks).comp namedType_coherent

theorem prune_coherent (hints : Hints) : KeepsCoherent (prune hints) := by
  intro m h
  unfold prune
  split
  · exact h.congr rfl rfl (fun _ => rfl) h.vars
  · exact h

theorem markDefault_coherent (config : Config) (m : Model) (h : AllCoherent p) :
    AllCoherent (markDefault config m p) := by
  unfold markDefault
  split
  · exact h
  · exact h.congr rfl rfl rfl fun _ => rfl
  · exact h.congr rfl rfl rfl fun _ => rfl

theorem markOptional_coherent (config : Config) (classname : String) (h : AllCoherent p) :
    AllCoherent (markOptional config classname p) := by
  have hMarked (marks : PropertyMarks Property) (hSame : marks.entries = p.marks.entries) :
      AllCoherent { p with marks } := h.congr rfl rfl hSame fun _ => rfl
  unfold markOptional
  split_ifs
  · exact hMarked _ rfl
  · exact h
  · exact h
  · exact hMarked _ rfl

theorem applyDefaults_coherent (config : Config) : KeepsCoherent (applyDefaults config) := by
  intro m h
  unfold applyDefaults
  split
  · exact h
  · have hDefaults := h.mapVars (fun p hp => markDefault_coherent config m hp)
      (synthesizeDefaults config m).marks
    exact hDefaults.mapVars (fun p hp => markOptional_coherent config m.classname hp) _

/-! ### Renaming -/

section Renaming

variable {renames : Table String String} (hFixed : ∀ name ∈ fixedNames, renames.get? name = none)

include hFixed

theorem renameIdentifiers_openMap : renameIdentifiers renames openMap = openMap := by
  have hOpen : ∀ name ∈ identifiers openMap, name ∈ fixedNames := by decide +kernel
  exact renameIdentifiers_of_settled fun name hName => hFixed name (hOpen name hName)

theorem renameTypes_coherent (shown : Nat → Nat) : KeepsCoherent (renameTypes renames shown) := by
  intro m h
  have hList := renameIdentifiers_listOf (hFixed "Vec" (by decide))
  have hMap := renameIdentifiers_mapOf (hFixed "HashMap" (by decide)) (hFixed "String" (by decide))
  refine ⟨fun p' hp' => ?_, fun hArray => ?_, fun hMapped => ?_⟩
  · obtain ⟨p, hp, rfl⟩ : ∃ p ∈ m.vars, mapProperty (renameIdentifiers renames)
        (renameValues renames shown) p = p' := by
      simpa [renameTypes, mapProperties_eq_map] using hp'
    exact (h.vars p hp).mapProperty hList hMap (renameIdentifiers_openMap hFixed)
  · obtain ⟨inner, hInner, hType⟩ := h.array hArray
    exact ⟨renameIdentifiers renames inner, by simp [renameTypes, hInner],
      by simp [renameTypes, hType, hList]⟩
  · obtain ⟨inner, hInner, hType⟩ := h.map hMapped
    exact ⟨renameIdentifiers renames inner, by simp [renameTypes, hInner],
      by simp [renameTypes, hType, hMap]⟩

end Renaming

theorem rename_coherent {hints : Hints} (hNumbered : hints.Numbered) {models : List Model}
    (h : ∀ m ∈ models, ModelCoherent m) : ∀ m ∈ (rename hints models).1, ModelCoherent m := by
  have hRun := renameModels_run hints (.initial models) models
  have hLabelled : ∀ m ∈ (renameModels hints (.initial models) models).1, ModelCoherent m :=
    forall_of_relabelled (fun m m' hSame hm => by
      rw [hSame]
      exact hm.congr rfl rfl (fun _ => rfl) hm.vars) hRun.relabelled h
  simp only [rename, renameAllTypes_eq, List.forall_mem_map]
  exact fun m hm => renameTypes_coherent (hRun.fixed_stay hNumbered) _ m (hLabelled m hm)

/-! ### Reference stubs -/

theorem stubTarget?_container {live : List String} {type : String} (h : IsContainerType type) :
    stubTarget? live type = none := by
  rw [stubTarget?, stubBack, h.dropBack?]
  rfl

theorem unstub_coherent (live : List String) (h : AllCoherent p) : AllCoherent (unstub live p) := by
  refine h.congr rfl rfl rfl fun hContainer => ?_
  have hType := (allCoherent_iff.mp h).1.isContainerType hContainer
  simp [unstub, stubTarget?_container hType]

/-- The element of a container and the type of the container are replaced together. -/
theorem unstubProperty_coherent (live : List String) (h : AllCoherent p) :
    AllCoherent (unstubProperty live p) := by
  have hOuter := unstub_coherent live h
  unfold unstubProperty
  cases hItems : p.items with
  | none => exact hOuter
  | some item =>
      obtain ⟨hOwn, hInItems, hInEntries⟩ := allCoherent_iff.mp h
      have hItem := unstub_coherent live (hInItems item hItems)
      refine allCoherent_iff.mpr ⟨?_, ?_, hInEntries⟩
      · cases hOwn with
        | single _ hBare => simp [hBare] at hItems
        | array hArray => exact .array hArray rfl (by simp [wrapped, hArray])
        | map hMap => exact .map hMap rfl (by simp [wrapped, hMap])
        | openMap _ hBare => simp [hBare] at hItems
      · rintro _ ⟨⟩
        exact hItem

theorem unstubContainer_coherent (config : Config) (live : List String) :
    KeepsCoherent (unstubContainer config live) := by
  intro m h
  unfold unstubContainer
  split
  · exact h
  · split
    · exact h
    next inner hTarget =>
      refine ⟨h.vars, fun hArray => ⟨inner, rfl, ?_⟩, fun hMap => ⟨inner, rfl, ?_⟩⟩
      · dsimp only at hArray ⊢
        simp [hArray, wrapped]
      · dsimp only at hMap ⊢
        simp [hMap, wrapped]

theorem unstubModel_coherent (config : Config) (live : List String) :
    KeepsCoherent (unstubModel config live) := by
  intro m h
  unfold unstubModel
  split
  · exact h
  · refine (unstubContainer_coherent config live m h).mapVars (fun p hp => ?_) _
    split
    · exact hp
    · exact unstubProperty_coherent live hp

end ClientTypes

/-! ### Compiled documents -/

namespace ClientTypes.Compilation

open Resolution CrossReference

variable {config : Config} {document : ApiDocument}

/-- Matching keeps all coherence. -/
theorem run_coherent {hints : Hints} (hNumbered : hints.Numbered) {r : Registry}
    (hFresh : r.crossReferenced = false) (h : ∀ m ∈ r.models, ModelCoherent m) :
    ∀ m ∈ (run config hints r).registry.models, ModelCoherent m := by
  have hPruned : ∀ m ∈ pruned hints r, ModelCoherent m := by
    simp only [pruned, List.forall_mem_map]
    exact fun m hm => prune_coherent hints _ (classify_coherent m (h m hm))
  have hRenamed := rename_coherent hNumbered hPruned
  rw [models_run config hints hFresh]
  dsimp only
  rw [List.forall_mem_map, List.forall_mem_map]
  exact fun m hm => unstubModel_coherent config _ _ (applyDefaults_coherent config m (hRenamed m hm))

theorem matchedModels_coherent (hConfig : ShippedCorrections config) {operations : List Operation}
    {declared : List Model} {w : Workspace}
    (hRun : (resolveDocument ⟨config, document.schemas⟩ document).run {} =
      .ok ((operations, declared), w)) :
    ∀ m ∈ matchedModels config declared w, ModelCoherent m := by
  obtain ⟨hPrepared, hDeclared, _⟩ :=
    @resolveDocument_prepared ⟨config, document.schemas⟩ document _ _ hRun
  have hFresh : (registryOf declared w.synthetic).crossReferenced = false := by simp [registryOf]
  have hNumbered : w.hints.freeze.Numbered := hPrepared.numbered
  refine run_coherent hNumbered hFresh fun m hm => ?_
  rcases mem_registryOf hm with hOwn | hSynthetic
  · exact (hDeclared m hOwn).coherent hConfig
  · exact (hPrepared.built m hSynthetic).coherent hConfig

/-- In a compiled document every list and every map has the type of its element, at any depth, and
so has every model that stands for one. -/
theorem compiled_containers_coherent {result : Result} (hConfig : ShippedCorrections config)
    (hCompile : compile config document = .ok result) :
    ∀ m ∈ result.api.models, ModelCoherent m := by
  obtain ⟨operations, declared, w, hRun, mark, hMark, hModels⟩ := compile_models hCompile
  rw [hModels, List.forall_mem_map]
  intro m hm
  exact keepsCoherent_of_onlyMarks hMark m
    (matchedModels_coherent hConfig hRun m (List.mem_of_mem_filter hm))

/-- Lists and maps of a model, of its reference stub, and of one another. -/
def rosterDocument : ApiDocument where
  schemas := [
    ("Team", { properties := [("name", { kind := .primitive, type := some "string" })] }),
    ("TeamReference", { properties := [("id", { kind := .primitive, type := some "string" })] }),
    ("Roster", { properties := [
      ("teams", listOfStubs), ("byCity", { kind := .map, additional := .each listOfStubs })] }),
    ("Teams", listOfStubs)]
where
  listOfStubs : Schema :=
    { kind := .array, items := some { reference := some "#/components/schemas/TeamReference" } }

theorem compiled_containers_coherent_roster :
    ∃ result, compile Config.shipped rosterDocument = .ok result ∧
      (∀ m ∈ result.api.models, ModelCoherent m) ∧
      result.api.models.map (fun m => (m.dataType, typesInProperties m.vars)) =
        [(some "Team", ["String"]), (some "TeamReference", ["String"]),
          (some "Roster", ["Vec<Team>", "Team",
            "HashMap<String, Vec<TeamReference>>", "Vec<TeamReference>", "TeamReference"]),
          (some "Vec<Team>", [])] := by
  have hTypes : (compile Config.shipped rosterDocument).toOption.map (fun result =>
      result.api.models.map fun m => (m.dataType, typesInProperties m.vars)) = some
        [(some "Team", ["String"]), (some "TeamReference", ["String"]),
          (some "Roster", ["Vec<Team>", "Team",
            "HashMap<String, Vec<TeamReference>>", "Vec<TeamReference>", "TeamReference"]),
          (some "Vec<Team>", [])] := by decide +kernel
  obtain ⟨result, hOk, hModels⟩ := Option.map_eq_some_iff.mp hTypes
  have hCompile := ok_of_toOption hOk
  exact ⟨result, hCompile, compiled_containers_coherent rfl hCompile, hModels⟩

end ClientTypes.Compilation
