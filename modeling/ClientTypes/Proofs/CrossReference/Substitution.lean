import ClientTypes.Proofs.CrossReference.Renaming

/-! Renaming as one substitution. With distinct classnames every type of a model
has its identifiers replaced at once, whatever the order of the models. The arms
of a union are the exception: a list of arms that is shown in several places is
gone over once for each place, and stays a single substitution exactly when no
new name of its identifiers is an old name again. -/
namespace ClientTypes.CrossReference

open Naming

/-! ### Every type of every model -/

theorem renameValues_nil (shown : Nat → Nat) (v : AllowableValues) : renameValues [] shown v = v := by
  have hIterate (times : Nat) (type : String) :
      iterate (renameIdentifiers []) times type = type :=
    iterate_of_settled (fun _ _ => rfl) times
  simp [renameValues, hIterate]

theorem renameTypes_nil (shown : Nat → Nat) (m : Model) : renameTypes [] shown m = m := by
  have hType : renameIdentifiers [] = id := funext renameIdentifiers_nil
  have hValues : renameValues [] shown = id := funext (renameValues_nil shown)
  simp [renameTypes, hType, hValues, mapProperties_id]

/-- Without new names every model stays, as it would by going over its types. -/
theorem renameAllTypes_eq (renames : Table String String) (models : List Model) :
    renameAllTypes renames models = models.map (renameTypes renames (timesShown models)) := by
  unfold renameAllTypes
  split
  next hEmpty =>
    rw [List.isEmpty_iff.mp hEmpty, funext (renameTypes_nil _)]
    exact (List.map_id models).symm
  next => rfl

theorem typesInModel_renameTypes (renames : Table String String) (shown : Nat → Nat) (m : Model) :
    typesInModel (renameTypes renames shown m) =
      (typesInModel m).map (renameIdentifiers renames) := by
  simp only [typesInModel, renameTypes, typesInProperties_mapProperties, List.map_append]
  cases m.dataType <;> cases m.containerInner <;> cases m.marks.paginationInner <;> rfl

theorem valuesInModel_renameTypes (renames : Table String String) (shown : Nat → Nat) (m : Model) :
    valuesInModel (renameTypes renames shown m) =
      (valuesInModel m).map (renameValues renames shown) := by
  simp only [valuesInModel, renameTypes, valuesInProperties_mapProperties, List.map_append]
  cases m.values <;> rfl

/-- A list of values that some model shows is shown at least once. -/
theorem timesShown_pos {models : List Model} {m : Model} {v : AllowableValues} {number : Nat}
    (hModel : m ∈ models) (hShown : v ∈ valuesInModel m) (hNumber : v.sharedList = some number) :
    0 < timesShown models number := by
  refine List.length_pos_of_mem (a := v) (List.mem_filter.mpr ⟨?_, by simp [hNumber]⟩)
  exact List.mem_flatMap.mpr ⟨m, hModel, hShown⟩

/-! ### The arms of unions -/

/-- The types of the arms have been replaced once. -/
def ArmsSubstituted (renames : Table String String) (v v' : AllowableValues) : Prop :=
  v'.variants.map (·.datatype) = v.variants.map fun arm => renameIdentifiers renames arm.datatype

/-- If the list of arms is shown in several places, then what the identifiers of
its types are renamed to is not renamed again. -/
def ArmsSettle (renames : Table String String) (models : List Model) (v : AllowableValues) : Prop :=
  ∀ number, v.sharedList = some number → 2 ≤ timesShown models number →
    ∀ arm ∈ v.variants, ∀ old ∈ identifiers arm.datatype, ∀ new, renames.get? old = some new →
      Settled renames new

theorem armsSubstituted_iff {renames : Table String String} {rank : String → Nat}
    (hWords : ToWords renames) (hDescends : Descends renames rank) {models : List Model}
    {m : Model} {v : AllowableValues} (hModel : m ∈ models) (hShown : v ∈ valuesInModel m) :
    ArmsSubstituted renames v (renameValues renames (timesShown models) v) ↔
      ArmsSettle renames models v := by
  simp only [ArmsSubstituted, renameValues, List.map_map, List.map_inj_left, Function.comp_apply]
  cases hList : v.sharedList with
  | none => simp [ArmsSettle, hList, iterate]
  | some number =>
      have hPositive := timesShown_pos hModel hShown hList
      by_cases hOnce : timesShown models number = 1
      · simp [ArmsSettle, hList, hOnce, iterate]
      · have hTimes : 2 ≤ timesShown models number := by omega
        simp only [iterate_eq_once_iff hWords hDescends hTimes,
          settled_renameIdentifiers_iff hWords, ArmsSettle, hList, Option.some.injEq]
        constructor
        · rintro hArms _ rfl _
          exact hArms
        · intro hArms
          exact hArms number rfl hTimes

/-! ### The whole step -/

variable {hints : Hints} {models : List Model}

/-- What is known of the run that gives distinct classnames their new names. -/
theorem rename_run (hints : Hints) (hNames : (models.map (·.classname)).Nodup) :
    ∃ labelled s, RenameRun hints (.initial models) models labelled s ∧
      rename hints models =
        (labelled.map (renameTypes s.renames (timesShown models)), s.renames) ∧
      s.renames = changedNames models labelled ∧
      s.renames.Pairwise fun e later => e.2 ≠ later.1 := by
  have hRun := renameModels_run hints (.initial models) models
  have hHeld : NamesHeld (RenameState.initial models).taken models := by
    intro m hm hLive
    simpa [RenameState.initial] using ⟨m, ⟨hm, hLive⟩, rfl⟩
  have hShown : timesShown (renameModels hints (.initial models) models).1 =
      timesShown models := by
    funext number
    simp only [timesShown, List.flatMap_def,
      map_eq_of_relabelled (fun _ _ h => h.valuesInModel) hRun.relabelled]
  obtain ⟨hTable, hPairs⟩ := hRun.renames_eq hNames hHeld (by simp [RenameState.initial, Table.keys])
  rw [show (RenameState.initial models).renames = [] from rfl, List.nil_append] at hTable
  exact ⟨_, _, hRun, by simp only [rename, renameAllTypes_eq, hShown], hTable, hTable ▸ hPairs⟩

theorem mem_changedNames {before after : List Model} {old new : String} :
    (old, new) ∈ changedNames before after ↔
      (old, new) ∈ (before.map (·.classname)).zip (after.map (·.classname)) ∧ old ≠ new := by
  simp [changedNames]

theorem keys_changedNames_nodup {before : List Model} (after : List Model)
    (hNames : (before.map (·.classname)).Nodup) : (changedNames before after).keys.Nodup := by
  induction before generalizing after with
  | nil => simp [changedNames, Table.keys]
  | cons m rest ih =>
      cases after with
      | nil => simp [changedNames, Table.keys]
      | cons m' more =>
          obtain ⟨hOther, hRest⟩ := List.nodup_cons.mp hNames
          rw [changedNames_cons]
          split
          · exact ih more hRest
          · refine List.nodup_cons.mpr ⟨fun hKey => hOther ?_, ih more hRest⟩
            obtain ⟨⟨old, new⟩, hMem, hSame⟩ := List.mem_map.mp hKey
            cases hSame
            exact (List.of_mem_zip (mem_changedNames.mp hMem).1).1

/-- Models before and after renaming by a table. Types outside unions are replaced
at once; the arms of a union are replaced at once exactly when they settle. -/
structure RenamedTogether (models after : List Model) (renames : Table String String) : Prop where
  /-- The table holds the old and the new classname of every model that changed. -/
  table : ∀ old new, renames.get? old = some new ↔
    (old, new) ∈ (models.map (·.classname)).zip (after.map (·.classname)) ∧ old ≠ new
  types : List.Forall₂ (fun m m' => m'.name = m.name ∧
    typesInModel m' = (typesInModel m).map (renameIdentifiers renames)) models after
  arms : List.Forall₂ (fun m m' => List.Forall₂
    (fun v v' => ArmsSubstituted renames v v' ↔ ArmsSettle renames models v)
    (valuesInModel m) (valuesInModel m')) models after

/-- With distinct classnames, renaming is one substitution, in whatever order the
models come and also when a new classname is the old one of another model. Only
arms that are shown in several places may be renamed once too often. -/
theorem rename_together (hHints : hints.Reached) (hNames : (models.map (·.classname)).Nodup) :
    RenamedTogether models (rename hints models).1 (rename hints models).2 := by
  obtain ⟨labelled, s, hRun, hRename, hTable, hPairs⟩ := rename_run hints hNames
  have hWords : ToWords s.renames := by
    intro old new hNew hOld
    have hMem := hTable ▸ Table.mem_of_get? hNew
    exact hRun.isWord hHints _ hMem hOld.isWord
  have hDescends := descends_of_pairwise hPairs fun e he =>
    (mem_changedNames.mp (hTable ▸ he : (e.1, e.2) ∈ changedNames models labelled)).2
  rw [hRename]
  constructor
  · intro old new
    have hKeys : s.renames.keys.Nodup := hTable ▸ keys_changedNames_nodup labelled hNames
    have hLabels : (labelled.map (renameTypes s.renames (timesShown models))).map (·.classname) =
        labelled.map (·.classname) := by
      simp [renameTypes]
    rw [Table.get?_eq_some_iff hKeys, hLabels, ← mem_changedNames, ← hTable]
  · rw [List.forall₂_map_right_iff]
    refine hRun.relabelled.imp fun m m' hSame => ⟨hSame.name, ?_⟩
    rw [typesInModel_renameTypes, hSame.typesInModel]
  · rw [List.forall₂_map_right_iff]
    refine ((List.forall₂_and_left models labelled).mpr ⟨fun m hm => hm, hRun.relabelled⟩).imp ?_
    rintro m m' ⟨hModel, hSame⟩
    rw [valuesInModel_renameTypes, hSame.valuesInModel, List.forall₂_map_right_iff,
      List.forall₂_same]
    exact fun v hShown => armsSubstituted_iff hWords hDescends hModel hShown

/-- A property and the model of its union show one list with a single arm. -/
def chainedArms : AllowableValues where
  kind := .untagged
  variants := [{ name := "OneOfOneOfPet", datatype := "OneOfOneOfPet", isModel := true }]
  sharedList := some 0

/-- Each of the unions loses one mark, and takes the old name of the next. -/
def chainedModels : List Model :=
  [{ name := "OneOfPet", classname := "OneOfPet" },
    { name := "OneOfOneOfPet", classname := "OneOfOneOfPet" },
    { name := "Holder", classname := "Holder"
      vars := [{ baseName := "p", name := "p", datatype := "OneOfOneOfOneOfPet"
                 values := some chainedArms }] },
    { name := "OneOfOneOfOneOfPet", classname := "OneOfOneOfOneOfPet", values := some chainedArms }]

theorem rename_together_chained :
    (Hints.Reached {} ∧ (chainedModels.map (·.classname)).Nodup) ∧
      RenamedTogether chainedModels (rename {} chainedModels).1 (rename {} chainedModels).2 :=
  ⟨⟨.empty, by decide⟩, rename_together .empty (by decide)⟩

/-- The arms of a shared list are not always replaced at once: here the arm is
renamed from `OneOfOneOfPet` to `OneOfPet` and from there to `Pet`. -/
theorem arms_renamed_again :
    ¬ ∀ (hints : Hints) (models : List Model), hints.Reached →
      (models.map (·.classname)).Nodup →
        (rename hints models).1.flatMap armTypesInModel =
          (models.flatMap armTypesInModel).map (renameIdentifiers (rename hints models).2) := by
  intro hAlways
  have hTwice : (rename {} chainedModels).1.flatMap armTypesInModel = ["Pet", "Pet"] := by
    decide +kernel
  have hOnce : (chainedModels.flatMap armTypesInModel).map
      (renameIdentifiers (rename {} chainedModels).2) = ["OneOfPet", "OneOfPet"] := by
    decide +kernel
  have hSame := hAlways {} chainedModels .empty (by decide)
  rw [hTwice, hOnce] at hSame
  exact absurd hSame (by decide)

end ClientTypes.CrossReference
