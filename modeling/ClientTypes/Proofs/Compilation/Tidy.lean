import ClientTypes.Document.File
import ClientTypes.Proofs.Compilation.Removal
import ClientTypes.Proofs.Document.Mappings
import ClientTypes.Proofs.Resolution.Tidy
import ClientTypes.Proofs.Yaml.Tree

/-! The models of a compiled document are tidy. What resolving leaves is, and no pass of matching
renames what is sent, moves values or entries, or gives fields to a model that had none. -/
namespace ClientTypes.CrossReference

/-- A pass that keeps what models contain tidy. -/
def KeepsTidy (pass : Model → Model) : Prop := ∀ m, TidyContent m → TidyContent (pass m)

theorem classify_keepsTidy : KeepsTidy classify := by
  intro m h
  have hNamed : TidyContent (namedType m) := by
    unfold namedType
    split
    · exact h.congr rfl rfl
    · exact h
  have hWrapped : TidyContent (markWrapper (namedType m)) := by
    unfold markWrapper
    repeat' split
    all_goals exact hNamed.congr rfl rfl
  have hMarked : TidyContent (markArray (markWrapper (namedType m))) := by
    unfold markArray
    split
    · exact hWrapped.congr rfl rfl
    · exact hWrapped
  have hFields : KeepsField markProperty := fun _ hp => ⟨rfl, throughout_tidy_congr hp rfl rfl rfl⟩
  exact (hMarked.mapVars hFields).congr rfl rfl

theorem prune_keepsTidy (hints : Hints) : KeepsTidy (prune hints) := by
  intro m h
  rw [prune_eq]
  exact h.congr rfl rfl

theorem renameTypes_keepsTidy (renames : Table String String) (shown : Nat → Nat) :
    KeepsTidy (renameTypes renames shown) := by
  intro m h
  have hVars : (renameTypes renames shown m).vars = m.vars.map
      (mapProperty (Naming.renameIdentifiers renames) (renameValues renames shown)) :=
    mapProperties_eq_map _ _ _
  have hFields : KeepsField (mapProperty (Naming.renameIdentifiers renames) (renameValues renames shown)) :=
    fun p hp => ⟨baseName_mapProperty _ _ p,
      hp.mapProperty fun _ hOwn => hOwn.mapProperty fun _ hv => hv.renameValues renames shown⟩
  have hRenamed := h.mapVars hFields
  refine ⟨⟨?_, fun v hv => ?_⟩, ?_⟩
  · rw [hVars]
    exact hRenamed.inside
  · obtain ⟨before, hBefore, rfl⟩ := Option.map_eq_some_iff.mp hv
    exact (h.values before hBefore).renameValues renames shown
  · rw [hVars]
    exact hRenamed.fields

theorem markDefault_keepsField (config : Config) (m : Model) : KeepsField (markDefault config m) := by
  intro p hp
  unfold markDefault
  split
  · exact ⟨rfl, hp⟩
  · exact ⟨rfl, throughout_tidy_congr hp rfl rfl rfl⟩
  · exact ⟨rfl, throughout_tidy_congr hp rfl rfl rfl⟩

theorem markOptional_keepsField (config : Config) (classname : String) :
    KeepsField (markOptional config classname) := by
  intro p hp
  unfold markOptional
  split_ifs
  · exact ⟨rfl, throughout_tidy_congr hp rfl rfl rfl⟩
  · exact ⟨rfl, hp⟩
  · exact ⟨rfl, hp⟩
  · exact ⟨rfl, throughout_tidy_congr hp rfl rfl rfl⟩

theorem applyDefaults_keepsTidy (config : Config) : KeepsTidy (applyDefaults config) := by
  intro m h
  unfold applyDefaults
  split
  · exact h
  · have hDefaults : TidyContent (synthesizeDefaults config m) :=
      (h.mapVars (markDefault_keepsField config m)).congr rfl rfl
    exact hDefaults.mapVars (markOptional_keepsField config _)

theorem unstubProperty_keepsField (live : List String) : KeepsField (unstubProperty live) := by
  intro p hp
  unfold unstubProperty
  cases hItems : p.items with
  | none => exact ⟨rfl, throughout_tidy_congr hp rfl rfl rfl⟩
  | some item =>
      obtain ⟨hOwn, hElement, hEntries⟩ := throughout_iff.mp hp
      refine ⟨rfl, throughout_iff.mpr ⟨⟨hOwn.entries, hOwn.values⟩, ?_, hEntries⟩⟩
      rintro _ ⟨⟩
      exact throughout_tidy_congr (hElement item hItems) rfl rfl rfl

theorem unstubModel_keepsTidy (config : Config) (live : List String) :
    KeepsTidy (unstubModel config live) := by
  intro m h
  have hContainer : TidyContent (unstubContainer config live m) := by
    unfold unstubContainer
    repeat' split
    all_goals exact h.congr rfl rfl
  unfold unstubModel
  split
  · exact h
  · refine hContainer.mapVars fun p hp => ?_
    split
    · exact ⟨rfl, hp⟩
    · exact unstubProperty_keepsField live p hp

theorem run_tidy (config : Config) (hints : Hints) {r : Registry} (hFresh : r.crossReferenced = false)
    (h : ∀ m ∈ r.models, TidyContent m) : ∀ m ∈ (run config hints r).registry.models, TidyContent m := by
  have hPruned : ∀ m ∈ (r.models.map classify).map (prune hints), TidyContent m := by
    simp only [List.forall_mem_map]
    exact fun m hm => prune_keepsTidy hints _ (classify_keepsTidy m (h m hm))
  have hLabelled := forall_of_relabelled (fun m m' hSame hm => by
      rw [hSame]
      exact hm.congr rfl rfl)
    (renameModels_run hints (.initial ((r.models.map classify).map (prune hints))) _).relabelled hPruned
  rw [models_run config hints hFresh]
  simp only [rename, renameAllTypes_eq, List.forall_mem_map]
  exact fun m hm => unstubModel_keepsTidy config _ _ (applyDefaults_keepsTidy config _
    (renameTypes_keepsTidy _ _ m (hLabelled m hm)))

end ClientTypes.CrossReference

namespace ClientTypes.Compilation

open Resolution CrossReference

/-- Matching and linking leave tidy models tidy. -/
theorem final_tidy (config : Config) (operations : List Operation) {declared : List Model}
    {w : Workspace} (h : ∀ m ∈ (registryOf declared w.synthetic).models, TidyContent m) :
    ∀ m ∈ (finalRegistry config operations declared w).models, TidyContent m := by
  obtain ⟨mark, hMark, hModels⟩ := models_finalRegistry config operations declared w
  have hFresh : (registryOf declared w.synthetic).crossReferenced = false := by simp [registryOf]
  have hMatched := run_tidy config w.hints.freeze hFresh h
  simp only [hModels, List.forall_mem_map]
  intro m hm
  rw [hMark m]
  exact (hMatched m hm).congr rfl rfl

/-- A tidy model of a registry at the end: the marks that allow no fields are those that it had when it
was registered, without fields. -/
theorem tidyModel_of_matched {hints : Hints} {m m' : Model} (h : Matched hints m m')
    (hUnmatched : Unmatched m) (hContent : TidyContent m') : TidyModel m' where
  toTidyContent := hContent
  enumBare hEnum := h.bare.mpr (hUnmatched.enumBare (h.isEnum ▸ hEnum))
  enumMark := by rw [h.enumMark, hUnmatched.unmarked, h.isEnum, Bool.false_or]
  placeholderBare hMark := h.bare.mpr (hUnmatched.placeholderBare (h.placeholder ▸ hMark))
  failedBare hMark := h.bare.mpr (hUnmatched.failedBare (h.resolutionFailed ▸ hMark)).1

variable {config : Config} {document : ApiDocument} {result : Result}

/-- Whatever text a document is read from, the properties of its schemas are mappings: a key that a
text repeats takes the last value. -/
theorem distinctKeys_of_ofText {file text : String} (h : Document.ofText file text = .ok document) :
    AllGood Schema.DistinctKeys document := by
  unfold Document.ofText at h
  split at h
  · cases h
  · cases h
  next v hParsed =>
    split at h
    · split at h
      · obtain ⟨hSchemas, hOperations⟩ := Document.ofValue_distinct (Yaml.parse_distinct hParsed) h
        exact ⟨hSchemas, hOperations⟩
      · cases h
    · cases h

/-- Every model of a compiled document is tidy, the removed ones included. The properties of its schemas
are mappings, as in every document that was read from a text (`distinctKeys_of_ofText`). -/
theorem compiled_models_tidy (hKeys : AllGood Schema.DistinctKeys document)
    (h : compile config document = .ok result) : ∃ operations declared w,
      (resolveDocument ⟨config, document.schemas⟩ document).run {} =
        .ok ((operations, declared), w) ∧
      result.api.models = (finalRegistry config operations declared w).live ∧
      result.api.removedModels = (finalRegistry config operations declared w).removed.map (·.name) ∧
      ∀ m ∈ (finalRegistry config operations declared w).models, TidyModel m := by
  obtain ⟨operations, declared, w, hRun, hLive, hGone⟩ := compile_registry h
  obtain ⟨hDeclared, hSynthetic⟩ := resolveDocument_originates
    (closedUnderAsking_distinctKeys hKeys.schemas) rfl hKeys _ _ hRun
  have hOrigin := registered_originates hDeclared hKeys.schemas hSynthetic
  have hContent := final_tidy config operations fun m hm => (hOrigin m hm).tidy hKeys.schemas
  refine ⟨operations, declared, w, hRun, hLive, hGone, fun m' hm' => ?_⟩
  obtain ⟨m, hm, hMatched⟩ := exists_of_forall₂ (final_matched config operations declared w) hm'
  exact tidyModel_of_matched hMatched (hOrigin m hm).unmatched (hContent m' hm')

/-- An enumeration, a union at a property, a map with documented entries, a merge whose only member is
missing, and a schema that is not resolved on purpose. -/
def variedDocument : ApiDocument where
  schemas := [
    ("Color", { kind := .primitive, type := some "string", enum := [.text "red", .text "blue"] }),
    ("Settings", { properties := [("labels", labels), ("style", style)] }),
    ("Broken", { kind := .composed, allOf := [{ reference := some "#/components/schemas/Missing" }] }),
    ("inline_response_200_11", { properties := [("a", text)] })]
where
  text : Schema := { kind := .primitive, type := some "string" }
  labels : Schema :=
    { kind := .map, properties := [("env", text), ("tier", text)], additional := .anything }
  style : Schema := { kind := .composed, oneOf := [{ reference := some "#/components/schemas/Color" }, text] }

theorem compiled_models_tidy_varied :
    AllGood Schema.DistinctKeys variedDocument ∧
      ∃ result, compile Config.shipped variedDocument = .ok result ∧
      result.api.models.map (·.name) = ["Color", "Settings", "OneOfSettingsStyle"] ∧
      result.api.removedModels = ["Broken", "inline_response_200_11"] ∧
      ∃ operations declared w,
        (resolveDocument ⟨Config.shipped, variedDocument.schemas⟩ variedDocument).run {} =
          .ok ((operations, declared), w) ∧
        result.api.models = (finalRegistry Config.shipped operations declared w).live ∧
        result.api.removedModels =
          (finalRegistry Config.shipped operations declared w).removed.map (·.name) ∧
        ∀ m ∈ (finalRegistry Config.shipped operations declared w).models, TidyModel m := by
  have hKeys : AllGood Schema.DistinctKeys variedDocument :=
    ⟨by decide +kernel, by decide +kernel⟩
  obtain ⟨result, hCompile, hNames, hRemoved⟩ : ∃ result,
      compile Config.shipped variedDocument = .ok result ∧
        result.api.models.map (·.name) = ["Color", "Settings", "OneOfSettingsStyle"] ∧
        result.api.removedModels = ["Broken", "inline_response_200_11"] :=
    ⟨_, rfl, by decide +kernel, by decide +kernel⟩
  exact ⟨hKeys, result, hCompile, hNames, hRemoved, compiled_models_tidy hKeys hCompile⟩

end ClientTypes.Compilation
