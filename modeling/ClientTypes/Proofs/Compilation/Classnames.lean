import ClientTypes.Proofs.Compilation.Matching
import ClientTypes.Proofs.CrossReference.Usable

/-! The classnames of a compiled document. They have letters and digits only. Whether they
can be used as names of types is up to the names that operations give, and to the names of
schemas behind the mark of a union. -/
namespace ClientTypes.Compilation

open Naming Resolution CrossReference

variable {hints : Hints} {r : Registry}

theorem Matchable.plain_run (h : Matchable hints r) (config : Config) :
    ∀ name ∈ liveNames (run config hints r).registry.models, IsPlain name := by
  have hRun := renameModels_run hints (.initial (pruned hints r)) (pruned hints r)
  have hPlain := hRun.allChars (fun _ he => isPlain_of_reached h.reached he)
    (by decide : IsPlain "Enum") fun m hm => (h.spelled_pruned m hm).plain
  rw [h.liveNames_run, liveNames_rename]
  intro name hName
  obtain ⟨m, hm, rfl⟩ := List.mem_map.mp hName
  exact hPlain m (List.mem_of_mem_filter hm)

theorem Matchable.usable_run_iff (h : Matchable hints r) (config : Config) :
    (∀ name ∈ liveNames (run config hints r).registry.models, IsUsable name) ↔
      ∀ m ∈ pruned hints r, m.removed = false → Guarded hints m := by
  have hOwn (m : Model) (hm : m ∈ pruned hints r) : IsUsable m.classname :=
    .of_isTypeName (h.spelled_pruned m hm)
  have hTaken : ∀ name ∈ (RenameState.initial (pruned hints r)).taken, IsUsable name := by
    intro name hName
    obtain ⟨m, hm, rfl⟩ := List.mem_map.mp hName
    exact hOwn m (List.mem_of_mem_filter hm)
  rw [h.liveNames_run, liveNames_rename, usable_renameModels_iff hTaken fun m hm _ => hOwn m hm]
  exact forall₂_congr fun m hm => imp_congr_right fun _ => offersUsable_iff h.reached (hOwn m hm)

/-- The classnames of the models of a compiled document have ASCII letters and digits only. All of
them can be used as names of types exactly when the new name of every model is guarded. -/
theorem compiled_classnames_usable_iff {config : Config} {document : ApiDocument} {result : Result}
    (hConfig : ShippedCorrections config) (hCompile : compile config document = .ok result) :
    ∃ operations declared w,
      (resolveDocument ⟨config, document.schemas⟩ document).run {} =
        .ok ((operations, declared), w) ∧
      (∀ m ∈ result.api.models, IsPlain m.classname) ∧
      ((∀ m ∈ result.api.models, IsUsable m.classname) ↔
        ∀ m ∈ pruned w.hints.freeze (registryOf declared w.synthetic), m.removed = false →
          Guarded w.hints.freeze m) := by
  obtain ⟨operations, declared, w, hRun, mark, hMark, hModels⟩ := compile_models hCompile
  have hMatchable := matchable_of_resolved hConfig hRun
  have hNames (P : String → Prop) : (∀ m ∈ result.api.models, P m.classname) ↔
      ∀ name ∈ liveNames (matchedModels config declared w), P name := by
    rw [← classnames_eq_liveNames hMark, ← hModels, List.forall_mem_map]
  refine ⟨operations, declared, w, hRun, ?_, ?_⟩
  · exact (hNames IsPlain).mpr (hMatchable.plain_run config)
  · exact (hNames IsUsable).trans (hMatchable.usable_run_iff config)

/-- An operation that calls its body by a name. -/
def documentWithBody (friendly : String) : ApiDocument where
  schemas := [("body_1", { properties := [("tag", { kind := .primitive, type := some "string" })] })]
  operations := [{
    operationId := "create", method := "POST", path := "/pets", summary := "", notes := none
    tags := [], parameters := [], responses := []
    body := some {
      schema := { properties := [("tag", { kind := .primitive, type := some "string" })] }
      schemaName := some "body_1", description := "", required := true
      contentType := "application/json"
      extensions := [("x-codegen-operation-name", .text friendly)] } }]

theorem compiled_classnames_usable_iff_new_pet :
    ∃ result, compile Config.shipped (documentWithBody "new pet") = .ok result ∧
      (∃ operations declared w,
        (resolveDocument ⟨Config.shipped, (documentWithBody "new pet").schemas⟩
          (documentWithBody "new pet")).run {} = .ok ((operations, declared), w) ∧
        (∀ m ∈ result.api.models, IsPlain m.classname) ∧
        ((∀ m ∈ result.api.models, IsUsable m.classname) ↔
          ∀ m ∈ pruned w.hints.freeze (registryOf declared w.synthetic), m.removed = false →
            Guarded w.hints.freeze m)) ∧
      result.api.models.map (·.classname) = ["NewPet"] :=
  ⟨_, rfl, compiled_classnames_usable_iff rfl rfl, by decide +kernel⟩

/-- The name that an operation gives is taken as it is, also when it is a reserved word. -/
theorem reserved_word_as_classname :
    ∃ result, compile Config.shipped (documentWithBody "type") = .ok result ∧
      ¬ ∀ m ∈ result.api.models, IsUsable m.classname :=
  ⟨_, rfl, by decide +kernel⟩

end ClientTypes.Compilation
