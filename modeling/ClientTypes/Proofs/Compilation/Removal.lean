import ClientTypes.Proofs.Compilation.Matching
import ClientTypes.Proofs.Resolution.Origin

/-! No model is lost. Every schema of a document and every synthetic model is registered, once
for each name; and when the document is compiled, each registered model is either there or
listed as removed, and removed for a reason that its schema gives. -/
namespace ClientTypes.Compilation

open Naming Resolution CrossReference

variable {setup : Setup} {good : Schema → Prop}

/-! ### Registered models -/

/-- The model of an entry of the table: resolved from the schema, under its name. -/
def OfEntry (setup : Setup) (entry : String × Schema) (m : Model) : Prop :=
  m.name = entry.1 ∧ ResolvedFrom setup m entry.2

theorem resolveSchemas_ofEntries (entries : List (String × Schema)) (w : Workspace) :
    Ensures (resolveSchemas setup entries) w fun declared _ =>
      List.Forall₂ (OfEntry setup) entries declared := by
  induction entries generalizing w with
  | nil => exact .pure .nil
  | cons entry rest ih =>
      obtain ⟨name, s⟩ := entry
      refine .bind .self fun first w1 hFirst => .bind (ih w1) fun more w2 hMore => .pure ?_
      exact .cons (resolvedFrom_of_run hFirst) hMore

theorem resolveSchemas_originate (hAsks : ClosedUnderAsking setup good)
    {entries : List (String × Schema)} (hGood : ∀ e ∈ entries, good e.2) :
    Preserves (AllOriginate setup good) (resolveSchemas setup entries) := by
  induction entries with
  | nil => exact .pure _
  | cons entry rest ih =>
      rw [List.forall_mem_cons] at hGood
      exact .bind (modelWithin_originates hAsks _ _ hGood.1) fun _ => .bind (ih hGood.2) fun _ => .pure _

theorem steps_preserve_origins (hAsks : ClosedUnderAsking setup good) :
    Operations.StepsPreserve setup good (AllOriginate setup good) where
  resolve r hGood := propertyWithin_originates hAsks _ r hGood
  report _ _ h := h
  register w placeholder friendly _ h := by
    rw [AllOriginate, synthetic_register]
    exact h

/-- The schemas of a document are good: those of its table, and those that operations mention. -/
structure AllGood (good : Schema → Prop) (document : ApiDocument) : Prop where
  schemas : ∀ e ∈ document.schemas, good e.2
  operations : ∀ d ∈ document.operations, ∀ s ∈ Operations.schemasOf d, good s

/-- Resolving a document leads to one model for each schema of its table, and to synthetic models
that all have an origin. -/
theorem resolveDocument_originates {document : ApiDocument} (hAsks : ClosedUnderAsking setup good)
    (hTable : setup.schemas = document.schemas) (hGood : AllGood good document) :
    Ensures (resolveDocument setup document) {} fun result w =>
      List.Forall₂ (OfEntry setup) document.schemas result.2 ∧ AllOriginate setup good w := by
  have hOperations : Preserves (AllOriginate setup good) (Operations.buildAll setup document.operations) :=
    Operations.buildAll_preserves (steps_preserve_origins hAsks) hGood.operations
  refine .bind (hOperations {} (by simp [AllOriginate])) fun operations w1 hFirst => ?_
  refine .bind .self fun declared w2 hRun => .pure ⟨?_, ?_⟩
  · exact hTable ▸ resolveSchemas_ofEntries setup.schemas w1 declared w2 hRun
  · exact resolveSchemas_originate hAsks (hTable ▸ hGood.schemas) w1 hFirst declared w2 hRun

section Registered

variable {schemas : Table String Schema} {declared : List Model} {w : Workspace}
  (hDeclared : List.Forall₂ (OfEntry setup) schemas declared)

include hDeclared

theorem names_declared : declared.map (·.name) = schemas.keys := by
  induction hDeclared with
  | nil => rfl
  | cons hFirst hRest ih => exact congrArg₂ List.cons hFirst.1 ih

theorem find?_declared {name : String} {s : Schema} (hKnown : schemas.get? name = some s) :
    ∃ m, declared.find? (·.name == name) = some m ∧ ResolvedFrom setup m s := by
  induction hDeclared with
  | nil => cases hKnown
  | @cons entry m rest more hFirst hRest ih =>
      obtain ⟨key, first⟩ := entry
      obtain ⟨hName, hOwn⟩ := hFirst
      by_cases hKey : key = name
      · rw [Table.get?, if_pos hKey] at hKnown
        cases hKnown
        exact ⟨m, by simp [hName, hKey], hOwn⟩
      · rw [Table.get?, if_neg hKey] at hKnown
        obtain ⟨held, hHeld, hFrom⟩ := ih hKnown
        exact ⟨held, by simp [hName, hKey, hHeld], hFrom⟩

/-- A schema of the table is registered under its name. -/
theorem declared_registered {name : String} {s : Schema} (hKnown : schemas.get? name = some s) :
    ∃ m ∈ (registryOf declared w.synthetic).models, m.name = name ∧ ResolvedFrom setup m s := by
  obtain ⟨m, hFound, hFrom⟩ := find?_declared hDeclared hKnown
  have hHeld : (registryOf declared w.synthetic).get? name = some m := by
    rw [registryOf, Registry.get?_addAll, Registry.get?_addAll, hFound]
    simp [Registry.get?]
  exact ⟨m, List.mem_of_find?_eq_some hHeld, by simpa using List.find?_some hHeld, hFrom⟩

theorem registered_originates (hSchemas : ∀ e ∈ schemas, good e.2)
    (hSynthetic : AllOriginate setup good w) :
    ∀ m ∈ (registryOf declared w.synthetic).models, Origin setup good m := by
  intro m hm
  rcases mem_registryOf hm with hOwn | hOther
  · obtain ⟨entry, hEntry, hOf⟩ := exists_of_forall₂ hDeclared hOwn
    exact .schema (hSchemas entry hEntry) hOf.2
  · exact hSynthetic m hOther

/-- The names of the registry are those of the table and of the synthetic models, each once. -/
theorem names_registryOf : (registryOf declared w.synthetic).models.map (·.name) =
    (schemas.keys ++ w.synthetic.map (·.name)).eraseDups := by
  rw [← Registry.keys_entries, registryOf, Registry.entries_addAll, Registry.entries_addAll,
    ← Table.union_append]
  change Table.keys (Table.union [] _) = _
  rw [Table.keys_union_empty, List.map_append, ← names_declared hDeclared]
  simp [Function.comp_def]

end Registered

theorem names_registryOf_nodup (declared synthetic : List Model) :
    ((registryOf declared synthetic).models.map (·.name)).Nodup := by
  rw [← Registry.keys_entries, registryOf, Registry.entries_addAll, Registry.entries_addAll]
  exact Table.nodup_keys_union (Table.nodup_keys_union_empty _) _

/-! ### Removed models -/

/-- A model that nobody can use: it is called like a numbered response and has no friendly name, or
its schema is a merge of which nothing can be resolved. -/
def Unusable (setup : Setup) (hints : Hints) (m : Model) : Prop :=
  (isResponseName m.name = true ∧ hints.has m.name = false) ∨
    ∃ s, ResolvedFrom setup m s ∧ mergeFails setup m.name s = true

theorem reason_iff {hints : Hints} {m : Model} (h : Origin setup good m) :
    (pruneReason? hints m).isSome = true ↔ Unusable setup hints m := by
  have hBare (hFailed : m.marks.resolutionFailed = true) :
      m.vars.isEmpty = true ∧ m.container.isNone = true := by
    simpa using h.unmatched.failedBare hFailed
  unfold Unusable pruneReason?
  rw [← h.failed_iff]
  cases isResponseName m.name <;> cases hints.has m.name <;>
    cases hFailed : m.marks.resolutionFailed <;> simp_all

/-- The registry at the end has the registered models, matched, in the same order. -/
theorem final_matched (config : Config) (operations : List Operation) (declared : List Model)
    (w : Workspace) : List.Forall₂ (Matched w.hints.freeze) (registryOf declared w.synthetic).models
      (finalRegistry config operations declared w).models := by
  obtain ⟨mark, hMark, hModels⟩ := models_finalRegistry config operations declared w
  have hFresh : (registryOf declared w.synthetic).crossReferenced = false := by simp [registryOf]
  rw [hModels, matchedModels, List.forall₂_map_right_iff]
  refine (run_matched config w.hints.freeze hFresh).imp fun m m' hMatched => ?_
  exact hMatched.of_standing (hMark.standing m') fun _ => by rw [hMark m']

section Names

variable {hints : Hints} {registered models : List Model}
  (hMatched : List.Forall₂ (Matched hints) registered models)

include hMatched

theorem names_of_matched : models.map (·.name) = registered.map (·.name) := by
  induction hMatched with
  | nil => rfl
  | cons hFirst hRest ih => exact congrArg₂ List.cons hFirst.name ih

/-- A registered model is removed at the end exactly when there was a reason to. -/
theorem mem_removed_iff (hNames : (registered.map (·.name)).Nodup)
    (hLive : ∀ m ∈ registered, m.removed = false) {m : Model} (hm : m ∈ registered) :
    m.name ∈ (models.filter (·.removed)).map (·.name) ↔ (pruneReason? hints m).isSome = true := by
  constructor
  · intro hMem
    obtain ⟨m', hFilter, hName⟩ := List.mem_map.mp hMem
    obtain ⟨hm', hRemoved⟩ := List.mem_filter.mp hFilter
    obtain ⟨before, hBefore, hIs⟩ := exists_of_forall₂ hMatched hm'
    cases List.inj_on_of_nodup_map hNames hBefore hm (hIs.name.symm.trans hName)
    simpa [hIs.removed, hLive m hm] using hRemoved
  · intro hReason
    obtain ⟨m', hm', hIs⟩ := exists_of_forall₂ hMatched.flip hm
    have hRemoved : m'.removed = true := by simp [hIs.removed, hReason]
    exact List.mem_map.mpr ⟨m', List.mem_filter.mpr ⟨hm', hRemoved⟩, hIs.name⟩

end Names

/-! ### All models of a document -/

/-- How the models of a compiled document come from those that were registered. -/
structure KeepsModels (setup : Setup) (w : Workspace) (registered : List Model) (final : Registry)
    (api : CompiledApi) : Prop where
  /-- There is one model for each name of a schema and of a synthetic model. -/
  named : registered.map (·.name) = (setup.schemas.keys ++ w.synthetic.map (·.name)).eraseDups
  /-- A name is that of a model or of a removed one, and of one only. -/
  distinct : (api.models.map (·.name) ++ api.removedModels).Nodup
  complete : ∀ name, name ∈ api.models.map (·.name) ∨ name ∈ api.removedModels ↔
    name ∈ setup.schemas.keys ∨ name ∈ w.synthetic.map (·.name)
  liveOrder : (api.models.map (·.name)).Sublist (registered.map (·.name))
  removedOrder : api.removedModels.Sublist (registered.map (·.name))
  /-- The models that are removed are those that nobody can use. -/
  removed : ∀ m ∈ registered, m.name ∈ api.removedModels ↔ Unusable setup w.hints m
  /-- For a schema of the table this can be read off the schema. -/
  declared : ∀ name s, setup.schemas.get? name = some s → (name ∈ api.removedModels ↔
    (isResponseName name = true ∧ w.hints.has name = false) ∨ mergeFails setup name s = true)
  /-- The mark that nothing is declared is set on the removed models, and on no other. -/
  noop : ∀ m ∈ final.models, m.marks.noop = m.removed
  live : api.models = final.live
  gone : api.removedModels = final.removed.map (·.name)

/-- No model is lost, and a model is removed exactly when nobody can use it. -/
theorem compiled_models_kept {config : Config} {document : ApiDocument} {result : Result}
    (h : compile config document = .ok result) : ∃ operations declared w,
      (resolveDocument ⟨config, document.schemas⟩ document).run {} =
        .ok ((operations, declared), w) ∧
      KeepsModels ⟨config, document.schemas⟩ w (registryOf declared w.synthetic).models
        (finalRegistry config operations declared w) result.api := by
  obtain ⟨operations, declared, w, hRun, hLive, hGone⟩ := compile_registry h
  obtain ⟨hDeclared, hSynthetic⟩ := resolveDocument_originates (closedUnderAsking_all _) rfl
    ⟨fun _ _ => trivial, fun _ _ _ _ => trivial⟩ _ _ hRun
  have hOrigin := registered_originates hDeclared (fun _ _ => trivial) hSynthetic
  have hUnremoved := fun m hm => (hOrigin m hm).unmatched.live
  have hMatched := final_matched config operations declared w
  have hNames := names_registryOf_nodup declared w.synthetic
  have hRemoved (m : Model) (hm : m ∈ (registryOf declared w.synthetic).models) :
      m.name ∈ result.api.removedModels ↔ Unusable ⟨config, document.schemas⟩ w.hints m := by
    rw [hGone]
    exact (mem_removed_iff hMatched hNames hUnremoved hm).trans (reason_iff (hOrigin m hm))
  have hParts : (result.api.models.map (·.name) ++ result.api.removedModels).Perm
      ((registryOf declared w.synthetic).models.map (·.name)) := by
    rw [hLive, hGone, ← names_of_matched hMatched, ← List.map_append]
    refine List.Perm.map _ (List.perm_append_comm.trans ?_)
    exact List.filter_append_perm (·.removed) (finalRegistry config operations declared w).models
  refine ⟨operations, declared, w, hRun, ?_⟩
  exact {
    named := names_registryOf hDeclared
    distinct := hParts.nodup_iff.mpr hNames
    complete := fun name => by
      rw [← List.mem_append, hParts.mem_iff, names_registryOf hDeclared, List.mem_eraseDups,
        List.mem_append]
    liveOrder := by
      rw [hLive, ← names_of_matched hMatched]
      exact List.filter_sublist.map _
    removedOrder := by
      rw [hGone, ← names_of_matched hMatched]
      exact List.filter_sublist.map _
    removed := hRemoved
    declared := fun name s hKnown => by
      obtain ⟨m, hm, rfl, hFrom⟩ := declared_registered hDeclared hKnown
      rw [hRemoved m hm, Unusable, ← (hOrigin m hm).failed_iff, hFrom.unmatched.2]
    noop := fun m' hm' => by
      obtain ⟨m, hm, hIs⟩ := exists_of_forall₂ hMatched hm'
      rw [hIs.noop, hIs.removed, (hOrigin m hm).unmatched.declared, hUnremoved m hm]
    live := hLive
    gone := hGone }

/-- A response without a friendly name, a merge whose only member is missing, and a schema with an
object in place. -/
def clutteredDocument : ApiDocument where
  schemas := [
    ("inline_response_200", { properties := [("a", { kind := .primitive, type := some "string" })] }),
    ("Broken", { kind := .composed, allOf := [{ reference := some "#/components/schemas/Missing" }] }),
    ("Holder", { properties :=
      [("p", { properties := [("q", { kind := .primitive, type := some "string" })] })] })]

theorem compiled_models_kept_cluttered :
    ∃ result, compile Config.shipped clutteredDocument = .ok result ∧
      result.api.models.map (·.name) = ["Holder", "Holder_p"] ∧
      result.api.removedModels = ["inline_response_200", "Broken"] ∧
      ∃ operations declared w,
        (resolveDocument ⟨Config.shipped, clutteredDocument.schemas⟩ clutteredDocument).run {} =
          .ok ((operations, declared), w) ∧
        KeepsModels ⟨Config.shipped, clutteredDocument.schemas⟩ w
          (registryOf declared w.synthetic).models
          (finalRegistry Config.shipped operations declared w) result.api := by
  obtain ⟨result, hCompile, hNames, hRemoved⟩ : ∃ result,
      compile Config.shipped clutteredDocument = .ok result ∧
        result.api.models.map (·.name) = ["Holder", "Holder_p"] ∧
        result.api.removedModels = ["inline_response_200", "Broken"] :=
    ⟨_, rfl, by decide +kernel, by decide +kernel⟩
  exact ⟨result, hCompile, hNames, hRemoved, compiled_models_kept hCompile⟩

end ClientTypes.Compilation
