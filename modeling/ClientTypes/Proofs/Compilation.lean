import ClientTypes.Compilation
import ClientTypes.Proofs.CrossReference.Registry
import ClientTypes.Proofs.CrossReference.Typing
import ClientTypes.Proofs.Operations
import ClientTypes.Proofs.Resolution.ResolverTyping

/-! The types of a compiled document. Operations and schemas are resolved into models
whose types mention known names; each known name is the classname of a model that is
registered; and matching keeps it so. -/
namespace ClientTypes.Compilation

open Naming TargetType Resolution CrossReference

/-! ### Workspaces of a document -/

/-- What holds of the workspace at every moment, whatever the configuration: synthetic
models were built, and friendly names are those of numbered schemas. -/
structure Prepared (setup : Setup) (w : Workspace) : Prop where
  built : AllBuilt setup w
  reached : w.hints.Reached
  numbered : w.hints.Numbered

/-- A workspace whose synthetic models mention known names. -/
structure Orderly (setup : Setup) (w : Workspace) : Prop where
  sound : Sound setup w
  reached : w.hints.Reached
  numbered : w.hints.Numbered

variable {setup : Setup} {w : Workspace}

theorem Prepared.empty : Prepared setup {} where
  built := by simp [AllBuilt]
  reached := .empty
  numbered := by simp [Hints.Numbered, Table.keys]

theorem hints_register (w : Workspace) (placeholder friendly : String) :
    (w.register placeholder friendly).hints = w.hints.register placeholder friendly := by
  unfold Workspace.register
  dsimp only
  split_ifs <;> rfl

theorem synthetic_register (w : Workspace) (placeholder friendly : String) :
    (w.register placeholder friendly).synthetic = w.synthetic := by
  unfold Workspace.register
  dsimp only
  split_ifs <;> rfl

theorem Prepared.register (h : Prepared setup w) {placeholder : String}
    (hPlaceholder : Hints.IsPlaceholder placeholder) (friendly : String) :
    Prepared setup (w.register placeholder friendly) where
  built := h.built.of_synthetic_eq (synthetic_register w placeholder friendly)
  reached := by
    rw [hints_register]
    exact .register _ _ h.reached
  numbered := by
    rw [hints_register]
    exact h.numbered.register hPlaceholder friendly

theorem Prepared.grow {w' : Workspace} (h : Prepared setup w) (hGrows : Grows w w')
    (hBuilt : AllBuilt setup w') : Prepared setup w' where
  built := hBuilt
  reached := hGrows.hints ▸ h.reached
  numbered := hGrows.hints ▸ h.numbered

theorem steps_preserve_prepared :
    Operations.StepsPreserve setup (fun _ => True) (Prepared setup) where
  resolve r _ _ h := (resolveProperty_checks r h.built).imp fun _ _ hEnd => h.grow hEnd.1 hEnd.2.1
  report _ _ h := ⟨h.built.of_synthetic_eq rfl, h.reached, h.numbered⟩
  register _ _ friendly hPlaceholder h := h.register hPlaceholder friendly

/-! ### Declared models -/

theorem resolveSchemas_checks (entries : List (String × Schema)) :
    Checks setup (resolveSchemas setup entries) w fun declared names =>
      (∀ m ∈ declared, BuiltModel setup.config names m) ∧
        declared.map (·.name) = entries.map Prod.fst := by
  induction entries generalizing w with
  | nil => exact .pure ⟨by simp, rfl⟩
  | cons entry rest ih =>
      obtain ⟨name, s⟩ := entry
      refine .bind (resolveModel_checks name s) fun first w1 _ hFirst => ?_
      refine .bind ih fun more w2 hGrows hMore => .pure ⟨?_, ?_⟩
      · rw [List.forall_mem_cons]
        exact ⟨hFirst.1.mono fun _ => hGrows.known, hMore.1⟩
      · rw [List.map_cons, List.map_cons, hFirst.2, hMore.2]

/-- What resolving a document leads to: models of all its schemas, and a prepared
workspace. -/
theorem resolveDocument_prepared (document : ApiDocument) :
    Ensures (resolveDocument setup document) {} fun result w => Prepared setup w ∧
      (∀ m ∈ result.2, BuiltModel setup.config (Known setup w) m) ∧
      result.2.map (·.name) = setup.schemas.map Prod.fst := by
  have hSteps : Operations.StepsPreserve setup (fun _ => True) (Prepared setup) :=
    steps_preserve_prepared
  have hOperations : Preserves (Prepared setup) (Operations.buildAll setup document.operations) :=
    Operations.buildAll_preserves hSteps fun _ _ _ _ => trivial
  refine .bind (hOperations {} Prepared.empty) fun operations w1 hPrepared => ?_
  refine .bind (resolveSchemas_checks setup.schemas hPrepared.built) fun declared w2 hEnd => ?_
  obtain ⟨hGrows, hBuilt, hDeclared⟩ := hEnd
  exact .pure ⟨hPrepared.grow hGrows hBuilt, hDeclared⟩

theorem resolveDocument_ensures (hConfig : ShippedCorrections setup.config)
    (document : ApiDocument) :
    Ensures (resolveDocument setup document) {} fun result w => Orderly setup w ∧
      (∀ m ∈ result.2, ModelSound (Known setup w) m) ∧
      result.2.map (·.name) = setup.schemas.map Prod.fst := by
  refine (resolveDocument_prepared document).imp fun result w h => ?_
  obtain ⟨hPrepared, hDeclared, hNames⟩ := h
  have hSound := hPrepared.built.sound hConfig
  refine ⟨⟨hSound, hPrepared.reached, hPrepared.numbered⟩, fun m hm => ?_, hNames⟩
  exact (hDeclared m hm).sound hConfig hPrepared.built.areTypeNames

/-! ### The registry -/

theorem mem_registryOf {declared synthetic : List Model} {m : Model}
    (h : m ∈ (registryOf declared synthetic).models) : m ∈ declared ∨ m ∈ synthetic := by
  rcases Registry.mem_addAll h with hDeclared | hSynthetic
  · exact Or.inl ((Registry.mem_addAll hDeclared).resolve_left (by simp))
  · exact Or.inr hSynthetic

/-- Of every name that was resolved the registry has a model. -/
theorem name_registered {declared synthetic : List Model} {m : Model}
    (h : m ∈ declared ∨ m ∈ synthetic) :
    ∃ held ∈ (registryOf declared synthetic).models, held.name = m.name := by
  rcases h with hDeclared | hSynthetic
  · obtain ⟨held, hMem, hName⟩ := Registry.name_held (r := {}) hDeclared
    exact ⟨held, Registry.mem_addAll_of_mem hMem, hName⟩
  · exact Registry.name_held hSynthetic

/-- Every name that types may mention is the classname of a registered model. -/
theorem isClassname_of_known {declared : List Model}
    (hSound : ∀ m, m ∈ declared ∨ m ∈ w.synthetic → ModelSound (Known setup w) m)
    (hNames : declared.map (·.name) = setup.schemas.map Prod.fst) {name : String}
    (hKnown : Known setup w name) : IsClassname (registryOf declared w.synthetic).models name := by
  have hRegistered (m : Model) (hMem : m ∈ declared ∨ m ∈ w.synthetic) :
      IsClassname (registryOf declared w.synthetic).models (typeName m.name) := by
    obtain ⟨held, hHeld, hName⟩ := name_registered hMem
    exact ⟨held, hHeld, hName ▸ (hSound held (mem_registryOf hHeld)).spelled⟩
  rcases hKnown with ⟨entry, hEntry, rfl⟩ | ⟨m, hSynthetic, rfl⟩
  · have hKey : entry.1 ∈ declared.map (·.name) := hNames ▸ List.mem_map_of_mem hEntry
    obtain ⟨m, hDeclared, hName⟩ := List.mem_map.mp hKey
    exact hName ▸ hRegistered m (Or.inl hDeclared)
  · rw [(hSound m (Or.inr hSynthetic)).spelled]
    exact hRegistered m (Or.inr hSynthetic)

/-! ### Types of a compiled document -/

/-- The models of a document after matching, removed ones included. -/
def matchedModels (config : Config) (declared : List Model) (w : Workspace) : List Model :=
  (CrossReference.run config w.hints.freeze (registryOf declared w.synthetic)).registry.models

/-- A type that may be left at the end: an expression over the classnames. Of the
provisional types one is never left, and the others only stand for models that are
called so. -/
structure IsSettled (models : List Model) (type : String) : Prop where
  isType : IsType (IsClassname models) type
  unqualified : type ≠ qualifiedDateTime
  called : type = openObject ∨ type = pointerSized → IsClassname models type

theorem isSettled_of_isType {models : List Model} (hWords : ∀ m ∈ models, IsWord m.classname.toList)
    {type : String} (h : IsType (IsClassname models) type) : IsSettled models type where
  isType := h
  unqualified := by
    rintro rfl
    obtain ⟨m, hm, hName⟩ := h.name_of (by decide) (by decide +kernel) (by decide +kernel)
    have hWord := hWords m hm
    rw [hName] at hWord
    exact absurd hWord (by decide)
  called := by
    rintro (rfl | rfl)
    · exact h.name_of (by decide) (by decide +kernel) (by decide +kernel)
    · exact h.name_of (by decide) (by decide +kernel) (by decide +kernel)

/-- Every type of every model of a document is settled, if resolving the document ends
and the corrections of types are those that hold when nothing else is set. -/
theorem compiled_types_settled {config : Config} {document : ApiDocument}
    {operations : List Operation} {declared : List Model} {w : Workspace}
    (hConfig : ShippedCorrections config)
    (hRun : (resolveDocument ⟨config, document.schemas⟩ document).run {} =
      .ok ((operations, declared), w)) :
    ∀ m ∈ matchedModels config declared w, ∀ type ∈ typesInModel m,
      IsSettled (matchedModels config declared w) type := by
  obtain ⟨hOrderly, hDeclared, hNames⟩ :=
    @resolveDocument_ensures ⟨config, document.schemas⟩ hConfig document _ _ hRun
  have hSound (m : Model) (hMem : m ∈ declared ∨ m ∈ w.synthetic) :
      ModelSound (Known ⟨config, document.schemas⟩ w) m :=
    hMem.elim (hDeclared m) (hOrderly.sound m)
  have hFresh : (registryOf declared w.synthetic).crossReferenced = false := by simp [registryOf]
  have hSpelled : ∀ m ∈ (registryOf declared w.synthetic).models, IsTypeName m.classname := by
    intro m hm
    rw [(hSound m (mem_registryOf hm)).spelled]
    exact isTypeName_typeName _
  have hTyped : ∀ m ∈ (registryOf declared w.synthetic).models,
      ModelTyped (IsClassname (registryOf declared w.synthetic).models) m := fun m hm =>
    (hSound m (mem_registryOf hm)).toModelTyped.mono fun _ => isClassname_of_known hSound hNames
  obtain ⟨hClosed, hWords⟩ :=
    @run_closed config w.hints.freeze _ hFresh (.freeze hOrderly.reached) hOrderly.numbered
      hSpelled hTyped
  exact fun m hm type hType => isSettled_of_isType hWords (hClosed m hm type hType)

/-- A schema whose name is that of a provisional type behind the mark of a union, and
one that refers to it. -/
def unionMarkDocument : ApiDocument where
  schemas := [("OneOfisize", { properties := [("a", { kind := .primitive, type := some "string" })] }),
    ("Holder", { properties := [("p", { reference := some "#/components/schemas/OneOfisize" })] })]

theorem compiled_types_settled_union_mark :
    ∃ operations declared w,
      (resolveDocument ⟨Config.shipped, unionMarkDocument.schemas⟩ unionMarkDocument).run {} =
        .ok ((operations, declared), w) ∧
      ∀ m ∈ matchedModels Config.shipped declared w, ∀ type ∈ typesInModel m,
        IsSettled (matchedModels Config.shipped declared w) type := by
  obtain ⟨operations, declared, w, hRun⟩ : ∃ operations declared w, (resolveDocument
      ⟨Config.shipped, unionMarkDocument.schemas⟩ unionMarkDocument).run {} =
        .ok ((operations, declared), w) := ⟨_, _, _, rfl⟩
  exact ⟨operations, declared, w, hRun, compiled_types_settled rfl hRun⟩

/-- A provisional type may be left as the name of a model: leaving out the mark of a
union turns `OneOfisize` into `isize`. -/
theorem provisional_type_left :
    ¬ ∀ (config : Config) (document : ApiDocument) (operations : List Operation)
      (declared : List Model) (w : Workspace), ShippedCorrections config →
      (resolveDocument ⟨config, document.schemas⟩ document).run {} =
        .ok ((operations, declared), w) →
      ∀ m ∈ matchedModels config declared w, ∀ type ∈ typesInModel m,
        IsType (IsClassname (matchedModels config declared w)) type ∧
          type ∉ [openObject, pointerSized, qualifiedDateTime] := by
  intro hAlways
  obtain ⟨operations, declared, w, hRun, hLeft⟩ : ∃ operations declared w, (resolveDocument
      ⟨Config.shipped, unionMarkDocument.schemas⟩ unionMarkDocument).run {} =
        .ok ((operations, declared), w) ∧
      pointerSized ∈ (matchedModels Config.shipped declared w).flatMap typesInModel :=
    ⟨_, _, _, rfl, by decide +kernel⟩
  obtain ⟨m, hm, hType⟩ := List.mem_flatMap.mp hLeft
  obtain ⟨_, hProvisional⟩ :=
    hAlways Config.shipped unionMarkDocument operations declared w rfl hRun m hm _ hType
  exact hProvisional (by decide)

end ClientTypes.Compilation
