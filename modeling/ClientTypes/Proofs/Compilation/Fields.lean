import ClientTypes.Proofs.Compilation.Matching

/-! What the types of fields mention. Removing a model does not ask who mentions it, so a
field can be left with the classname of a removed model; nothing else is ever missing. -/
namespace ClientTypes.Compilation

open Naming TargetType Resolution CrossReference

variable {config : Config} {hints : Hints} {r : Registry}

/-! ### Removed models -/

/-- A model that is removed at the end is called as in the beginning, and there was a reason to
remove it. -/
theorem Matchable.removed_run (h : Matchable hints r) {m : Model}
    (hm : m ∈ (run config hints r).registry.models) (hRemoved : m.removed = true) :
    ∃ gone ∈ r.models, gone.classname = m.classname ∧ (pruneReason? hints gone).isSome = true := by
  obtain ⟨gone, hGone, hMatched⟩ := exists_of_forall₂ (run_matched config hints h.fresh) hm
  refine ⟨gone, hGone, (hMatched.called hRemoved).symm, ?_⟩
  simpa [hMatched.removed, h.live gone hGone] using hRemoved

/-! ### Identifiers of types -/

/-- The identifier is one of the built-in types, or the classname of one of the models. -/
def Supplied (models : List Model) (name : String) : Prop :=
  name ∈ fixedNames ∨ IsClassname models name

instance (models : List Model) (name : String) : Decidable (Supplied models name) :=
  inferInstanceAs (Decidable (name ∈ fixedNames ∨ ∃ m ∈ models, m.classname = name))

/-- Every identifier of a type over classnames is built in, or the classname of a model that was
removed, or belongs to the classname of a live model. -/
theorem Matchable.identifier_cases (h : Matchable hints r) {type : String}
    (hType : IsType (IsClassname (run config hints r).registry.models) type) {name : String}
    (hName : name ∈ identifiers type) :
    name ∈ fixedNames ∨
      (∃ m ∈ (run config hints r).registry.live, name ∈ identifiers m.classname) ∨
      ∃ gone ∈ r.models, gone.classname = name ∧ (pruneReason? hints gone).isSome = true := by
  rcases hType.identifier_cases hName with hFixed | ⟨_, ⟨m, hm, rfl⟩, hIn⟩
  · exact Or.inl hFixed
  · cases hRemoved : m.removed with
    | false => exact Or.inr (Or.inl ⟨m, by simp [Registry.live, hm, hRemoved], hIn⟩)
    | true =>
        obtain ⟨gone, hGone, hSame, hReason⟩ := h.removed_run hm hRemoved
        rw [← hSame, identifiers_of_isIdentifier (h.spelled gone hGone).isIdentifier,
          List.mem_singleton] at hIn
        exact Or.inr (Or.inr ⟨gone, hGone, hIn.symm, hReason⟩)

theorem Matchable.field_isType (h : Matchable hints r) {m : Model}
    (hm : m ∈ (run config hints r).registry.models) {p : Property} (hp : p ∈ m.vars) :
    IsType (IsClassname (run config hints r).registry.models) p.datatype := by
  have hClosed := (@run_closed config _ _ h.fresh h.reached h.numbered h.spelled h.typed).1 m hm
  exact ((closed_iff.mp hClosed).2.2.2 p hp).own

/-- No field of a live model mentions anything but built-in types and live models exactly when
none mentions a model that there was a reason to remove and whose classname no live model has. -/
theorem compiled_fields_supplied_iff {document : ApiDocument} {result : Result}
    (hConfig : ShippedCorrections config) (hCompile : compile config document = .ok result)
    (hNames : ∀ m ∈ result.api.models, IsIdentifier m.classname.toList) :
    ∃ operations declared w,
      (resolveDocument ⟨config, document.schemas⟩ document).run {} =
        .ok ((operations, declared), w) ∧
      ((∀ m ∈ result.api.models, ∀ p ∈ m.vars, ∀ name ∈ identifiers p.datatype,
          Supplied result.api.models name) ↔
        ∀ gone ∈ (registryOf declared w.synthetic).models,
          (pruneReason? w.hints.freeze gone).isSome = true →
          ¬ Supplied result.api.models gone.classname →
          ∀ m ∈ result.api.models, ∀ p ∈ m.vars, gone.classname ∉ identifiers p.datatype) := by
  obtain ⟨operations, declared, w, hRun, mark, hMark, hModels⟩ := compile_models hCompile
  have hMatchable := matchable_of_resolved hConfig hRun
  refine ⟨operations, declared, w, hRun, ?_, ?_⟩
  · intro hAll gone _ _ hMissing m hm p hp hIn
    exact hMissing (hAll m hm p hp _ hIn)
  · intro hNone m hm p hp name hName
    obtain ⟨own, hOwn, rfl⟩ := List.mem_map.mp (hModels ▸ hm)
    have hField : p ∈ own.vars := by rwa [hMark own] at hp
    have hType := hMatchable.field_isType (List.mem_of_mem_filter hOwn) hField
    rcases hMatchable.identifier_cases hType hName with hFixed | hLive | ⟨gone, hGone, rfl, hReason⟩
    · exact Or.inl hFixed
    · obtain ⟨held, hHeld, hIn⟩ := hLive
      have hSame : (mark held).classname = held.classname := by rw [hMark held]
      have hResult : mark held ∈ result.api.models := hModels ▸ List.mem_map_of_mem hHeld
      rw [← hSame, identifiers_of_isIdentifier (hNames _ hResult), List.mem_singleton] at hIn
      exact Or.inr ⟨_, hResult, hIn.symm⟩
    · by_contra hMissing
      exact hNone gone hGone hReason hMissing _ hm p hp hName

/-- A composition whose only member is missing, and a field that refers to a schema. -/
def documentWithBroken (target : String) : ApiDocument where
  schemas := [
    ("Broken", { kind := .composed, allOf := [{ reference := some "#/components/schemas/Missing" }] }),
    ("Holder", { properties :=
      [("p", { reference := some ("#/components/schemas/" ++ target) })] })]

theorem compiled_fields_supplied_iff_own_type :
    ∃ result, compile Config.shipped (documentWithBroken "Holder") = .ok result ∧
      (∀ m ∈ result.api.models, IsIdentifier m.classname.toList) ∧
      (∃ operations declared w,
        (resolveDocument ⟨Config.shipped, (documentWithBroken "Holder").schemas⟩
          (documentWithBroken "Holder")).run {} = .ok ((operations, declared), w) ∧
        ((∀ m ∈ result.api.models, ∀ p ∈ m.vars, ∀ name ∈ identifiers p.datatype,
            Supplied result.api.models name) ↔
          ∀ gone ∈ (registryOf declared w.synthetic).models,
            (pruneReason? w.hints.freeze gone).isSome = true →
            ¬ Supplied result.api.models gone.classname →
            ∀ m ∈ result.api.models, ∀ p ∈ m.vars, gone.classname ∉ identifiers p.datatype)) := by
  obtain ⟨result, hCompile, hClassnames⟩ : ∃ result,
      compile Config.shipped (documentWithBroken "Holder") = .ok result ∧
        result.api.models.map (·.classname) = ["Holder"] := ⟨_, rfl, by decide +kernel⟩
  have hNames : ∀ m ∈ result.api.models, IsIdentifier m.classname.toList := by
    intro m hm
    have hName : m.classname ∈ ["Holder"] := hClassnames ▸ List.mem_map_of_mem hm
    rw [List.mem_singleton.mp hName]
    exact ⟨'H', "older".toList, rfl, by decide, by decide⟩
  exact ⟨result, hCompile, hNames, compiled_fields_supplied_iff rfl hCompile hNames⟩

/-- A field keeps the classname of a composition that was removed. -/
theorem removed_model_mentioned :
    ∃ result, compile Config.shipped (documentWithBroken "Broken") = .ok result ∧
      ∃ m ∈ result.api.models, ∃ p ∈ m.vars, ∃ name ∈ identifiers p.datatype,
        ¬ Supplied result.api.models name :=
  ⟨_, rfl, by decide +kernel⟩

end ClientTypes.Compilation
