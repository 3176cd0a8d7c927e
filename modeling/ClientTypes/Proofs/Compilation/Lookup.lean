import ClientTypes.Proofs.Compilation.Removal

/-! Looking up models by classname. A removed model stays in the registry under the classname that
it was resolved with, and a look-up takes the first model of a classname. A removed model
therefore hides a live one that comes after it, and nothing else hides a live model. -/
namespace ClientTypes.CrossReference

/-- Looking up the classname of a live model finds that model, and so does looking it up among the live
models alone. -/
def LiveWin (r : Registry) : Prop :=
  ∀ m ∈ r.live, r.lookup? m.classname = some m ∧
    ({ models := r.live } : CompiledApi).model? m.classname = some m

/-- A removed model is found only under a classname that no live model has. -/
def RemovedYield (r : Registry) : Prop :=
  ∀ type m, r.lookup? type = some m → m.removed = true → ∀ m' ∈ r.live, m'.classname ≠ type

/-- No live model comes after a removed one of its classname. -/
def Unhidden (models : List Model) : Prop :=
  models.Pairwise fun earlier later =>
    earlier.removed = true → later.removed = false → later.classname ≠ earlier.classname

/-- Before matching and after it, the models are in the same order. No model that ends up live comes
after a model that is removed and whose classname it ends up with. -/
def Unshadowed (hints : Hints) (before after : List Model) : Prop :=
  (before.zip after).Pairwise fun earlier later =>
    (earlier.1.removed || (pruneReason? hints earlier.1).isSome) = true →
      later.2.removed = false → later.2.classname ≠ earlier.1.classname

instance (hints : Hints) (before after : List Model) : Decidable (Unshadowed hints before after) :=
  inferInstanceAs (Decidable (List.Pairwise _ _))

/-! ### One registry -/

section Lookup

/-- The first model hides those of its classname that come after it, and no other. -/
theorem find?_cons_live_iff {first : Model} {rest : List Model} (hAlone : first.removed = false →
      ∀ m ∈ rest, m.removed = false → m.classname ≠ first.classname) :
    (∀ m ∈ first :: rest, m.removed = false →
      (first :: rest).find? (·.classname == m.classname) = some m) ↔
    (∀ m ∈ rest, m.removed = false → m.classname ≠ first.classname) ∧
      ∀ m ∈ rest, m.removed = false → rest.find? (·.classname == m.classname) = some m := by
  have hOwn : (first :: rest).find? (·.classname == first.classname) = some first :=
    List.find?_cons_of_pos (by simp)
  have hPast {m : Model} (hOther : m.classname ≠ first.classname) :
      (first :: rest).find? (·.classname == m.classname) =
        rest.find? (·.classname == m.classname) :=
    List.find?_cons_of_neg (by simpa using Ne.symm hOther)
  constructor
  · intro h
    have hOthers : ∀ m ∈ rest, m.removed = false → m.classname ≠ first.classname := by
      intro m hm hLive hSame
      have hFound := h m (List.mem_cons_of_mem _ hm) hLive
      rw [hSame, hOwn] at hFound
      cases hFound
      exact hAlone hLive first hm hLive rfl
    refine ⟨hOthers, fun m hm hLive => ?_⟩
    rw [← hPast (hOthers m hm hLive)]
    exact h m (List.mem_cons_of_mem _ hm) hLive
  · rintro ⟨hOthers, hRest⟩ m hm hLive
    rcases List.mem_cons.mp hm with rfl | hm
    · exact hOwn
    · rw [hPast (hOthers m hm hLive)]
      exact hRest m hm hLive

/-- With distinct classnames, all live models are found exactly when none is hidden. -/
theorem find?_live_iff {models : List Model} (hDistinct : (liveNames models).Nodup) :
    (∀ m ∈ models, m.removed = false → models.find? (·.classname == m.classname) = some m) ↔
      Unhidden models := by
  induction models with
  | nil => simp [Unhidden]
  | cons first rest ih =>
      have hRest : (liveNames rest).Nodup :=
        hDistinct.sublist (((List.sublist_cons_self first rest).filter _).map _)
      have hAlone (hLive : first.removed = false) :
          ∀ m ∈ rest, m.removed = false → m.classname ≠ first.classname := by
        intro m hm hOther hSame
        rw [liveNames_cons_live hLive, List.nodup_cons] at hDistinct
        exact hDistinct.1 (List.mem_map.mpr ⟨m, by simp [hm, hOther], hSame⟩)
      rw [find?_cons_live_iff hAlone, ih hRest, Unhidden, Unhidden, List.pairwise_cons]
      refine and_congr_left fun _ => ⟨fun h m hm _ => h m hm, fun h m hm hLive => ?_⟩
      cases hFirst : first.removed with
      | true => exact h m hm hFirst hLive
      | false => exact hAlone hFirst m hm hLive

variable {r : Registry} (hDistinct : (liveNames r.models).Nodup)

include hDistinct

theorem eq_of_classname {m m' : Model} (hm : m ∈ r.live) (hm' : m' ∈ r.live)
    (hSame : m.classname = m'.classname) : m = m' :=
  List.inj_on_of_nodup_map hDistinct hm hm' hSame

/-- Among live models with distinct classnames, each one is the first of its classname. -/
theorem model?_live {m : Model} (hm : m ∈ r.live) :
    ({ models := r.live } : CompiledApi).model? m.classname = some m := by
  cases hFound : ({ models := r.live } : CompiledApi).model? m.classname with
  | none => simpa using List.find?_eq_none.mp hFound m hm
  | some found =>
      have hMem : found ∈ r.live := List.mem_of_find?_eq_some hFound
      have hSame : found.classname = m.classname := by simpa using List.find?_some hFound
      rw [eq_of_classname hDistinct hMem hm hSame]

theorem liveWin_iff : LiveWin r ↔ Unhidden r.models := by
  rw [← find?_live_iff hDistinct]
  constructor
  · exact fun h m hm hLive => (h m (by simp [Registry.live, hm, hLive])).1
  · intro h m hm
    obtain ⟨hMem, hLive⟩ : m ∈ r.models ∧ m.removed = false := by simpa [Registry.live] using hm
    exact ⟨h m hMem hLive, model?_live hDistinct hm⟩

theorem removedYield_iff : RemovedYield r ↔ LiveWin r := by
  constructor
  · intro h m hm
    refine ⟨?_, model?_live hDistinct hm⟩
    cases hFound : r.lookup? m.classname with
    | none =>
        have hMem : m ∈ r.models := List.mem_of_mem_filter hm
        simpa using List.find?_eq_none.mp hFound m hMem
    | some found =>
        have hSame : found.classname = m.classname := by simpa using List.find?_some hFound
        have hLive : found.removed = false := by
          by_contra hRemoved
          exact h _ found hFound (by simpa using hRemoved) m hm rfl
        have hMem : found ∈ r.live := by
          simp [Registry.live, hLive, List.mem_of_find?_eq_some hFound]
        rw [eq_of_classname hDistinct hMem hm hSame]
  · rintro h _ found hFound hRemoved m hm rfl
    rw [(h m hm).1] at hFound
    cases hFound
    simp [Registry.live, hRemoved] at hm

end Lookup

/-! ### Matching -/

theorem unhidden_iff {hints : Hints} {before after : List Model}
    (hMatched : List.Forall₂ (Matched hints) before after) :
    Unhidden after ↔ Unshadowed hints before after := by
  obtain ⟨hLength, hEach⟩ := List.forall₂_iff_zip.mp hMatched
  have hAfter : after = (before.zip after).map Prod.snd :=
    (List.map_snd_zip (Nat.le_of_eq hLength.symm)).symm
  unfold Unhidden Unshadowed
  rw [hAfter, List.pairwise_map, ← hAfter]
  refine List.Pairwise.iff_of_mem fun {earlier later} hEarlier _ => ?_
  have hOf : Matched hints earlier.1 earlier.2 := hEach hEarlier
  rw [hOf.removed]
  refine imp_congr_right fun hRemoved => ?_
  rw [hOf.called (hOf.removed.trans hRemoved)]

/-- After matching, if live models have distinct classnames, looking one of these up finds the live model
exactly when no model that is removed was registered before it under that classname. -/
theorem live_models_win_iff (config : Config) (hints : Hints) {r : Registry}
    (hFresh : r.crossReferenced = false)
    (hDistinct : (liveNames (run config hints r).registry.models).Nodup) :
    (LiveWin (run config hints r).registry ↔
      Unshadowed hints r.models (run config hints r).registry.models) ∧
    (RemovedYield (run config hints r).registry ↔
      Unshadowed hints r.models (run config hints r).registry.models) := by
  have hWin := (liveWin_iff hDistinct).trans (unhidden_iff (run_matched config hints hFresh))
  exact ⟨hWin, (removedYield_iff hDistinct).trans hWin⟩

end ClientTypes.CrossReference

/-! ### A page that is hidden -/

namespace ClientTypes.Compilation

open Resolution CrossReference

/-- An operation that answers with a page of pets, over a table of schemas. -/
def pagesDocument (schemas : Table String Schema) : ApiDocument where
  schemas := schemas
  operations := [{
    operationId := "listPets", method := "GET", path := "/pets", summary := "", notes := none
    tags := [], parameters := [], body := none
    responses := [{
      code := "200", description := "", schemaName := some "PetPage", isDefault := true, extensions := []
      schema := some { reference := some "#/components/schemas/PetPage" } }] }]

/-- A list of texts as the only field. -/
def petPage : String × Schema :=
  ("PetPage", { properties := [
    ("pets", { kind := .array, items := some { kind := .primitive, type := some "string" } })] })

/-- A merge of a missing schema, with a name that leads to the same classname. -/
def brokenPage : String × Schema :=
  ("pet_page", { kind := .composed, allOf := [{ reference := some "#/components/schemas/Missing" }] })

theorem live_models_win_iff_page_first :
    ∃ operations declared w,
      (resolveDocument ⟨Config.shipped, [petPage, brokenPage]⟩
        (pagesDocument [petPage, brokenPage])).run {} = .ok ((operations, declared), w) ∧
      let matched := run Config.shipped w.hints.freeze (registryOf declared w.synthetic)
      (liveNames matched.registry.models).Nodup ∧
        matched.registry.models.map (fun m => (m.classname, m.removed)) =
          [("PetPage", false), ("PetPage", true)] ∧
        LiveWin matched.registry ∧ RemovedYield matched.registry := by
  have hRun : ((resolveDocument ⟨Config.shipped, [petPage, brokenPage]⟩
      (pagesDocument [petPage, brokenPage])).run {}).toOption.map (fun resolved =>
        let registry := registryOf resolved.1.2 resolved.2.synthetic
        let matched := run Config.shipped resolved.2.hints.freeze registry
        (matched.registry.models.map (fun m => (m.classname, m.removed)),
          decide (liveNames matched.registry.models).Nodup,
          decide (Unshadowed resolved.2.hints.freeze registry.models matched.registry.models))) =
      some ([("PetPage", false), ("PetPage", true)], true, true) := by decide +kernel
  obtain ⟨⟨⟨operations, declared⟩, w⟩, hResolved, hMatched⟩ := Option.map_eq_some_iff.mp hRun
  simp only [Prod.mk.injEq, decide_eq_true_eq] at hMatched
  obtain ⟨hModels, hDistinct, hUnshadowed⟩ := hMatched
  have hFresh : (registryOf declared w.synthetic).crossReferenced = false := by simp [registryOf]
  have hBoth := live_models_win_iff Config.shipped w.hints.freeze hFresh hDistinct
  exact ⟨operations, declared, w, ok_of_toOption hResolved, hDistinct, hModels,
    hBoth.1.mpr hUnshadowed, hBoth.2.mpr hUnshadowed⟩

/-- Registered first, the merge hides the page: it is found instead, and the operation that answers with
the page is not recognised as a list. -/
theorem removed_model_hides_page :
    ∃ operations declared w,
      (resolveDocument ⟨Config.shipped, [brokenPage, petPage]⟩
        (pagesDocument [brokenPage, petPage])).run {} = .ok ((operations, declared), w) ∧
      let matched := run Config.shipped w.hints.freeze (registryOf declared w.synthetic)
      (liveNames matched.registry.models).Nodup ∧ ¬ LiveWin matched.registry ∧
        (Linking.linkAll Config.shipped matched.renames matched.registry operations).1.map
          (fun o => (o.responses.map (·.datatype), o.marks.isList)) = [([some "PetPage"], false)] := by
  have hRun : ((resolveDocument ⟨Config.shipped, [brokenPage, petPage]⟩
      (pagesDocument [brokenPage, petPage])).run {}).toOption.map (fun resolved =>
        let matched := run Config.shipped resolved.2.hints.freeze
          (registryOf resolved.1.2 resolved.2.synthetic)
        (liveNames matched.registry.models, (matched.registry.lookup? "PetPage").map (·.removed),
          (Linking.linkAll Config.shipped matched.renames matched.registry resolved.1.1).1.map
            (fun o => (o.responses.map (·.datatype), o.marks.isList)))) =
      some (["PetPage"], some true, [([some "PetPage"], false)]) := by decide +kernel
  obtain ⟨⟨⟨operations, declared⟩, w⟩, hResolved, hMatched⟩ := Option.map_eq_some_iff.mp hRun
  simp only [Prod.mk.injEq] at hMatched
  obtain ⟨hNames, hFound, hLinked⟩ := hMatched
  refine ⟨operations, declared, w, ok_of_toOption hResolved, by rw [hNames]; decide, fun hWin => ?_, hLinked⟩
  obtain ⟨m, hm, hClassname⟩ := List.mem_map.mp (hNames ▸ List.mem_singleton_self "PetPage")
  have hLooked := (hWin m hm).1
  have hLive : m.removed = false := by simpa using (List.mem_filter.mp hm).2
  rw [← hClassname, hLooked, Option.map_some, hLive] at hFound
  cases hFound

end ClientTypes.Compilation
