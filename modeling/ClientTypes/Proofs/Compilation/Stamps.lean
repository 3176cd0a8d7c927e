import ClientTypes.Proofs.Compilation.Lookup
import ClientTypes.Proofs.CrossReference.Stamps
import ClientTypes.Proofs.Linking

/-! Pages of a compiled document. An operation that answers with a page is linked to the type that the
stamp of the page says. That is the type of the elements of the page, unless a reference stub was
replaced in the page after its stamp was set. -/
namespace ClientTypes.Linking

open Resolution CrossReference

variable {config : Config} {renames : Table String String} {r : Registry} {live : List String}

/-! ### Linking without stamps -/

def withoutStamp (m : Model) : Model := { m with marks := { m.marks with paginationInner := none } }

/-- The registry without stamps, where lists are known from fields alone. -/
def withoutStamps (r : Registry) : Registry := { r with models := r.models.map withoutStamp }

theorem lookup?_withoutStamps (r : Registry) (classname : String) :
    (withoutStamps r).lookup? classname = (r.lookup? classname).map withoutStamp := by
  simp only [withoutStamps, Registry.lookup?, List.find?_map]
  rfl

/-- A model whose stamp is no news has the same shape without it. -/
theorem shapeOf_withoutStamps {datatype : String} {m : Model} (hFound : r.lookup? datatype = some m)
    (hSame : ∀ type, m.marks.paginationInner = some type → firstListType? m.vars = some type) :
    shapeOf (withoutStamps r) datatype = shapeOf r datatype := by
  have hFields : (m.marks.paginationInner <|> m.firstList?.map (·.datatype)) =
      m.firstList?.map (·.datatype) := by
    cases hStamp : m.marks.paginationInner with
    | none => rfl
    | some type =>
        rw [firstList?_map_datatype, hSame type hStamp]
        rfl
  have hBare : ((withoutStamp m).marks.paginationInner <|>
      (withoutStamp m).firstList?.map (·.datatype)) = m.firstList?.map (·.datatype) := rfl
  simp only [shapeOf, lookup?_withoutStamps, hFound, Option.map_some, hFields, hBare]
  cases m.firstList?.map (·.datatype) with
  | some inner => rfl
  | none =>
      cases hOnly : onlyVar? m with
      | none => simp [show onlyVar? (withoutStamp m) = none from hOnly]
      | some p =>
          simp only [show onlyVar? (withoutStamp m) = some p from hOnly]
          cases r.lookup? p.datatype <;> rfl

/-- A stamp that is there decides the elements. Without it, the first list does. -/
theorem shapeOf_stamped {datatype type inner : String} {m : Model}
    (hFound : r.lookup? datatype = some m) (hStamp : m.marks.paginationInner = some type)
    (hList : firstListType? m.vars = some inner) :
    shapeOf r datatype = .list datatype type ∧
      shapeOf (withoutStamps r) datatype = .list datatype inner := by
  have hElements : (withoutStamp m).firstList?.map (·.datatype) = some inner :=
    (firstList?_map_datatype _).trans hList
  constructor
  · simp [shapeOf, hFound, hStamp]
  · have hBare : (withoutStamp m).marks.paginationInner = none := rfl
    simp [shapeOf, lookup?_withoutStamps, hFound, hBare, hElements]

theorem responseSingle_of_list {o : Operation} {datatype inner : String}
    (hShape : shapeFor renames r o = .list datatype inner) :
    (linkOperation config renames r o).1.marks.responseSingle = some inner := by
  rw [operation_linkOperation, hShape]
  rfl

/-- If stamps tell about lists, an operation gets the same element type from the stamp and from the
first list of its page exactly when the stamp of the page is not outdated. -/
theorem responseSingle_eq_iff (hTells : ∀ m ∈ r.models, TellsList config live m) (o : Operation) :
    (linkOperation config renames r o).1.marks.responseSingle =
        (linkOperation config renames (withoutStamps r) o).1.marks.responseSingle ↔
      ∀ m, primaryModel? renames r o = some m → ¬ Outdated config live m := by
  have hSame (h : shapeFor renames (withoutStamps r) o = shapeFor renames r o) :
      (linkOperation config renames r o).1.marks.responseSingle =
        (linkOperation config renames (withoutStamps r) o).1.marks.responseSingle := by
    rw [operation_linkOperation, operation_linkOperation, h]
  cases hPrimary : ((renameOperation renames o).primaryResponse?.bind (·.datatype)).filter (· ≠ "") with
  | none =>
      have hNone : primaryModel? renames r o = none := by rw [primaryModel?, hPrimary, Option.bind_none]
      exact iff_of_true (hSame (by simp only [shapeFor, responseShape, hPrimary])) (by simp [hNone])
  | some datatype =>
      have hModel : primaryModel? renames r o = r.lookup? datatype := by
        rw [primaryModel?, hPrimary, Option.bind_some]
      have hShape (r' : Registry) : shapeFor renames r' o = shapeOf r' datatype := by
        simp only [shapeFor, responseShape, hPrimary]
      rw [hShape, hShape] at hSame
      rw [hModel]
      cases hFound : r.lookup? datatype with
      | none =>
          refine iff_of_true (hSame ?_) (by simp)
          simp [shapeOf, lookup?_withoutStamps, hFound]
      | some m =>
          simp only [Option.some.injEq, forall_eq']
          have hTold := hTells m (List.mem_of_find?_eq_some hFound)
          by_cases hOutdated : Outdated config live m
          · obtain ⟨type, hStamp, -⟩ := Option.bind_eq_some_iff.mp (Option.some_get hOutdated.2.1).symm
            obtain ⟨inner, hList, hAgrees⟩ := hTold.agrees_iff hStamp
            obtain ⟨hWith, hWithout⟩ := shapeOf_stamped hFound hStamp hList
            rw [responseSingle_of_list ((hShape r).trans hWith),
              responseSingle_of_list ((hShape (withoutStamps r)).trans hWithout), Option.some.injEq,
              eq_comm]
            exact hAgrees
          · refine iff_of_true (hSame (shapeOf_withoutStamps hFound fun type hStamp => ?_)) hOutdated
            rw [hTold type hStamp, if_neg hOutdated]

end ClientTypes.Linking

namespace ClientTypes.Compilation

open Resolution CrossReference Linking

/-! ### Compiled documents -/

theorem stamped_of_built {config : Config} {names : String → Prop} {m : Model}
    (h : BuiltModel config names m) : Stamped m := by
  intro type hStamp
  cases h.standsFor with
  | object _ _ _ hPage => exact hPage type hStamp
  | nothing _ _ _ hPage => cases hPage.symm.trans hStamp
  | value _ _ _ _ hPage => cases hPage.symm.trans hStamp
  | openMap _ _ _ hPage => cases hPage.symm.trans hStamp
  | container _ _ _ _ hPage => cases hPage.symm.trans hStamp

section Documents

variable {config : Config} {document : ApiDocument} {operations : List Operation}
  {declared : List Model} {w : Workspace}

/-- In a document that was matched, stamps tell about lists. -/
theorem matched_tellsList (hRun : (resolveDocument ⟨config, document.schemas⟩ document).run {} =
      .ok ((operations, declared), w)) :
    ∀ m ∈ matchedModels config declared w,
      TellsList config (liveNames (matchedModels config declared w)) m := by
  obtain ⟨hPrepared, hDeclared, _⟩ :=
    @resolveDocument_prepared ⟨config, document.schemas⟩ document _ _ hRun
  have hFresh : (registryOf declared w.synthetic).crossReferenced = false := by simp [registryOf]
  refine run_tellsList config w.hints.freeze hFresh fun m hm => ?_
  rcases mem_registryOf hm with hOwn | hSynthetic
  · exact stamped_of_built (hDeclared m hOwn)
  · exact stamped_of_built (hPrepared.built m hSynthetic)

/-- Linking changes neither classnames nor what stamps tell. -/
theorem final_tellsList (operations : List Operation) {live : List String}
    (h : ∀ m ∈ matchedModels config declared w, TellsList config live m) :
    (finalRegistry config operations declared w).live.map (·.classname) =
        liveNames (matchedModels config declared w) ∧
      ∀ m ∈ (finalRegistry config operations declared w).models, TellsList config live m := by
  obtain ⟨mark, hMark, hModels⟩ := models_finalRegistry config operations declared w
  constructor
  · change liveNames (finalRegistry config operations declared w).models = _
    rw [hModels, liveNames_map fun m => ⟨by rw [hMark m], (hMark.standing m).removed⟩]
  · rw [hModels, List.forall_mem_map]
    intro m hm
    rw [hMark m]
    exact h m hm

/-- A live model with a stamp has a list, and the type of its elements is the one that the stamp says
exactly when the stamp is not outdated. An operation is linked to the same element type, whether that
is read off the stamp of its page or off the first list, exactly when the stamp of its page is not
outdated. -/
theorem compiled_stamps_agree_iff {result : Result} (h : compile config document = .ok result) :
    (∀ m ∈ result.api.models, ∀ type, m.marks.paginationInner = some type →
      ∃ inner, firstListType? m.vars = some inner ∧
        (inner = type ↔ ¬ Outdated config (result.api.models.map (·.classname)) m)) ∧
    ∃ operations declared w, (resolveDocument ⟨config, document.schemas⟩ document).run {} =
        .ok ((operations, declared), w) ∧
      let matched := run config w.hints.freeze (registryOf declared w.synthetic)
      let linked := fun r o => (linkOperation config matched.renames r o).1
      result.api.operations = operations.map (linked matched.registry) ∧
        ∀ o ∈ operations, (linked matched.registry o).marks.responseSingle =
            (linked (withoutStamps matched.registry) o).marks.responseSingle ↔
          ∀ m, primaryModel? matched.renames matched.registry o = some m →
            ¬ Outdated config (result.api.models.map (·.classname)) m := by
  obtain ⟨⟨⟨operations, declared⟩, w⟩, hRun, hResult⟩ := ok_of_bind h
  have hModels : result.api.models = (finalRegistry config operations declared w).live := by
    cases hResult
    rfl
  have hTells := matched_tellsList hRun
  obtain ⟨hLive, hFinal⟩ := final_tellsList operations hTells
  rw [hModels, hLive]
  refine ⟨fun m hm type hStamp => ?_, operations, declared, w, hRun, ?_, fun o _ => ?_⟩
  · exact (hFinal m (List.mem_of_mem_filter hm)).agrees_iff hStamp
  · cases hResult
    dsimp only
    rw [linkAll_eq]
  · exact responseSingle_eq_iff hTells o

end Documents

/-! ### A page of pets -/

/-- A page that lists pets, or references to pets. -/
def pageOf (element : String) : ApiDocument :=
  pagesDocument [
    ("Pagination", { properties := [("limit", { kind := .primitive, type := some "integer" })] }),
    ("Pet", { properties := [("name", { kind := .primitive, type := some "string" })] }),
    ("PetReference", { properties := [("id", { kind := .primitive, type := some "string" })] }),
    ("PetPage", {
      kind := .composed
      allOf := [{ reference := some "#/components/schemas/Pagination" }]
      properties := [("pets", {
        kind := .array, items := some { reference := some ("#/components/schemas/" ++ element) } })] })]

theorem compiled_stamps_agree_iff_pets :
    ∃ result, compile Config.shipped (pageOf "Pet") = .ok result ∧
      result.api.models.map (·.marks.paginationInner) = [none, none, none, some "Pet"] ∧
      ∀ m ∈ result.api.models, ∀ type, m.marks.paginationInner = some type →
        firstListType? m.vars = some type := by
  have hCompiled : (compile Config.shipped (pageOf "Pet")).toOption.map (fun result =>
      (result.api.models.map (·.marks.paginationInner), result.api.models.all fun m =>
        !decide (Outdated Config.shipped (result.api.models.map (·.classname)) m))) =
      some ([none, none, none, some "Pet"], true) := by decide +kernel
  obtain ⟨result, hOk, hBoth⟩ := Option.map_eq_some_iff.mp hCompiled
  simp only [Prod.mk.injEq, List.all_eq_true, Bool.not_eq_true', decide_eq_false_iff_not] at hBoth
  have hCompile := ok_of_toOption hOk
  refine ⟨result, hCompile, hBoth.1, fun m hm type hStamp => ?_⟩
  obtain ⟨inner, hList, hAgrees⟩ := (compiled_stamps_agree_iff hCompile).1 m hm type hStamp
  rw [hList, hAgrees.mpr (hBoth.2 m hm)]

/-- The page of references lists pets, but its stamp says references, and so does the operation that
answers with the page. -/
theorem stamp_outdated_by_stub :
    ∃ result, compile Config.shipped (pageOf "PetReference") = .ok result ∧
      (∃ m ∈ result.api.models, m.classname = "PetPage" ∧
        m.marks.paginationInner = some "PetReference" ∧ firstListType? m.vars = some "Pet") ∧
      result.api.operations.map (·.marks.responseSingle) = [some "PetReference"] :=
  ⟨_, rfl, by decide +kernel, by decide +kernel⟩

end ClientTypes.Compilation
