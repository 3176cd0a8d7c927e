import ClientTypes.Proofs.Compilation.Matching
import ClientTypes.Proofs.CrossReference.FriendlyNames

/-! Models of a document that keep their names. Matching leaves a classname alone that has no hint and no
mark of a union. The mark is known from the text of the classname, so a schema that is declared under
such a name loses it, whether it is a union or not. -/
namespace ClientTypes.Compilation

open Naming Resolution CrossReference

/-- The models of a resolved document are called after their schemas, whatever the configuration. -/
theorem classname_registryOf {setup : Setup} {document : ApiDocument} {operations : List Operation}
    {declared : List Model} {w : Workspace}
    (hRun : (resolveDocument setup document).run {} = .ok ((operations, declared), w)) :
    ∀ m ∈ (registryOf declared w.synthetic).models, m.classname = typeName m.name := by
  obtain ⟨hPrepared, hDeclared, _⟩ := resolveDocument_prepared document _ _ hRun
  intro m hm
  rcases mem_registryOf hm with hOwn | hSynthetic
  · exact (hDeclared m hOwn).spelled
  · exact (hPrepared.built m hSynthetic).spelled

/-- Of a document and any friendly names: a model whose classname is no placeholder with a friendly name,
goes on from none with a new word, and does not go on from the mark of a union, has the same classname after
matching as before. -/
theorem unhinted_classnames_stay {config : Config} {document : ApiDocument} {operations : List Operation}
    {declared : List Model} {w : Workspace}
    (hRun : (resolveDocument ⟨config, document.schemas⟩ document).run {} =
      .ok ((operations, declared), w)) (hints : Hints) :
    List.Forall₂ (fun m m' => m'.name = m.name ∧
        (Unhinted hints m.classname → Unmarked m.classname → m'.classname = m.classname))
      (registryOf declared w.synthetic).models
      (run config hints (registryOf declared w.synthetic)).registry.models := by
  have hFresh : (registryOf declared w.synthetic).crossReferenced = false := by simp [registryOf]
  have hNames : ∀ m ∈ (registryOf declared w.synthetic).models, IsTypeName m.classname := by
    intro m hm
    rw [classname_registryOf hRun m hm]
    exact isTypeName_typeName _
  have hDecided := run_decided config hints hFresh
  rw [List.map_map, List.forall₂_map_left_iff] at hDecided
  refine ((List.forall₂_and_left _ _).mpr ⟨hNames, hDecided⟩).imp ?_
  rintro m m' ⟨hSpelled, hOwn⟩
  have hSame := prune_matched hints m
  have hCalled : (prune hints (classify m)).classname = m.classname :=
    ((prune_leavesTypes hints).classname _).trans (classname_classify m)
  refine ⟨hOwn.name.trans hSame.name, fun hUnhinted hUnmarked => ?_⟩
  rw [← hCalled] at hSpelled hUnhinted hUnmarked ⊢
  exact hOwn.kept (friendlyName?_eq_none hSpelled hUnmarked hUnhinted)

/-- A schema that is declared as an object under the name of a union, one under a plain name, and the body
of a request. -/
def petsDocument : ApiDocument where
  schemas := [("OneOfPet", object), ("Team", object), ("body_1", object)]
where
  object : Schema := { properties := [("name", { kind := .primitive, type := some "string" })] }

def loginHints : Hints := ({} : Hints).register "body_1" "login"

theorem unhinted_classnames_stay_team : ∃ operations declared w,
    (resolveDocument ⟨Config.shipped, petsDocument.schemas⟩ petsDocument).run {} =
      .ok ((operations, declared), w) ∧
    List.Forall₂ (fun m m' => m'.name = m.name ∧
        (Unhinted loginHints m.classname → Unmarked m.classname → m'.classname = m.classname))
      (registryOf declared w.synthetic).models
      (run Config.shipped loginHints (registryOf declared w.synthetic)).registry.models ∧
    (run Config.shipped loginHints (registryOf declared w.synthetic)).registry.models.map (·.classname) =
      ["Pet", "Team", "Login"] := by
  obtain ⟨operations, declared, w, hRun, hNames⟩ : ∃ operations declared w,
      (resolveDocument ⟨Config.shipped, petsDocument.schemas⟩ petsDocument).run {} =
        .ok ((operations, declared), w) ∧
      (run Config.shipped loginHints (registryOf declared w.synthetic)).registry.models.map (·.classname) =
        ["Pet", "Team", "Login"] := ⟨_, _, _, rfl, by decide +kernel⟩
  exact ⟨operations, declared, w, hRun, unhinted_classnames_stay hRun loginHints, hNames⟩

/-- A model that is no union loses the mark of a union all the same: `OneOfPet`, which is declared as an
object, is called `Pet` after matching, without any friendly name. -/
theorem declared_name_loses_mark :
    ¬ ∀ (config : Config) (document : ApiDocument) (operations : List Operation) (declared : List Model)
      (w : Workspace) (hints : Hints),
      (resolveDocument ⟨config, document.schemas⟩ document).run {} = .ok ((operations, declared), w) →
      List.Forall₂ (fun m m' => m'.removed = false → m.isUnion = false → Unhinted hints m.classname →
          m'.classname = m.classname)
        (registryOf declared w.synthetic).models
        (run config hints (registryOf declared w.synthetic)).registry.models := by
  intro hAlways
  obtain ⟨operations, declared, w, hRun, e, hIn, hLive, hPlain, hOld, hNew⟩ : ∃ operations declared w,
      (resolveDocument ⟨Config.shipped, petsDocument.schemas⟩ petsDocument).run {} =
        .ok ((operations, declared), w) ∧
      ∃ e ∈ (registryOf declared w.synthetic).models.zip
          (run Config.shipped {} (registryOf declared w.synthetic)).registry.models,
        e.2.removed = false ∧ e.1.isUnion = false ∧ e.1.classname = "OneOfPet" ∧ e.2.classname = "Pet" :=
    ⟨_, _, _, rfl, by decide +kernel⟩
  have hUnhinted : Unhinted {} e.1.classname := ⟨by simp [Table.keys], by simp [Table.keys]⟩
  have hStays := (List.forall₂_iff_zip.mp
    (hAlways Config.shipped petsDocument operations declared w {} hRun)).2 hIn hLive hPlain hUnhinted
  rw [hOld, hNew] at hStays
  exact absurd hStays (by decide)

end ClientTypes.Compilation
