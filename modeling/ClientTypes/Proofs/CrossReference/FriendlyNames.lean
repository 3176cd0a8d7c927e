import ClientTypes.Proofs.CrossReference.Distinct
import ClientTypes.Proofs.CrossReference.Standing

/-! When a model is offered a friendly name, and what it is called after that. Whether a model is a union
decides how a new name ends, and never whether there is one: a classname with the mark of a union is
offered without it, whatever the model is. -/
namespace ClientTypes.CrossReference

open Naming Text

/-! ### The mark of a union -/

/-- The classname does not go on from the mark of a union. -/
def Unmarked (classname : String) : Prop :=
  ∀ front ∈ unionFronts, ∀ rest, dropFront? front classname = some rest → rest = ""

theorem withoutUnionFront_of_unmarked {classname : String} (h : Unmarked classname) :
    withoutUnionFront classname = classname := by
  have hNone : (unionFronts.findSome? fun front => (dropFront? front classname).filter (· ≠ "")) = none := by
    rw [List.findSome?_eq_none_iff]
    intro front hFront
    rw [Option.filter_eq_none_iff]
    intro rest hRest
    simpa using h front hFront rest hRest
  rw [withoutUnionFront, hNone]
  rfl

theorem unionFronts_ne_nil : ∀ front ∈ unionFronts, front.toList ≠ [] := by decide

theorem withoutUnionFront_eq_iff {classname : String} :
    withoutUnionFront classname = classname ↔ Unmarked classname := by
  refine ⟨fun hSame front hFront rest hDrop => ?_, withoutUnionFront_of_unmarked⟩
  by_contra hRest
  cases hFound : unionFronts.findSome? fun front => (dropFront? front classname).filter (· ≠ "") with
  | none =>
      have hNone := List.findSome?_eq_none_iff.mp hFound front hFront
      simp [hDrop, hRest] at hNone
  | some left =>
      obtain ⟨mark, hMark, hLeft⟩ := List.exists_of_findSome?_eq_some hFound
      have hIs : left = classname := by rwa [withoutUnionFront, hFound] at hSame
      have hSplit := dropFront?_eq_some_iff.mp (Option.filter_eq_some_iff.mp hLeft).1
      rw [hIs] at hSplit
      exact unionFronts_ne_nil mark hMark (List.append_left_eq_self.mp hSplit.symm)

/-! ### Offers -/

theorem longestFront?_eq_none {hints : Hints} {classname : String}
    (h : ∀ key ∈ hints.names.keys, Hints.wordsAfter? key classname = none) :
    hints.longestFront? classname = none := by
  rw [Hints.longestFront?_eq_none_iff]
  intro key hKey
  simp [← Hints.isSome_wordsAfter?_iff, h key hKey]

/-- The classname is no placeholder that has a friendly name, and goes on from none with a new word. -/
structure Unhinted (hints : Hints) (classname : String) : Prop where
  own : classname ∉ hints.names.keys
  front : ∀ key ∈ hints.names.keys, Hints.wordsAfter? key classname = none

/-- Without a hint a classname is offered a new name exactly when it has the mark of a union, also if
the model is none. -/
theorem friendlyName?_eq_none_iff {hints : Hints} {m : Model}
    (hOwn : hints.get? (withoutUnionFront m.classname) = none)
    (hFront : ∀ key ∈ hints.names.keys, Hints.wordsAfter? key (withoutUnionFront m.classname) = none) :
    friendlyName? hints m = none ↔ Unmarked m.classname := by
  rw [← withoutUnionFront_eq_iff]
  simp [friendlyName?, hOwn, longestFront?_eq_none hFront]

theorem friendlyName?_eq_none {hints : Hints} {m : Model} (hName : IsTypeName m.classname)
    (hUnmarked : Unmarked m.classname) (h : Unhinted hints m.classname) : friendlyName? hints m = none := by
  have hBare := withoutUnionFront_of_unmarked hUnmarked
  refine (friendlyName?_eq_none_iff ?_ ?_).mpr hUnmarked
  · rw [hBare, Hints.get?, hName.camelize_eq]
    exact Table.get?_eq_none_iff.mpr h.own
  · rw [hBare]
    exact h.front

/-! ### What a model is called afterwards -/

/-- The model of the same schema, under its old classname or the one that was decided on. -/
structure Decided (hints : Hints) (m m' : Model) : Prop where
  name : m'.name = m.name
  called : m'.classname = m.classname ∨ ∃ taken, decide hints taken m = .rename m'.classname

theorem RenameRun.decided {hints : Hints} {s s' : RenameState} {before after : List Model}
    (hRun : RenameRun hints s before after s') : List.Forall₂ (Decided hints) before after := by
  induction hRun with
  | done s => exact .nil
  | skip hRemoved hRest ih => exact .cons ⟨rfl, Or.inl rfl⟩ ih
  | keep hLive hRest ih => exact .cons ⟨rfl, Or.inl rfl⟩ ih
  | rename hLive hTarget hRest ih => exact .cons ⟨rfl, Or.inr ⟨_, hTarget⟩⟩ ih

/-- A model that is offered no name keeps its own. -/
theorem Decided.kept {hints : Hints} {m m' : Model} (h : Decided hints m m')
    (hNone : friendlyName? hints m = none) : m'.classname = m.classname := by
  refine h.called.resolve_right ?_
  rintro ⟨taken, hTarget⟩
  obtain ⟨_, friendly, hFriendly, _⟩ := decide_eq_rename hTarget
  cases hNone.symm.trans hFriendly

/-- After a model was renamed, matching leaves its name alone. -/
theorem Decided.of_passes {hints : Hints} {m m' : Model} (h : Decided hints m m') (config : Config)
    (renames : Table String String) (shown : Nat → Nat) (live : List String) :
    Decided hints m (unstubModel config live (applyDefaults config (renameTypes renames shown m'))) := by
  have hSame : SameStanding m'
      (unstubModel config live (applyDefaults config (renameTypes renames shown m'))) :=
    (renameTypes_standing renames shown m').trans ((applyDefaults_standing config _).trans
      (unstubModel_standing config live _))
  refine ⟨hSame.name.trans h.name, ?_⟩
  rw [classname_unstubModel, (applyDefaults_leavesTypes config).classname]
  exact h.called

/-- Matching calls each model as renaming does. -/
theorem run_decided (config : Config) (hints : Hints) {r : Registry} (hFresh : r.crossReferenced = false) :
    List.Forall₂ (Decided hints) ((r.models.map classify).map (prune hints))
      (run config hints r).registry.models := by
  have hRun := (renameModels_run hints (.initial ((r.models.map classify).map (prune hints)))
    ((r.models.map classify).map (prune hints))).decided
  rw [models_run config hints hFresh]
  simp only [rename, renameAllTypes_eq, List.map_map, List.forall₂_map_right_iff]
  rw [List.map_map] at hRun
  exact hRun.imp fun m renamed hDecided => hDecided.of_passes config _ _ _

end ClientTypes.CrossReference
