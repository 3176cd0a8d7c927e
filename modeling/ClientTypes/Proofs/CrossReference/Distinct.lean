import ClientTypes.CrossReference
import ClientTypes.Proofs.CrossReference.Substitution

/-! Distinct classnames stay distinct while live models are renamed. A model is
renamed only to a name that no live model has, and the names that are noted as
taken are at every moment the classnames of the live models. -/
namespace ClientTypes.CrossReference

variable {hints : Hints} {s s' : RenameState} {before after left right : List Model}

theorem liveNames_append (ms more : List Model) :
    liveNames (ms ++ more) = liveNames ms ++ liveNames more := by
  simp [liveNames]

theorem liveNames_cons_live {m : Model} (hLive : m.removed = false) (ms : List Model) :
    liveNames (m :: ms) = m.classname :: liveNames ms := by
  simp [liveNames, hLive]

theorem liveNames_map {pass : Model → Model}
    (hPass : ∀ m, (pass m).classname = m.classname ∧ (pass m).removed = m.removed)
    (ms : List Model) : liveNames (ms.map pass) = liveNames ms := by
  simp [liveNames, List.filter_map, Function.comp_def, hPass]

/-- The live models have distinct classnames, and these are the names that are
noted as taken. -/
structure NamesTaken (taken : List String) (models : List Model) : Prop where
  distinct : (liveNames models).Nodup
  held : ∀ name, name ∈ taken ↔ name ∈ liveNames models

theorem NamesTaken.initial {models : List Model} (h : (liveNames models).Nodup) :
    NamesTaken (RenameState.initial models).taken models :=
  ⟨h, fun _ => Iff.rfl⟩

/-- A single model takes a name that is free, and gives its old one back. -/
theorem NamesTaken.rename (hints : Hints) {m : Model} {target : String} (hLive : m.removed = false)
    (hFree : target ∉ s.taken) (h : NamesTaken s.taken (left ++ m :: right)) :
    NamesTaken (s.rename m.classname target).taken
      (left ++ { markBody hints m with classname := target } :: right) := by
  have hNames : liveNames (left ++ m :: right) =
      liveNames left ++ m.classname :: liveNames right := by
    rw [liveNames_append, liveNames_cons_live hLive]
  have hNames' : liveNames (left ++ { markBody hints m with classname := target } :: right) =
      liveNames left ++ target :: liveNames right := by
    rw [liveNames_append, liveNames_cons_live (by exact hLive)]
  have hOthers := hNames ▸ h.distinct
  rw [List.nodup_middle, List.nodup_cons] at hOthers
  obtain ⟨hOwn, hRest⟩ := hOthers
  rw [h.held, hNames, List.mem_append, List.mem_cons, not_or, not_or] at hFree
  constructor
  · rw [hNames', List.nodup_middle, List.nodup_cons, List.mem_append]
    exact ⟨not_or.mpr ⟨hFree.1, hFree.2.2⟩, hRest⟩
  · intro name
    rw [List.mem_append] at hOwn
    simp only [RenameState.rename, List.mem_append, List.mem_filter, h.held, hNames, hNames',
      List.mem_cons]
    grind

theorem NamesTaken.markBody (hints : Hints) {m : Model} {taken : List String}
    (h : NamesTaken taken (left ++ m :: right)) :
    NamesTaken taken (left ++ markBody hints m :: right) := by
  have hSame : liveNames (left ++ CrossReference.markBody hints m :: right) =
      liveNames (left ++ m :: right) := by
    rw [liveNames_append, liveNames_append]
    cases hRemoved : m.removed with
    | true => simp [liveNames, CrossReference.markBody, hRemoved]
    | false =>
        rw [liveNames_cons_live (by exact hRemoved), liveNames_cons_live hRemoved, classname_markBody]
  exact ⟨hSame ▸ h.distinct, hSame ▸ h.held⟩

/-- What a run does to the models that it goes over, among models that it leaves
alone, keeps the names distinct and the note of them right. -/
theorem RenameRun.namesTaken (hRun : RenameRun hints s before after s') (left right : List Model)
    (h : NamesTaken s.taken (left ++ (before ++ right))) :
    NamesTaken s'.taken (left ++ (after ++ right)) := by
  induction hRun generalizing left with
  | done s => exact h
  | skip hRemoved hRest ih =>
      rw [List.cons_append, List.append_cons]
      exact ih _ (by simpa using h)
  | keep hLive hRest ih =>
      rw [List.cons_append, List.append_cons]
      exact ih _ (by simpa using NamesTaken.markBody hints h)
  | rename hLive hTarget hRest ih =>
      rw [List.cons_append, List.append_cons]
      have hRenamed := NamesTaken.rename hints hLive (decide_eq_rename hTarget).1 h
      exact ih _ (by simpa using hRenamed)

/-- Renaming a list of models is renaming its first part, and going on from there. -/
theorem renameModels_append (hints : Hints) (s : RenameState) (first rest : List Model) :
    renameModels hints s (first ++ rest) =
      ((renameModels hints s first).1 ++
          (renameModels hints (renameModels hints s first).2 rest).1,
        (renameModels hints (renameModels hints s first).2 rest).2) := by
  induction first generalizing s with
  | nil => rfl
  | cons m more ih =>
      rw [List.cons_append, renameModels, renameModels]
      split
      · rw [ih]
        rfl
      · split
        all_goals
          rw [ih]
          rfl

theorem liveNames_rename (hints : Hints) (models : List Model) :
    liveNames (rename hints models).1 =
      liveNames (renameModels hints (.initial models) models).1 := by
  simp only [rename, renameAllTypes_eq]
  exact liveNames_map (by exact fun _ => ⟨rfl, rfl⟩) _

/-! ### Every moment of the run -/

/-- A moment of renaming: the models before `rest` were gone over and have become
`done`, and `s` is known. -/
def Underway (hints : Hints) (models done rest : List Model) (s : RenameState) : Prop :=
  ∃ first, models = first ++ rest ∧ renameModels hints (.initial models) first = (done, s)

/-- From a moment of renaming, going over the rest gives what renaming gives. -/
theorem Underway.ends {models done rest : List Model} (h : Underway hints models done rest s) :
    renameModels hints (.initial models) models =
      (done ++ (renameModels hints s rest).1, (renameModels hints s rest).2) := by
  obtain ⟨first, hSplit, hFirst⟩ := h
  conv_lhs => rw [hSplit, renameModels_append, ← hSplit, hFirst]

theorem underway_end (hints : Hints) (models : List Model) :
    Underway hints models (renameModels hints (.initial models) models).1 []
      (renameModels hints (.initial models) models).2 :=
  ⟨models, (List.append_nil models).symm, rfl⟩

theorem Underway.namesTaken {models done rest : List Model} (hNames : (liveNames models).Nodup)
    (h : Underway hints models done rest s) : NamesTaken s.taken (done ++ rest) := by
  obtain ⟨first, hSplit, hFirst⟩ := h
  have hRun := renameModels_run hints (.initial models) first
  rw [hFirst] at hRun
  exact hRun.namesTaken [] rest (hSplit ▸ .initial hNames)

/-- Renaming keeps the classnames of live models distinct, after it and throughout. -/
structure StaysDistinct (hints : Hints) (models : List Model) : Prop where
  /-- Renaming passes through each of its moments, and there the names noted as taken are
  the classnames of the live models, gone over or still to come. -/
  throughout : ∀ done rest s, Underway hints models done rest s →
    renameModels hints (.initial models) models =
        (done ++ (renameModels hints s rest).1, (renameModels hints s rest).2) ∧
      NamesTaken s.taken (done ++ rest)
  after : (liveNames (rename hints models).1).Nodup

/-- If the live models have distinct classnames, renaming keeps them distinct. Removed
models may be called as they like, and the hints are any. -/
theorem classnames_stay_distinct {hints : Hints} {models : List Model}
    (hNames : (liveNames models).Nodup) : StaysDistinct hints models where
  throughout _ _ _ hMoment := ⟨hMoment.ends, hMoment.namesTaken hNames⟩
  after := by
    have hEnd := (underway_end hints models).namesTaken hNames
    rw [liveNames_rename]
    simpa using hEnd.distinct

/-- Models that want the same names: `Pet` is given by a hint and by leaving out the mark of
a union, and the name `OneOfPet` becomes free for the model after it. -/
def contestedModels : List Model :=
  [{ name := "body_1", classname := "Body1" }, { name := "OneOfPet", classname := "OneOfPet" },
    { name := "AnyOfOneOfPet", classname := "AnyOfOneOfPet" },
    { name := "inline_response_200", classname := "OneOfPet", removed := true },
    { name := "OneOfBody1", classname := "OneOfBody1"
      values := some { kind := .untagged } }]

theorem classnames_stay_distinct_contested :
    (liveNames contestedModels).Nodup ∧
      StaysDistinct (({} : Hints).register "body_1" "pet") contestedModels ∧
      liveNames (rename (({} : Hints).register "body_1" "pet") contestedModels).1 =
        ["Pet", "PetEnum", "OneOfPet", "OneOfBody1"] :=
  ⟨by decide, classnames_stay_distinct (by decide), by decide +kernel⟩

end ClientTypes.CrossReference
