import ClientTypes.Proofs.Compilation.Removal
import ClientTypes.Proofs.CrossReference.RequiredFlags

/-! Fields of a compiled document that have to be there. Their flags say which types have a default value; but that is
decided before reference stubs are replaced, and a field that gets another type keeps its flags. -/
namespace ClientTypes.Compilation

open Resolution CrossReference

section Documents

variable {config : Config} {document : ApiDocument}

/-- Nothing is decided about the fields of registered models. -/
theorem registered_undecided {operations : List Operation} {declared : List Model} {w : Workspace}
    (hRun : (resolveDocument ⟨config, document.schemas⟩ document).run {} = .ok ((operations, declared), w)) :
    ∀ m ∈ (registryOf declared w.synthetic).models, Undecided m := by
  obtain ⟨hDeclared, hSynthetic⟩ := resolveDocument_originates (closedUnderAsking_all _) rfl
    ⟨fun _ _ => trivial, fun _ _ _ _ => trivial⟩ _ _ hRun
  exact fun m hm => (registered_originates hDeclared (fun _ _ => trivial) hSynthetic m hm).undecided

theorem flagsKept_of_onlySingleField {live : List String} {m m' : Model} {mark : Model → Model}
    (hMark : OnlySingleField mark) (h : FlagsKept config live m m') : FlagsKept config live m (mark m') := by
  have hClassname : (mark m').classname = m'.classname := by rw [hMark m']
  have hVars : (mark m').vars = m'.vars := by rw [hMark m']
  have hDefaults : (mark m').marks.defaults = m'.marks.defaults := by rw [hMark m']
  refine ⟨hClassname.trans h.classname, hDefaults ▸ h.distinct, ?_⟩
  rw [hVars, hClassname]
  refine h.fields.imp fun p p' hField => ?_
  obtain ⟨hMade, hFollow, _⟩ := hField
  have hKept := hFollow.congr hClassname hDefaults
  exact ⟨hMade, hKept, hKept.iff_not_overtaken _⟩

/-- In a compiled document the flags of a field follow from the type that the field had before reference stubs
were replaced. They follow from the type that it has in the end exactly when it makes no difference: when the field
has a default value of its own, or is not required, or its model keeps references, or both types have a default
value, or neither has one. No model notes a default value twice. -/
theorem compiled_flags_kept {result : Result} (h : compile config document = .ok result) :
    ∃ operations declared w,
      (resolveDocument ⟨config, document.schemas⟩ document).run {} = .ok ((operations, declared), w) ∧
      List.Forall₂ (FlagsKept config (result.api.models.map (·.classname)))
        ((beforeStubs config w.hints.freeze (registryOf declared w.synthetic)).filter (!·.removed))
        result.api.models :=
  compile_lastPass h (fun _ _ _ _ => flagsKept_of_onlySingleField) fun _ declared w hRun =>
    run_flagsKept config w.hints.freeze (by simp [registryOf]) (registered_undecided hRun)

end Documents

/-! ### A game of two teams -/

/-- A game of a team at home, which is referred to by its stub; with a label, a day and a number of guests. -/
def gameDocument : ApiDocument where
  schemas := [
    ("Team", { properties := [("name", { kind := .primitive, type := some "string" })] }),
    ("TeamReference", { properties := [("id", { kind := .primitive, type := some "string" })] }),
    ("Game", {
      required := ["home", "day"]
      properties := [
        ("home", { reference := some "#/components/schemas/TeamReference" }),
        ("label", { kind := .primitive, type := some "string" }),
        ("day", { kind := .primitive, type := some "string" }),
        ("guests", { kind := .primitive, type := some "integer" })] })]

/-- A configuration in which only one type has no default value. -/
def withoutDefault (type : String) : Config := { Config.shipped with noDefaultTypes := [type] }

/-- The fields of a game when texts have no default value. -/
def gameFields : List (String × Bool × Bool × Bool) :=
  [("Team", true, false, false), ("String", true, true, false), ("String", noFlags), ("i64", false, false, true)]

theorem compiled_flags_kept_game :
    ∃ result, compile (withoutDefault "String") gameDocument = .ok result ∧
      (∃ operations declared w,
        (resolveDocument ⟨withoutDefault "String", gameDocument.schemas⟩ gameDocument).run {} =
          .ok ((operations, declared), w) ∧
        List.Forall₂ (FlagsKept (withoutDefault "String") (result.api.models.map (·.classname)))
          ((beforeStubs (withoutDefault "String") w.hints.freeze
            (registryOf declared w.synthetic)).filter (!·.removed))
          result.api.models) ∧
      ∃ game ∈ result.api.models, game.classname = "Game" ∧
        game.vars.map (fun p => (p.datatype, flags p)) = gameFields ∧
        game.marks.defaults = [⟨"label", "Game"⟩] := by
  have hCompiled : (compile (withoutDefault "String") gameDocument).toOption.map (fun result =>
      decide (∃ game ∈ result.api.models, game.classname = "Game" ∧
        game.vars.map (fun p => (p.datatype, flags p)) = gameFields ∧
        game.marks.defaults = [⟨"label", "Game"⟩])) = some true := by decide +kernel
  obtain ⟨result, hOk, hGame⟩ := Option.map_eq_some_iff.mp hCompiled
  have hCompile := ok_of_toOption hOk
  exact ⟨result, hCompile, compiled_flags_kept hCompile, of_decide_eq_true hGame⟩

/-- Flags do not follow from the types that fields have in the end: the team at home has to be there, because its stub has
a default value. -/
theorem flag_outdated_by_stub :
    ¬ ∀ (config : Config) (document : ApiDocument) (result : Result), compile config document = .ok result →
      ∀ m ∈ result.api.models, ∀ p ∈ m.vars, FlagsFollow config m p.datatype p := by
  intro hAlways
  have hCompiled : (compile (withoutDefault "Team") gameDocument).toOption.map (fun result =>
      decide (∃ m ∈ result.api.models, ∃ p ∈ m.vars, p.marks.isRequired = true ∧
        p.datatype ∈ (withoutDefault "Team").noDefaultTypes ∧ ¬ HasOwnDefault (withoutDefault "Team") p)) =
      some true := by decide +kernel
  obtain ⟨result, hOk, hFound⟩ := Option.map_eq_some_iff.mp hCompiled
  obtain ⟨m, hm, p, hp, hFlagged, hType, hNone⟩ := of_decide_eq_true hFound
  have hFollow := hAlways (withoutDefault "Team") gameDocument result (ok_of_toOption hOk) m hm p hp
  exact (hFollow.required.mp hFlagged).elim hNone fun hOther => hOther.2.1 hType

end ClientTypes.Compilation
