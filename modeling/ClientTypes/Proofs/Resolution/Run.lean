import ClientTypes.Resolution.Resolver
import ClientTypes.Proofs.Ensures
import Mathlib.Data.List.Basic

/-! What a run leaves in the workspace. Synthetic models are only ever added, so what
a name stands for stays the same for the rest of a run. -/
namespace ClientTypes.Ensures

open Resolution

variable {α : Type} {w : Workspace}

theorem halt {obstacle : Obstacle} {P : α → Workspace → Prop} : Ensures (halt obstacle) w P := by
  intro a w' hRun
  cases hRun

theorem textOf {v : Value} {P : String → Workspace → Prop} (h : ∀ s, P s w) :
    Ensures (textOf v) w P := by
  unfold Resolution.textOf
  split
  · exact .pure (h _)
  · exact .halt

end ClientTypes.Ensures

namespace ClientTypes.Resolution

variable {α β : Type}

/-! ### Invariants -/

/-- What holds before the run holds after it. -/
def Preserves (inv : Workspace → Prop) (x : Run α) : Prop :=
  ∀ w, inv w → Ensures x w fun _ w' => inv w'

/-- The small steps of resolving keep what holds: a report, a number for a list, a
synthetic model that is new. -/
structure KeptBySteps (new : Model → Prop) (inv : Workspace → Prop) : Prop where
  report : ∀ w r, inv w → inv (w.withReport r)
  number : ∀ w, inv w → inv w.nextList.2
  register : ∀ m w, new m → inv w → inv (w.addSynthetic m).2

namespace Preserves

variable {inv : Workspace → Prop} {x : Run α}

protected theorem pure (a : α) : Preserves inv (pure a : Run α) := fun _ hInv => .pure hInv

protected theorem bind {f : α → Run β} (hx : Preserves inv x) (hf : ∀ a, Preserves inv (f a)) :
    Preserves inv (x >>= f) :=
  fun w hInv => .bind (hx w hInv) fun a w1 hInv1 => hf a w1 hInv1

protected theorem map {f : α → β} (hx : Preserves inv x) : Preserves inv (f <$> x) :=
  fun w hInv => .map (hx w hInv)

theorem halt (obstacle : Obstacle) : Preserves inv (halt obstacle : Run α) := fun _ _ => .halt

theorem get : Preserves inv (get : Run Workspace) := fun _ hInv => .get hInv

theorem textOf (v : Value) : Preserves inv (textOf v) := fun _ hInv => .textOf fun _ => hInv

theorem report (hReport : ∀ w r, inv w → inv (w.withReport r)) (part : Part) (level : Level)
    (message : String) : Preserves inv (report part level message) :=
  fun w hInv => .modify (hReport w _ hInv)

theorem reportAll (hReport : ∀ w r, inv w → inv (w.withReport r)) (part : Part) (level : Level)
    (messages : List String) : Preserves inv (reportAll part level messages) := by
  refine fun w hInv => .modify ?_
  induction messages generalizing w with
  | nil => exact hInv
  | cons m rest ih => exact ih _ (hReport w _ hInv)

theorem nextList (hNumber : ∀ w, inv w → inv w.nextList.2) :
    Preserves inv (modifyGet (·.nextList) : Run Nat) :=
  fun w hInv => .modifyGet (hNumber w hInv)

theorem addSynthetic {m : Model} (hRegister : ∀ w, inv w → inv (w.addSynthetic m).2) :
    Preserves inv (modifyGet (·.addSynthetic m) : Run Model) :=
  fun w hInv => .modifyGet (hRegister w hInv)

end Preserves

/-! ### Runs that end -/

/-- The run ends from `w`, and its result is as it should be. -/
def Gives (x : Run α) (w : Workspace) (good : α → Prop) : Prop :=
  ∃ a w', x w = .ok (a, w') ∧ good a

namespace Gives

variable {w : Workspace} {x : Run α} {good : α → Prop}

protected theorem pure {a : α} (h : good a) : Gives (pure a : Run α) w good := ⟨a, w, rfl, h⟩

protected theorem bind {f : α → Run β} {then_ : β → Prop} (hx : Gives x w good)
    (hf : ∀ a w', good a → Gives (f a) w' then_) : Gives (x >>= f) w then_ := by
  obtain ⟨a, w1, hRun, hGood⟩ := hx
  obtain ⟨b, w2, hNext, hThen⟩ := hf a w1 hGood
  exact ⟨b, w2, bind_eq_ok_iff.mpr ⟨a, w1, hRun, hNext⟩, hThen⟩

protected theorem map {f : α → β} {then_ : β → Prop} (hx : Gives x w fun a => then_ (f a)) :
    Gives (f <$> x) w then_ := by
  rw [map_eq_pure_bind]
  exact .bind hx fun a _ h => .pure h

theorem imp {good' : α → Prop} (h : Gives x w good) (hGood : ∀ a, good a → good' a) :
    Gives x w good' := by
  obtain ⟨a, w', hRun, ha⟩ := h
  exact ⟨a, w', hRun, hGood a ha⟩

theorem ensures (h : Gives x w good) : Ensures x w fun a _ => good a := by
  obtain ⟨a, w', hRun, hGood⟩ := h
  intro b w'' hOther
  rw [hRun] at hOther
  cases hOther
  exact hGood

theorem modify (f : Workspace → Workspace) : Gives (modify f : Run Unit) w fun _ => True :=
  ⟨(), f w, rfl, trivial⟩

end Gives

/-! ### What stays -/

/-- Models were added after those that were there, and no friendly name changed. -/
structure Grows (w w' : Workspace) : Prop where
  hints : w'.hints = w.hints
  synthetic : ∃ more, w'.synthetic = w.synthetic ++ more

namespace Grows

variable {w w' w'' : Workspace}

theorem refl (w : Workspace) : Grows w w := ⟨rfl, [], by simp⟩

theorem trans (h : Grows w w') (h' : Grows w' w'') : Grows w w'' := by
  obtain ⟨more, hMore⟩ := h.synthetic
  obtain ⟨further, hFurther⟩ := h'.synthetic
  exact ⟨h'.hints.trans h.hints, more ++ further, by rw [hFurther, hMore, List.append_assoc]⟩

theorem mem {m : Model} (h : Grows w w') (hMem : m ∈ w.synthetic) : m ∈ w'.synthetic := by
  obtain ⟨more, hMore⟩ := h.synthetic
  rw [hMore]
  exact List.mem_append_left _ hMem

/-- A name keeps its model. -/
theorem synthetic? {name : String} {m : Model} (h : Grows w w') (hHeld : w.synthetic? name = some m) :
    w'.synthetic? name = some m := by
  obtain ⟨more, hMore⟩ := h.synthetic
  rw [Workspace.synthetic?, hMore, List.find?_append]
  simp [show w.synthetic.find? (·.name == name) = some m from hHeld]

end Grows

theorem Workspace.withReport_grows (w : Workspace) (r : Report) : Grows w (w.withReport r) :=
  ⟨rfl, [], by simp [withReport]⟩

theorem Workspace.nextList_grows (w : Workspace) : Grows w w.nextList.2 :=
  ⟨rfl, [], by simp [nextList]⟩

theorem Workspace.addSynthetic_grows (w : Workspace) (m : Model) : Grows w (w.addSynthetic m).2 := by
  unfold addSynthetic
  split
  · exact .refl w
  · exact ⟨rfl, [m], rfl⟩

/-- After registering a model its name stands for the model that was returned: for
the one that was there, or else for the new one. -/
theorem Workspace.addSynthetic_spec (w : Workspace) (m : Model) :
    (w.addSynthetic m).1 = (w.synthetic? m.name).getD m ∧
      (w.addSynthetic m).2.synthetic? m.name = some (w.addSynthetic m).1 := by
  unfold addSynthetic
  cases hHeld : w.synthetic? m.name with
  | some existing => exact ⟨rfl, hHeld⟩
  | none =>
      refine ⟨rfl, ?_⟩
      rw [synthetic?, List.find?_append]
      simp [show w.synthetic.find? (·.name == m.name) = none from hHeld]

theorem Workspace.mem_addSynthetic {w : Workspace} {m held : Model}
    (h : held ∈ (w.addSynthetic m).2.synthetic) : held ∈ w.synthetic ∨ held = m := by
  unfold addSynthetic at h
  split at h
  · exact Or.inl h
  · simpa using h

theorem kept_grows (w : Workspace) : KeptBySteps (fun _ => True) (Grows w) where
  report w' r h := h.trans (w'.withReport_grows r)
  number w' h := h.trans w'.nextList_grows
  register m w' _ h := h.trans (w'.addSynthetic_grows m)

/-- Entries of a map are resolved as the fields of a model are, and spelled as entries after that. -/
theorem mapEntries_eq (resolve : Resolve) (owner : String) (required : List String)
    (entries : List (String × Schema)) : mapEntries resolve owner required entries =
      resolveVars resolve owner required entries >>= fun vars => pure (vars.map spelledEntry) := by
  induction entries with
  | nil => simp [mapEntries, resolveVars]
  | cons entry rest ih => simp [mapEntries, resolveVars, ih]

/-- An inline object has the model of its name, if there is one, and is resolved otherwise. -/
theorem hoist_ensures {setup : Setup} {resolve : Resolve} {name : String} {s : Schema} {w : Workspace}
    {post : String → Workspace → Prop}
    (hHeld : ∀ held, w.synthetic? name = some held → post held.classname w)
    (hNew : w.synthetic? name = none → Ensures (do
      let m ← modelStep setup resolve name s
      let kept ← modifyGet (·.addSynthetic m)
      return kept.classname) w post) : Ensures (hoist setup resolve name s) w post := by
  refine .bind (P := fun found w' => w = found ∧ w = w') (.get ⟨rfl, rfl⟩) ?_
  rintro _ _ ⟨rfl, rfl⟩
  cases hFound : w.synthetic? name with
  | some held => exact .pure (hHeld held hFound)
  | none => exact hNew hFound

end ClientTypes.Resolution
