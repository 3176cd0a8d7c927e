/-! What a computation can lead to. A computation has a state and may stop with a fault;
a claim about it speaks of the runs that end: of their result and of the state they
leave. -/
namespace ClientTypes

variable {σ ε α β : Type}

/-- If the computation ends from `w`, its result and the state it leaves meet `post`. -/
def Ensures (x : StateT σ (Except ε) α) (w : σ) (post : α → σ → Prop) : Prop :=
  ∀ a w', x w = .ok (a, w') → post a w'

/-- A computation in two steps ends where the second one does, started where the first one ended. -/
theorem bind_eq_ok_iff {x : StateT σ (Except ε) α} {f : α → StateT σ (Except ε) β} {w w' : σ} {b : β} :
    (x >>= f) w = .ok (b, w') ↔ ∃ a w1, x w = .ok (a, w1) ∧ f a w1 = .ok (b, w') := by
  change (x w >>= fun r => f r.1 r.2) = _ ↔ _
  cases x w with
  | error fault => simp [bind, Except.bind]
  | ok result =>
      obtain ⟨a, w1⟩ := result
      refine ⟨fun h => ⟨a, w1, rfl, h⟩, ?_⟩
      rintro ⟨_, _, ⟨⟩, h⟩
      exact h

namespace Ensures

variable {x : StateT σ (Except ε) α} {w : σ} {P : α → σ → Prop} {Q : β → σ → Prop}

theorem imp {P' : α → σ → Prop} (h : Ensures x w P) (hPost : ∀ a w', P a w' → P' a w') :
    Ensures x w P' :=
  fun a w' hRun => hPost a w' (h a w' hRun)

theorem any : Ensures x w fun _ _ => True := fun _ _ _ => trivial

/-- The run itself is one of the runs that end. -/
theorem self : Ensures x w fun a w' => x w = .ok (a, w') := fun _ _ hRun => hRun

protected theorem pure {a : α} (h : P a w) :
    Ensures (pure a : StateT σ (Except ε) α) w P := by
  intro b w' hRun
  cases hRun
  exact h

/-- What the first step ensures, the second one starts from. -/
protected theorem bind {f : α → StateT σ (Except ε) β} (hx : Ensures x w P)
    (hf : ∀ a w', P a w' → Ensures (f a) w' Q) : Ensures (x >>= f) w Q := by
  intro b w' hRun
  obtain ⟨a, w1, hFirst, hNext⟩ := bind_eq_ok_iff.mp hRun
  exact hf a w1 (hx a w1 hFirst) b w' hNext

protected theorem map {f : α → β} (hx : Ensures x w fun a w' => Q (f a) w') :
    Ensures (f <$> x) w Q := by
  rw [map_eq_pure_bind]
  exact .bind hx fun a w' h => .pure h

theorem get {P : σ → σ → Prop} (h : P w w) : Ensures (get : StateT σ (Except ε) σ) w P := by
  intro a w' hRun
  cases hRun
  exact h

theorem modify {f : σ → σ} {P : Unit → σ → Prop} (h : P () (f w)) :
    Ensures (modify f : StateT σ (Except ε) Unit) w P := by
  intro a w' hRun
  cases hRun
  exact h

theorem modifyGet {f : σ → α × σ} (h : P (f w).1 (f w).2) :
    Ensures (modifyGet f : StateT σ (Except ε) α) w P := by
  intro a w' hRun
  have hResult : f w = (a, w') := Except.ok.inj hRun
  rwa [hResult] at h

/-- A step that may stop with a fault and leaves the state alone. -/
theorem lift {y : Except ε α} (h : ∀ a, y = .ok a → P a w) :
    Ensures (liftM y : StateT σ (Except ε) α) w P := by
  intro a w' hRun
  cases y with
  | error fault => cases hRun
  | ok b =>
      cases hRun
      exact h _ rfl

/-- A step that may stop with a fault, and then another one. -/
theorem lift_bind_ok {y : Except ε α} {f : α → StateT σ (Except ε) β}
    (hf : ∀ a, y = .ok a → Ensures (f a) w Q) : Ensures (liftM y >>= f) w Q := by
  have hSame : Ensures (liftM y : StateT σ (Except ε) α) w fun a w' => y = .ok a ∧ w' = w :=
    .lift fun _ ha => ⟨ha, rfl⟩
  refine .bind hSame fun a w' h => ?_
  rw [h.2]
  exact hf a h.1

theorem lift_bind {y : Except ε α} {f : α → StateT σ (Except ε) β} (hf : ∀ a, Ensures (f a) w Q) :
    Ensures (liftM y >>= f) w Q :=
  lift_bind_ok fun a _ => hf a

theorem throw {fault : ε} : Ensures (throw fault : StateT σ (Except ε) α) w P := by
  intro a w' hRun
  cases hRun

/-- What every step keeps, a walk over a list keeps, and what every step gives, each result of the walk
has. -/
theorem mapM_forall {f : α → StateT σ (Except ε) β} {inv : σ → Prop} {given : β → Prop} {as : List α}
    (hf : ∀ a ∈ as, ∀ w, inv w → Ensures (f a) w fun b w' => given b ∧ inv w') (h : inv w) :
    Ensures (as.mapM f) w fun bs w' => (∀ b ∈ bs, given b) ∧ inv w' := by
  induction as generalizing w with
  | nil => exact .pure ⟨by simp, h⟩
  | cons a rest ih =>
      rw [List.mapM_cons]
      rw [List.forall_mem_cons] at hf
      refine .bind (hf.1 w h) fun b _ hFirst => .bind (ih hf.2 hFirst.2) fun bs _ hMore => .pure ?_
      exact ⟨List.forall_mem_cons.mpr ⟨hFirst.1, hMore.1⟩, hMore.2⟩

theorem mapM {f : α → StateT σ (Except ε) β} {inv : σ → Prop}
    (hf : ∀ a w, inv w → Ensures (f a) w fun _ w' => inv w') (as : List α) (h : inv w) :
    Ensures (as.mapM f) w fun _ w' => inv w' := by
  have hGiven : ∀ a ∈ as, ∀ w, inv w → Ensures (f a) w fun _ w' => True ∧ inv w' :=
    fun a _ w hInv => (hf a w hInv).imp fun _ _ hKept => ⟨trivial, hKept⟩
  exact (mapM_forall hGiven h).imp fun _ _ hAll => hAll.2

end Ensures

/-- Two steps that may stop lead to a result only if both do. -/
theorem ok_of_bind {x : Except ε α} {f : α → Except ε β} {b : β} (h : x >>= f = .ok b) :
    ∃ a, x = .ok a ∧ f a = .ok b := by
  cases x with
  | error fault => cases h
  | ok a => exact ⟨a, rfl, h⟩

theorem ok_of_map {x : Except ε α} {f : α → β} {b : β} (h : x.map f = .ok b) :
    ∃ a, x = .ok a ∧ f a = b := by
  cases x with
  | error fault => cases h
  | ok a => exact ⟨a, rfl, Except.ok.inj h⟩

theorem ok_of_toOption {x : Except ε α} {a : α} (h : x.toOption = some a) : x = .ok a := by
  cases x with
  | error fault => cases h
  | ok b =>
      cases h
      rfl

end ClientTypes
