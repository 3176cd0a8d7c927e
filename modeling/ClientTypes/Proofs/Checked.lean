import ClientTypes.Checked

/-! What a check that passed says about its parts. -/
namespace ClientTypes.Checked

variable {α β ε : Type}

@[simp] theorem map_valid (f : α → β) (a : α) : f <$> Checked.valid a = .valid (f a) := rfl

@[simp] theorem seq_valid (f : α → β) (a : α) : Checked.valid f <*> .valid a = .valid (f a) := rfl

@[simp] theorem inside_valid (step : Step) (a : α) : (Checked.valid a).inside step = .valid a := rfl

theorem valid_of_map {f : α → β} {c : Checked α} {b : β} (h : f <$> c = .valid b) :
    ∃ a, c = .valid a ∧ b = f a := by
  cases c with
  | valid a =>
      cases h
      exact ⟨a, rfl, rfl⟩
  | invalid issues => cases h

theorem valid_of_seq {cf : Checked (α → β)} {c : Checked α} {b : β} (h : cf <*> c = .valid b) :
    ∃ f a, cf = .valid f ∧ c = .valid a ∧ b = f a := by
  cases cf with
  | valid f =>
      cases c with
      | valid a =>
          cases h
          exact ⟨f, a, rfl, rfl, rfl⟩
      | invalid issues => cases h
  | invalid issues => cases c <;> cases h

theorem valid_of_inside {step : Step} {c : Checked α} {a : α} (h : c.inside step = .valid a) :
    c = .valid a := by
  cases c with
  | valid b => exact h
  | invalid issues => cases h

theorem valid_of_orThrow {fault : List Issue → ε} {c : Checked α} {a : α}
    (h : c.orThrow fault = .ok a) : c = .valid a := by
  cases c with
  | valid b =>
      cases h
      rfl
  | invalid issues => cases h

theorem textKey_eq_valid {k : Scalar} {s : String} : textKey k = .valid s ↔ k = .text s := by
  cases k with
  | text t => simp [textKey]
  | _ => simp [textKey, refuse, inside]

end ClientTypes.Checked
