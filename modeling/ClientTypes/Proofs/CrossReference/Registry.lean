import ClientTypes.CrossReference.Registry
import ClientTypes.Proofs.Table

/-! Registries keep the first model of each name. -/
namespace ClientTypes.CrossReference.Registry

variable {r : Registry} {m : Model} {ms : List Model} {name : String}

theorem get?_add (r : Registry) (m : Model) (name : String) :
    (r.add m).get? name = (r.get? name).or (if m.name = name then some m else none) := by
  unfold add
  split
  next hTaken =>
    by_cases hName : m.name = name
    · obtain ⟨held, hHeld⟩ := Option.isSome_iff_exists.mp hTaken
      simp [← hName, hHeld]
    · simp [hName]
  next =>
    rw [get?, List.find?_append]
    by_cases hName : m.name = name <;> simp [get?, hName]

/-- Of the models of one name the first stays. -/
theorem get?_addAll (r : Registry) (ms : List Model) (name : String) :
    (r.addAll ms).get? name = (r.get? name).or (ms.find? (·.name == name)) := by
  induction ms generalizing r with
  | nil => simp [addAll]
  | cons m rest ih =>
      change ((r.add m).addAll rest).get? name = _
      rw [ih, get?_add, List.find?_cons, Option.or_assoc]
      by_cases hName : m.name = name
      · simp [hName]
      · simp [hName, beq_eq_false_iff_ne.mpr hName]

theorem mem_addAll (h : m ∈ (r.addAll ms).models) : m ∈ r.models ∨ m ∈ ms := by
  induction ms generalizing r with
  | nil => exact Or.inl h
  | cons first rest ih =>
      rcases ih (r := r.add first) h with hBefore | hLater
      · unfold add at hBefore
        split at hBefore
        · exact Or.inl hBefore
        · rcases List.mem_append.mp hBefore with hOld | hNew
          · exact Or.inl hOld
          · exact Or.inr (List.mem_cons.mpr (Or.inl (List.mem_singleton.mp hNew)))
      · exact Or.inr (List.mem_cons_of_mem _ hLater)

@[simp] theorem crossReferenced_addAll (r : Registry) (ms : List Model) :
    (r.addAll ms).crossReferenced = r.crossReferenced := by
  induction ms generalizing r with
  | nil => rfl
  | cons m rest ih =>
      change ((r.add m).addAll rest).crossReferenced = _
      rw [ih, add]
      split <;> rfl

/-- There is a model of the name of every model that is registered. -/
theorem name_held (h : m ∈ ms) : ∃ held ∈ (r.addAll ms).models, held.name = m.name := by
  have hFound : ((r.addAll ms).get? m.name).isSome = true := by
    have hOwn : (ms.find? (·.name == m.name)).isSome = true := by
      simpa using ⟨m, h, rfl⟩
    rw [get?_addAll, Option.isSome_or, hOwn, Bool.or_true]
  obtain ⟨held, hHeld⟩ := Option.isSome_iff_exists.mp hFound
  exact ⟨held, List.mem_of_find?_eq_some hHeld, by simpa using List.find?_some hHeld⟩

/-- A model that is registered stays. -/
theorem mem_addAll_of_mem (h : m ∈ r.models) : m ∈ (r.addAll ms).models := by
  induction ms generalizing r with
  | nil => exact h
  | cons first rest ih =>
      refine ih (r := r.add first) ?_
      unfold add
      split
      · exact h
      · exact List.mem_append_left _ h

/-! ### Registries as tables -/

/-- The models of a registry by name. -/
def entries (r : Registry) : Table String Model := r.models.map fun m => (m.name, m)

theorem keys_entries (r : Registry) : r.entries.keys = r.models.map (·.name) := by
  simp [entries, Table.keys]

theorem get?_entries (r : Registry) (name : String) : r.entries.get? name = r.get? name := by
  unfold entries get?
  induction r.models with
  | nil => rfl
  | cons m rest ih =>
      by_cases hName : m.name = name
      · simp [Table.get?, hName]
      · simpa [Table.get?, hName] using ih

/-- Registering a model is writing it under a name that has none. -/
theorem entries_add (r : Registry) (m : Model) : (r.add m).entries = r.entries.putNew m.name m := by
  unfold add Table.putNew Table.has
  rw [get?_entries]
  split
  · rfl
  · simp [entries]

theorem entries_addAll (r : Registry) (ms : List Model) :
    (r.addAll ms).entries = r.entries.union (ms.map fun m => (m.name, m)) := by
  induction ms generalizing r with
  | nil => rfl
  | cons m rest ih =>
      change ((r.add m).addAll rest).entries = _
      rw [ih, entries_add]
      rfl

end ClientTypes.CrossReference.Registry
