import ClientTypes.Checked
import Mathlib.Data.List.Nodup

/-! Trees of data whose mappings are mappings. A mapping is kept as a list of entries; no key is
there twice, at any depth, in whatever is picked from such a tree or written into it. -/
namespace ClientTypes

/-- No mapping in the tree has a key twice. -/
inductive Value.DistinctKeys : Value → Prop
  | scalar (s : Scalar) : DistinctKeys (.scalar s)
  | list {items : List Value} (hItems : ∀ v ∈ items, DistinctKeys v) : DistinctKeys (.list items)
  | map {entries : List (Scalar × Value)} (hKeys : (entries.map Prod.fst).Nodup)
      (hValues : ∀ e ∈ entries, DistinctKeys e.2) : DistinctKeys (.map entries)
  | knot (number : Nat) {v : Value} (hInner : DistinctKeys v) : DistinctKeys (.knot number v)
  | loop {v : Value} (hInner : DistinctKeys v) : DistinctKeys (.loop v)
  | beyond : DistinctKeys .beyond

/-- The entries of a mapping without a key twice, at any depth. -/
structure DistinctEntries (entries : List (Scalar × Value)) : Prop where
  keys : (entries.map Prod.fst).Nodup
  values : ∀ e ∈ entries, e.2.DistinctKeys

theorem DistinctEntries.map {entries : List (Scalar × Value)} (h : DistinctEntries entries) :
    (Value.map entries).DistinctKeys := .map h.keys h.values

/-! ### Picking from a tree -/

namespace Value.DistinctKeys

variable {v : Value}

theorem opened (h : v.DistinctKeys) : v.opened.DistinctKeys := by
  induction h with
  | knot _ _ ih => exact ih
  | loop _ ih => exact ih
  | scalar s => exact .scalar s
  | list hItems => exact .list hItems
  | map hKeys hValues => exact .map hKeys hValues
  | beyond => exact .beyond

theorem entries {es : List (Scalar × Value)} (h : v.DistinctKeys) (hMap : v.opened = .map es) :
    DistinctEntries es := by
  have hOpened := h.opened
  rw [hMap] at hOpened
  cases hOpened with
  | map hKeys hValues => exact ⟨hKeys, hValues⟩

theorem items {vs : List Value} (h : v.DistinctKeys) (hList : v.opened = .list vs) :
    ∀ item ∈ vs, item.DistinctKeys := by
  have hOpened := h.opened
  rw [hList] at hOpened
  cases hOpened with
  | list hItems => exact hItems

end Value.DistinctKeys

namespace DistinctEntries

variable {entries : List (Scalar × Value)}

theorem nil : DistinctEntries [] := ⟨.nil, by simp⟩

theorem field {name : String} {v : Value} (h : DistinctEntries entries)
    (hField : field? entries name = some v) : v.DistinctKeys := by
  induction entries with
  | nil => cases hField
  | cons entry rest ih =>
      obtain ⟨hFirst, hRest⟩ := List.forall_mem_cons.mp h.values
      unfold field? at hField
      split at hField
      · cases hField
        exact hFirst
      · exact ih ⟨(List.nodup_cons.mp h.keys).2, hRest⟩ hField

theorem fieldOr {name : String} {default : Value} (h : DistinctEntries entries)
    (hDefault : default.DistinctKeys) : ((field? entries name).getD default).DistinctKeys := by
  cases hField : field? entries name with
  | none => exact hDefault
  | some v => exact h.field hField

theorem filter (h : DistinctEntries entries) (p : Scalar × Value → Bool) :
    DistinctEntries (entries.filter p) :=
  ⟨h.keys.sublist (List.filter_sublist.map _), fun e he => h.values e (List.mem_filter.mp he).1⟩

end DistinctEntries

/-! ### Writing into a mapping -/

theorem Scalar.sameKey_self (key : Scalar) : key.sameKey key = true := by simp [Scalar.sameKey]

theorem Scalar.mem_putIn {entries : List (Scalar × Value)} {key : Scalar} {v : Value}
    {e : Scalar × Value} (he : e ∈ Scalar.putIn entries key v) : e ∈ entries ∨ e.2 = v := by
  induction entries with
  | nil => simp_all [Scalar.putIn]
  | cons entry rest ih =>
      unfold Scalar.putIn at he
      split at he
      · rcases List.mem_cons.mp he with rfl | hRest
        · exact Or.inr rfl
        · exact Or.inl (List.mem_cons_of_mem _ hRest)
      · rcases List.mem_cons.mp he with rfl | hRest
        · exact Or.inl List.mem_cons_self
        · exact (ih hRest).imp_left (List.mem_cons_of_mem _)

/-- Writing adds the key at most, and only when no entry has it. -/
theorem Scalar.keys_putIn (entries : List (Scalar × Value)) (key : Scalar) (v : Value) :
    (Scalar.putIn entries key v).map Prod.fst = entries.map Prod.fst ∨
      key ∉ entries.map Prod.fst ∧
        (Scalar.putIn entries key v).map Prod.fst = entries.map Prod.fst ++ [key] := by
  induction entries with
  | nil => exact Or.inr ⟨by simp, rfl⟩
  | cons entry rest ih =>
      unfold Scalar.putIn
      split
      · exact Or.inl rfl
      next hOther =>
        refine ih.imp (fun hSame => by simp [hSame]) fun hNew => ⟨?_, by simp [hNew.2]⟩
        rw [List.map_cons, List.mem_cons, not_or]
        refine ⟨?_, hNew.1⟩
        rintro rfl
        exact hOther (Scalar.sameKey_self _)

theorem DistinctEntries.putIn {entries : List (Scalar × Value)} {v : Value}
    (h : DistinctEntries entries) (key : Scalar) (hv : v.DistinctKeys) :
    DistinctEntries (Scalar.putIn entries key v) := by
  refine ⟨?_, fun e he => ?_⟩
  · rcases Scalar.keys_putIn entries key v with hSame | ⟨hNew, hAdded⟩
    · rw [hSame]
      exact h.keys
    · rw [hAdded, List.nodup_append]
      refine ⟨h.keys, by simp, fun k hk other hOther => ?_⟩
      rw [List.mem_singleton.mp hOther]
      exact ne_of_mem_of_not_mem hk hNew
  · rcases Scalar.mem_putIn he with hOld | hValue
    · exact h.values e hOld
    · exact hValue ▸ hv

end ClientTypes
