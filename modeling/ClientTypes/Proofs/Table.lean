import ClientTypes.Table
import Mathlib.Data.List.Induction
import Mathlib.Data.List.Nodup

/-! Laws of tables: what writing does to look-up and to the order of keys. A
table filled with `putNew` is the left-biased union of what was written. -/
namespace ClientTypes.Table

variable {κ α : Type} [DecidableEq κ]

theorem get?_eq_lookup (t : Table κ α) (key : κ) : t.get? key = List.lookup key t := by
  induction t with
  | nil => rfl
  | cons entry rest ih =>
      obtain ⟨k, v⟩ := entry
      by_cases hk : k = key
      · simp [get?, hk]
      · simp [get?, List.lookup_cons, hk, beq_eq_false_iff_ne.mpr (Ne.symm hk), ih]

theorem get?_append (t more : Table κ α) (key : κ) :
    get? (t ++ more) key = (t.get? key).or (more.get? key) := by
  simp only [get?_eq_lookup, List.lookup_append]

theorem get?_eq_none_iff {t : Table κ α} {key : κ} : t.get? key = none ↔ key ∉ t.keys := by
  induction t with
  | nil => simp [get?, keys]
  | cons entry rest ih =>
      obtain ⟨k, v⟩ := entry
      by_cases hk : k = key
      · simp [get?, keys, hk]
      · have hRest : get? rest key = none ↔ key ∉ List.map Prod.fst rest := ih
        simp [get?, keys, hk, Ne.symm hk, hRest]

theorem has_iff_mem_keys {t : Table κ α} {key : κ} : t.has key = true ↔ key ∈ t.keys := by
  have hNone := @get?_eq_none_iff _ _ _ t key
  cases hGet : t.get? key <;> simp_all [has]

theorem mem_of_get? {t : Table κ α} {key : κ} {value : α} (h : t.get? key = some value) :
    (key, value) ∈ t := by
  rw [get?_eq_lookup] at h
  obtain ⟨before, after, hSplit, _⟩ := List.lookup_eq_some_iff.mp h
  simp [hSplit]

theorem mem_keys_of_get? {t : Table κ α} {key : κ} {value : α} (h : t.get? key = some value) :
    key ∈ t.keys := List.mem_map_of_mem (mem_of_get? h)

/-- With distinct keys, look-up finds exactly the pairs that are written. -/
theorem get?_eq_some_iff {t : Table κ α} (hKeys : t.keys.Nodup) {key : κ} {value : α} :
    t.get? key = some value ↔ (key, value) ∈ t := by
  refine ⟨mem_of_get?, ?_⟩
  induction t with
  | nil => simp
  | cons entry rest ih =>
      obtain ⟨k, v⟩ := entry
      have hDistinct : k ∉ keys rest ∧ (keys rest).Nodup := List.nodup_cons.mp hKeys
      intro hMem
      rcases List.mem_cons.mp hMem with hHead | hTail
      · cases hHead
        simp [get?]
      · have hOther : k ≠ key := by
          rintro rfl
          exact hDistinct.1 (List.mem_map.mpr ⟨_, hTail, rfl⟩)
        simp [get?, hOther, ih hDistinct.2 hTail]

/-- Pairs of distinct keys are found in every order. -/
theorem get?_perm {t t' : Table κ α} (hPerm : t.Perm t') (hKeys : t.keys.Nodup) (key : κ) :
    t.get? key = t'.get? key := by
  have hKeys' : t'.keys.Nodup := (hPerm.map Prod.fst).nodup_iff.mp hKeys
  apply Option.ext
  intro value
  rw [get?_eq_some_iff hKeys, get?_eq_some_iff hKeys', hPerm.mem_iff]

/-- A new key is written at the end. -/
theorem put_eq_append {t : Table κ α} {key : κ} (h : key ∉ t.keys) (value : α) :
    t.put key value = t ++ [(key, value)] := by
  induction t with
  | nil => rfl
  | cons entry rest ih =>
      obtain ⟨k, v⟩ := entry
      have hParts : key ≠ k ∧ key ∉ keys rest := by simpa [keys] using h
      simp [put, hParts.1.symm, ih hParts.2]

theorem get?_map_values {β : Type} (t : Table κ α) (f : α → β) (key : κ) :
    get? (t.map fun entry => (entry.1, f entry.2)) key = (t.get? key).map f := by
  induction t with
  | nil => rfl
  | cons entry rest ih =>
      by_cases hKey : entry.1 = key
      · simp [get?, hKey]
      · simpa [get?, hKey] using ih

theorem get?_map_keys (keys : List κ) (f : κ → α) (key : κ) :
    get? (keys.map fun k => (k, f k)) key = if key ∈ keys then some (f key) else none := by
  induction keys with
  | nil => rfl
  | cons k rest ih =>
      by_cases hk : k = key
      · simp [get?, hk]
      · simp [get?, hk, Ne.symm hk, ih]

/-- Writing into a table that is filled by key: one value changes, and a new key is the last one. -/
theorem put_map_keys {keys : List κ} (hKeys : keys.Nodup) (f : κ → α) (key : κ) (value : α) :
    put (keys.map fun k => (k, f k)) key value =
      (if key ∈ keys then keys else keys ++ [key]).map fun k => (k, if k = key then value else f k) := by
  induction keys with
  | nil => simp [put]
  | cons k rest ih =>
      obtain ⟨hNew, hRest⟩ := List.nodup_cons.mp hKeys
      by_cases hk : k = key
      · subst hk
        have hSame : ∀ e ∈ rest, (if e = k then value else f e) = f e :=
          fun e he => if_neg (ne_of_mem_of_not_mem he hNew)
        simp +contextual [put, hSame]
      · rw [List.map_cons, put, if_neg hk, ih hRest]
        by_cases hMem : key ∈ rest <;> simp [hMem, hk, Ne.symm hk]

theorem get?_put (t : Table κ α) (key other : κ) (value : α) :
    (t.put key value).get? other = if other = key then some value else t.get? other := by
  induction t with
  | nil => simp [put, get?, eq_comm]
  | cons entry rest ih =>
      obtain ⟨k, v⟩ := entry
      by_cases hk : k = key
      · subst hk
        by_cases h : k = other
        · simp [put, get?, h]
        · simp [put, get?, h, Ne.symm h]
      · by_cases h : other = key
        · subst h
          simp [put, get?, hk, ih]
        · simp [put, get?, hk, ih, h]

theorem get?_putNew (t : Table κ α) (key other : κ) (value : α) :
    (t.putNew key value).get? other =
      if other = key then some ((t.get? key).getD value) else t.get? other := by
  unfold putNew has
  cases hGet : t.get? key with
  | some found => by_cases h : other = key <;> simp [h, hGet]
  | none =>
      by_cases h : other = key
      · simp [h, get?_append, hGet, get?]
      · simp [h, Ne.symm h, get?_append, get?]

theorem keys_putNew (t : Table κ α) (key : κ) (value : α) :
    (t.putNew key value).keys = if key ∈ t.keys then t.keys else t.keys ++ [key] := by
  by_cases h : key ∈ t.keys
  · simp [putNew, has_iff_mem_keys.mpr h, h]
  · have hFree : t.has key = false := by
      rw [← Bool.not_eq_true, has_iff_mem_keys]
      exact h
    rw [if_neg h]
    simp [putNew, hFree, keys]

theorem nodup_keys_putNew {t : Table κ α} (h : t.keys.Nodup) (key : κ) (value : α) :
    (t.putNew key value).keys.Nodup := by
  rw [keys_putNew]
  split
  next => exact h
  next hNew =>
    rw [List.nodup_append]
    refine ⟨h, by simp, fun a ha b hb => ?_⟩
    rw [List.mem_singleton.mp hb]
    exact ne_of_mem_of_not_mem ha hNew

/-! ### Lists without duplicates -/

theorem eraseDups_concat (l : List κ) (key : κ) :
    (l ++ [key]).eraseDups = if key ∈ l then l.eraseDups else l.eraseDups ++ [key] := by
  rw [List.eraseDups_append]
  split
  next hOld => simp [List.removeAll, hOld]
  next hNew => simp [List.removeAll, hNew, List.eraseDups_cons]

/-- What is left without duplicates stands in order of first appearance. -/
theorem pairwise_idxOf_eraseDups (l : List κ) :
    l.eraseDups.Pairwise fun a b => l.idxOf a < l.idxOf b := by
  induction l using List.reverseRecOn with
  | nil => simp
  | append_singleton before key ih =>
      have hBefore : before.eraseDups.Pairwise
          fun a b => (before ++ [key]).idxOf a < (before ++ [key]).idxOf b := by
        refine ih.imp_of_mem fun {a b} ha hb hLess => ?_
        rw [List.mem_eraseDups] at ha hb
        rwa [List.idxOf_append_of_mem ha, List.idxOf_append_of_mem hb]
      rw [eraseDups_concat]
      split
      next => exact hBefore
      next hNew =>
        rw [List.pairwise_append]
        refine ⟨hBefore, List.pairwise_singleton .., fun a ha b hb => ?_⟩
        rw [List.mem_eraseDups] at ha
        rw [List.mem_singleton.mp hb, List.idxOf_append_of_mem ha, List.idxOf_append_of_notMem hNew]
        have := List.idxOf_lt_length_of_mem ha
        omega

theorem nodup_eraseDups (l : List κ) : l.eraseDups.Nodup :=
  (pairwise_idxOf_eraseDups l).imp fun hLess hSame => by simp [hSame] at hLess

/-! ### Left-biased union -/

/-- Write pairs in order; of the pairs of one key the first stays. -/
def union (t : Table κ α) (more : List (κ × α)) : Table κ α :=
  more.foldl (fun acc entry => acc.putNew entry.1 entry.2) t

@[simp] theorem union_nil (t : Table κ α) : t.union [] = t := rfl

theorem union_append (t : Table κ α) (more rest : List (κ × α)) :
    t.union (more ++ rest) = (t.union more).union rest :=
  List.foldl_append

/-- A union has no other pairs than those it is made of. -/
theorem mem_union {t : Table κ α} {more : List (κ × α)} {entry : κ × α} (h : entry ∈ t.union more) :
    entry ∈ t ∨ entry ∈ more := by
  induction more generalizing t with
  | nil => exact Or.inl h
  | cons first rest ih =>
      rcases ih (t := t.putNew first.1 first.2) h with hWritten | hRest
      · unfold putNew at hWritten
        split at hWritten
        · exact Or.inl hWritten
        · rcases List.mem_append.mp hWritten with hOld | hNew
          · exact Or.inl hOld
          · exact Or.inr (List.mem_cons.mpr (Or.inl (List.mem_singleton.mp hNew)))
      · exact Or.inr (List.mem_cons_of_mem _ hRest)

theorem nodup_keys_union {t : Table κ α} (h : t.keys.Nodup) (more : List (κ × α)) :
    (t.union more).keys.Nodup := by
  induction more generalizing t with
  | nil => exact h
  | cons entry rest ih => exact ih (nodup_keys_putNew h entry.1 entry.2)

theorem nodup_keys_union_empty (more : List (κ × α)) : (keys (union ([] : Table κ α) more)).Nodup :=
  nodup_keys_union (by simp [keys]) more

/-- Pairs of distinct keys are all kept. -/
theorem union_empty_of_nodup {more : List (κ × α)} (h : (more.map Prod.fst).Nodup) :
    union ([] : Table κ α) more = more := by
  induction more using List.reverseRecOn with
  | nil => rfl
  | append_singleton before entry ih =>
      rw [List.map_append, List.nodup_append] at h
      obtain ⟨hBefore, _, hApart⟩ := h
      have hNew : ¬ has before entry.1 = true := by
        rw [has_iff_mem_keys]
        exact fun hMem => hApart _ hMem _ (by simp) rfl
      rw [union_append, ih hBefore]
      change putNew before entry.1 entry.2 = _
      rw [putNew, if_neg hNew]

theorem get?_union (t : Table κ α) (more : List (κ × α)) (key : κ) :
    (t.union more).get? key = (t.get? key).or (List.lookup key more) := by
  induction more generalizing t with
  | nil => simp
  | cons entry rest ih =>
      change (union (t.putNew entry.1 entry.2) rest).get? key = _
      rw [ih, get?_putNew, List.lookup_cons]
      by_cases h : key = entry.1
      · cases hGet : t.get? key <;> simp_all
      · simp [h, beq_eq_false_iff_ne.mpr h]

/-- The keys of a union are those of its first table and then the new ones, in
order of first writing. -/
theorem keys_union (t : Table κ α) (more : List (κ × α)) :
    (t.union more).keys = t.keys ++ ((more.map Prod.fst).removeAll t.keys).eraseDups := by
  induction more using List.reverseRecOn with
  | nil => simp [List.removeAll]
  | append_singleton before entry ih =>
      rw [union_append]
      change ((t.union before).putNew entry.1 entry.2).keys = _
      rw [keys_putNew, ih]
      by_cases hOld : entry.1 ∈ t.keys
      · simp [List.removeAll, hOld]
      · by_cases hSeen : entry.1 ∈ before.map Prod.fst
        · simp_all [List.removeAll, List.eraseDups_append]
        · simp_all [List.removeAll, List.eraseDups_append, List.eraseDups_cons]

theorem keys_union_empty (more : List (κ × α)) :
    keys (union ([] : Table κ α) more) = (more.map Prod.fst).eraseDups := by
  rw [keys_union]
  simp [keys, List.removeAll]

/-- Writing pairs again that lost to an earlier pair of their key changes nothing. -/
theorem union_union_empty (t : Table κ α) (more : List (κ × α)) :
    t.union (union ([] : Table κ α) more) = t.union more := by
  induction more using List.reverseRecOn with
  | nil => rfl
  | append_singleton before entry ih =>
      have hStep (start : Table κ α) :
          start.union (before ++ [entry]) = (start.union before).putNew entry.1 entry.2 := by
        rw [union_append]
        rfl
      have hKey : entry.1 ∈ keys (union ([] : Table κ α) before) ↔ entry.1 ∈ before.map Prod.fst := by
        rw [keys_union_empty, List.mem_eraseDups]
      rw [hStep, hStep]
      by_cases hSeen : entry.1 ∈ before.map Prod.fst
      · have hKept : entry.1 ∈ (t.union before).keys := by
          rw [keys_union, List.mem_append, List.mem_eraseDups]
          by_cases hOld : entry.1 ∈ t.keys
          · exact Or.inl hOld
          · exact Or.inr (by simp_all [List.removeAll])
        rw [putNew, if_pos (has_iff_mem_keys.mpr (hKey.mpr hSeen)), putNew,
          if_pos (has_iff_mem_keys.mpr hKept), ih]
      · rw [putNew, if_neg (mt has_iff_mem_keys.mp (mt hKey.mp hSeen)), union_append, ih]
        rfl

end ClientTypes.Table
