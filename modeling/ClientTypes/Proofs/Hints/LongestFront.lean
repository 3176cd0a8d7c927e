import ClientTypes.Proofs.Hints

/-! The longest key that a classname goes on from with a new word. The search goes over the table in order of
registration, but what it finds is described without that order: of all keys that fit there is one longest,
because two keys in front of one classname are the same when they are of one length. -/
namespace ClientTypes.Hints

open Naming Text

/-- The key stands in front of the classname, and an upper case character follows it. -/
def GoesOnFrom (classname key : String) : Prop :=
  ∃ c rest, classname.toList = key.toList ++ c :: rest ∧ isUpperOfScript c = true

theorem isSome_wordsAfter?_iff {key classname : String} :
    (wordsAfter? key classname).isSome = true ↔ GoesOnFrom classname key := by
  simp only [Option.isSome_iff_exists, wordsAfter?, Option.filter_eq_some_iff, dropFront?_eq_some_iff]
  constructor
  · rintro ⟨rest, hSplit, hUpper⟩
    cases hRest : rest.toList with
    | nil => simp [hRest] at hUpper
    | cons c more =>
        rw [hRest] at hSplit hUpper
        exact ⟨c, more, hSplit, hUpper⟩
  · rintro ⟨c, more, hSplit, hUpper⟩
    exact ⟨String.ofList (c :: more), by simpa using hSplit, by simpa using hUpper⟩

/-- Keys of one length that stand in front of one classname are the same. -/
theorem GoesOnFrom.eq_of_length {classname key other : String} (h : GoesOnFrom classname key)
    (h' : GoesOnFrom classname other) (hLength : key.length = other.length) : key = other := by
  obtain ⟨c, rest, hSplit, _⟩ := h
  obtain ⟨d, more, hSplit', _⟩ := h'
  have hSame : key.toList ++ c :: rest = other.toList ++ d :: more := hSplit.symm.trans hSplit'
  rw [← String.length_toList, ← String.length_toList] at hLength
  exact String.toList_inj.mp (List.append_inj hSame hLength).1

/-- The entry is in the table, the classname goes on from its key, and no other key that the classname goes
on from is longer. -/
structure IsLongestFront (entries : Table String String) (classname : String)
    (entry : String × String) : Prop where
  registered : entries.get? entry.1 = some entry.2
  goesOn : GoesOnFrom classname entry.1
  longest : ∀ key ∈ entries.keys, GoesOnFrom classname key → key.length ≤ entry.1.length

variable {entries : Table String String} {classname : String} {entry : String × String}

theorem IsLongestFront.unique {other : String × String} (h : IsLongestFront entries classname entry)
    (h' : IsLongestFront entries classname other) : entry = other := by
  have hLength : entry.1.length = other.1.length :=
    Nat.le_antisymm (h'.longest _ (Table.mem_keys_of_get? h.registered) h.goesOn)
      (h.longest _ (Table.mem_keys_of_get? h'.registered) h'.goesOn)
  have hKey : entry.1 = other.1 := h.goesOn.eq_of_length h'.goesOn hLength
  have hFriendly : entry.2 = other.2 := by
    have hFound := h.registered
    rw [hKey, h'.registered] at hFound
    exact (Option.some.inj hFound).symm
  exact Prod.ext hKey hFriendly

/-! ### The search -/

/-- One step of the search: a longer key that fits takes the place of the one that was found. -/
def betterFront (classname : String) (best : Option (String × String)) (entry : String × String) :
    Option (String × String) :=
  if (wordsAfter? entry.1 classname).isSome then
    match best with
    | some b => if b.1.length < entry.1.length then some entry else best
    | none => some entry
  else best

/-- What is found in a table: nothing if the classname goes on from no key, and the longest front otherwise. -/
inductive FindsFront (entries : Table String String) (classname : String) :
    Option (String × String) → Prop
  | nothing (h : ∀ key ∈ entries.keys, ¬ GoesOnFrom classname key) : FindsFront entries classname none
  | longest {best : String × String} (h : IsLongestFront entries classname best) :
      FindsFront entries classname (some best)

theorem forall_keys_concat {p : String → Prop} :
    (∀ key ∈ Table.keys (entries ++ [entry]), p key) ↔ (∀ key ∈ entries.keys, p key) ∧ p entry.1 := by
  simp [Table.keys, or_imp, forall_and]

/-- An entry that does not fit, or is not longer, is passed over. -/
theorem IsLongestFront.pass {best : String × String} (h : IsLongestFront entries classname best)
    (hShort : GoesOnFrom classname entry.1 → entry.1.length ≤ best.1.length) :
    IsLongestFront (entries ++ [entry]) classname best where
  registered := by simp [Table.get?_append, h.registered]
  goesOn := h.goesOn
  longest := forall_keys_concat.mpr ⟨h.longest, hShort⟩

/-- An entry that is longer than all that fit before it is taken. -/
theorem isLongestFront_take (hGoesOn : GoesOnFrom classname entry.1)
    (hLonger : ∀ key ∈ entries.keys, GoesOnFrom classname key → key.length < entry.1.length) :
    IsLongestFront (entries ++ [entry]) classname entry where
  registered := by
    have hNew : entry.1 ∉ entries.keys := fun hOld => Nat.lt_irrefl _ (hLonger _ hOld hGoesOn)
    rw [Table.get?_append, Table.get?_eq_none_iff.mpr hNew]
    simp [Table.get?]
  goesOn := hGoesOn
  longest := forall_keys_concat.mpr
    ⟨fun key hKey hFits => Nat.le_of_lt (hLonger key hKey hFits), fun _ => Nat.le_refl _⟩

/-- What one step keeps: the entries that the search has seen are those up to the new one. -/
theorem FindsFront.step {best : Option (String × String)} (h : FindsFront entries classname best)
    (entry : String × String) :
    FindsFront (entries ++ [entry]) classname (betterFront classname best entry) := by
  unfold betterFront
  split
  next hFits =>
    rw [isSome_wordsAfter?_iff] at hFits
    cases h with
    | nothing hNone => exact .longest (isLongestFront_take hFits fun key hKey hGoesOn => absurd hGoesOn (hNone key hKey))
    | @longest best hBest =>
        dsimp only
        split
        next hLonger =>
          exact .longest (isLongestFront_take hFits fun key hKey hGoesOn =>
            Nat.lt_of_le_of_lt (hBest.longest key hKey hGoesOn) hLonger)
        next hShort => exact .longest (hBest.pass fun _ => Nat.le_of_not_lt hShort)
  next hFits =>
    rw [isSome_wordsAfter?_iff] at hFits
    cases h with
    | nothing hNone => exact .nothing (forall_keys_concat.mpr ⟨hNone, hFits⟩)
    | longest hBest => exact .longest (hBest.pass fun hGoesOn => absurd hGoesOn hFits)

theorem findsFront_foldl (entries : Table String String) (classname : String) :
    FindsFront entries classname (entries.foldl (betterFront classname) none) := by
  induction entries using List.reverseRecOn with
  | nil => exact .nothing (by simp [Table.keys])
  | append_singleton before entry ih =>
      rw [List.foldl_append]
      exact ih.step entry

theorem longestFront?_finds (h : Hints) (classname : String) :
    FindsFront h.names classname (h.longestFront? classname) := findsFront_foldl h.names classname

theorem longestFront?_eq_some_iff {h : Hints} :
    h.longestFront? classname = some entry ↔ IsLongestFront h.names classname entry := by
  have hFinds := longestFront?_finds h classname
  generalize h.longestFront? classname = found at hFinds
  cases hFinds with
  | nothing hNone =>
      refine iff_of_false nofun fun hFront => ?_
      exact hNone _ (Table.mem_keys_of_get? hFront.registered) hFront.goesOn
  | longest hBest =>
      rw [Option.some.injEq]
      exact ⟨fun hSame => hSame ▸ hBest, hBest.unique⟩

theorem longestFront?_eq_none_iff {h : Hints} :
    h.longestFront? classname = none ↔ ∀ key ∈ h.names.keys, ¬ GoesOnFrom classname key := by
  have hFinds := longestFront?_finds h classname
  generalize h.longestFront? classname = found at hFinds
  cases hFinds with
  | nothing hNone => exact iff_of_true rfl hNone
  | longest hBest =>
      refine iff_of_false nofun fun hNone => ?_
      exact hNone _ (Table.mem_keys_of_get? hBest.registered) hBest.goesOn

/-- What is found is an entry of the table, and the classname goes on from its key. -/
theorem longestFront?_spec {h : Hints} {best : String × String} (hBest : h.longestFront? classname = some best) :
    best ∈ h.names ∧ (wordsAfter? best.1 classname).isSome = true := by
  have hFront := longestFront?_eq_some_iff.mp hBest
  exact ⟨Table.mem_of_get? hFront.registered, isSome_wordsAfter?_iff.mpr hFront.goesOn⟩

/-- When one key alone fits, its entry is found. -/
theorem longestFront?_of_only {h : Hints} {key : String}
    (hOnly : ∀ other ∈ h.names.keys, (wordsAfter? other classname).isSome = true ↔ other = key) :
    h.longestFront? classname = (h.names.get? key).map fun friendly => (key, friendly) := by
  simp only [isSome_wordsAfter?_iff] at hOnly
  cases hGet : h.names.get? key with
  | none =>
      rw [Option.map_none, longestFront?_eq_none_iff]
      intro other hOther hGoesOn
      rw [(hOnly other hOther).mp hGoesOn] at hOther
      exact Table.get?_eq_none_iff.mp hGet hOther
  | some friendly =>
      have hFits : GoesOnFrom classname key := (hOnly key (Table.mem_keys_of_get? hGet)).mpr rfl
      rw [Option.map_some, longestFront?_eq_some_iff]
      refine ⟨hGet, hFits, fun other hOther hGoesOn => ?_⟩
      exact Nat.le_of_eq (congrArg String.length ((hOnly other hOther).mp hGoesOn))

/-! ### Orders of registering -/

/-- Register friendly names one after the other. -/
def registerAll (h : Hints) (hints : List (String × String)) : Hints :=
  hints.foldl (fun h hint => h.register hint.1 hint.2) h

/-- A hint as it is kept. -/
def camelized (hint : String × String) : String × String := (camelize hint.1, camelize hint.2)

theorem names_registerAll {h : Hints} (hOpen : h.frozen = false) (hints : List (String × String)) :
    (h.registerAll hints).names = h.names.union (hints.map camelized) := by
  induction hints generalizing h with
  | nil => rfl
  | cons hint rest ih =>
      have hStep : h.register hint.1 hint.2 =
          { h with names := h.names.putNew (camelize hint.1) (camelize hint.2) } := by
        simp [register, hOpen]
      change ((h.register hint.1 hint.2).registerAll rest).names = _
      rw [hStep]
      exact ih hOpen

theorem registerAll_of_frozen {h : Hints} (hFrozen : h.frozen = true) (hints : List (String × String)) :
    h.registerAll hints = h := by
  induction hints with
  | nil => rfl
  | cons hint rest ih =>
      change (h.register hint.1 hint.2).registerAll rest = h
      rw [register, if_pos hFrozen, ih]

theorem get?_registerAll_perm (h : Hints) {hints hints' : List (String × String)} (hPerm : hints.Perm hints')
    (hKeys : (hints.map fun hint => camelize hint.1).Nodup) (key : String) :
    (h.registerAll hints).names.get? key = (h.registerAll hints').names.get? key := by
  cases hOpen : h.frozen with
  | true => rw [registerAll_of_frozen hOpen, registerAll_of_frozen hOpen]
  | false =>
      have hPairs : (Table.keys (hints.map camelized)).Nodup := by
        rw [Table.keys, List.map_map]
        exact hKeys
      rw [names_registerAll hOpen, names_registerAll hOpen, Table.get?_union, Table.get?_union,
        ← Table.get?_eq_lookup, ← Table.get?_eq_lookup, Table.get?_perm (hPerm.map camelized) hPairs]

/-- What is found depends on the names of the keys only, and not on their order. -/
theorem longestFront?_congr {h h' : Hints} (hSame : ∀ key, h.names.get? key = h'.names.get? key)
    (classname : String) : h.longestFront? classname = h'.longestFront? classname := by
  have hKeys (key : String) : key ∈ h.names.keys ↔ key ∈ h'.names.keys := by
    rw [← not_iff_not, ← Table.get?_eq_none_iff, ← Table.get?_eq_none_iff, hSame]
  apply Option.ext
  intro entry
  rw [longestFront?_eq_some_iff, longestFront?_eq_some_iff]
  constructor
  · rintro ⟨hFound, hGoesOn, hLongest⟩
    exact ⟨hSame _ ▸ hFound, hGoesOn, fun key hKey => hLongest key ((hKeys key).mpr hKey)⟩
  · rintro ⟨hFound, hGoesOn, hLongest⟩
    exact ⟨hSame _ ▸ hFound, hGoesOn, fun key hKey => hLongest key ((hKeys key).mp hKey)⟩

/-- What is found for a classname is the entry of the longest key that stands in front of it with an upper case
character behind, and nothing only if there is no such key. Hints for distinct placeholders may be registered
in any order. -/
theorem longest_front_found (h : Hints) (classname : String) :
    (∀ entry, h.longestFront? classname = some entry ↔ IsLongestFront h.names classname entry) ∧
    (h.longestFront? classname = none ↔ ∀ key ∈ h.names.keys, ¬ GoesOnFrom classname key) ∧
    ∀ hints hints' : List (String × String), hints.Perm hints' →
      (hints.map fun hint => camelize hint.1).Nodup →
      (h.registerAll hints).longestFront? classname = (h.registerAll hints').longestFront? classname :=
  ⟨fun _ => longestFront?_eq_some_iff, longestFront?_eq_none_iff, fun _ _ hPerm hKeys =>
    longestFront?_congr (get?_registerAll_perm h hPerm hKeys) classname⟩

/-- Of nested keys the longest is found, whether it is registered first or last. -/
theorem longest_front_found_nested :
    let hints := [("body_1 item", "entry"), ("body", "thing"), ("body_1", "create_thing")]
    let hints' := [("body_1", "create_thing"), ("body", "thing"), ("body_1 item", "entry")]
    hints.Perm hints' ∧ (hints.map fun hint => camelize hint.1).Nodup ∧
      (registerAll {} hints).longestFront? "Body1ItemTag" = some ("Body1Item", "Entry") ∧
      (registerAll {} hints').longestFront? "Body1ItemTag" = some ("Body1Item", "Entry") := by
  intro hints hints'
  have hPerm : hints.Perm hints' := by decide
  have hKeys : (hints.map fun hint => camelize hint.1).Nodup := by decide +kernel
  have hFound : (registerAll {} hints).longestFront? "Body1ItemTag" = some ("Body1Item", "Entry") := by
    decide +kernel
  obtain ⟨_, _, hOrders⟩ := longest_front_found {} "Body1ItemTag"
  exact ⟨hPerm, hKeys, hFound, hOrders hints hints' hPerm hKeys ▸ hFound⟩

end ClientTypes.Hints
