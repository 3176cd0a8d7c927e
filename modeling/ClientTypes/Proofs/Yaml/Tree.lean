import ClientTypes.Yaml.Reader
import ClientTypes.Proofs.Ensures
import ClientTypes.Proofs.Value.DistinctKeys

/-! The values of YAML texts. A mapping is filled entry by entry, and a key that is there takes
the new value, so no mapping that is read has a key twice; what a name repeats was read before. -/
namespace ClientTypes.Yaml

/-- What the names stand for has no key twice. -/
def DistinctMeanings (meanings : Meanings) : Prop := ∀ e ∈ meanings, e.2.DistinctKeys

variable {around : Meanings} {b : Building}

theorem DistinctMeanings.lookup {meanings : Meanings} (h : DistinctMeanings meanings) {name : String}
    {v : Value} (hFound : meanings.lookup name = some v) : v.DistinctKeys := by
  induction meanings with
  | nil => cases hFound
  | cons entry rest ih =>
      unfold DistinctMeanings at h
      rw [List.forall_mem_cons] at h
      rw [List.lookup_cons] at hFound
      split at hFound
      · cases hFound
        exact h.1
      · exact ih h.2 hFound

theorem DistinctMeanings.define (h : DistinctMeanings b.meanings) (name : String) {v : Value}
    (hv : v.DistinctKeys) : DistinctMeanings (b.define name v).meanings :=
  List.forall_mem_cons.mpr ⟨hv, h⟩

/-- A value, with what names stand for after it was built. -/
structure DistinctBuilt (result : Value × Building) : Prop where
  value : result.1.DistinctKeys
  meanings : DistinctMeanings result.2.meanings

theorem close_distinct (h : DistinctMeanings b.meanings) {v : Value} (hv : v.DistinctKeys) :
    DistinctBuilt (b.close v) := by
  refine ⟨?_, h⟩
  unfold Building.close
  dsimp only
  split
  · exact .knot _ hv
  · exact hv

theorem recall_distinct (h : DistinctMeanings b.meanings) (name : String) :
    DistinctBuilt (b.recall name) := by
  unfold Building.recall
  split
  · exact ⟨.scalar _, h⟩
  next v hFound => exact ⟨h.lookup hFound, h⟩
  next v hFound => exact ⟨h.lookup hFound, h⟩

theorem valueOrNull_distinct (s : Except Fault Scalar) : (valueOrNull s).DistinctKeys := by
  unfold valueOrNull
  split <;> exact .scalar _

mutual

theorem build_distinct (hAround : DistinctMeanings around) {b : Building}
    (h : DistinctMeanings b.meanings) (node : Node) : DistinctBuilt (node.build around b) := by
  cases node with
  | plain s => exact ⟨valueOrNull_distinct _, h⟩
  | text s => exact ⟨.scalar _, h⟩
  | again name => exact recall_distinct h name
  | list items =>
      obtain ⟨hItems, hAfter⟩ := buildItems_distinct hAround h items
      rw [Node.build]
      exact close_distinct hAfter (.list hItems)
  | map entries =>
      obtain ⟨hEntries, hAfter⟩ := buildEntries_distinct hAround h .nil entries
      rw [Node.build]
      exact close_distinct hAfter hEntries.map
  | named name node =>
      have hLoop : (Value.loop ((around.lookup name).getD .beyond)).DistinctKeys := by
        cases hFound : around.lookup name with
        | none => exact .loop .beyond
        | some v => exact .loop (hAround.lookup hFound)
      have hInner := build_distinct hAround (h.define name hLoop) node
      by_cases hSign : node = .plain "="
      · rw [hSign, Node.build]
        exact ⟨.scalar _, h.define name (.scalar _)⟩
      · rw [Node.build]
        · exact ⟨hInner.value, hInner.meanings.define name hInner.value⟩
        · exact hSign
termination_by sizeOf node

theorem buildItems_distinct (hAround : DistinctMeanings around) {b : Building}
    (h : DistinctMeanings b.meanings) (items : List Node) :
    (∀ v ∈ (buildItems around b items).1, v.DistinctKeys) ∧
      DistinctMeanings (buildItems around b items).2.meanings := by
  cases items with
  | nil => exact ⟨by simp [buildItems], h⟩
  | cons n rest =>
      have hFirst := build_distinct hAround h n
      obtain ⟨hMore, hAfter⟩ := buildItems_distinct hAround hFirst.meanings rest
      rw [buildItems]
      exact ⟨List.forall_mem_cons.mpr ⟨hFirst.value, hMore⟩, hAfter⟩
termination_by sizeOf items

theorem buildEntries_distinct (hAround : DistinctMeanings around) {b : Building}
    (h : DistinctMeanings b.meanings) {read : List (Scalar × Value)} (hRead : DistinctEntries read)
    (entries : List (Node × Node)) :
    DistinctEntries (buildEntries around b read entries).1 ∧
      DistinctMeanings (buildEntries around b read entries).2.meanings := by
  cases entries with
  | nil => exact ⟨by simpa [buildEntries] using hRead, h⟩
  | cons entry rest =>
      obtain ⟨k, v⟩ := entry
      by_cases hSign : k = .plain "="
      · have hValue := build_distinct hAround h v
        rw [hSign, buildEntries]
        exact buildEntries_distinct hAround hValue.meanings (hRead.putIn _ hValue.value) rest
      · have hKey := build_distinct hAround h k
        have hValue := build_distinct hAround hKey.meanings v
        rw [buildEntries]
        · exact buildEntries_distinct hAround hValue.meanings (hRead.putIn _ hValue.value) rest
        · exact hSign
termination_by sizeOf entries

end

theorem meanings_distinct (node : Node) (rounds : Nat) : DistinctMeanings (node.meanings rounds) := by
  induction rounds with
  | zero => simp [Node.meanings, DistinctMeanings]
  | succ rounds ih =>
      rw [Node.meanings]
      exact (build_distinct ih (by simp [DistinctMeanings]) node).meanings

theorem toValue_distinct {node : Node} {v : Value} (h : node.toValue = .ok v) : v.DistinctKeys := by
  have hNone : DistinctMeanings ({} : Building).meanings := by simp [DistinctMeanings]
  obtain ⟨_, _, h⟩ := ok_of_bind h
  dsimp only at h
  split at h
  · cases h
    exact (build_distinct hNone hNone node).value
  · cases h
    exact (build_distinct (meanings_distinct node _) hNone node).value

/-- No mapping in the value of a text has a key twice. -/
theorem parse_distinct {text : String} {v : Value} (h : parse text = .ok v) : v.DistinctKeys := by
  obtain ⟨node, _, hValue⟩ := ok_of_bind h
  exact toValue_distinct hValue

end ClientTypes.Yaml
