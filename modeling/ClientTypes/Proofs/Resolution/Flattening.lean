import ClientTypes.Proofs.Resolution.Expansion

/-! Flattening computes the left-biased union of the expansion. The fuel of
references always suffices, because every reference that is followed names a
schema of the table that is not on the path yet. -/
namespace ClientTypes.Resolution

open Naming

variable {schemas : Table String Schema} {visited : List String}

/-- The result of one member of a merge. -/
def flattenMember (follow : String → Flattening) (m : Schema) : Flattening :=
  match m.target? with
  | some r => follow r
  | none => if m.isMerge then mergeAllOf follow m else .merged (ownFields m)

theorem mergeMembers_cons (follow : String → Flattening) (into : Flattened) (m : Schema)
    (rest : List Schema) :
    mergeMembers follow into (m :: rest) =
      mergeMembers follow (into.add (flattenMember follow m)) rest := by
  rw [mergeMembers]
  rfl

theorem mergeAllOf_eq (follow : String → Flattening) (s : Schema) :
    mergeAllOf follow s = ((mergeMembers follow {} s.allOf).add (.merged (ownFields s))).conclude := by
  cases s
  rw [mergeAllOf]
  rfl

theorem followReference_succ (fuel : Nat) (r : String) :
    followReference schemas (fuel + 1) visited r =
      match lead schemas visited r with
      | .error reason => .unresolved reason
      | .ok (name, part) =>
        withBase name (flattenMember (followReference schemas fuel (name :: visited)) part) := by
  rw [followReference]
  rfl

/-! ### Lists without repetition -/

theorem mem_addNew {items : List String} {item other : String} :
    other ∈ addNew items item ↔ other ∈ items ∨ other = item := by
  unfold addNew
  split <;> grind

theorem mem_foldl_addNew {items more : List String} {item : String} :
    item ∈ more.foldl addNew items ↔ item ∈ items ∨ item ∈ more := by
  induction more generalizing items with
  | nil => simp
  | cons first rest ih => rw [List.foldl_cons, ih, mem_addNew, List.mem_cons, or_assoc]

theorem nodup_foldl_addNew {items : List String} (h : items.Nodup) (more : List String) :
    (more.foldl addNew items).Nodup := by
  induction more generalizing items with
  | nil => exact h
  | cons first rest ih =>
      refine ih ?_
      unfold addNew
      split
      · exact h
      next hNew => exact List.nodup_append.mpr ⟨h, by simp, by grind⟩

/-! ### Within one schema tree -/

/-- References are followed as their expansions say. -/
def Follows (schemas : Table String Schema) (visited : List String)
    (follow : String → Flattening) : Prop :=
  ∀ r, ∃ events, Expands schemas visited (.reference r) events ∧ Agrees events (follow r)

theorem sizeOf_allOf_lt (m : Schema) : sizeOf m.allOf < sizeOf m := by
  cases m
  simp only [Schema.mk.sizeOf_spec]
  omega

mutual

theorem flattenMember_agrees {follow : String → Flattening} (hFollow : Follows schemas visited follow)
    (m : Schema) :
    ∃ events, Expands schemas visited (.member m) events ∧ Agrees events (flattenMember follow m) := by
  cases hTarget : m.target? with
  | some r =>
      obtain ⟨events, hExpands, hAgrees⟩ := hFollow r
      exact ⟨events, .reference hTarget hExpands, by simpa [flattenMember, hTarget] using hAgrees⟩
  | none =>
      cases hMerge : m.isMerge with
      | false =>
          refine ⟨_, .fields hTarget hMerge, ?_⟩
          simpa [flattenMember, hTarget, hMerge] using agrees_ownFields m
      | true =>
          obtain ⟨events, hExpands, hCollects⟩ := mergeMembers_collects hFollow m.allOf .empty
          refine ⟨_, .merge hTarget hMerge (.schema hExpands), ?_⟩
          have hAll := (hCollects.add (agrees_ownFields m)).conclude
          simpa [flattenMember, hTarget, hMerge, mergeAllOf_eq] using hAll
termination_by sizeOf m
decreasing_by exact sizeOf_allOf_lt m

theorem mergeMembers_collects {follow : String → Flattening}
    (hFollow : Follows schemas visited follow) (ms : List Schema) {into : Flattened}
    {before : List Event} (h : Collects into before) :
    ∃ events, Expands schemas visited (.members ms) events ∧
      Collects (mergeMembers follow into ms) (before ++ events) := by
  cases ms with
  | nil => exact ⟨[], .nil, by simpa [mergeMembers] using h⟩
  | cons m rest =>
      obtain ⟨first, hFirst, hAgrees⟩ := flattenMember_agrees hFollow m
      obtain ⟨more, hMore, hCollects⟩ := mergeMembers_collects hFollow rest (h.add hAgrees)
      refine ⟨first ++ more, .cons hFirst hMore, ?_⟩
      rw [mergeMembers_cons, ← List.append_assoc]
      exact hCollects
termination_by sizeOf ms

end

/-! ### Across references -/

/-- The entries of the table whose schemas are not on the path. -/
def unvisited (schemas : Table String Schema) (visited : List String) : Table String Schema :=
  schemas.filter fun entry => !visited.contains entry.1

/-- Following a known reference off the path leaves fewer schemas to visit. -/
theorem unvisited_cons_lt {name : String} {whole : Schema} (hFresh : name ∉ visited)
    (hKnown : schemas.get? name = some whole) :
    (unvisited schemas (name :: visited)).length < (unvisited schemas visited).length := by
  have hMem : (name, whole) ∈ unvisited schemas visited := by
    simp [unvisited, Table.mem_of_get? hKnown, hFresh]
  have hSplit : unvisited schemas (name :: visited) =
      (unvisited schemas visited).filter fun entry => entry.1 ≠ name := by
    simp only [unvisited, List.filter_filter]
    congr 1
    funext entry
    by_cases h : entry.1 = name <;> simp [h]
  rw [hSplit]
  exact List.length_filter_lt_length_iff_exists.mpr ⟨_, hMem, by simp⟩

theorem lead_of_fresh {r : String} {whole : Schema} (hFresh : (Pointer.ofReference r).schema ∉ visited)
    (hKnown : schemas.get? (Pointer.ofReference r).schema = some whole) :
    ∃ part, lead schemas visited r = .ok ((Pointer.ofReference r).schema, part) ∧
      IsPart whole (Pointer.ofReference r).path part := by
  refine ⟨((walk whole (Pointer.ofReference r).path).filter (·.hasShape)).getD whole,
    by simp [lead, hFresh, hKnown], ?_⟩
  cases hWalk : walk whole (Pointer.ofReference r).path with
  | none => exact Or.inr (by simp [hWalk])
  | some fragment =>
      cases hShape : fragment.hasShape with
      | true => exact Or.inl (by simp [hWalk, Option.filter, hShape])
      | false => exact Or.inr (by simp [hWalk, Option.filter, hShape])

theorem lead_of_dead {r : String} (hDead : (Pointer.ofReference r).schema ∈ visited ∨
      schemas.get? (Pointer.ofReference r).schema = none) :
    ∃ reason, lead schemas visited r = .error reason := by
  unfold lead
  by_cases hSeen : (Pointer.ofReference r).schema ∈ visited
  · exact ⟨"cyclic reference " ++ r, by simp [hSeen]⟩
  · exact ⟨"unknown schema " ++ (Pointer.ofReference r).schema,
      by simp [hSeen, hDead.resolve_left hSeen]⟩

/-- With fuel for the schemas off the path, a reference gives what its expansion says. -/
theorem followReference_agrees {fuel : Nat}
    (hFuel : (unvisited schemas visited).length < fuel) :
    Follows schemas visited (followReference schemas fuel visited) := by
  induction fuel generalizing visited with
  | zero => omega
  | succ fuel ih =>
      intro r
      rw [followReference_succ]
      by_cases hDead : (Pointer.ofReference r).schema ∈ visited ∨
          schemas.get? (Pointer.ofReference r).schema = none
      · obtain ⟨reason, hLead⟩ := lead_of_dead hDead
        refine ⟨_, .cut hDead, ?_⟩
        rw [hLead]
        exact ⟨rfl, r, by simp⟩
      · obtain ⟨hFresh, hKnown⟩ := not_or.mp hDead
        obtain ⟨whole, hWhole⟩ := Option.ne_none_iff_exists'.mp hKnown
        obtain ⟨part, hLead, hPart⟩ := lead_of_fresh hFresh hWhole
        have hLess : (unvisited schemas ((Pointer.ofReference r).schema :: visited)).length < fuel :=
          Nat.lt_of_lt_of_le (unvisited_cons_lt hFresh hWhole) (Nat.le_of_lt_succ hFuel)
        obtain ⟨events, hExpands, hAgrees⟩ := flattenMember_agrees (ih hLess) part
        refine ⟨events, .follow hFresh hWhole hPart hExpands, ?_⟩
        rw [hLead]
        exact hAgrees.withBase _

/-- A merge that ends well has what was merged. -/
theorem eq_of_conclude {f g : Flattened} (h : f.conclude = .merged g) : g = f := by
  unfold Flattened.conclude at h
  split at h
  · cases h
  · exact (Flattening.merged.inj h).symm

/-- Flattening a schema gives what its expansion under its own name says. -/
theorem flatten_agrees (name : String) (s : Schema) :
    ∃ events, Expands schemas (name :: visited) (.schema s) events ∧
      ∃ f, Collects f events ∧ flatten schemas name s visited = f.conclude := by
  have hFuel : (unvisited schemas (name :: visited)).length < schemas.length + 1 :=
    Nat.lt_succ_of_le (List.length_filter_le ..)
  obtain ⟨events, hExpands, hCollects⟩ :=
    mergeMembers_collects (followReference_agrees hFuel) s.allOf .empty
  exact ⟨_, .schema hExpands, _, hCollects.add (agrees_ownFields s), mergeAllOf_eq ..⟩

/-- A merge has one field for each of its keys. -/
theorem flatten_keys_nodup {name : String} {s : Schema} {f : Flattened}
    (h : flatten schemas name s visited = .merged f) : f.properties.keys.Nodup := by
  obtain ⟨events, _, g, hCollects, hFlatten⟩ := @flatten_agrees schemas visited name s
  rw [hFlatten] at h
  rw [eq_of_conclude h, hCollects.properties]
  exact Table.nodup_keys_union_empty _

/-- Flattening is the left-biased union of the expansion, which exists and is
unique for every table, cyclic ones included. It is unresolved exactly when
nothing is declared and something was cut. Otherwise the keys are the declared
ones in order of first declaration, each with the schema declared first. -/
theorem flatten_eq_union (schemas : Table String Schema) (name : String) (s : Schema)
    (visited : List String) :
    ∃ events, Expands schemas (name :: visited) (.schema s) events ∧
      (∀ other, Expands schemas (name :: visited) (.schema s) other → other = events) ∧
      ((∃ reason, flatten schemas name s visited = .unresolved reason) ↔
        declarations events = [] ∧ ∃ r, Event.cut r ∈ events) ∧
      ∀ f, flatten schemas name s visited = .merged f →
        f.properties.keys = ((declarations events).map Prod.fst).eraseDups ∧
          ∀ key, f.properties.get? key = List.lookup key (declarations events) := by
  obtain ⟨events, hExpands, f, hCollects, hFlatten⟩ :=
    @flatten_agrees schemas visited name s
  have hAgrees := hCollects.conclude
  refine ⟨events, hExpands, fun other hOther => hOther.unique hExpands, ?_, ?_⟩
  · constructor
    · rintro ⟨reason, hReason⟩
      rw [← hFlatten, hReason] at hAgrees
      exact hAgrees
    · intro hBoth
      rw [hFlatten]
      cases hEnd : f.conclude with
      | unresolved reason => exact ⟨reason, rfl⟩
      | merged g =>
          rw [hEnd] at hAgrees
          exact absurd hBoth hAgrees.2.2
  · intro g hMerged
    have hSame : g = f := eq_of_conclude (hFlatten ▸ hMerged)
    rw [hSame, hCollects.properties]
    refine ⟨Table.keys_union_empty _, fun key => ?_⟩
    rw [Table.get?_union]
    rfl

end ClientTypes.Resolution
