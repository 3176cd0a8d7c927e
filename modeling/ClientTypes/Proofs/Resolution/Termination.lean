import ClientTypes.Proofs.Resolution.Steady

/-! Resolving ends on tables that do not include themselves without end. A merge that stands inside a
schema is resolved with fields of other schemas, so resolving leaves the tree. It ends where the
schemas have ranks that go down there: the measure of a node is its size, and the sizes of all
schemas that rank below the one that it stands in. -/
namespace ClientTypes.Resolution

/-- Every merge that stands inside a schema of the table draws only on schemas that rank below that
schema. Nothing is asked of references outside of merges, or of the schemas' own merges. -/
def Ranked (schemas : Table String Schema) (rank : String → Nat) : Prop :=
  ∀ host whole, schemas.get? host = some whole → ∀ n, Inside whole n → n.isMerge = true →
    ∀ m ∈ n.allOf, ∀ name, Draws schemas m name → rank name < rank host

/-- The sizes of all schemas that rank below a bound. -/
def weight (schemas : Table String Schema) (rank : String → Nat) (bound : Nat) : Nat :=
  Schema.sizeOfProperties (schemas.filter fun entry => rank entry.1 < bound)

/-- A schema is covered by fuel: it stands inside a schema of the table, and there is fuel for
everything that it can lead to. Items that are not described are covered by any fuel. -/
inductive Covered (schemas : Table String Schema) (rank : String → Nat) (fuel : Nat) :
    Schema → Prop where
  | undescribed (hFuel : 0 < fuel) : Covered schemas rank fuel {}
  | inside {host : String} {whole n : Schema} (hKnown : schemas.get? host = some whole)
      (hInside : Inside whole n) (hRoom : n.size + weight schemas rank (rank host) < fuel) :
      Covered schemas rank fuel n

section Weight

variable {schemas : Table String Schema} {rank : String → Nat}

theorem sizeOfProperties_filter (p : String × Schema → Bool) (entries : List (String × Schema)) :
    Schema.sizeOfProperties (entries.filter p) +
      Schema.sizeOfProperties (entries.filter fun entry => !p entry) =
        Schema.sizeOfProperties entries := by
  induction entries with
  | nil => rfl
  | cons entry rest ih =>
      cases hp : p entry
      all_goals
        simp only [List.filter_cons, hp, Schema.sizeOfProperties, Bool.not_true, Bool.not_false,
          if_true, Bool.false_eq_true, if_false]
        omega

/-- An entry that is filtered out makes a list larger by its size. -/
theorem sizeOfProperties_filter_add_le {p : String × Schema → Bool}
    {entries : List (String × Schema)} {entry : String × Schema} (hMem : entry ∈ entries)
    (hOut : p entry = false) :
    Schema.sizeOfProperties (entries.filter p) + entry.2.size ≤ Schema.sizeOfProperties entries := by
  have hSplit := sizeOfProperties_filter p entries
  have hOther : entry ∈ entries.filter fun e => !p e := List.mem_filter.mpr ⟨hMem, by simp [hOut]⟩
  have hSize := size_le_sizeOfProperties hOther
  omega

variable {host : String} {whole : Schema} (hKnown : schemas.get? host = some whole)

include hKnown

theorem weight_add_size_le_total :
    weight schemas rank (rank host) + whole.size ≤ Schema.sizeOfProperties schemas :=
  sizeOfProperties_filter_add_le (Table.mem_of_get? hKnown) (by simp)

/-- A schema that ranks below a bound, and everything below it, counts for the bound. -/
theorem weight_add_size_le {bound : Nat} (hRank : rank host < bound) :
    weight schemas rank (rank host) + whole.size ≤ weight schemas rank bound := by
  have hBelow : schemas.filter (fun entry => rank entry.1 < rank host) =
      (schemas.filter fun entry => rank entry.1 < bound).filter
        fun entry => rank entry.1 < rank host := by
    rw [List.filter_filter]
    refine List.filter_congr fun entry _ => ?_
    have : rank entry.1 < rank host → rank entry.1 < bound := fun h => by omega
    simpa using this
  unfold weight
  rw [hBelow]
  exact sizeOfProperties_filter_add_le
    (List.mem_filter.mpr ⟨Table.mem_of_get? hKnown, by simpa using hRank⟩) (by simp)

end Weight

section Properties

variable {setup : Setup} {rank : String → Nat} {fuel : Nat}

theorem Covered.pos {s : Schema} (h : Covered setup.schemas rank fuel s) : 0 < fuel := by
  cases h with
  | undescribed hSome => exact hSome
  | inside _ _ hRoom => omega

theorem Covered.mono {s : Schema} {fuel' : Nat} (h : Covered setup.schemas rank fuel s)
    (hFuel : fuel ≤ fuel') : Covered setup.schemas rank fuel' s := by
  cases h with
  | undescribed hSome => exact .undescribed (by omega)
  | inside hKnown hInside hRoom => exact .inside hKnown hInside (by omega)

variable (hRanked : Ranked setup.schemas rank)

include hRanked

/-- One unit of fuel less covers everything that a covered schema asks for. -/
theorem Covered.asks {s : Schema} (h : Covered setup.schemas rank (fuel + 1) s) :
    AsksFor setup (Covered setup.schemas rank fuel) s := by
  cases h with
  | undescribed =>
      refine ⟨fun c hPlaced => ?_, nofun, nofun⟩
      cases hPlaced <;> simp_all
  | @inside host whole _ hKnown hInside hRoom =>
      have hPositive := size_pos s
      refine ⟨fun c hPlaced => ?_, fun _ _ => .undescribed (by omega), ?_⟩
      · have hSmaller := size_lt_of_placed hPlaced
        exact .inside hKnown (hInside.placed hPlaced) (by omega)
      · intro _ hMerge name f hFlat entry hEntry
        rcases flatten_source hFlat hEntry with hOwn | ⟨m, hm, name, other, hDraws, hOther, hFrom⟩
        · have hSmaller := hOwn.size_lt
          exact .inside hKnown (hInside.contained.inside hOwn) (by omega)
        · -- The field leaves the tree, into a schema that counts for the weight in full.
          have hRank := hRanked host whole hKnown s hInside hMerge m hm name hDraws
          have hWeight := weight_add_size_le hOther hRank
          have hSmaller := hFrom.size_lt
          exact .inside hOther hFrom (by omega)

/-- With fuel that covers its schema a property is resolved, and more fuel changes nothing. -/
theorem propertyWithin_steady {fuel' : Nat} (hFuel : fuel ≤ fuel') {r : Request}
    (h : Covered setup.schemas rank fuel r.schema) :
    Steady (propertyWithin setup fuel r) (propertyWithin setup fuel' r) := by
  induction fuel generalizing fuel' r with
  | zero => exact absurd h.pos (Nat.lt_irrefl 0)
  | succ fuel ih =>
      obtain ⟨fuel', rfl⟩ : ∃ k, fuel' = k + 1 := ⟨fuel' - 1, by omega⟩
      exact propertyStep_congr (fun r hr => ih (by omega) hr) (h.asks hRanked) nofun

end Properties

section Models

variable {setup : Setup} {rank : String → Nat} (hRanked : Ranked setup.schemas rank) {name : String}
  {s : Schema} (hKnown : setup.schemas.get? name = some s)

include hKnown

/-- A schema of the table asks only for schemas that its own size and that of the table cover,
whatever its own merge draws on. -/
theorem asks_of_known :
    AsksFor setup (Covered setup.schemas rank (setup.totalSize + s.size)) s := by
  have hPositive := size_pos s
  have hTotal : weight setup.schemas rank (rank name) + s.size ≤ setup.totalSize :=
    weight_add_size_le_total hKnown
  refine ⟨fun c hPlaced => ?_, fun _ _ => .undescribed (by omega), ?_⟩
  · have hSmaller := size_lt_of_placed hPlaced
    exact .inside hKnown (.of_placed hPlaced) (by omega)
  · intro _ _ _ f hFlat entry hEntry
    rcases flatten_source hFlat hEntry with hOwn | ⟨m, _, other, whole, _, hOther, hFrom⟩
    · have hSmaller := hOwn.size_lt
      exact .inside hKnown hOwn (by omega)
    · have hAll : weight setup.schemas rank (rank other) + whole.size ≤ setup.totalSize :=
        weight_add_size_le_total hOther
      have hSmaller := hFrom.size_lt
      exact .inside hOther hFrom (by omega)

include hRanked

/-- Fuel beyond the size of the table and of the schema resolves a schema of the table, and more fuel
changes nothing. -/
theorem modelStep_settles {fuel fuel' : Nat} (hEnough : setup.totalSize + s.size < fuel)
    (hFuel : fuel ≤ fuel') :
    Steady (modelStep setup (propertyWithin setup fuel) name s)
      (modelStep setup (propertyWithin setup fuel') name s) := by
  have hAsks : AsksFor setup (Covered setup.schemas rank (setup.totalSize + s.size)) s :=
    asks_of_known hKnown
  -- A schema that is no object and no composition is resolved as a property first. It has no merge
  -- of its own there, so what it asks for is covered although it does not stand inside itself.
  let own : Schema → Prop := fun n => Covered setup.schemas rank (setup.totalSize + s.size) n ∨ n = s
  have hOwn : ∀ r : Request, own r.schema →
      Steady (propertyWithin setup fuel r) (propertyWithin setup fuel' r) := by
    rintro r (hCovered | hSelf)
    · exact propertyWithin_steady hRanked hFuel (hCovered.mono (by omega))
    · obtain ⟨fuel, rfl⟩ : ∃ k, fuel = k + 1 := ⟨fuel - 1, by omega⟩
      obtain ⟨fuel', rfl⟩ : ∃ k, fuel' = k + 1 := ⟨fuel' - 1, by omega⟩
      have hSame : AsksFor setup (Covered setup.schemas rank (setup.totalSize + s.size)) r.schema := by
        rw [hSelf]
        exact hAsks
      refine propertyStep_congr (fun r hr => ?_) hSame nofun
      exact propertyWithin_steady hRanked (by omega) (hr.mono (by omega))
  refine modelStep_congr hOwn ⟨?_, ?_, ?_⟩ nofun name fun _ => Or.inr rfl
  · exact fun c hPlaced => Or.inl (hAsks.placed c hPlaced)
  · exact fun hKind hItems => Or.inl (hAsks.undescribed hKind hItems)
  · exact fun hTarget hMerge name f hFlat e he => Or.inl (hAsks.merged hTarget hMerge name f hFlat e he)

/-- Resolving ends for every schema of a ranked table. It never stops for want of fuel, and what it
gives is what it gives with any fuel beyond the sizes of the table and of the schema. -/
theorem resolveModel_ends :
    (∀ w stop, resolveModel setup name s w = .error stop → stop.obstacle ≠ .endless) ∧
      ∀ fuel, setup.totalSize + s.size < fuel →
        modelStep setup (propertyWithin setup fuel) name s = resolveModel setup name s := by
  have hBudget : setup.totalSize + s.size < setup.budget s := by
    unfold Setup.budget
    have hFactor := Nat.le_mul_of_pos_right (setup.totalSize + s.size + 1)
      (by omega : 0 < setup.schemas.length + 2)
    omega
  refine ⟨fun w => (modelStep_settles hRanked hKnown hBudget (Nat.le_refl _) w).2, ?_⟩
  intro fuel hEnough
  funext w
  rcases Nat.le_total fuel (setup.budget s) with hLess | hMore
  · exact (modelStep_settles hRanked hKnown hEnough hLess w).1
  · exact (modelStep_settles hRanked hKnown hBudget hMore w).1.symm

end Models

/-! ### A ranked table -/

/-- Folders refer to one another, and to entries whose merges refer to one another and back to
folders. -/
def folderSetup : Setup where
  config := Config.shipped
  schemas := [("Folder", folder), ("Entry", refersTo "Named"), ("Named", named), ("Dated", dated)]
where
  refersTo (name : String) : Schema := { reference := some ("#/components/schemas/" ++ name) }
  note : Schema := { properties := [("note", text)] }
  text : Schema := { kind := .primitive, type := some "string" }
  first : Schema := { kind := .composed, allOf := [refersTo "Entry", note] }
  folder : Schema := { properties := [("parent", refersTo "Folder"), ("first", first)] }
  named : Schema := { kind := .composed, allOf := [refersTo "Dated"] }
  dated : Schema :=
    { kind := .composed, allOf := [refersTo "Named"], properties := [("in", refersTo "Folder")] }
  /-- What is merged into the first entry of a folder. -/
  merged : List Schema := [refersTo "Entry", note, refersTo "Named", named, refersTo "Dated", dated]

open folderSetup

/-- The only merge that stands inside a schema is the first entry of a folder. -/
theorem folderSetup_merges {host : String} {whole n : Schema}
    (hKnown : folderSetup.schemas.get? host = some whole) (hInside : Inside whole n)
    (hMerge : n.isMerge = true) : host = "Folder" ∧ n = first := by
  have hSmaller := hInside.size_lt
  have hEntry := Table.mem_of_get? hKnown
  simp only [folderSetup, List.mem_cons, Prod.mk.injEq, List.not_mem_nil, or_false] at hEntry
  rcases hEntry with ⟨rfl, rfl⟩ | ⟨rfl, rfl⟩ | ⟨rfl, rfl⟩ | ⟨rfl, rfl⟩
  · have hMem : n ∈ [folder, refersTo "Folder", first, refersTo "Entry", note, text] := by
      refine hInside.contained.mem_of_closed ?_ (by simp)
      simp [component_iff, folder, refersTo, first, note, text, or_imp, forall_and]
    simp only [List.mem_cons, List.not_mem_nil, or_false] at hMem
    rcases hMem with rfl | rfl | rfl | rfl | rfl | rfl <;>
      simp_all [Schema.isMerge, folder, refersTo, note, text]
  · have hMem : n ∈ [refersTo "Named"] := by
      refine hInside.contained.mem_of_closed ?_ (by simp)
      simp [component_iff, refersTo]
    rw [List.mem_singleton.mp hMem] at hMerge
    simp [Schema.isMerge, refersTo] at hMerge
  · have hMem : n ∈ [named, refersTo "Dated"] := by
      refine hInside.contained.mem_of_closed ?_ (by simp)
      simp [component_iff, named, refersTo]
    simp only [List.mem_cons, List.not_mem_nil, or_false] at hMem
    rcases hMem with rfl | rfl
    · exact absurd hSmaller (Nat.lt_irrefl _)
    · simp [Schema.isMerge, refersTo] at hMerge
  · have hMem : n ∈ [dated, refersTo "Named", refersTo "Folder"] := by
      refine hInside.contained.mem_of_closed ?_ (by simp)
      simp [component_iff, dated, refersTo]
    simp only [List.mem_cons, List.not_mem_nil, or_false] at hMem
    rcases hMem with rfl | rfl | rfl
    · exact absurd hSmaller (Nat.lt_irrefl _)
    · simp [Schema.isMerge, refersTo] at hMerge
    · simp [Schema.isMerge, refersTo] at hMerge

theorem folderSetup_targets {m : Schema} {reference : String} (hm : m ∈ merged)
    (hTarget : m.target? = some reference) :
    Naming.Pointer.ofReference reference ∈ [⟨"Entry", []⟩, ⟨"Named", []⟩, ⟨"Dated", []⟩] := by
  simp only [merged, List.mem_cons, List.not_mem_nil, or_false] at hm
  rcases hm with rfl | rfl | rfl | rfl | rfl | rfl
  all_goals cases hTarget
  all_goals decide +kernel

/-- The first entry of a folder draws on the schemas of entries only. -/
theorem folderSetup_draws {m : Schema} {name : String} (h : Draws folderSetup.schemas m name)
    (hm : m ∈ merged) : name ∈ ["Entry", "Named", "Dated"] := by
  induction h with
  | head target known =>
      have hPointer := folderSetup_targets hm target
      simp only [List.mem_cons, List.not_mem_nil, or_false] at hPointer
      rcases hPointer with h | h | h <;> simp [h]
  | @onward m whole part reference name target known leads next ih =>
      have hPointer := folderSetup_targets hm target
      have hPart : part = whole ∧ whole ∈ merged := by
        simp only [List.mem_cons, List.not_mem_nil, or_false] at hPointer
        rcases hPointer with h | h | h
        all_goals
          rw [h] at leads known
          cases known
          exact ⟨leads.eq_whole, by simp [merged]⟩
      rw [hPart.1] at ih
      exact ih hPart.2
  | inner target isMerge mem next ih =>
      refine ih ?_
      simp only [merged, List.mem_cons, List.not_mem_nil, or_false] at hm
      rcases hm with rfl | rfl | rfl | rfl | rfl | rfl
      all_goals simp_all [merged, Schema.isMerge, refersTo, note, named, dated]

theorem folderSetup_ranked :
    Ranked folderSetup.schemas fun name => if name = "Folder" then 1 else 0 := by
  intro host whole hKnown n hInside hMerge m hm name hDraws
  obtain ⟨rfl, rfl⟩ := folderSetup_merges hKnown hInside hMerge
  have hMerged : m ∈ merged := by
    simp only [first, List.mem_cons, List.not_mem_nil, or_false] at hm
    rcases hm with rfl | rfl <;> simp [merged]
  have hName := folderSetup_draws hDraws hMerged
  simp only [List.mem_cons, List.not_mem_nil, or_false] at hName
  rcases hName with rfl | rfl | rfl <;> decide

theorem resolveModel_ends_folder :
    folderSetup.schemas.get? "Folder" = some folder ∧
      ((∀ w stop, resolveModel folderSetup "Folder" folder w = .error stop →
        stop.obstacle ≠ .endless) ∧
      ∀ fuel, folderSetup.totalSize + folder.size < fuel →
        modelStep folderSetup (propertyWithin folderSetup fuel) "Folder" folder =
          resolveModel folderSetup "Folder" folder) ∧
      (resolveModel folderSetup "Folder" folder {}).toOption.map (fun r => r.1.vars.map (·.datatype)) =
        some ["Folder", "FolderFirst"] :=
  ⟨rfl, resolveModel_ends folderSetup_ranked rfl, by decide +kernel⟩

end ClientTypes.Resolution
