import ClientTypes.Proofs.Resolution.Flattening

/-! What a merge takes from its members. A member is left out as a whole when it declares no
property and something in it is cut; then the names that it requires are lost, and the schemas that
it refers to are no bases. What is not left out is taken, from however deep. Main statements: the
required names of a merge are those of the fragments that are taken, and its bases are the schemas
that are followed, each once and none of them on the path. -/
namespace ClientTypes.Resolution

open Naming

/-- A member of a merge that is left out. -/
def LeftOut (schemas : Table String Schema) (visited : List String) (m : Schema) : Prop :=
  ∃ events, Expands schemas visited (.member m) events ∧ declarations events = [] ∧ HasCut events

/-- What a merge comes across. -/
inductive Find where
  /-- A schema whose own fields are taken. -/
  | taken (s : Schema)
  /-- A schema whose own fields are lost, with the member that they stand in. -/
  | lost (s : Schema)
  /-- A schema that a reference leads to. -/
  | base (name : String)

/-- What is found in a branch, with the schemas on the path to it. The branch itself is not left
out; members inside it may be. -/
inductive Meets (schemas : Table String Schema) :
    (visited : List String) → Branch → Find → Prop where
  | own {visited : List String} {s : Schema} : Meets schemas visited (.schema s) (.taken s)
  | inside {visited : List String} {s m : Schema} {find : Find} (mem : m ∈ s.allOf)
      (kept : ¬ LeftOut schemas visited m) (inner : Meets schemas visited (.member m) find) :
      Meets schemas visited (.schema s) find
  | outside {visited : List String} {s m g : Schema} {events : List Event} (mem : m ∈ s.allOf)
      (left : LeftOut schemas visited m) (expands : Expands schemas visited (.member m) events)
      (fragment : Event.fragment g ∈ events) : Meets schemas visited (.schema s) (.lost g)
  | reference {visited : List String} {m : Schema} {r : String} {find : Find}
      (target : m.target? = some r) (inner : Meets schemas visited (.reference r) find) :
      Meets schemas visited (.member m) find
  | merge {visited : List String} {m : Schema} {find : Find} (target : m.target? = none)
      (isMerge : m.isMerge = true) (inner : Meets schemas visited (.schema m) find) :
      Meets schemas visited (.member m) find
  | fields {visited : List String} {m : Schema} (target : m.target? = none)
      (isMerge : m.isMerge = false) : Meets schemas visited (.member m) (.taken m)
  | base {visited : List String} {r : String} {whole : Schema}
      (fresh : (Pointer.ofReference r).schema ∉ visited)
      (known : schemas.get? (Pointer.ofReference r).schema = some whole) :
      Meets schemas visited (.reference r) (.base (Pointer.ofReference r).schema)
  | follow {visited : List String} {r : String} {whole part : Schema} {find : Find}
      (fresh : (Pointer.ofReference r).schema ∉ visited)
      (known : schemas.get? (Pointer.ofReference r).schema = some whole)
      (leads : IsPart whole (Pointer.ofReference r).path part)
      (inner : Meets schemas ((Pointer.ofReference r).schema :: visited) (.member part) find) :
      Meets schemas visited (.reference r) find

variable {schemas : Table String Schema} {visited : List String}

/-- A base is a schema of the table that is not on the path. -/
theorem Meets.base_fresh {branch : Branch} {name : String}
    (h : Meets schemas visited branch (.base name)) :
    schemas.has name = true ∧ name ∉ visited := by
  generalize hFind : Find.base name = find at h
  induction h with
  | own => cases hFind
  | inside _ _ _ ih => exact ih hFind
  | outside => cases hFind
  | reference _ _ ih => exact ih hFind
  | merge _ _ _ ih => exact ih hFind
  | fields => cases hFind
  | base fresh known =>
      cases hFind
      exact ⟨by simp [Table.has, known], fresh⟩
  | follow _ _ _ _ ih =>
      obtain ⟨hKnown, hFresh⟩ := ih hFind
      exact ⟨hKnown, fun hSeen => hFresh (List.mem_cons_of_mem _ hSeen)⟩

/-! ### What accumulates -/

/-- Names that a merge collects: those of what it absorbs are added to those it has. -/
structure Accumulates (names : Flattened → List String) : Prop where
  empty : names {} = []
  absorb : ∀ into sub name, name ∈ names (into.absorb sub) ↔ name ∈ names into ∨ name ∈ names sub
  reasons : ∀ (into : Flattened) unresolved, names { into with unresolved } = names into

theorem accumulates_required : Accumulates (·.required) :=
  ⟨rfl, fun _ _ _ => mem_foldl_addNew, fun _ _ => rfl⟩

theorem accumulates_bases : Accumulates (·.bases) :=
  ⟨rfl, fun _ _ _ => mem_foldl_addNew, fun _ _ => rfl⟩

section Accumulates

variable {names : Flattened → List String} (hNames : Accumulates names)

include hNames

theorem Accumulates.mem_add {into : Flattened} {result : Flattening} {name : String} :
    name ∈ names (into.add result) ↔
      name ∈ names into ∨ ∃ f, result = .merged f ∧ name ∈ names f := by
  cases result with
  | unresolved reason =>
      rw [Flattened.add, hNames.reasons]
      simp
  | merged f =>
      rw [Flattened.add, hNames.absorb]
      simp

theorem Accumulates.mem_mergeMembers {follow : String → Flattening} (ms : List Schema)
    {into : Flattened} {name : String} :
    name ∈ names (mergeMembers follow into ms) ↔
      name ∈ names into ∨ ∃ m ∈ ms, ∃ f, flattenMember follow m = .merged f ∧ name ∈ names f := by
  induction ms generalizing into with
  | nil => simp [mergeMembers]
  | cons m rest ih =>
      rw [mergeMembers_cons, ih, hNames.mem_add, or_assoc]
      simp only [List.mem_cons, exists_eq_or_imp]

/-- A merge has its own names and those of the members that it does not leave out. -/
theorem Accumulates.mem_mergeAllOf {follow : String → Flattening} {s : Schema} {g : Flattened}
    (h : mergeAllOf follow s = .merged g) {name : String} :
    name ∈ names g ↔ name ∈ names (ownFields s) ∨
      ∃ m ∈ s.allOf, ∃ f, flattenMember follow m = .merged f ∧ name ∈ names f := by
  rw [mergeAllOf_eq] at h
  rw [eq_of_conclude h, hNames.mem_add, hNames.mem_mergeMembers, hNames.empty]
  simp [or_comm]

end Accumulates

/-! ### What the result of a branch holds -/

/-- Of what is found in a branch, its fields require the names that fragments require, and have the
bases. -/
structure Sums (schemas : Table String Schema) (visited : List String) (branch : Branch)
    (f : Flattened) : Prop where
  required : ∀ name, name ∈ f.required ↔
    ∃ s, Meets schemas visited branch (.taken s) ∧ name ∈ s.required
  bases : ∀ name, name ∈ f.bases ↔ Meets schemas visited branch (.base name)

/-- References lead to what is found by following them. -/
def FollowSums (schemas : Table String Schema) (visited : List String)
    (follow : String → Flattening) : Prop :=
  ∀ r f, follow r = .merged f → Sums schemas visited (.reference r) f

/-- A branch that another one only stands for gives the same. -/
theorem Sums.of_iff {branch other : Branch} {f : Flattened} (h : Sums schemas visited branch f)
    (hSame : ∀ find, Meets schemas visited other find ↔ Meets schemas visited branch find) :
    Sums schemas visited other f where
  required name := by simp only [hSame, h.required]
  bases name := by rw [hSame, h.bases]

/-- A member that is not left out has fields. -/
theorem kept_iff {follow : String → Flattening} (hFollow : Follows schemas visited follow)
    (m : Schema) :
    ¬ LeftOut schemas visited m ↔ ∃ f, flattenMember follow m = .merged f := by
  obtain ⟨events, hExpands, hAgrees⟩ := flattenMember_agrees hFollow m
  cases hMember : flattenMember follow m with
  | unresolved reason =>
      rw [hMember] at hAgrees
      have hLeft : LeftOut schemas visited m := ⟨events, hExpands, hAgrees⟩
      simpa using hLeft
  | merged f =>
      rw [hMember] at hAgrees
      refine ⟨fun _ => ⟨f, rfl⟩, ?_⟩
      rintro - ⟨other, hOther, hLost⟩
      cases hOther.unique hExpands
      exact hAgrees.2.2 hLost

theorem meets_reference {m : Schema} {r : String} (hTarget : m.target? = some r) (find : Find) :
    Meets schemas visited (.member m) find ↔ Meets schemas visited (.reference r) find := by
  refine ⟨fun h => ?_, .reference hTarget⟩
  cases h with
  | reference target inner => exact Option.some.inj (target.symm.trans hTarget) ▸ inner
  | merge target _ _ => simp [hTarget] at target
  | fields target _ => simp [hTarget] at target

theorem meets_merge {m : Schema} (hTarget : m.target? = none) (hMerge : m.isMerge = true)
    (find : Find) :
    Meets schemas visited (.member m) find ↔ Meets schemas visited (.schema m) find := by
  refine ⟨fun h => ?_, .merge hTarget hMerge⟩
  cases h with
  | reference target _ => simp [hTarget] at target
  | merge _ _ inner => exact inner
  | fields _ isMerge => simp [hMerge] at isMerge

theorem meets_fields {m : Schema} (hTarget : m.target? = none) (hMerge : m.isMerge = false)
    (find : Find) : Meets schemas visited (.member m) find ↔ find = .taken m := by
  constructor
  · intro h
    cases h with
    | reference target _ => simp [hTarget] at target
    | merge _ isMerge _ => simp [hMerge] at isMerge
    | fields _ _ => rfl
  · rintro rfl
    exact .fields hTarget hMerge

/-- Apart from the schema that it names, a reference finds what is in the part that it leads to. -/
theorem meets_behind {r : String} {whole part : Schema} {find : Find}
    (hFresh : (Pointer.ofReference r).schema ∉ visited)
    (hKnown : schemas.get? (Pointer.ofReference r).schema = some whole)
    (hLeads : IsPart whole (Pointer.ofReference r).path part)
    (hFind : find ≠ .base (Pointer.ofReference r).schema) :
    Meets schemas visited (.reference r) find ↔
      Meets schemas ((Pointer.ofReference r).schema :: visited) (.member part) find := by
  refine ⟨fun h => ?_, .follow hFresh hKnown hLeads⟩
  cases h with
  | base _ _ => exact absurd rfl hFind
  | follow _ known leads inner =>
      cases Option.some.inj (known.symm.trans hKnown)
      cases leads.unique hLeads
      exact inner

section Tree

variable {follow : String → Flattening} (hFollow : Follows schemas visited follow)

include hFollow

/-- If members give what is found in them, so does a merge of them. -/
theorem mergeAllOf_sums {s : Schema} {g : Flattened} (h : mergeAllOf follow s = .merged g)
    (hMembers : ∀ m ∈ s.allOf, ∀ f, flattenMember follow m = .merged f →
      Sums schemas visited (.member m) f) : Sums schemas visited (.schema s) g := by
  have hKept (m : Schema) {f : Flattened} (hMember : flattenMember follow m = .merged f) :
      ¬ LeftOut schemas visited m := (kept_iff hFollow m).mpr ⟨f, hMember⟩
  refine ⟨fun name => ?_, fun name => ?_⟩
  · rw [accumulates_required.mem_mergeAllOf h]
    constructor
    · rintro (hOwn | ⟨m, hm, f, hMember, hName⟩)
      · exact ⟨s, .own, hOwn⟩
      · obtain ⟨t, hMeets, hListed⟩ := ((hMembers m hm f hMember).required name).mp hName
        exact ⟨t, .inside hm (hKept m hMember) hMeets, hListed⟩
    · rintro ⟨t, hMeets, hListed⟩
      cases hMeets with
      | own => exact Or.inl hListed
      | inside hm kept inner =>
          obtain ⟨f, hMember⟩ := (kept_iff hFollow _).mp kept
          exact Or.inr ⟨_, hm, f, hMember,
            ((hMembers _ hm f hMember).required name).mpr ⟨t, inner, hListed⟩⟩
  · rw [accumulates_bases.mem_mergeAllOf h]
    constructor
    · rintro (hOwn | ⟨m, hm, f, hMember, hName⟩)
      · cases hOwn
      · exact .inside hm (hKept m hMember) (((hMembers m hm f hMember).bases name).mp hName)
    · intro hMeets
      cases hMeets with
      | inside hm kept inner =>
          obtain ⟨f, hMember⟩ := (kept_iff hFollow _).mp kept
          exact Or.inr ⟨_, hm, f, hMember, ((hMembers _ hm f hMember).bases name).mpr inner⟩

variable (hSums : FollowSums schemas visited follow)

include hSums

theorem flattenMember_sums (m : Schema) {f : Flattened} (h : flattenMember follow m = .merged f) :
    Sums schemas visited (.member m) f := by
  cases hTarget : m.target? with
  | some r =>
      have hReference : follow r = .merged f := by simpa [flattenMember, hTarget] using h
      exact (hSums r f hReference).of_iff (meets_reference hTarget)
  | none =>
      cases hMerge : m.isMerge with
      | false =>
          have hOwn : ownFields m = f := by simpa [flattenMember, hTarget, hMerge] using h
          subst hOwn
          constructor
          · simp [meets_fields hTarget hMerge, ownFields]
          · simp [meets_fields hTarget hMerge, ownFields]
      | true =>
          have hAll : mergeAllOf follow m = .merged f := by
            simpa [flattenMember, hTarget, hMerge] using h
          have hMembers := mergeAllOf_sums hFollow hAll fun m' hm' f' hMember =>
            flattenMember_sums m' hMember
          exact hMembers.of_iff (meets_merge hTarget hMerge)
termination_by sizeOf m
decreasing_by exact Nat.lt_trans (List.sizeOf_lt_of_mem hm') (sizeOf_allOf_lt m)

end Tree

/-- With fuel for the schemas off the path, a reference gives what is found by following it. -/
theorem followReference_sums {fuel : Nat} (hFuel : (unvisited schemas visited).length < fuel) :
    FollowSums schemas visited (followReference schemas fuel visited) := by
  induction fuel generalizing visited with
  | zero => omega
  | succ fuel ih =>
      intro r f hFollow
      rw [followReference_succ] at hFollow
      by_cases hDead : (Pointer.ofReference r).schema ∈ visited ∨
          schemas.get? (Pointer.ofReference r).schema = none
      · obtain ⟨reason, hLead⟩ := lead_of_dead hDead
        rw [hLead] at hFollow
        cases hFollow
      · obtain ⟨hFresh, hKnown⟩ := not_or.mp hDead
        obtain ⟨whole, hWhole⟩ := Option.ne_none_iff_exists'.mp hKnown
        obtain ⟨part, hLead, hPart⟩ := lead_of_fresh hFresh hWhole
        have hLess : (unvisited schemas ((Pointer.ofReference r).schema :: visited)).length < fuel :=
          Nat.lt_of_lt_of_le (unvisited_cons_lt hFresh hWhole) (Nat.le_of_lt_succ hFuel)
        rw [hLead] at hFollow
        dsimp only at hFollow
        cases hMember : flattenMember
            (followReference schemas fuel ((Pointer.ofReference r).schema :: visited)) part with
        | unresolved reason =>
            rw [hMember] at hFollow
            cases hFollow
        | merged g =>
            rw [hMember] at hFollow
            cases hFollow
            have hInner := flattenMember_sums (followReference_agrees hLess) (ih hLess) part hMember
            have hBehind (find : Find) := @meets_behind _ _ _ _ _ find hFresh hWhole hPart
            constructor
            · intro name
              simp only [hInner.required, hBehind (.taken _) (by simp)]
            · intro name
              by_cases hName : name = (Pointer.ofReference r).schema
              · subst hName
                simpa using Meets.base hFresh hWhole
              · rw [hBehind _ (by simpa using hName), ← hInner.bases]
                simp [hName]

theorem flatten_sums {name : String} {s : Schema} {f : Flattened}
    (h : flatten schemas name s visited = .merged f) :
    Sums schemas (name :: visited) (.schema s) f := by
  have hFuel : (unvisited schemas (name :: visited)).length < schemas.length + 1 :=
    Nat.lt_succ_of_le (List.length_filter_le ..)
  have hFollow := @followReference_agrees schemas (name :: visited) _ hFuel
  exact mergeAllOf_sums hFollow h fun m _ _ hMember =>
    flattenMember_sums hFollow (followReference_sums hFuel) m hMember

/-! ### Bases -/

theorem nodup_bases_mergeMembers {follow : String → Flattening} (ms : List Schema)
    {into : Flattened} (h : into.bases.Nodup) : (mergeMembers follow into ms).bases.Nodup := by
  induction ms generalizing into with
  | nil => simpa [mergeMembers] using h
  | cons m rest ih =>
      rw [mergeMembers_cons]
      refine ih ?_
      cases flattenMember follow m with
      | unresolved reason => exact h
      | merged f => exact nodup_foldl_addNew h f.bases

/-- The bases of a merge are the schemas that are followed on the way to what is taken. Each is named
once, is a schema of the table, and is neither the schema that is flattened nor one that was on
the path before. -/
theorem flatten_bases_sound {name : String} {s : Schema} {f : Flattened}
    (h : flatten schemas name s visited = .merged f) :
    f.bases.Nodup ∧
      (∀ base ∈ f.bases, schemas.has base = true ∧ base ≠ name ∧ base ∉ visited) ∧
      ∀ base, base ∈ f.bases ↔ Meets schemas (name :: visited) (.schema s) (.base base) := by
  have hSums := flatten_sums h
  refine ⟨?_, fun base hBase => ?_, hSums.bases⟩
  · have hDistinct : (mergeMembers (followReference schemas (schemas.length + 1) (name :: visited))
        {} s.allOf).bases.Nodup := nodup_bases_mergeMembers s.allOf (by simp)
    rw [flatten, mergeAllOf_eq] at h
    rw [eq_of_conclude h]
    exact nodup_foldl_addNew hDistinct _
  · obtain ⟨hKnown, hFresh⟩ := ((hSums.bases base).mp hBase).base_fresh
    exact ⟨hKnown, by simpa using hFresh⟩

/-- A pet by way of two kinds of animal, one of which is called by another name and one by a path into
a third; both are beings, and a being refers back to the pet. -/
def diamondSchemas : Table String Schema := [
  ("Being", { kind := .composed, properties := [("age", {})], allOf := [toSchema "Pet"] }),
  ("Furry", { kind := .composed, allOf := [toSchema "Being"] }),
  ("Alias", toSchema "Furry"),
  ("Shelf", { kind := .composed, allOf := [{ kind := .composed, allOf := [toSchema "Being"] }] })]
where
  toSchema (name : String) : Schema := { reference := some ("#/components/schemas/" ++ name) }

/-- The pet itself. -/
def diamondPet : Schema where
  kind := .composed
  allOf := [diamondSchemas.toSchema "Alias", diamondSchemas.toSchema "Shelf/allOf/0"]

theorem flatten_bases_sound_diamond :
    ∃ f, flatten diamondSchemas "Pet" diamondPet ["Store"] = .merged f ∧
      f.bases = ["Alias", "Furry", "Being", "Shelf"] ∧ f.bases.Nodup ∧
      ∀ base ∈ f.bases, diamondSchemas.has base = true ∧ base ≠ "Pet" ∧ base ∉ ["Store"] := by
  obtain ⟨f, hMerged, hBases⟩ : ∃ f, flatten diamondSchemas "Pet" diamondPet ["Store"] = .merged f ∧
      f.bases = ["Alias", "Furry", "Being", "Shelf"] := ⟨_, rfl, by decide +kernel⟩
  obtain ⟨hDistinct, hEach, _⟩ := flatten_bases_sound hMerged
  exact ⟨f, hMerged, hBases, hDistinct, hEach⟩

end ClientTypes.Resolution
