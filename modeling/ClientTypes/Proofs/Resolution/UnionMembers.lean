import ClientTypes.Proofs.Resolution.Run
import ClientTypes.Proofs.Table
import ClientTypes.Resolution.Resolver
import Mathlib.Data.List.Induction
import Mathlib.Data.List.Nodup
import Mathlib.Data.Option.Basic

/-! The arms of a union against its members. The members are resolved one after the other, and what the
next one is called depends on how many types there are so far. The union keeps the first arm of each type,
so it has every type that a member resolves to, and has it once. -/
namespace ClientTypes.Resolution

open Naming

/-! ### The first of each type -/

/-- Of all arms the first one of each type is kept, in order of first occurrence. -/
structure FirstOfEach (arms kept : List Variant) : Prop where
  types : kept.map (·.datatype) = (arms.map (·.datatype)).eraseDups
  first : ∀ arm ∈ kept, arms.find? (·.datatype == arm.datatype) = some arm

namespace FirstOfEach

variable {arms kept : List Variant} {arm : Variant}

theorem nil : FirstOfEach [] [] := ⟨rfl, by simp⟩

theorem mem_types_iff (h : FirstOfEach arms kept) {type : String} :
    type ∈ kept.map (·.datatype) ↔ type ∈ arms.map (·.datatype) := by
  rw [h.types, List.mem_eraseDups]

/-- As many arms are kept as there are types. -/
theorem length_eq (h : FirstOfEach arms kept) : kept.length = (arms.map (·.datatype)).eraseDups.length := by
  rw [← h.types, List.length_map]

/-- What is looked up among the arms stays found when another one comes after them. -/
theorem find?_concat (h : FirstOfEach arms kept) (hArm : arm ∈ kept) (last : Variant) :
    (arms ++ [last]).find? (·.datatype == arm.datatype) = some arm := by
  rw [List.find?_append, h.first arm hArm]
  rfl

theorem drop (h : FirstOfEach arms kept) (hOld : arm.datatype ∈ kept.map (·.datatype)) :
    FirstOfEach (arms ++ [arm]) kept where
  types := by
    rw [List.map_append, List.map_singleton, Table.eraseDups_concat, if_pos (h.mem_types_iff.mp hOld), h.types]
  first _ hKept := h.find?_concat hKept arm

theorem add (h : FirstOfEach arms kept) (hNew : arm.datatype ∉ kept.map (·.datatype)) :
    FirstOfEach (arms ++ [arm]) (kept ++ [arm]) where
  types := by
    rw [List.map_append, List.map_append, List.map_singleton, Table.eraseDups_concat,
      if_neg (mt h.mem_types_iff.mpr hNew), h.types]
  first := by
    intro other hOther
    rcases List.mem_append.mp hOther with hKept | hLast
    · exact h.find?_concat hKept arm
    · obtain rfl := List.mem_singleton.mp hLast
      have hAbsent : arms.find? (·.datatype == other.datatype) = none := by
        simpa [List.find?_eq_none] using mt h.mem_types_iff.mpr hNew
      rw [List.find?_append, hAbsent]
      simp

/-- No type is kept twice. -/
theorem nodup (h : FirstOfEach arms kept) : (kept.map (·.datatype)).Nodup := h.types ▸ Table.nodup_eraseDups _

/-- The types that are kept tell the arms that are. -/
theorem map_some_eq (h : FirstOfEach arms kept) :
    kept.map some = (arms.map (·.datatype)).eraseDups.map fun type => arms.find? (·.datatype == type) := by
  rw [← h.types, List.map_map]
  exact List.map_congr_left fun arm hArm => (h.first arm hArm).symm

theorem unique {other : List Variant} (h : FirstOfEach arms kept) (h' : FirstOfEach arms other) :
    kept = other :=
  List.map_injective_iff.mpr (Option.some_injective _) (h.map_some_eq.trans h'.map_some_eq.symm)

end FirstOfEach

/-! ### Members, one after the other -/

section Members

variable (setup : Setup) (resolve : Resolve) (name owner : String)

/-- The arm that a member gets behind members of `place` types. A reference gets the type of its schema, or that
of any value. A member that is described in place is resolved under the name of the union and its place. -/
inductive MemberResolves (place : Nat) (member : Schema) (w : Workspace) : Variant → Workspace → Prop where
  | known {reference target : String} (hTarget : member.target? = some reference)
      (hSchema : (Pointer.ofReference reference).schema = target) (hKnown : setup.schemas.has target = true) :
      MemberResolves place member w
        { name := upperSnake target, datatype := typeName target, isModel := true } w
  | unknown {reference target : String} (hTarget : member.target? = some reference)
      (hSchema : (Pointer.ofReference reference).schema = target)
      (hUnknown : setup.schemas.has target = false) :
      MemberResolves place member w
        { name := upperSnake target, datatype := TargetType.fallback,
          unresolved := some ("unknown schema " ++ target) }
        (w.withReport ⟨.resolver, .debug, "unresolved union member " ++ reference⟩)
  | inPlace {p : Property} {w' : Workspace} (hInPlace : member.target? = none)
      (hRun : resolve { name := name ++ "_sub_" ++ toString place, schema := member, owner } w = .ok (p, w')) :
      MemberResolves place member w
        { name := upperSnake p.datatype, datatype := p.datatype, container := p.container,
          isModel := !TargetType.isBuiltIn p.datatype, unresolved := p.marks.unresolved } w'

/-- A type that an earlier member has is reported. -/
def noteRepeated (earlier : List String) (type : String) (w : Workspace) : Workspace :=
  if type ∈ earlier then
    w.withReport ⟨.resolver, .debug, name ++ ": dropping duplicate variant " ++ type⟩
  else w

/-- Members that come after others of the `earlier` types are resolved one after the other. The place of each
is the number of different types before it. -/
inductive MembersResolve : (earlier : List String) → List Schema → Workspace → List Variant → Workspace → Prop where
  | nil {earlier : List String} {w : Workspace} : MembersResolve earlier [] w [] w
  | cons {earlier : List String} {member : Schema} {rest : List Schema} {arm : Variant} {arms : List Variant}
      {w w1 w' : Workspace}
      (hMember : MemberResolves setup resolve name owner earlier.eraseDups.length member w arm w1)
      (hRest : MembersResolve (earlier ++ [arm.datatype]) rest (noteRepeated name earlier arm.datatype w1) arms w') :
      MembersResolve earlier (member :: rest) w (arm :: arms) w'

end Members

section Union

variable {setup : Setup} {resolve : Resolve} {name owner : String} {w w' : Workspace}

theorem referenceVariant_eq (reference : String) : referenceVariant setup reference w =
    if setup.schemas.has (Pointer.ofReference reference).schema then
      .ok ({ name := upperSnake (Pointer.ofReference reference).schema,
             datatype := typeName (Pointer.ofReference reference).schema, isModel := true }, w)
    else
      .ok ({ name := upperSnake (Pointer.ofReference reference).schema, datatype := TargetType.fallback,
             unresolved := some ("unknown schema " ++ (Pointer.ofReference reference).schema) },
        w.withReport ⟨.resolver, .debug, "unresolved union member " ++ reference⟩) := by
  unfold referenceVariant
  split <;> rfl

theorem memberVariant_eq_ok_iff {place : Nat} {member : Schema} {arm : Variant} :
    memberVariant setup resolve name owner place member w = .ok (arm, w') ↔
      MemberResolves setup resolve name owner place member w arm w' := by
  unfold memberVariant
  cases hTarget : member.target? with
  | some reference =>
      dsimp only
      rw [referenceVariant_eq]
      constructor
      · intro h
        split at h
        next hKnown =>
          obtain ⟨rfl, rfl⟩ := Prod.mk.injEq .. ▸ Except.ok.inj h
          exact .known hTarget rfl hKnown
        next hUnknown =>
          obtain ⟨rfl, rfl⟩ := Prod.mk.injEq .. ▸ Except.ok.inj h
          exact .unknown hTarget rfl (Bool.not_eq_true _ ▸ hUnknown)
      · intro h
        cases h with
        | known hSome hSchema hKnown =>
            obtain rfl := Option.some.inj (hTarget.symm.trans hSome)
            rw [hSchema, if_pos hKnown]
        | unknown hSome hSchema hUnknown =>
            obtain rfl := Option.some.inj (hTarget.symm.trans hSome)
            rw [hSchema, if_neg (by simp [hUnknown])]
        | inPlace hNone => simp [hTarget] at hNone
  | none =>
      rw [bind_eq_ok_iff]
      constructor
      · rintro ⟨p, w1, hRun, hArm⟩
        obtain ⟨rfl, rfl⟩ := Prod.mk.injEq .. ▸ Except.ok.inj hArm
        exact .inPlace hTarget hRun
      · intro h
        cases h with
        | known hSome | unknown hSome => simp [hTarget] at hSome
        | inPlace _ hRun => exact ⟨_, _, hRun, rfl⟩

/-- The arms that are kept when another one is found. -/
def keepFirst (found : List Variant) (arm : Variant) : List Variant :=
  if arm.datatype ∈ found.map (·.datatype) then found else found ++ [arm]

theorem FirstOfEach.keep {arms found : List Variant} (h : FirstOfEach arms found) (arm : Variant) :
    FirstOfEach (arms ++ [arm]) (keepFirst found arm) := by
  unfold keepFirst
  split
  next hOld => exact h.drop hOld
  next hNew => exact h.add hNew

/-- The first member is resolved behind the arms that were found, and the others behind its arm as well. -/
theorem variantsFrom_cons_eq_ok_iff {found kept : List Variant} {member : Schema} {rest : List Schema} :
    variantsFrom setup resolve name owner found (member :: rest) w = .ok (kept, w') ↔
      ∃ arm w1, MemberResolves setup resolve name owner found.length member w arm w1 ∧
        variantsFrom setup resolve name owner (keepFirst found arm) rest
          (noteRepeated name (found.map (·.datatype)) arm.datatype w1) = .ok (kept, w') := by
  have hAny (arm : Variant) :
      found.any (·.datatype == arm.datatype) = true ↔ arm.datatype ∈ found.map (·.datatype) := by simp
  rw [variantsFrom, bind_eq_ok_iff]
  apply exists_congr
  intro arm
  apply exists_congr
  intro w1
  rw [memberVariant_eq_ok_iff, keepFirst, noteRepeated]
  by_cases hOld : arm.datatype ∈ found.map (·.datatype)
  · rw [if_pos ((hAny arm).mpr hOld), if_pos hOld, if_pos hOld]
    rfl
  · rw [if_neg (mt (hAny arm).mp hOld), if_neg hOld, if_neg hOld]

/-- Members are resolved in turn, and the first arm of each type is kept: those that were found before, and
those of the members. -/
theorem variantsFrom_eq_ok_iff {members : List Schema} {arms found kept : List Variant}
    (hFound : FirstOfEach arms found) :
    variantsFrom setup resolve name owner found members w = .ok (kept, w') ↔
      ∃ more, MembersResolve setup resolve name owner (arms.map (·.datatype)) members w more w' ∧
        FirstOfEach (arms ++ more) kept := by
  induction members generalizing arms found w with
  | nil =>
      constructor
      · intro h
        obtain ⟨rfl, rfl⟩ := Prod.mk.injEq .. ▸ Except.ok.inj h
        exact ⟨[], .nil, by simpa using hFound⟩
      · rintro ⟨_, ⟨⟩, hKept⟩
        rw [List.append_nil] at hKept
        rw [hKept.unique hFound]
        rfl
  | cons member rest ih =>
      have hNote (arm : Variant) (w1 : Workspace) : noteRepeated name (found.map (·.datatype)) arm.datatype w1 =
          noteRepeated name (arms.map (·.datatype)) arm.datatype w1 := by
        simp only [noteRepeated, hFound.mem_types_iff]
      have hOnward (arm : Variant) (w1 : Workspace) := ih (w := w1) (hFound.keep arm)
      simp only [List.map_append, List.map_singleton, List.append_assoc, List.singleton_append] at hOnward
      simp only [variantsFrom_cons_eq_ok_iff, hNote, hOnward, hFound.length_eq]
      constructor
      · rintro ⟨arm, w1, hMember, more, hRest, hKept⟩
        exact ⟨arm :: more, .cons hMember hRest, hKept⟩
      · rintro ⟨_, hMembers, hKept⟩
        cases hMembers with
        | cons hMember hRest => exact ⟨_, _, hMember, _, hRest, hKept⟩

/-- The values of a union against the arms that its members get. -/
structure UnionOf (members : List Schema) (arms : List Variant) (values : AllowableValues) : Prop where
  /-- No two arms have one type. -/
  distinct : (values.variants.map (·.datatype)).Nodup
  /-- The types are those that members resolve to, in order of first occurrence. -/
  types : values.variants.map (·.datatype) = (arms.map (·.datatype)).eraseDups
  /-- The arm of a type is that of the first member of the type. -/
  first : ∀ arm ∈ values.variants, arms.find? (·.datatype == arm.datatype) = some arm
  untagged_iff : values.kind = .untagged ↔ ∀ m ∈ members, m.target?.isSome = true
  complex_iff : values.kind = .complex ↔ ∃ m ∈ members, m.target? = none
  bare : values.enumMembers = [] ∧ values.sharedList = none

/-- The members and the arms that are kept determine the values. -/
theorem unionOf_iff {members : List Schema} {arms : List Variant} {values : AllowableValues} :
    UnionOf members arms values ↔ ∃ kept, FirstOfEach arms kept ∧
      values = { kind := unionKind members, variants := kept } := by
  have hAll : members.all (·.target?.isSome) = true ↔ ¬ ∃ m ∈ members, m.target? = none := by
    simp [Option.isSome_iff_ne_none]
  constructor
  · intro h
    refine ⟨values.variants, ⟨h.types, h.first⟩, ?_⟩
    have hKind : values.kind = unionKind members := by
      unfold unionKind
      split
      next hReferences => exact h.untagged_iff.mpr (by simpa using hReferences)
      next hOther => exact h.complex_iff.mpr (not_not.mp (mt hAll.mpr hOther))
    obtain ⟨kind, enumMembers, variants, sharedList⟩ := values
    obtain ⟨rfl, rfl⟩ := h.bare
    rw [← hKind]
  · rintro ⟨kept, hKept, rfl⟩
    exact {
      distinct := hKept.nodup
      types := hKept.types
      first := hKept.first
      untagged_iff := by simp [unionKind, Option.isSome_iff_ne_none]
      complex_iff := by simp [unionKind, hAll]
      bare := ⟨rfl, rfl⟩ }

/-- A union has the type of every member that is resolved, each of them once and in order of first occurrence.
It gets its values exactly when all members are resolved, one after the other. It is untagged exactly when every
member is a reference. -/
theorem union_members_kept {fuel : Nat} {members : List Schema} {values : AllowableValues} :
    unionValues setup (propertyWithin setup fuel) name owner members w = .ok (values, w') ↔
      ∃ arms, MembersResolve setup (propertyWithin setup fuel) name owner [] members w arms w' ∧
        UnionOf members arms values := by
  have hRun : unionValues setup (propertyWithin setup fuel) name owner members w = .ok (values, w') ↔
      ∃ kept, variantsFrom setup (propertyWithin setup fuel) name owner [] members w = .ok (kept, w') ∧
        values = { kind := unionKind members, variants := kept } := by
    unfold unionValues
    rw [bind_eq_ok_iff]
    constructor
    · rintro ⟨kept, w1, hKept, hValues⟩
      obtain ⟨rfl, rfl⟩ := Prod.mk.injEq .. ▸ Except.ok.inj hValues
      exact ⟨kept, hKept, rfl⟩
    · rintro ⟨kept, hKept, rfl⟩
      exact ⟨kept, w', hKept, rfl⟩
  simp only [hRun, variantsFrom_eq_ok_iff .nil, unionOf_iff, List.map_nil, List.nil_append]
  constructor
  · rintro ⟨kept, ⟨arms, hMembers, hKept⟩, hValues⟩
    exact ⟨arms, hMembers, kept, hKept, hValues⟩
  · rintro ⟨arms, hMembers, kept, hKept, hValues⟩
    exact ⟨kept, ⟨arms, hMembers, hKept⟩, hValues⟩

end Union

end ClientTypes.Resolution
