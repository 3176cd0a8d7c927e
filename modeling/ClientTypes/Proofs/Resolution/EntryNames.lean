import ClientTypes.Proofs.Naming.SnakeCase
import ClientTypes.Proofs.Resolution.Values

/-! The names of the entries of a set of values. A member of an enumeration is named after its text, an arm
of a union after the schema that it refers to or after its type. Two entries have one name exactly when
these texts have the same words in snake case; nothing makes the names of a set different. -/
namespace ClientTypes.Resolution

open Naming CrossReference

variable {setup : Setup}

/-! ### What entries are named after -/

/-- The text that the arm of a member is named after: the schema that a reference names, whether it is known
or not, or the type of a member that is described in place. -/
inductive NamedAfter (setup : Setup) (member : Schema) : Variant → String → Prop where
  | known {reference target : String} (hTarget : member.target? = some reference)
      (hSchema : (Pointer.ofReference reference).schema = target) (hKnown : setup.schemas.has target = true) :
      NamedAfter setup member
        { name := upperSnake target, datatype := typeName target, isModel := true } target
  | unknown {reference target : String} (hTarget : member.target? = some reference)
      (hSchema : (Pointer.ofReference reference).schema = target)
      (hUnknown : setup.schemas.has target = false) :
      NamedAfter setup member
        { name := upperSnake target, datatype := TargetType.fallback,
          unresolved := some ("unknown schema " ++ target) } target
  | inPlace {arm : Variant} (hInPlace : member.target? = none) (hName : arm.name = upperSnake arm.datatype) :
      NamedAfter setup member arm arm.datatype

theorem NamedAfter.name {member : Schema} {arm : Variant} {text : String}
    (h : NamedAfter setup member arm text) : arm.name = upperSnake text := by
  cases h with
  | known => rfl
  | unknown => rfl
  | inPlace _ hName => exact hName

/-- Every entry is named after a text of its own: a member after the text of its value, an arm after that of
some member of a union. No two arms have one type. -/
structure EntriesNamed (setup : Setup) (v : AllowableValues) : Prop where
  members : ∀ e ∈ v.enumMembers, ∃ text, e.value.display? = some text ∧ e.name = memberName text
  arms : ∀ arm ∈ v.variants, ∃ member text, NamedAfter setup member arm text
  types : (v.variants.map (·.datatype)).Nodup

theorem enumMembers_named {P : AllowableValues → Prop} (values : List Value) :
    Yields P (enumMembers values) fun members =>
      ∀ e ∈ members, ∃ text, e.value.display? = some text ∧ e.name = memberName text := by
  induction values with
  | nil => exact .pure (by simp)
  | cons v rest ih =>
      refine .bind (.textOf v) fun text hText => .bind ih fun more hMore => .pure ?_
      exact List.forall_mem_cons.mpr ⟨⟨text, hText, rfl⟩, hMore⟩

section Arms

variable {P : AllowableValues → Prop} {resolve : Resolve} (hResolve : ∀ r, Yields P (resolve r) (ValuesMeet P))

include hResolve

theorem memberVariant_named (name owner : String) (place : Nat) (member : Schema) :
    Yields P (memberVariant setup resolve name owner place member) fun arm =>
      ∃ text, NamedAfter setup member arm text := by
  unfold memberVariant
  split
  next reference hTarget =>
    unfold referenceVariant
    dsimp only
    split
    next hKnown => exact .pure ⟨_, .known hTarget rfl hKnown⟩
    next hUnknown =>
      have hAbsent := Bool.not_eq_true _ ▸ hUnknown
      exact .bind (.report _ _ _) fun _ _ => .pure ⟨_, .unknown hTarget rfl hAbsent⟩
  next hInPlace => exact .bind (hResolve _) fun sub _ => .pure ⟨_, .inPlace hInPlace rfl⟩

/-- An arm is added only when its type is new. -/
theorem variantsFrom_named (name owner : String) {found : List Variant} (members : List Schema)
    (hNamed : ∀ arm ∈ found, ∃ member text, NamedAfter setup member arm text)
    (hTypes : (found.map (·.datatype)).Nodup) :
    Yields P (variantsFrom setup resolve name owner found members) fun arms =>
      (∀ arm ∈ arms, ∃ member text, NamedAfter setup member arm text) ∧ (arms.map (·.datatype)).Nodup := by
  induction members generalizing found with
  | nil => exact .pure ⟨hNamed, hTypes⟩
  | cons member rest ih =>
      refine .bind (memberVariant_named hResolve _ _ _ _) fun arm hArm => ?_
      split
      next => exact .bind (.report _ _ _) fun _ _ => ih hNamed hTypes
      next hNew =>
        have hFresh : arm.datatype ∉ found.map (·.datatype) := by simpa using hNew
        refine ih ?_ ?_
        · intro other hOther
          rcases List.mem_append.mp hOther with hOld | hLast
          · exact hNamed other hOld
          · rw [List.mem_singleton.mp hLast]
            exact ⟨member, hArm⟩
        · rw [List.map_append, List.nodup_append]
          refine ⟨hTypes, by simp, fun type hType other hLast hSame => ?_⟩
          have hIs : other = arm.datatype := by simpa using hLast
          exact hFresh (hIs ▸ hSame ▸ hType)

end Arms

theorem metByBuilt_entriesNamed : MetByBuilt setup (EntriesNamed setup) where
  enum values := .bind (enumMembers_named values) fun members hMembers =>
    .pure ⟨hMembers, by simp, .nil⟩
  union resolve hResolve name owner members :=
    .bind (variantsFrom_named hResolve name owner members (by simp) .nil) fun arms hArms =>
      .pure ⟨by simp, hArms.1, hArms.2⟩
  shared _ _ h := ⟨h.members, h.arms, h.types⟩

/-! ### Calls of the resolver -/

/-- The sets of values that a call of the resolver shows in its result, and the workspace that it leaves. -/
inductive ShownBy (setup : Setup) (w : Workspace) : List AllowableValues → Workspace → Prop where
  | property {fuel : Nat} {r : Request} {p : Property} {w' : Workspace}
      (hRun : propertyWithin setup fuel r w = .ok (p, w')) : ShownBy setup w (valuesInProperty p) w'
  | model {fuel : Nat} {name : String} {s : Schema} {m : Model} {w' : Workspace}
      (hRun : modelStep setup (propertyWithin setup fuel) name s w = .ok (m, w')) :
      ShownBy setup w (valuesInModel m) w'
  | variants {fuel : Nat} {name owner : String} {members : List Schema} {v : AllowableValues} {w' : Workspace}
      (hRun : unionValues setup (propertyWithin setup fuel) name owner members w = .ok (v, w')) :
      ShownBy setup w [v] w'

variable {w w' : Workspace} {shown : List AllowableValues} {v : AllowableValues}

/-- What holds of the sets that are built holds of every set that a call shows, in its result and in the
models that it registers. -/
theorem ShownBy.meets {P : AllowableValues → Prop} (h : ShownBy setup w shown w')
    (hBuilt : MetByBuilt setup P) : (∀ v ∈ shown, P v) ∧ Adds P w w' := by
  cases h with
  | property hRun => exact propertyWithin_values hBuilt _ _ w _ _ hRun
  | model hRun => exact modelWithin_values hBuilt _ _ _ w _ _ hRun
  | variants hRun =>
      obtain ⟨hOwn, hAdds⟩ := hBuilt.union _ (propertyWithin_values hBuilt _) _ _ _ w _ _ hRun
      exact ⟨by simpa using hOwn, hAdds⟩

/-- Two entries have the same name exactly when the texts that they are named after have the same words. -/
structure NamesTellWords (setup : Setup) (v : AllowableValues) : Prop where
  members : ∀ e ∈ v.enumMembers, ∀ e' ∈ v.enumMembers, ∀ text text', e.value.display? = some text →
    e'.value.display? = some text' → (e.name = e'.name ↔ memberWords text = memberWords text')
  arms : ∀ arm ∈ v.variants, ∀ arm' ∈ v.variants, ∀ member member' text text',
    NamedAfter setup member arm text → NamedAfter setup member' arm' text' →
    (arm.name = arm'.name ↔ snakeWords text.toList = snakeWords text'.toList)

theorem EntriesNamed.namesTellWords (h : EntriesNamed setup v) : NamesTellWords setup v where
  members := by
    intro e he e' he' text text' hText hText'
    obtain ⟨own, hOwn, hName⟩ := h.members e he
    obtain ⟨own', hOwn', hName'⟩ := h.members e' he'
    obtain rfl : own = text := Option.some.inj (hOwn.symm.trans hText)
    obtain rfl : own' = text' := Option.some.inj (hOwn'.symm.trans hText')
    rw [hName, hName']
    exact memberName_eq_iff
  arms := by
    intro arm _ arm' _ member member' text text' hText hText'
    rw [hText.name, hText'.name]
    exact upperSnake_eq_iff

/-- Two schemas whose names differ in case only, and one that differs in more. -/
def serverSetup : Setup := ⟨Config.shipped, [("HTTPServer", {}), ("HttpServer", {}), ("Host", {})]⟩

def serverMembers : List Schema :=
  [{ reference := some "#/components/schemas/HTTPServer" },
    { reference := some "#/components/schemas/HttpServer" },
    { reference := some "#/components/schemas/Host" }]

/-- An enumeration of two texts that differ in a separator only. -/
def modeSchema : Schema := { kind := .primitive, type := some "string", enum := [.text "a-b", .text "a_b"] }

end ClientTypes.Resolution
