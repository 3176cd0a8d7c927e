import ClientTypes.Resolution.Enrichment
import Mathlib.Logic.Function.Iterate

/-! Refining a property. A pass over the rules does to the type of a property what a small function does, and
gives the field its name. So refining follows that function for four passes; only the type and the name of the
field can change. -/
namespace ClientTypes.Resolution

open TargetType

/-! ### One pass -/

/-- A single value in the format of a point in time. -/
def IsMoment (p : Property) : Prop := p.dataFormat = some "date-time" ∧ p.container = none

instance (p : Property) : Decidable (IsMoment p) := inferInstanceAs (Decidable (_ ∧ _))

/-- The type that stands for a type before it is corrected: that of a point in time for every moment, and
otherwise a map for an open object and a fixed width for that of a pointer. -/
def plainType (p : Property) (type : String) : String :=
  if IsMoment p then dateTime
  else if type = openObject then openMap
  else if type = pointerSized then "i64"
  else type

/-- The type after the first correction that fits. -/
def correctedType (config : Config) (baseName type : String) : String :=
  ((config.fieldCorrections.find? (·.fits baseName type)).map (·.replacement)).getD type

/-- What a pass makes of a type of the property. -/
def passType (config : Config) (p : Property) (type : String) : String :=
  correctedType config p.baseName (plainType p type)

/-- A type that no correction is set for stays. -/
theorem correctedType_of_forall_ne {config : Config} {type : String}
    (h : ∀ c ∈ config.fieldCorrections, c.datatype ≠ type) (baseName : String) :
    correctedType config baseName type = type := by
  have hNone : config.fieldCorrections.find? (·.fits baseName type) = none := by
    rw [List.find?_eq_none]
    intro c hMem hFits
    have hType : type = c.datatype := beq_iff_eq.mp (Bool.and_eq_true_iff.mp hFits).1
    exact h c hMem hType.symm
  rw [correctedType, hNone]
  rfl

/-- The name of the field, unless the configuration gives one. -/
def givenName (config : Config) (p : Property) : String := (config.nameOverrides.get? p.baseName).getD p.name

section Rules

variable {config : Config} {p : Property}

theorem getD_openObjectRule : (openObjectRule p).getD p =
    { p with datatype := if p.datatype = openObject then openMap else p.datatype } := by
  cases p
  unfold openObjectRule
  split <;> rfl

theorem getD_dateTimeRule : (dateTimeRule p).getD p =
    { p with datatype := if IsMoment p then dateTime else p.datatype } := by
  by_cases hMoment : IsMoment p
  · by_cases hType : p.datatype = dateTime
    · cases p
      simp_all [dateTimeRule]
    · obtain ⟨hFormat, hSingle⟩ := hMoment
      simp [dateTimeRule, IsMoment, hFormat, hSingle, hType]
  · have hFits : p.dataFormat ≠ some "date-time" ∨ p.container.isSome := by
      simpa [IsMoment, imp_iff_not_or, Option.isSome_iff_ne_none] using hMoment
    rw [if_neg hMoment, dateTimeRule, if_pos (or_assoc.mp (Or.inl hFits))]
    cases p
    rfl

theorem getD_fixedWidthRule : (fixedWidthRule p).getD p =
    { p with datatype := if p.datatype = pointerSized then "i64" else p.datatype } := by
  cases p
  unfold fixedWidthRule
  split <;> rfl

theorem getD_nameRule : (nameRule config p).getD p = { p with name := givenName config p } := by
  unfold nameRule givenName
  cases config.nameOverrides.get? p.baseName with
  | none =>
      cases p
      rfl
  | some name =>
      by_cases hSame : p.name = name
      · cases p
        simp_all
      · simp [hSame]

theorem getD_correctionRule : (correctionRule config p).getD p =
    { p with datatype := correctedType config p.baseName p.datatype } := by
  unfold correctionRule correctionOf? correctedType
  cases config.fieldCorrections.find? (·.fits p.baseName p.datatype) with
  | none =>
      cases p
      rfl
  | some c => rfl

theorem fst_applyRules (rs : List Rule) (p : Property) :
    (applyRules rs p).1 = rs.foldl (fun p rule => (rule p).getD p) p := by
  induction rs generalizing p with
  | nil => rfl
  | cons rule rest ih =>
      unfold applyRules
      cases hRule : rule p with
      | some p' => simp [hRule, ih]
      | none => simp [hRule, ih]

/-- When no rule fits, nothing changes. -/
theorem applyRules_of_false {rs : List Rule} {p p' : Property} (h : applyRules rs p = (p', false)) : p' = p := by
  induction rs generalizing p with
  | nil => exact (congrArg Prod.fst h).symm
  | cons rule rest ih =>
      unfold applyRules at h
      split at h
      · cases h
      · exact ih h

/-- The property after a pass. -/
def afterPass (config : Config) (p : Property) : Property :=
  { p with datatype := passType config p p.datatype, name := givenName config p }

/-- The first three rules give the plain type. -/
theorem plainType_eq (type : String) :
    (let typed := if IsMoment p then dateTime else if type = openObject then openMap else type
     if typed = pointerSized then "i64" else typed) = plainType p type := by
  unfold plainType
  by_cases hMoment : IsMoment p
  · simp [hMoment, dateTime, pointerSized]
  · by_cases hObject : type = openObject
    · simp [hMoment, hObject, openMap, pointerSized]
    · simp [hMoment, hObject]

theorem fst_applyRules_rules : (applyRules (rules config) p).1 = afterPass config p := by
  rw [fst_applyRules]
  simp only [rules, List.foldl_cons, List.foldl_nil, getD_openObjectRule, getD_dateTimeRule, getD_fixedWidthRule,
    getD_nameRule, getD_correctionRule]
  unfold afterPass passType
  rw [← plainType_eq]
  rfl

/-! ### Four passes -/

theorem enrichWithin_eq (passes : Nat) (p : Property) :
    enrichWithin config passes p = (afterPass config)^[passes] p := by
  induction passes generalizing p with
  | zero => rfl
  | succ passes ih =>
      have hPass : (applyRules (rules config) p).1 = afterPass config p := fst_applyRules_rules
      unfold enrichWithin
      split
      next p' hChanged =>
        rw [hChanged] at hPass
        rw [ih, Function.iterate_succ_apply, ← hPass]
      next p' hSame =>
        -- A pass in which no rule fits changes nothing, so neither do the passes that are left out.
        obtain rfl := applyRules_of_false hSame
        rw [hSame] at hPass
        exact (Function.iterate_fixed hPass.symm _).symm

/-- The name that is given is settled after one pass. -/
theorem givenName_idem (t : String) :
    givenName config { p with datatype := t, name := givenName config p } = givenName config p := by
  simp only [givenName]
  cases config.nameOverrides.get? p.baseName <;> rfl

theorem iterate_afterPass (passes : Nat) (p : Property) : (afterPass config)^[passes + 1] p =
    { p with datatype := (passType config p)^[passes + 1] p.datatype, name := givenName config p } := by
  induction passes with
  | zero => rfl
  | succ passes ih =>
      rw [Function.iterate_succ_apply', ih, Function.iterate_succ_apply' (passType config p) (passes + 1),
        afterPass, givenName_idem]
      rfl

/-- Refining follows the type for four passes, and gives the field its name. -/
theorem enrich_eq (config : Config) (p : Property) : enrich config p =
    { p with datatype := (passType config p)^[maxPasses] p.datatype, name := givenName config p } := by
  rw [enrich, enrichWithin_eq]
  exact iterate_afterPass 3 p

end Rules

/-! ### What stays -/

section Stays

variable (config : Config) (p : Property)

/-- At most the type and the name of the field differ. -/
def Refines (p p' : Property) : Prop :=
  p' = { p with datatype := p'.datatype, name := p'.name }

theorem enrich_refines : Refines p (enrich config p) := by
  unfold Refines
  rw [enrich_eq]

theorem datatype_enrich_eq : (enrich config p).datatype = (passType config p)^[maxPasses] p.datatype := by
  rw [enrich_eq]

@[simp] theorem baseName_enrich : (enrich config p).baseName = p.baseName := by
  rw [enrich_eq]

@[simp] theorem required_enrich : (enrich config p).required = p.required := by
  rw [enrich_eq]

@[simp] theorem values_enrich : (enrich config p).values = p.values := by
  rw [enrich_eq]

end Stays

end ClientTypes.Resolution
