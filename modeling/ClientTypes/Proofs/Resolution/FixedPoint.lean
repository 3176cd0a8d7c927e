import ClientTypes.Proofs.Resolution.Enrichment
import ClientTypes.Config.Reader

/-! Where refining ends. It ends where no rule changes anything exactly when one of the types on the way is at
rest; corrections may lead in circles, or further than four passes. -/
namespace ClientTypes.Resolution

open TargetType

section Rules

variable {config : Config} {p : Property}

/-! ### Rest -/

/-- No rule changes the property. A rule may fit and give what is there already. -/
def Settled (config : Config) (p : Property) : Prop := ∀ rule ∈ rules config, (rule p).getD p = p

/-- A type of the property that no rule changes. -/
def AtRest (config : Config) (p : Property) (type : String) : Prop :=
  plainType p type = type ∧ correctedType config p.baseName type = type

theorem retyped_eq_iff {type : String} : { p with datatype := type } = p ↔ type = p.datatype := by
  cases p
  simp

theorem renamed_eq_iff {name : String} : { p with name := name } = p ↔ name = p.name := by
  cases p
  simp

theorem plainType_eq_iff {type : String} : plainType p type = type ↔
    type ≠ openObject ∧ (IsMoment p → type = dateTime) ∧ type ≠ pointerSized := by
  unfold plainType
  by_cases hMoment : IsMoment p
  · rw [if_pos hMoment]
    constructor
    · rintro rfl
      exact ⟨by decide, fun _ => rfl, by decide⟩
    · exact fun h => (h.2.1 hMoment).symm
  · rw [if_neg hMoment]
    split
    next hObject => simp [hObject, openMap, openObject]
    next hObject =>
      split
      next hPointer => simp [hPointer, pointerSized]
      next hPointer => simp [hObject, hPointer, hMoment]

theorem settled_iff : Settled config p ↔ AtRest config p p.datatype ∧ p.name = givenName config p := by
  have hAway {type other : String} (h : other ≠ type) :
      (p.datatype = type → other = p.datatype) ↔ p.datatype ≠ type :=
    ⟨fun hTo hIs => h ((hTo hIs).trans hIs), fun hNot hIs => absurd hIs hNot⟩
  simp only [Settled, rules, List.forall_mem_cons, List.not_mem_nil, false_imp_iff, implies_true, and_true,
    getD_openObjectRule, getD_dateTimeRule, getD_fixedWidthRule, getD_nameRule, getD_correctionRule,
    retyped_eq_iff, renamed_eq_iff, AtRest, plainType_eq_iff, ite_eq_right_iff]
  rw [hAway (by decide : openMap ≠ openObject), hAway (by decide : "i64" ≠ pointerSized)]
  rw [@eq_comm _ dateTime, @eq_comm _ (givenName config p)]
  constructor
  · rintro ⟨hObject, hMoment, hPointer, hName, hCorrected⟩
    exact ⟨⟨⟨hObject, hMoment, hPointer⟩, hCorrected⟩, hName⟩
  · rintro ⟨⟨⟨hObject, hMoment, hPointer⟩, hCorrected⟩, hName⟩
    exact ⟨hObject, hMoment, hPointer, hName, hCorrected⟩

theorem plainType_plainType (type : String) : plainType p (plainType p type) = plainType p type := by
  by_cases hMoment : IsMoment p
  · simp [plainType, hMoment]
  · by_cases hObject : type = openObject
    · simp [plainType, hMoment, hObject, openMap, openObject, pointerSized]
    · by_cases hPointer : type = pointerSized
      · simp [plainType, hMoment, hPointer, openObject, pointerSized]
      · simp [plainType, hMoment, hObject, hPointer]

theorem AtRest.passType {type : String} (h : AtRest config p type) : passType config p type = type := by
  rw [Resolution.passType, h.1, h.2]

/-- Refining leaves a settled property as it is. -/
theorem enrich_of_settled (h : Settled config p) : enrich config p = p := by
  obtain ⟨hType, hName⟩ := settled_iff.mp h
  rw [enrich_eq, Function.iterate_fixed hType.passType, ← hName]
  cases p
  rfl

theorem settled_enrich_iff :
    Settled config (enrich config p) ↔ AtRest config p ((passType config p)^[maxPasses] p.datatype) := by
  rw [settled_iff, enrich_eq]
  exact and_iff_left (givenName_idem _).symm

/-- A type that comes to rest within the passes is the last one. -/
theorem iterate_passType_of_atRest {passes : Nat} (hLe : passes ≤ maxPasses) {type : String}
    (h : AtRest config p ((passType config p)^[passes] type)) :
    (passType config p)^[maxPasses] type = (passType config p)^[passes] type := by
  obtain ⟨more, hMore⟩ := Nat.exists_eq_add_of_le' hLe
  rw [hMore, Function.iterate_add_apply, Function.iterate_fixed h.passType]

/-- Every pass over a moment gives it the same type. -/
theorem passType_of_moment (h : IsMoment p) (type : String) :
    passType config p type = correctedType config p.baseName dateTime := by
  rw [passType, plainType, if_pos h]

theorem enrich_of_moment (h : IsMoment p) : enrich config p =
    { p with datatype := correctedType config p.baseName dateTime, name := givenName config p } := by
  rw [enrich_eq, maxPasses, Function.iterate_succ_apply', passType_of_moment h]

/-- So refining a moment a second time changes nothing. -/
theorem enrich_enrich_of_moment (h : IsMoment p) : enrich config (enrich config p) = enrich config p := by
  have hRefined : IsMoment (enrich config p) := by rwa [enrich_eq]
  rw [enrich_of_moment hRefined, enrich_of_moment h, givenName_idem]

theorem settled_enrich_of_moment (h : IsMoment p) :
    Settled config (enrich config p) ↔ correctedType config p.baseName dateTime = dateTime := by
  rw [settled_enrich_iff, maxPasses, Function.iterate_succ_apply', passType_of_moment h, AtRest, plainType, if_pos h]
  constructor
  · exact fun hRest => hRest.1.symm
  · intro hSame
    rw [hSame]
    exact ⟨rfl, hSame⟩

end Rules

/-! ### The shipped corrections -/

theorem correctedType_shipped (baseName type : String) : correctedType Config.shipped baseName type =
    if type = "i64" ∧ baseName = "score" then "f32" else if type = "Override" then "ModelOverride" else type := by
  have hCorrections : Config.shipped.fieldCorrections =
      [⟨"i64", "f32", some "score"⟩, ⟨"Override", "ModelOverride", none⟩] := rfl
  rw [correctedType, hCorrections]
  by_cases hPoints : type = "i64" ∧ baseName = "score"
  · obtain ⟨rfl, rfl⟩ := hPoints
    rfl
  · have hFits : ((⟨"i64", "f32", some "score"⟩ : FieldCorrection).fits baseName type) = false := by
      simpa [FieldCorrection.fits, @eq_comm _ "score" baseName] using hPoints
    rw [if_neg hPoints, List.find?_cons_of_neg (by simp [hFits])]
    by_cases hOverride : type = "Override"
    · subst hOverride
      rfl
    · rw [if_neg hOverride, List.find?_cons_of_neg (by simp [FieldCorrection.fits, hOverride])]
      rfl

/-- With the shipped corrections, one pass is enough. -/
theorem settled_enrich_shipped (p : Property) : Settled Config.shipped (enrich Config.shipped p) := by
  have hRest : AtRest Config.shipped p (passType Config.shipped p p.datatype) := by
    simp only [AtRest, passType, plainType_eq_iff, correctedType_shipped]
    by_cases hMoment : IsMoment p
    · simp [plainType, hMoment, dateTime, openObject, pointerSized]
    · have hPlain := plainType_plainType (p := p) p.datatype
      rw [plainType_eq_iff] at hPlain
      generalize plainType p p.datatype = type at hPlain
      by_cases hPoints : type = "i64" ∧ p.baseName = "score"
      · simp [hPoints, hMoment, openObject, pointerSized]
      · by_cases hOverride : type = "Override"
        · simp [hOverride, hMoment, openObject, pointerSized]
        · simp [hPoints, hOverride, hMoment, hPlain]
  rw [settled_enrich_iff, iterate_passType_of_atRest (by decide : 1 ≤ maxPasses) hRest]
  exact hRest

/-! ### Refining again -/

/-- Refining ends where no rule changes anything exactly when one of the first four passes brings the type to
rest, and then refining again changes nothing either. A moment is at rest when no correction changes the type of
a point in time; refining one again never changes it. -/
theorem enrich_settled_iff (config : Config) (p : Property) :
    (Settled config (enrich config p) ↔
      ∃ passes ≤ maxPasses, AtRest config p ((passType config p)^[passes] p.datatype)) ∧
    (Settled config (enrich config p) ∨ IsMoment p → enrich config (enrich config p) = enrich config p) ∧
    (IsMoment p → (Settled config (enrich config p) ↔ correctedType config p.baseName dateTime = dateTime)) := by
  refine ⟨?_, ?_, settled_enrich_of_moment⟩
  · rw [settled_enrich_iff]
    constructor
    · exact fun hRest => ⟨maxPasses, Nat.le_refl _, hRest⟩
    · rintro ⟨passes, hLe, hRest⟩
      rwa [iterate_passType_of_atRest hLe hRest]
  · rintro (hSettled | hMoment)
    · exact enrich_of_settled hSettled
    · exact enrich_enrich_of_moment hMoment

/-- Points come to rest in two passes, as a number with a fraction. -/
theorem enrich_settled_iff_score :
    let score : Property := { baseName := "score", name := "score", datatype := pointerSized }
    let points : Property := { score with datatype := "f32" }
    enrich Config.shipped score = points ∧ Settled Config.shipped points ∧
      enrich Config.shipped points = points := by
  intro score points
  have hPoints : enrich Config.shipped score = points := rfl
  obtain ⟨hIff, hAgain, -⟩ := enrich_settled_iff Config.shipped score
  have hSettled := hIff.mpr ⟨1, by decide, by decide, rfl⟩
  have hFixed := hAgain (Or.inl hSettled)
  rw [hPoints] at hSettled hFixed
  exact ⟨hPoints, hSettled, hFixed⟩

/-- The settings that correct types, whatever the names of their properties. -/
def correcting (changes : List (String × String)) : List (Scalar × Value) :=
  [(.text "field_corrections", .list (changes.map fun (old, new) =>
    .record [("datatype", .text old), ("replacement", .text new)]))]

/-- Corrections may lead in a circle, or from type to type for more than four passes, and a point in time may
be corrected: each time, refining ends with a type that the rules change. -/
theorem enrich_restless :
    (∃ circle, Config.ofSettings (correcting [("Cat", "Dog"), ("Dog", "Fox"), ("Fox", "Cat")]) = .ok circle ∧
      let pet : Property := { baseName := "pet", name := "pet", datatype := "Cat" }
      (enrich circle pet).datatype = "Dog" ∧ (enrich circle (enrich circle pet)).datatype = "Fox" ∧
      ¬ Settled circle (enrich circle pet)) ∧
    (∃ chain, Config.ofSettings
        (correcting [("Ant", "Bee"), ("Bee", "Cat"), ("Cat", "Dog"), ("Dog", "Eel"), ("Eel", "Fox")]) = .ok chain ∧
      let pet : Property := { baseName := "pet", name := "pet", datatype := "Ant" }
      (enrich chain pet).datatype = "Eel" ∧ (enrich chain (enrich chain pet)).datatype = "Fox" ∧
      ¬ Settled chain (enrich chain pet)) ∧
    ∃ texts, Config.ofSettings (correcting [(dateTime, "String")]) = .ok texts ∧
      let born : Property :=
        { baseName := "born", name := "born", datatype := "String", dataFormat := some "date-time" }
      (enrich texts born).datatype = "String" ∧ ¬ Settled texts (enrich texts born) := by
  refine ⟨⟨_, rfl, ?_⟩, ⟨_, rfl, ?_⟩, ⟨_, rfl, ?_⟩⟩
  · exact ⟨rfl, rfl, fun h => absurd (congrArg Property.datatype (enrich_of_settled h)) (by decide +kernel)⟩
  · exact ⟨rfl, rfl, fun h => absurd (congrArg Property.datatype (enrich_of_settled h)) (by decide +kernel)⟩
  · refine ⟨rfl, ?_⟩
    rw [settled_enrich_of_moment ⟨rfl, rfl⟩]
    decide +kernel

end ClientTypes.Resolution
