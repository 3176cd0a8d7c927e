import ClientTypes.Proofs.CrossReference.Stubs
import ClientTypes.Proofs.Resolution.Origin

/-! Fields that have to be there. Matching decides which ones by the name of a field, by whether it is required,
and by its type; but its last pass changes types after that, so a flag can be at odds with the type
that the field has in the end. -/
namespace ClientTypes.CrossReference

open Resolution

/-! ### Default values -/

/-- The configuration has a default value for the field, and the field is no enumeration. -/
def HasOwnDefault (config : Config) (p : Property) : Prop :=
  (discriminator? config p.name).isSome = true ∧ hasEnumMembers p = false

instance (config : Config) (p : Property) : Decidable (HasOwnDefault config p) :=
  inferInstanceAs (Decidable (_ ∧ _))

section Default

variable {config : Config} {m : Model} {p : Property} {d : FieldDefault}

theorem hasOwnDefault_iff : HasOwnDefault config p ↔ (defaultOf? config m p).isSome = true := by
  unfold HasOwnDefault defaultOf?
  cases discriminator? config p.name with
  | none => simp
  | some _ => cases hasEnumMembers p <;> simp

/-- A default value is noted under the name of the field. -/
theorem key_of_defaultOf? (h : defaultOf? config m p = some d) : d.key = p.name := by
  cases hFound : discriminator? config p.name with
  | none => simp [defaultOf?, hFound] at h
  | some found =>
      have hField : found.field = p.name := by simpa using List.find?_some hFound
      simp only [defaultOf?, hFound] at h
      split at h
      · cases h
      · cases h
        exact hField

theorem mem_foldl_addDefault {found defaults : List FieldDefault} :
    d ∈ found.foldl addDefault defaults ↔ d ∈ defaults ∨ d ∈ found := by
  induction found generalizing defaults with
  | nil => simp
  | cons first rest ih =>
      have hFirst : d ∈ addDefault defaults first ↔ d ∈ defaults ∨ d = first := by
        unfold addDefault
        split
        next hHeld =>
          refine ⟨Or.inl, fun h => h.elim id ?_⟩
          rintro rfl
          simpa using hHeld
        next => simp
      rw [List.foldl_cons, ih, hFirst, List.mem_cons, or_assoc]

/-- No default value is noted twice. -/
theorem nodup_foldl_addDefault {found defaults : List FieldDefault} (h : defaults.Nodup) :
    (found.foldl addDefault defaults).Nodup := by
  induction found generalizing defaults with
  | nil => exact h
  | cons first rest ih =>
      refine ih ?_
      unfold addDefault
      split
      next => exact h
      next hNew => exact List.nodup_append_comm.mp (List.nodup_cons.mpr ⟨by simpa using hNew, h⟩)

end Default

/-! ### What a flag says -/

/-- The flags of a field of a model follow from its name and from the type: the field has to be there when it has a
default value of its own, or when it is required, of a type with a default value, and in a model that does not
keep its references. -/
structure FlagsFollow (config : Config) (m : Model) (type : String) (p : Property) : Prop where
  required : p.marks.isRequired = true ↔ HasOwnDefault config p ∨
    (p.required = true ∧ type ∉ config.noDefaultTypes ∧ config.keepsReferences m.classname = false)
  apart : ¬ (p.marks.isRequired = true ∧ p.marks.skipsNone = true)
  synthesized : p.marks.hasDefault = true ↔ HasOwnDefault config p
  listed : p.marks.hasDefault = true → ∃ value, p.marks.defaultValue = some value ∧
    (⟨p.name, value⟩ : FieldDefault) ∈ m.marks.defaults

/-- The type decides whether the field has to be there, and of the two types only one has a default value. -/
def Overtaken (config : Config) (m : Model) (type type' : String) (p : Property) : Prop :=
  p.required = true ∧ ¬ HasOwnDefault config p ∧ config.keepsReferences m.classname = false ∧
    ¬ (type ∈ config.noDefaultTypes ↔ type' ∈ config.noDefaultTypes)

instance (config : Config) (m : Model) (type type' : String) (p : Property) :
    Decidable (Overtaken config m type type' p) :=
  inferInstanceAs (Decidable (_ ∧ _ ∧ _ ∧ _))

/-- Flags that follow from one type follow from another exactly when it makes no difference. -/
theorem FlagsFollow.iff_not_overtaken {config : Config} {m : Model} {type : String} {p : Property}
    (h : FlagsFollow config m type p) (type' : String) :
    FlagsFollow config m type' p ↔ ¬ Overtaken config m type type' p := by
  have hSame : FlagsFollow config m type' p ↔
      ((HasOwnDefault config p ∨ (p.required = true ∧ type ∉ config.noDefaultTypes ∧
          config.keepsReferences m.classname = false)) ↔
        (HasOwnDefault config p ∨ (p.required = true ∧ type' ∉ config.noDefaultTypes ∧
          config.keepsReferences m.classname = false))) := by
    rw [← h.required]
    exact ⟨fun h' => h'.required, fun hRequired => { h with required := hRequired }⟩
  rw [hSame, Overtaken]
  tauto

/-! ### The pass that decides -/

section Pass

variable {config : Config} {m : Model} {p : Property}

/-- What is known about a field when default values are given: it is flagged if it has one, and not otherwise. -/
structure Defaulted (config : Config) (m : Model) (p : Property) : Prop where
  unskipped : p.marks.skipsNone = false
  required : p.marks.isRequired = true ↔ HasOwnDefault config p
  synthesized : p.marks.hasDefault = true ↔ HasOwnDefault config p
  listed : p.marks.hasDefault = true → ∃ value, p.marks.defaultValue = some value ∧
    (⟨p.name, value⟩ : FieldDefault) ∈ m.marks.defaults

/-- A field that nothing was decided about gets the default value that its model notes. -/
theorem markDefault_defaulted {m' : Model} (h : flags p = noFlags)
    (hListed : ∀ d, defaultOf? config m p = some d → d ∈ m'.marks.defaults) :
    Defaulted config m' (markDefault config m p) := by
  simp only [flags, Prod.mk.injEq] at h
  obtain ⟨hRequired, hDefault, hSkips⟩ := h
  cases hOwn : defaultOf? config m p with
  | none =>
      have hNone : ¬ HasOwnDefault config p := by simp [hasOwnDefault_iff (m := m), hOwn]
      cases hFound : discriminator? config p.name
      all_goals
        simp only [markDefault, hFound, hOwn]
        exact ⟨hSkips, iff_of_false (by simp [hRequired]) hNone, iff_of_false (by simp [hDefault]) hNone,
          by simp [hDefault]⟩
  | some d =>
      have hSome : HasOwnDefault config p := by simp [hasOwnDefault_iff (m := m), hOwn]
      obtain ⟨found, hFound⟩ := Option.isSome_iff_exists.mp hSome.1
      simp only [markDefault, hFound, hOwn]
      refine ⟨hSkips, iff_of_true rfl hSome, iff_of_true rfl hSome, fun _ => ⟨d.value, rfl, ?_⟩⟩
      exact key_of_defaultOf? hOwn ▸ hListed d hOwn

/-- The type decides about the fields that have no default value of their own. -/
theorem Defaulted.markOptional (h : Defaulted config m p) :
    FlagsFollow config m p.datatype (markOptional config m.classname p) := by
  have hType : (!config.noDefaultTypes.contains p.datatype && !config.keepsReferences m.classname) = true ↔
      p.datatype ∉ config.noDefaultTypes ∧ config.keepsReferences m.classname = false := by simp
  have hApart : ¬ p.marks.skipsNone = true := by simp [h.unskipped]
  unfold CrossReference.markOptional
  -- A field that is not required, and has no default value of its own, is the only one that may be left out.
  split_ifs with hGiven hMatters hFlagged
  · exact ⟨iff_of_true rfl (Or.inr ⟨hGiven, hType.mp hMatters⟩), fun hBoth => hApart hBoth.2, h.synthesized, h.listed⟩
  · refine ⟨h.required.trans ?_, fun hBoth => hApart hBoth.2, h.synthesized, h.listed⟩
    exact ⟨Or.inl, fun hEither => hEither.resolve_right fun hOther => hMatters (hType.mpr hOther.2)⟩
  · exact ⟨iff_of_true hFlagged (Or.inl (h.required.mp hFlagged)), fun hBoth => hApart hBoth.2,
      h.synthesized, h.listed⟩
  · refine ⟨iff_of_false hFlagged ?_, fun hBoth => hFlagged hBoth.1, h.synthesized, h.listed⟩
    exact fun hEither => hEither.elim (mt h.required.mpr hFlagged) fun hOther => hGiven hOther.1

theorem datatype_markOptional (config : Config) (classname : String) (p : Property) :
    (markOptional config classname p).datatype = p.datatype := by
  unfold markOptional
  split_ifs <;> rfl

/-- The flags of a live model follow from the types that its fields have by then, and no default value of the model is
noted twice. -/
theorem applyDefaults_follows (hLive : m.removed = false) (h : Undecided m) :
    (applyDefaults config m).marks.defaults.Nodup ∧
      ∀ p ∈ (applyDefaults config m).vars, FlagsFollow config (applyDefaults config m) p.datatype p := by
  rw [applyDefaults, if_neg (by simp [hLive])]
  constructor
  · exact nodup_foldl_addDefault (h.defaults ▸ List.nodup_nil)
  · intro p hp
    obtain ⟨defaulted, hDefaulted, rfl⟩ := List.mem_map.mp hp
    obtain ⟨before, hBefore, rfl⟩ := List.mem_map.mp hDefaulted
    rw [datatype_markOptional]
    refine Defaulted.markOptional (m := deoptionalize config (synthesizeDefaults config m))
      (markDefault_defaulted (h.fields before hBefore) fun d hOwn => ?_)
    exact mem_foldl_addDefault.mpr (Or.inr (List.mem_filterMap.mpr ⟨before, hBefore, hOwn⟩))

end Pass

/-! ### Passes before it -/

/-- A pass that decides nothing about fields. -/
theorem undecided_of_sameFlags {m m' : Model} (h : Undecided m)
    (hVars : ∃ f : Property → Property, m'.vars = m.vars.map f ∧ ∀ p, flags (f p) = flags p)
    (hDefaults : m'.marks.defaults = m.marks.defaults) : Undecided m' := by
  obtain ⟨f, hMap, hSame⟩ := hVars
  refine ⟨?_, hDefaults.trans h.defaults⟩
  rw [hMap, List.forall_mem_map]
  exact fun p hp => (hSame p).trans (h.fields p hp)

theorem classify_undecided (m : Model) (h : Undecided m) : Undecided (classify m) :=
  have ⟨hVars, _, hDefaults⟩ := classify_leaves m
  undecided_of_sameFlags h ⟨markProperty, hVars, fun _ => rfl⟩ hDefaults

theorem flags_mapProperty (onType : String → String) (onValues : AllowableValues → AllowableValues)
    (p : Property) : flags (mapProperty onType onValues p) = flags p := by
  cases p
  rfl

theorem renameTypes_undecided (renames : Table String String) (shown : Nat → Nat) (m : Model)
    (h : Undecided m) : Undecided (renameTypes renames shown m) :=
  undecided_of_sameFlags h ⟨_, mapProperties_eq_map _ _ _, flags_mapProperty _ _⟩ rfl

/-- The flags of live models before the last pass. -/
theorem beforeStubs_follows (config : Config) (hints : Hints) {r : Registry}
    (h : ∀ m ∈ r.models, Undecided m) : ∀ m ∈ beforeStubs config hints r, m.removed = false →
      m.marks.defaults.Nodup ∧ ∀ p ∈ m.vars, FlagsFollow config m p.datatype p := by
  have hPrune (m : Model) (hm : Undecided m) : Undecided (prune hints m) := by
    rw [prune_eq]
    exact ⟨hm.fields, hm.defaults⟩
  have hRelabel (m m' : Model) (hSame : Relabelled m m') (hm : Undecided m) : Undecided m' := by
    rw [hSame]
    exact ⟨hm.fields, hm.defaults⟩
  -- Nothing is decided before classnames and types have their new names.
  have hRenamed := forall_renamed classify_undecided hPrune hRelabel renameTypes_undecided h
  simp only [beforeStubs, List.forall_mem_map]
  intro m hm hLive
  exact applyDefaults_follows ((applyDefaults_standing config m).removed.symm.trans hLive) (hRenamed m hm)

/-! ### The last pass -/

/-- What the last pass leaves of the flags of a live model: they follow from the types before it, and from the types
after it wherever it makes no difference. -/
structure FlagsKept (config : Config) (live : List String) (m m' : Model) : Prop where
  classname : m'.classname = m.classname
  distinct : m'.marks.defaults.Nodup
  fields : List.Forall₂ (fun p p' =>
    p' = unstubField config live m'.classname p ∧ FlagsFollow config m' p.datatype p' ∧
      (FlagsFollow config m' p'.datatype p' ↔ ¬ Overtaken config m' p.datatype p'.datatype p')) m.vars m'.vars

/-- Flags do not matter to the last pass, nor it to them. -/
theorem FlagsFollow.unstubField {config : Config} {m : Model} {type : String} {p : Property}
    (h : FlagsFollow config m type p) (live : List String) (classname : String) :
    FlagsFollow config m type (unstubField config live classname p) := by
  unfold CrossReference.unstubField unstubProperty
  repeat' split
  · exact h
  all_goals exact ⟨h.required, h.apart, h.synthesized, h.listed⟩

theorem FlagsFollow.congr {config : Config} {m m' : Model} {type : String} {p : Property}
    (h : FlagsFollow config m type p) (hClassname : m'.classname = m.classname)
    (hDefaults : m'.marks.defaults = m.marks.defaults) : FlagsFollow config m' type p where
  required := hClassname ▸ h.required
  apart := h.apart
  synthesized := h.synthesized
  listed := hDefaults ▸ h.listed

theorem unstubModel_flagsKept {config : Config} (live : List String) {m : Model} (hLive : m.removed = false)
    (hDistinct : m.marks.defaults.Nodup) (hFollow : ∀ p ∈ m.vars, FlagsFollow config m p.datatype p) :
    FlagsKept config live m (unstubModel config live m) := by
  have hClassname := classname_unstubModel config live m
  obtain ⟨hVars, hMarks⟩ := unstubModel_live config live hLive
  refine ⟨hClassname, hMarks ▸ hDistinct, ?_⟩
  rw [hVars, hClassname, List.forall₂_map_right_iff]
  refine List.forall₂_same.mpr fun p hp => ?_
  -- The type is that of the field before the pass, which is where the flags come from.
  have hKept := ((hFollow p hp).unstubField live m.classname).congr hClassname (by rw [hMarks])
  exact ⟨rfl, hKept, hKept.iff_not_overtaken _⟩

theorem run_flagsKept (config : Config) (hints : Hints) {r : Registry} (hFresh : r.crossReferenced = false)
    (h : ∀ m ∈ r.models, Undecided m) :
    let models := (run config hints r).registry.models
    List.Forall₂ (fun m m' => m'.removed = m.removed ∧
        (m'.removed = false → FlagsKept config (liveNames models) m m')) (beforeStubs config hints r) models :=
  run_lastPass (R := fun live m m' => m'.removed = m.removed ∧ (m'.removed = false → FlagsKept config live m m'))
    config hints hFresh fun live m hm => by
      have hRemoved := (unstubModel_standing config live m).removed
      refine ⟨hRemoved, fun hStays => ?_⟩
      have hLive := hRemoved.symm.trans hStays
      obtain ⟨hDistinct, hFollow⟩ := beforeStubs_follows config hints h m hm hLive
      exact unstubModel_flagsKept live hLive hDistinct hFollow

end ClientTypes.CrossReference
