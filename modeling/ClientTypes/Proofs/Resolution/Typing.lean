import ClientTypes.Proofs.TargetType
import ClientTypes.Proofs.Model.Types
import ClientTypes.Proofs.Resolution.Enrichment
import ClientTypes.Proofs.Resolution.Invariant

/-! The types that resolving leaves. A property is given a type expression over the
names of schemas and of synthetic models, or one of three provisional types, and
refining it takes the provisional types away. A model keeps at most the mark of an
open object, which the name of the model replaces later. -/
namespace ClientTypes.Resolution

open Naming TargetType

/-! ### Refining -/

/-- The corrections are those that hold when nothing else is set. -/
def ShippedCorrections (config : Config) : Prop :=
  config.fieldCorrections = Config.shipped.fieldCorrections

/-- The names are names of models. -/
def AreTypeNames (names : String → Prop) : Prop := ∀ name, names name → IsTypeName name

/-- A property before it is refined: its type is an expression over some names, or one
that refining takes away. -/
inductive Provisional (names : String → Prop) (p : Property) : Prop where
  | typed (hType : IsType names p.datatype)
  | openObject (hType : p.datatype = TargetType.openObject)
  | pointerSized (hType : p.datatype = TargetType.pointerSized)
  | dateTime (hType : p.datatype = qualifiedDateTime) (hFormat : p.dataFormat = some "date-time")
      (hSingle : p.container = none)

variable {names : String → Prop} {config : Config}

theorem Provisional.mono {names' : String → Prop} {p : Property} (h : Provisional names p)
    (hNames : ∀ name, names name → names' name) : Provisional names' p := by
  cases h with
  | typed hType => exact .typed (hType.mono hNames)
  | openObject hType => exact .openObject hType
  | pointerSized hType => exact .pointerSized hType
  | dateTime hType hFormat hSingle => exact .dateTime hType hFormat hSingle

/-- A type over the names is corrected to another. -/
theorem correctedType_isType (hConfig : ShippedCorrections config) (hNames : AreTypeNames names)
    {type : String} (hType : IsType names type) (baseName : String) :
    IsType names (correctedType config baseName type) := by
  unfold correctedType
  cases hFound : config.fieldCorrections.find? (·.fits baseName type) with
  | none => exact hType
  | some c =>
      have hMem := List.mem_of_find?_eq_some hFound
      have hApplies := List.find?_some hFound
      rw [hConfig] at hMem
      simp only [Config.shipped, List.mem_cons, List.not_mem_nil, or_false] at hMem
      rcases hMem with rfl | rfl
      · change IsType names "f32"
        exact .leaf (by decide)
      · obtain rfl : type = "Override" := by simpa [FieldCorrection.fits] using hApplies
        have hName := hType.name_of_not_isBuiltIn (by decide +kernel)
        exact absurd (hNames _ hName) not_isTypeName_override

theorem plainType_isType {type : String} (hType : IsType names type) (p : Property) :
    IsType names (plainType p type) := by
  unfold plainType
  split_ifs
  · exact isType_dateTime
  · exact isType_openMap
  · exact isType_fixedWidth
  · exact hType

/-- What a provisional type stands for is a type over the names. -/
theorem Provisional.plainType {p : Property} (h : Provisional names p) :
    IsType names (plainType p p.datatype) := by
  cases h with
  | typed hType => exact plainType_isType hType p
  | openObject hType =>
      unfold Resolution.plainType
      rw [if_pos hType]
      split_ifs
      · exact isType_dateTime
      · exact isType_openMap
  | pointerSized hType =>
      have hOther : p.datatype ≠ TargetType.openObject := by
        rw [hType]
        decide
      unfold Resolution.plainType
      rw [if_neg hOther, if_pos hType]
      split_ifs
      · exact isType_dateTime
      · exact isType_fixedWidth
  | dateTime _ hFormat hSingle =>
      rw [Resolution.plainType, if_pos ⟨hFormat, hSingle⟩]
      exact isType_dateTime

/-- The first pass takes every provisional type away, and the later ones bring none back. -/
theorem Provisional.enrich (hConfig : ShippedCorrections config) (hNames : AreTypeNames names)
    {p : Property} (h : Provisional names p) : IsType names (enrich config p).datatype := by
  have hCorrect {type : String} (hType : IsType names type) :=
    correctedType_isType hConfig hNames hType p.baseName
  have hPass (type : String) (hType : IsType names type) : IsType names (passType config p type) :=
    hCorrect (plainType_isType hType p)
  rw [datatype_enrich_eq, maxPasses, Function.iterate_succ_apply]
  exact Function.Iterate.rec (IsType names) (hCorrect h.plainType) hPass _

/-- Refining leaves a type alone: the schema has no format of a point in time, and no correction is
set for the type. -/
structure Unrefined (config : Config) (s : Schema) (type : String) : Prop where
  format : s.format ≠ some "date-time"
  corrections : ∀ c ∈ config.fieldCorrections, c.datatype ≠ type

/-- Refining keeps the type of a property that has the name of a model for its type. -/
theorem datatype_enrich {config : Config} {s : Schema} {p : Property}
    (hPlain : Unrefined config s p.datatype) (hName : IsTypeName p.datatype)
    (hFormat : p.dataFormat = s.format) : (enrich config p).datatype = p.datatype := by
  have hSame : plainType p p.datatype = p.datatype := by
    have hOpen : p.datatype ≠ openObject := fun h => absurd (h ▸ hName).head (by simp [openObject])
    have hSized : p.datatype ≠ pointerSized := fun h => absurd (h ▸ hName).head (by simp [pointerSized])
    rw [plainType, if_neg fun hMoment => hPlain.format (hFormat.symm.trans hMoment.1), if_neg hOpen, if_neg hSized]
  have hRests : passType config p p.datatype = p.datatype := by
    rw [passType, hSame, correctedType_of_forall_ne hPlain.corrections]
  rw [datatype_enrich_eq, Function.iterate_fixed hRests]

/-! ### Properties and models -/

/-- The types inside a property, below its own, are expressions over the names. -/
def InsideTyped (names : String → Prop) (p : Property) : Prop :=
  ∀ type ∈ typesInItems p.items ++ typesInProperties p.marks.entries, IsType names type

/-- Every type of a property is an expression over the names. -/
structure PropertyTyped (names : String → Prop) (p : Property) : Prop where
  own : IsType names p.datatype
  inside : InsideTyped names p

/-- The type of a property was found, and the property is not refined yet. -/
structure PropertyFound (names : String → Prop) (p : Property) : Prop where
  own : Provisional names p
  inside : InsideTyped names p

theorem propertyTyped_iff {p : Property} :
    PropertyTyped names p ↔ ∀ type ∈ typesInProperty p, IsType names type := by
  have hTypes : typesInProperty p =
      p.datatype :: (typesInItems p.items ++ typesInProperties p.marks.entries) := by
    obtain ⟨_, _, _, _, _, _, _, _, _, marks⟩ := p
    cases marks
    rfl
  rw [hTypes, List.forall_mem_cons]
  exact ⟨fun h => ⟨h.own, h.inside⟩, fun h => ⟨h.1, h.2⟩⟩

theorem PropertyTyped.item {p item : Property} (h : PropertyTyped names p)
    (hItem : p.items = some item) : PropertyTyped names item := by
  rw [propertyTyped_iff]
  intro type hType
  apply h.inside
  rw [hItem]
  exact List.mem_append_left _ hType

theorem propertiesTyped_iff {ps : List Property} :
    (∀ p ∈ ps, PropertyTyped names p) ↔ ∀ type ∈ typesInProperties ps, IsType names type := by
  simp only [propertyTyped_iff, mem_typesInProperties]
  constructor
  · rintro h type ⟨p, hp, hType⟩
    exact h p hp type hType
  · intro h p hp type hType
    exact h type ⟨p, hp, hType⟩

theorem PropertyTyped.mono {names' : String → Prop} {p : Property} (h : PropertyTyped names p)
    (hNames : ∀ name, names name → names' name) : PropertyTyped names' p :=
  ⟨h.own.mono hNames, fun type hType => (h.inside type hType).mono hNames⟩

theorem PropertyFound.enrich (hConfig : ShippedCorrections config) (hNames : AreTypeNames names)
    {p : Property} (h : PropertyFound names p) : PropertyTyped names (enrich config p) := by
  refine ⟨h.own.enrich hConfig hNames, ?_⟩
  rw [enrich_refines config p]
  exact h.inside

/-- A property without an element and without entries has no types inside. -/
theorem insideTyped_of_bare {p : Property} (hItems : p.items = none)
    (hEntries : p.marks.entries = []) : InsideTyped names p := by
  intro type hType
  rw [hItems, hEntries] at hType
  cases hType

/-- The types of a model are expressions over the names; the mark of an open object may
stand where the name of the model is put later. -/
structure ModelTyped (names : String → Prop) (m : Model) : Prop where
  dataType : ∀ type, m.dataType = some type → type = TargetType.openObject ∨ IsType names type
  containerInner : ∀ type, m.containerInner = some type → IsType names type
  paginationInner : ∀ type, m.marks.paginationInner = some type → IsType names type
  vars : ∀ p ∈ m.vars, PropertyTyped names p

theorem ModelTyped.mono {names' : String → Prop} {m : Model} (h : ModelTyped names m)
    (hNames : ∀ name, names name → names' name) : ModelTyped names' m where
  dataType type hType := (h.dataType type hType).imp_right (·.mono hNames)
  containerInner type hType := (h.containerInner type hType).mono hNames
  paginationInner type hType := (h.paginationInner type hType).mono hNames
  vars p hp := (h.vars p hp).mono hNames

/-- A model that is spelled after its schema and not removed, with the types of a model. -/
structure ModelSound (names : String → Prop) (m : Model) : Prop extends ModelTyped names m where
  spelled : m.classname = typeName m.name
  live : m.removed = false

/-! ### Workspaces -/

/-- The names that types may mention: those of schemas, and of synthetic models so far. -/
def Known (setup : Setup) (w : Workspace) (name : String) : Prop :=
  (∃ e ∈ setup.schemas, name = typeName e.1) ∨ ∃ m ∈ w.synthetic, name = m.classname

/-- Every synthetic model is spelled after its name, and its types mention known names. -/
def Sound (setup : Setup) (w : Workspace) : Prop :=
  ∀ m ∈ w.synthetic, ModelSound (Known setup w) m

variable {setup : Setup} {w w' : Workspace}

theorem Grows.known (h : Grows w w') {name : String} (hName : Known setup w name) :
    Known setup w' name :=
  hName.imp_right fun ⟨m, hMem, hIs⟩ => ⟨m, h.mem hMem, hIs⟩

end ClientTypes.Resolution
