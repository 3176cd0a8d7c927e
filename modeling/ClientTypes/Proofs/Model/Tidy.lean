import ClientTypes.Proofs.Model.Containers

/-! Tidy models. The fields of a model are told apart by the names that are sent, and so are the
entries of a map; values are members of an enumeration or arms of a union, and never both. -/
namespace ClientTypes

open CrossReference

/-! ### Values and properties -/

/-- An enumeration has no arms, and a union has no members. -/
structure AllowableValues.OfOneKind (v : AllowableValues) : Prop where
  enum : v.kind = .enum → v.variants = []
  union : v.kind ≠ .enum → v.enumMembers = []

theorem AllowableValues.OfOneKind.of_arms {v : AllowableValues} (hUnion : v.isUnion = true)
    (hBare : v.enumMembers = []) : v.OfOneKind := by
  refine ⟨fun hEnum => ?_, fun _ => hBare⟩
  simp [isUnion, hEnum] at hUnion

theorem AllowableValues.OfOneKind.shared {v : AllowableValues} (h : v.OfOneKind) (number : Option Nat) :
    OfOneKind { v with sharedList := number } := ⟨h.enum, h.union⟩

theorem AllowableValues.OfOneKind.renameValues {v : AllowableValues} (h : v.OfOneKind)
    (renames : Table String String) (shown : Nat → Nat) : (renameValues renames shown v).OfOneKind :=
  ⟨fun hEnum => by simp [CrossReference.renameValues, h.enum hEnum], h.union⟩

/-- Documented entries are sent under different names, and the values are of one kind. -/
structure Tidy (p : Property) : Prop where
  entries : (p.marks.entries.map (·.baseName)).Nodup
  values : ∀ v, p.values = some v → v.OfOneKind

/-- Other types, names and marks leave everything inside a property tidy. -/
theorem throughout_tidy_congr {p p' : Property} (h : Throughout Tidy p)
    (hItems : p'.items = p.items) (hValues : p'.values = p.values)
    (hEntries : p'.marks.entries = p.marks.entries) : Throughout Tidy p' := by
  have hOwn := (throughout_iff.mp h).1
  refine h.congr ⟨?_, ?_⟩ hItems hEntries
  · rw [hEntries]
    exact hOwn.entries
  · rw [hValues]
    exact hOwn.values

@[simp] theorem baseName_mapProperty (onType : String → String)
    (onValues : AllowableValues → AllowableValues) (p : Property) :
    (mapProperty onType onValues p).baseName = p.baseName := by
  cases p
  rfl

@[simp] theorem values_mapProperty (onType : String → String)
    (onValues : AllowableValues → AllowableValues) (p : Property) :
    (mapProperty onType onValues p).values = p.values.map onValues := by
  cases p
  rfl

theorem Tidy.mapProperty {onType : String → String} {onValues : AllowableValues → AllowableValues}
    (hValues : ∀ v : AllowableValues, v.OfOneKind → (onValues v).OfOneKind) {p : Property}
    (h : Tidy p) : Tidy (mapProperty onType onValues p) := by
  refine ⟨?_, fun v hv => ?_⟩
  · simpa [Function.comp_def] using h.entries
  · rw [values_mapProperty] at hv
    obtain ⟨before, hBefore, rfl⟩ := Option.map_eq_some_iff.mp hv
    exact hValues before (h.values before hBefore)

/-! ### Models -/

/-- Each field of a model is tidy, at any depth, and so are the values of the model. -/
structure TidyInside (m : Model) : Prop where
  inside : ∀ p ∈ m.vars, Throughout Tidy p
  values : ∀ v, m.values = some v → v.OfOneKind

/-- What a model contains is tidy: its fields are sent under different names besides. -/
structure TidyContent (m : Model) : Prop extends TidyInside m where
  fields : (m.vars.map (·.baseName)).Nodup

/-- A model is tidy: in what it contains, and in what its marks say. An enumeration has no fields and is
marked as one, and a model that was not resolved has no fields. -/
structure TidyModel (m : Model) : Prop extends TidyContent m where
  enumBare : m.isEnum = true → m.vars = []
  enumMark : m.marks.isEnum = m.isEnum
  placeholderBare : m.marks.placeholder = true → m.vars = []
  failedBare : m.marks.resolutionFailed = true → m.vars = []

/-- The change keeps the name that a field is sent under, and leaves everything inside tidy. -/
def KeepsField (f : Property → Property) : Prop :=
  ∀ p, Throughout Tidy p → (f p).baseName = p.baseName ∧ Throughout Tidy (f p)

namespace TidyContent

variable {m m' : Model} (h : TidyContent m)

include h

theorem congr (hVars : m'.vars = m.vars) (hValues : m'.values = m.values) : TidyContent m' := by
  refine ⟨⟨?_, ?_⟩, ?_⟩
  · rw [hVars]
    exact h.inside
  · rw [hValues]
    exact h.values
  · rw [hVars]
    exact h.fields

/-- A pass over the fields. -/
theorem mapVars {f : Property → Property} (hf : KeepsField f) :
    TidyContent { m with vars := m.vars.map f } := by
  have hNames : (m.vars.map f).map (·.baseName) = m.vars.map (·.baseName) := by
    rw [List.map_map]
    exact List.map_congr_left fun p hp => (hf p (h.inside p hp)).1
  refine ⟨⟨?_, h.values⟩, ?_⟩
  · simp only [List.forall_mem_map]
    exact fun p hp => (hf p (h.inside p hp)).2
  · rw [hNames]
    exact h.fields

end TidyContent

end ClientTypes
