import ClientTypes.Proofs.Resolution.ResolverShape

/-! What resolving builds has types over known names, if the corrections of types are those
that hold when nothing else is set. -/
namespace ClientTypes.Resolution

open Naming TargetType

variable {config : Config} {names : String → Prop}

/-- Spelling the type of an entry as the name of a model keeps it: a type that is not
built in is such a name already. -/
theorem PropertyTyped.spelledEntry (hNames : AreTypeNames names) {p : Property}
    (h : PropertyTyped names p) : PropertyTyped names (spelledEntry p) := by
  unfold Resolution.spelledEntry
  split
  next hOther =>
    have hName : names p.datatype := h.own.name_of_not_isBuiltIn (by simpa using hOther.2)
    refine ⟨?_, h.inside⟩
    dsimp only
    rw [(hNames _ hName).typeName_eq]
    exact h.own
  next => exact h

/-- An element that is typed is typed under the names of its container. -/
theorem insideTyped_of_item {p item : Property} (h : PropertyTyped names item)
    (hItems : p.items = some { item with baseName := p.baseName, name := p.name })
    (hEntries : p.marks.entries = []) : InsideTyped names p := by
  have hNamed : PropertyTyped names { item with baseName := p.baseName, name := p.name } :=
    ⟨h.own, h.inside⟩
  have hTypes := propertyTyped_iff.mp hNamed
  rw [InsideTyped, hItems, hEntries]
  simpa [typesInItems, typesInProperties] using hTypes

theorem Built.typed (hConfig : ShippedCorrections config) (hNames : AreTypeNames names)
    {p : Property} (h : Built config names p) : PropertyTyped names p := by
  have hFound {p : Property} (hFound : PropertyFound names p) := hFound.enrich hConfig hNames
  induction h with
  | single hType hContainer hItems hEntries =>
      exact hFound ⟨hType, insideTyped_of_bare hItems hEntries⟩
  | array _ hContainer hItems hType hEntries ih =>
      exact hFound ⟨.typed (hType ▸ .list ih.own), insideTyped_of_item ih hItems hEntries⟩
  | map _ hContainer hItems hType hEntries ih =>
      exact hFound ⟨.typed (hType ▸ .map ih.own), insideTyped_of_item ih hItems hEntries⟩
  | openMap hContainer hItems hType _ ih =>
      refine hFound ⟨.typed (hType ▸ isType_openMap), ?_⟩
      rw [InsideTyped, hItems]
      exact propertiesTyped_iff.mp ih
  | spelled _ ih => exact ih.spelledEntry hNames

/-- The first list among typed properties has elements of a type. -/
theorem isType_firstListType? {vars : List Property} (hVars : ∀ p ∈ vars, PropertyTyped names p)
    {type : String} (hFirst : firstListType? vars = some type) : IsType names type := by
  obtain ⟨p, hMem, hFound⟩ := List.exists_of_findSome?_eq_some hFirst
  split at hFound
  · obtain ⟨item, hItem, rfl⟩ := Option.map_eq_some_iff.mp hFound
    exact ((hVars p hMem).item hItem).own
  · cases hFound

theorem PropertyTyped.element {p : Property} (h : PropertyTyped names p) :
    IsType names ((p.items.map (·.datatype)).getD fallback) := by
  cases hItems : p.items with
  | none => exact isType_fallback
  | some item => exact (h.item hItems).own

theorem BuiltModel.typed (hConfig : ShippedCorrections config) (hNames : AreTypeNames names)
    {m : Model} (h : BuiltModel config names m) : ModelTyped names m := by
  have hVars : ∀ p ∈ m.vars, PropertyTyped names p := fun p hp => (h.vars p hp).typed hConfig hNames
  cases h.standsFor with
  | nothing hType hContainer hInner hPage =>
      exact ⟨by simp [hType], by simp [hInner], by simp [hPage], hVars⟩
  | object hType hContainer hInner hPage =>
      exact ⟨by simp [hType], by simp [hInner],
        fun _ hIs => isType_firstListType? hVars (hPage _ hIs), hVars⟩
  | value hBuilt hType hContainer hInner hPage =>
      have hOwn := (hBuilt.typed hConfig hNames).own
      exact ⟨by simp [hType, hOwn], by simp [hInner], by simp [hPage], hVars⟩
  | openMap hType hContainer hInner hPage =>
      exact ⟨by simp [hType, isType_openMap], by simp [hInner, isType_fallback], by simp [hPage], hVars⟩
  | container hBuilt hType hContainer hInner hPage =>
      have hWhole := hBuilt.typed hConfig hNames
      exact ⟨by simp [hType, hWhole.own], by rw [hInner]; simpa using hWhole.element,
        by simp [hPage], hVars⟩

theorem BuiltModel.sound (hConfig : ShippedCorrections config) (hNames : AreTypeNames names)
    {m : Model} (h : BuiltModel config names m) : ModelSound names m :=
  ⟨h.typed hConfig hNames, h.spelled, h.live⟩

theorem AllBuilt.sound {setup : Setup} {w : Workspace} (h : AllBuilt setup w)
    (hConfig : ShippedCorrections setup.config) : Sound setup w :=
  fun m hm => (h m hm).sound hConfig h.areTypeNames

end ClientTypes.Resolution
