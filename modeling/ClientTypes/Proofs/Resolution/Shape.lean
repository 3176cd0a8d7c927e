import ClientTypes.Proofs.Resolution.Typing

/-! The shape of what resolving builds, whatever the configuration: a property is a single
value, a list, a map of one element or an open map, and was refined right after its type
was found. A model stands for one of a few things, and is spelled after its schema. -/
namespace ClientTypes.Resolution

open Naming TargetType

variable {config : Config} {names names' : String → Prop}

/-! ### Properties -/

/-- The properties that resolving builds. An element carries the names of its container, and
an entry of an open map is spelled as the name of a model. -/
inductive Built (config : Config) (names : String → Prop) : Property → Prop where
  | single {p : Property} (hType : Provisional names p) (hContainer : p.container = none)
      (hItems : p.items = none) (hEntries : p.marks.entries = []) :
      Built config names (enrich config p)
  | array {p item : Property} (hItem : Built config names item) (hContainer : p.container = some .array)
      (hItems : p.items = some { item with baseName := p.baseName, name := p.name })
      (hType : p.datatype = listOf item.datatype) (hEntries : p.marks.entries = []) :
      Built config names (enrich config p)
  | map {p item : Property} (hItem : Built config names item) (hContainer : p.container = some .map)
      (hItems : p.items = some { item with baseName := p.baseName, name := p.name })
      (hType : p.datatype = mapOf item.datatype) (hEntries : p.marks.entries = []) :
      Built config names (enrich config p)
  | openMap {p : Property} (hContainer : p.container = some .map) (hItems : p.items = none)
      (hType : p.datatype = TargetType.openMap)
      (hEntries : ∀ e ∈ p.marks.entries, Built config names e) : Built config names (enrich config p)
  | spelled {p : Property} (hBuilt : Built config names p) : Built config names (spelledEntry p)

theorem Built.mono {p : Property} (h : Built config names p)
    (hNames : ∀ name, names name → names' name) : Built config names' p := by
  induction h with
  | single hType hContainer hItems hEntries =>
      exact .single (hType.mono hNames) hContainer hItems hEntries
  | array _ hContainer hItems hType hEntries ih => exact .array ih hContainer hItems hType hEntries
  | map _ hContainer hItems hType hEntries ih => exact .map ih hContainer hItems hType hEntries
  | openMap hContainer hItems hType _ ih => exact .openMap hContainer hItems hType ih
  | spelled _ ih => exact .spelled ih

/-! ### Models -/

/-- What a model stands for. -/
inductive StandsFor (config : Config) (names : String → Prop) (m : Model) : Prop where
  | nothing (hType : m.dataType = none) (hContainer : m.container = none)
      (hInner : m.containerInner = none) (hPage : m.marks.paginationInner = none)
  | object (hType : m.dataType = some TargetType.openObject) (hContainer : m.container = none)
      (hInner : m.containerInner = none)
      (hPage : ∀ type, m.marks.paginationInner = some type → firstListType? m.vars = some type)
  | value {p : Property} (hBuilt : Built config names p) (hType : m.dataType = some p.datatype)
      (hContainer : m.container = none) (hInner : m.containerInner = none)
      (hPage : m.marks.paginationInner = none)
  | openMap (hType : m.dataType = some TargetType.openMap) (hContainer : m.container = some .map)
      (hInner : m.containerInner = some fallback) (hPage : m.marks.paginationInner = none)
  | container {p : Property} (hBuilt : Built config names p) (hType : m.dataType = some p.datatype)
      (hContainer : m.container = p.container)
      (hInner : m.containerInner = some ((p.items.map (·.datatype)).getD fallback))
      (hPage : m.marks.paginationInner = none)

/-- The models that resolving builds. -/
structure BuiltModel (config : Config) (names : String → Prop) (m : Model) : Prop where
  spelled : m.classname = typeName m.name
  live : m.removed = false
  vars : ∀ p ∈ m.vars, Built config names p
  standsFor : StandsFor config names m

theorem StandsFor.mono {m : Model} (h : StandsFor config names m)
    (hNames : ∀ name, names name → names' name) : StandsFor config names' m := by
  cases h with
  | nothing hType hContainer hInner hPage => exact .nothing hType hContainer hInner hPage
  | object hType hContainer hInner hPage => exact .object hType hContainer hInner hPage
  | value hBuilt hType hContainer hInner hPage =>
      exact .value (hBuilt.mono hNames) hType hContainer hInner hPage
  | openMap hType hContainer hInner hPage => exact .openMap hType hContainer hInner hPage
  | container hBuilt hType hContainer hInner hPage =>
      exact .container (hBuilt.mono hNames) hType hContainer hInner hPage

theorem BuiltModel.mono {m : Model} (h : BuiltModel config names m)
    (hNames : ∀ name, names name → names' name) : BuiltModel config names' m :=
  ⟨h.spelled, h.live, fun p hp => (h.vars p hp).mono hNames, h.standsFor.mono hNames⟩

/-! ### Workspaces -/

/-- Every synthetic model was built, over the names that are known by now. -/
def AllBuilt (setup : Setup) (w : Workspace) : Prop :=
  ∀ m ∈ w.synthetic, BuiltModel setup.config (Known setup w) m

variable {setup : Setup} {w w' : Workspace}

theorem AllBuilt.of_synthetic_eq (h : AllBuilt setup w) (hSame : w'.synthetic = w.synthetic) :
    AllBuilt setup w' := by
  have hKnown : Known setup w' = Known setup w := by
    funext name
    rw [Known, Known, hSame]
  intro m hMem
  rw [hKnown]
  exact h m (hSame ▸ hMem)

/-- Registering a model that was built leaves a workspace in which all models were. -/
theorem AllBuilt.addSynthetic (h : AllBuilt setup w) {m : Model}
    (hModel : BuiltModel setup.config (Known setup w) m) : AllBuilt setup (w.addSynthetic m).2 := by
  have hGrows := w.addSynthetic_grows m
  intro held hMem
  have hBefore : BuiltModel setup.config (Known setup w) held := by
    rcases Workspace.mem_addSynthetic hMem with hOld | rfl
    · exact h held hOld
    · exact hModel
  exact hBefore.mono fun _ => hGrows.known

theorem AllBuilt.areTypeNames (h : AllBuilt setup w) : AreTypeNames (Known setup w) := by
  rintro name (⟨e, _, rfl⟩ | ⟨m, hMem, rfl⟩)
  · exact isTypeName_typeName _
  · rw [(h m hMem).spelled]
    exact isTypeName_typeName _

/-- A model that is found under a name is spelled after that name. -/
theorem AllBuilt.known_of_synthetic? (h : AllBuilt setup w) {name : String} {m : Model}
    (hHeld : w.synthetic? name = some m) :
    m.classname = typeName name ∧ Known setup w m.classname := by
  have hMem := List.mem_of_find?_eq_some hHeld
  have hName : m.name = name := by simpa using List.find?_some hHeld
  exact ⟨hName ▸ (h m hMem).spelled, Or.inr ⟨m, hMem, rfl⟩⟩

end ClientTypes.Resolution
