import ClientTypes.Proofs.Resolution.FixedPoint
import ClientTypes.Proofs.Resolution.Fields

/-! The names of elements. A container hands its names to its element before the configuration may give the
field another one, and it hands them no further: what is inside the element keeps the names under which it was
asked for. -/
namespace ClientTypes.Resolution

open Naming

/-! ### Elements of elements -/

mutual
/-- The elements of a container from the outside in: its own, the element of that, and so on. -/
def elements : Property → List Property
  | { items, .. } => elementsFrom items
/-- An element and what is inside it. -/
def elementsFrom : Option Property → List Property
  | none => []
  | some element => element :: elements element
end

mutual
/-- The names that the elements of a property are sent under, from the outside in, when the property is asked for
under `name`. -/
def elementBases (owner name : String) : Property → List String
  | { container, items, .. } => basesFrom owner name (innerName owner name container) items
/-- The names of an element, and of what is inside it, when that is asked for under `inner`. -/
def basesFrom (owner name inner : String) : Option Property → List String
  | none => []
  | some element => name :: elementBases owner inner element
end

section Elements

variable {owner name : String} {p : Property}

theorem elements_eq (p : Property) : elements p = elementsFrom p.items := by
  cases p
  rfl

theorem elementBases_eq (owner name : String) (p : Property) :
    elementBases owner name p = basesFrom owner name (innerName owner name p.container) p.items := by
  cases p
  rfl

theorem elements_eq_nil_iff : elements p = [] ↔ p.items = none := by
  rw [elements_eq]
  cases p.items with
  | none => simp [elementsFrom]
  | some element => simp [elementsFrom]

theorem innerName_of_owner (hOwner : owner ≠ "") (name : String) (container : Option Container) :
    innerName owner name container = name := by
  unfold innerName
  split
  · rw [if_neg hOwner]
  · rw [if_neg hOwner]

theorem innerName_ne (name : String) (container : Option Container) : innerName "" name container ≠ name := by
  have hLonger (suffix : String) (h : suffix ≠ "") : name ++ suffix ≠ name := by
    intro hSame
    apply h
    simpa using hSame
  unfold innerName
  split
  · exact hLonger "_inner" (by decide)
  · exact hLonger "_value" (by decide)

end Elements

/-! ### Names after resolving -/

/-- A property with the names that it was asked for under, and elements with the names of what they are in. -/
structure NamedThroughout (config : Config) (owner asked : String) (p : Property) : Prop where
  baseName : p.baseName = asked
  /-- The configuration may name the field. -/
  name : p.name = fieldNameBy config.nameOverrides asked
  bases : (elements p).map (·.baseName) = elementBases owner asked p
  /-- It does not name elements. -/
  names : ∀ e ∈ elements p, e.name = fieldName e.baseName

section Steps

variable {setup : Setup} {resolve : Resolve}

/-- An element carries the names that its property had at first, and the elements inside keep theirs. -/
theorem IsElement.named {owner : String} {p element : Property}
    (hResolve : ∀ r w, Ensures (resolve r) w fun p _ => NamedThroughout setup.config r.owner r.name p)
    (hFirst : p.name = fieldName p.baseName) (h : IsElement resolve owner p element) :
    (elementsFrom (some element)).map (·.baseName) =
        basesFrom owner p.baseName (innerName owner p.baseName p.container) (some element) ∧
      ∀ e ∈ elementsFrom (some element), e.name = fieldName e.baseName := by
  obtain ⟨item, s, w, w', hItem, rfl⟩ := h
  have hNamed := hResolve _ w item w' hItem
  have hBases : (elements item).map (·.baseName) =
      elementBases owner (innerName owner p.baseName p.container) item := hNamed.bases
  have hNames := hNamed.names
  rw [elements_eq, elementBases_eq] at hBases
  rw [elements_eq] at hNames
  rw [elementsFrom, basesFrom, elements_eq, elementBases_eq, List.map_cons, List.forall_mem_cons]
  exact ⟨congrArg _ hBases, hFirst, hNames⟩

theorem propertyStep_elements
    (hResolve : ∀ r w, Ensures (resolve r) w fun p _ => NamedThroughout setup.config r.owner r.name p)
    (r : Request) (w : Workspace) :
    Ensures (propertyStep setup resolve r) w fun p _ => NamedThroughout setup.config r.owner r.name p := by
  refine (propertyStep_ensures r).imp fun p w' h => ?_
  obtain ⟨typed, w1, hTyped, -, rfl⟩ := h
  have hFrom := typedProperty_typed r typed w1 hTyped
  have hBase : typed.baseName = r.name := (congrArg Property.baseName hFrom.untyped :)
  have hName : typed.name = fieldName r.name := (congrArg Property.name hFrom.untyped :)
  have hInside : (elementsFrom typed.items).map (·.baseName) =
        basesFrom r.owner r.name (innerName r.owner r.name typed.container) typed.items ∧
      ∀ e ∈ elementsFrom typed.items, e.name = fieldName e.baseName := by
    cases hItems : typed.items with
    | none => simp [elementsFrom, basesFrom]
    | some element =>
        have hFirst : typed.name = fieldName typed.baseName := by rw [hName, hBase]
        have hNamed := (hFrom.element element hItems).named hResolve hFirst
        rwa [hBase] at hNamed
  rw [enrich_eq]
  refine ⟨hBase, ?_, ?_, ?_⟩
  · rw [givenName, hBase, hName]
    rfl
  · rw [elements_eq, elementBases_eq]
    exact hInside.1
  · rw [elements_eq]
    exact hInside.2

end Steps

theorem propertyWithin_elements (setup : Setup) (fuel : Nat) (r : Request) (w : Workspace) :
    Ensures (propertyWithin setup fuel r) w fun p _ => NamedThroughout setup.config r.owner r.name p := by
  induction fuel generalizing r w with
  | zero => exact .halt
  | succ fuel ih => exact propertyStep_elements ih r w

/-! ### The names of the property -/

mutual
/-- With an owner, all elements are sent under the name of the property. -/
theorem elementBases_of_owner {owner : String} (hOwner : owner ≠ "") (name : String) :
    ∀ p : Property, ∀ base ∈ elementBases owner name p, base = name
  | { container, items, .. } => by
      rw [elementBases, innerName_of_owner hOwner]
      exact basesFrom_of_owner hOwner name items
theorem basesFrom_of_owner {owner : String} (hOwner : owner ≠ "") (name : String) :
    ∀ items : Option Property, ∀ base ∈ basesFrom owner name name items, base = name
  | none => by simp [basesFrom]
  | some element => by
      rw [basesFrom, List.forall_mem_cons]
      exact ⟨rfl, elementBases_of_owner hOwner name element⟩
end

/-- Without an owner, the element of an element is sent under another name. -/
theorem elementBases_eq_iff {owner name : String} {p : Property} :
    (∀ base ∈ elementBases owner name p, base = name) ↔ owner ≠ "" ∨ (elements p).length ≤ 1 := by
  constructor
  · intro hAll
    by_cases hOwner : owner = ""
    · subst hOwner
      right
      rw [elementBases_eq] at hAll
      rw [elements_eq]
      cases hItems : p.items with
      | none => simp [elementsFrom]
      | some element =>
          rw [hItems, basesFrom, List.forall_mem_cons, elementBases_eq] at hAll
          rw [elementsFrom, elements_eq]
          cases hInside : element.items with
          | none => simp [elementsFrom]
          | some inner =>
              rw [hInside, basesFrom, List.forall_mem_cons] at hAll
              exact absurd hAll.2.1 (innerName_ne name p.container)
    · exact Or.inl hOwner
  · rintro (hOwner | hShort)
    · exact elementBases_of_owner hOwner name p
    · rw [elements_eq] at hShort
      rw [elementBases_eq]
      cases hItems : p.items with
      | none => simp [basesFrom]
      | some element =>
          rw [hItems, elementsFrom, elements_eq] at hShort
          rw [basesFrom, elementBases_eq]
          cases hInside : element.items with
          | none => simp [basesFrom]
          | some inner => simp [hInside, elementsFrom] at hShort

/-- The names of a property and of its elements are decided by the name it was asked for under, its owner and its
containers. All of them are the same exactly when there is no element, or the configuration names the field no
other than it would be named, and there is an owner or only one element. -/
theorem element_names_carried_iff {setup : Setup} {fuel : Nat} {r : Request} {w w' : Workspace} {p : Property}
    (hRun : propertyWithin setup fuel r w = .ok (p, w')) :
    NamedThroughout setup.config r.owner r.name p ∧
      ((∀ e ∈ elements p, e.baseName = p.baseName ∧ e.name = p.name) ↔
        p.items = none ∨ p.name = fieldName r.name ∧ (r.owner ≠ "" ∨ (elements p).length ≤ 1)) := by
  have hNamed := propertyWithin_elements setup fuel r w p w' hRun
  have hBases : (∀ e ∈ elements p, e.baseName = r.name) ↔ r.owner ≠ "" ∨ (elements p).length ≤ 1 := by
    rw [← elementBases_eq_iff, ← hNamed.bases, List.forall_mem_map]
  refine ⟨hNamed, ?_⟩
  rw [hNamed.baseName, ← elements_eq_nil_iff, ← hBases]
  constructor
  · intro hCarried
    cases hElements : elements p with
    | nil => exact Or.inl rfl
    | cons first rest =>
        right
        have hFirst : first ∈ elements p := hElements ▸ List.mem_cons_self
        have hName : p.name = fieldName r.name := by
          rw [← (hCarried first hFirst).2, hNamed.names first hFirst, (hCarried first hFirst).1]
        exact ⟨hName, fun e he => (hCarried e (hElements ▸ he)).1⟩
  · rintro (hNone | ⟨hName, hAll⟩) e he
    · simp [hNone] at he
    · exact ⟨hAll e he, by rw [hNamed.names e he, hAll e he, hName]⟩

/-- A list of texts. -/
def textList : Schema := { kind := .array, items := some { kind := .primitive, type := some "string" } }

/-- The lists of a pet, and the texts in them, carry the name of the field. -/
theorem element_names_carried_iff_lists : ∃ p w',
    propertyWithin ⟨Config.shipped, []⟩ 3
        { name := "tags", owner := "Pet", schema := { kind := .map, additional := .each textList } } {} = .ok (p, w') ∧
      (elements p).length = 2 ∧ ∀ e ∈ elements p, e.baseName = "tags" ∧ e.name = "tags" := by
  have hFound : (propertyWithin ⟨Config.shipped, []⟩ 3
      { name := "tags", owner := "Pet", schema := { kind := .map, additional := .each textList } } {}).toOption.map
        (fun r => (r.1.baseName, r.1.name, (elements r.1).length)) = some ("tags", "tags", 2) := by decide +kernel
  obtain ⟨⟨p, w'⟩, hOk, hNames⟩ := Option.map_eq_some_iff.mp hFound
  obtain ⟨hBase, hName, hLength⟩ : p.baseName = "tags" ∧ p.name = "tags" ∧ (elements p).length = 2 := by
    simpa using hNames
  have hRun := ok_of_toOption hOk
  have hField : p.name = fieldName "tags" := hName.trans (by decide +kernel)
  have hCarried := (element_names_carried_iff hRun).2.mpr (Or.inr ⟨hField, Or.inl (by decide)⟩)
  rw [hBase, hName] at hCarried
  exact ⟨p, w', hRun, hLength, hCarried⟩

/-- The configuration names the list of references, but not the references in it. And the texts in a list of lists
that has no owner have a name of their own. -/
theorem elements_named_apart :
    (∃ p w', propertyWithin ⟨Config.shipped, []⟩ 2 { name := "ref", owner := "Branch", schema := textList } {} =
        .ok (p, w') ∧ p.name = "git_ref" ∧ (elements p).map (·.name) = ["_ref"]) ∧
    ∃ p w', propertyWithin ⟨Config.shipped, []⟩ 3
        { name := "rows", schema := { kind := .array, items := some textList } } {} = .ok (p, w') ∧
      p.baseName = "rows" ∧ (elements p).map (·.baseName) = ["rows", "rows_inner"] :=
  ⟨⟨_, _, rfl, by decide +kernel, by decide +kernel⟩, _, _, rfl, by decide +kernel, by decide +kernel⟩

end ClientTypes.Resolution
