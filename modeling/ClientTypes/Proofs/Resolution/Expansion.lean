import ClientTypes.Resolution.Flattening
import ClientTypes.Proofs.Table

/-! What flattening a merge means. The expansion of a merge lists, depth first,
the fragments that declare properties and the references that are cut. It is
stated without fuel and without results; flattening is then the left-biased
union of the fragments. -/
namespace ClientTypes.Resolution

open Naming

/-- What is expanded: a whole schema with its members, members in order, one
member, or a reference. -/
inductive Branch where
  | schema (s : Schema)
  | members (ms : List Schema)
  | member (m : Schema)
  | reference (r : String)

/-- What an expansion comes across. -/
inductive Event where
  /-- A schema whose own properties are taken. -/
  | fragment (s : Schema)
  /-- A reference that is not followed. -/
  | cut (reference : String)

/-- A path leads to the fragment that it walks to, and to the whole schema when
there is no such fragment or it has nothing to merge. -/
def IsPart (whole : Schema) (path : List String) (part : Schema) : Prop :=
  (walk whole path = some part ∧ part.hasShape = true) ∨
    (part = whole ∧ ∀ fragment, walk whole path = some fragment → fragment.hasShape = false)

/-- The expansion of a branch, with the schemas on the path to it. The members of
a schema come before its own properties. Only following a reference adds to
the path. -/
inductive Expands (schemas : Table String Schema) :
    (visited : List String) → Branch → List Event → Prop where
  | schema {visited : List String} {s : Schema} {events : List Event}
      (members : Expands schemas visited (.members s.allOf) events) :
      Expands schemas visited (.schema s) (events ++ [.fragment s])
  | nil {visited : List String} : Expands schemas visited (.members []) []
  | cons {visited : List String} {m : Schema} {ms : List Schema} {before after : List Event}
      (first : Expands schemas visited (.member m) before)
      (rest : Expands schemas visited (.members ms) after) :
      Expands schemas visited (.members (m :: ms)) (before ++ after)
  | reference {visited : List String} {m : Schema} {r : String} {events : List Event}
      (target : m.target? = some r) (inner : Expands schemas visited (.reference r) events) :
      Expands schemas visited (.member m) events
  | merge {visited : List String} {m : Schema} {events : List Event}
      (target : m.target? = none) (isMerge : m.isMerge = true)
      (inner : Expands schemas visited (.schema m) events) :
      Expands schemas visited (.member m) events
  | fields {visited : List String} {m : Schema}
      (target : m.target? = none) (isMerge : m.isMerge = false) :
      Expands schemas visited (.member m) [.fragment m]
  | cut {visited : List String} {r : String}
      (dead : (Pointer.ofReference r).schema ∈ visited ∨
        schemas.get? (Pointer.ofReference r).schema = none) :
      Expands schemas visited (.reference r) [.cut r]
  | follow {visited : List String} {r : String} {whole part : Schema} {events : List Event}
      (fresh : (Pointer.ofReference r).schema ∉ visited)
      (known : schemas.get? (Pointer.ofReference r).schema = some whole)
      (leads : IsPart whole (Pointer.ofReference r).path part)
      (inner : Expands schemas ((Pointer.ofReference r).schema :: visited) (.member part) events) :
      Expands schemas visited (.reference r) events

variable {schemas : Table String Schema} {visited : List String}

/-- A path leads to one part only. -/
theorem IsPart.unique {whole first second : Schema} {path : List String}
    (hFirst : IsPart whole path first) (hSecond : IsPart whole path second) : first = second := by
  rcases hFirst with ⟨hWalk, hShape⟩ | ⟨rfl, hNone⟩ <;>
    rcases hSecond with ⟨hWalk', hShape'⟩ | ⟨rfl, hNone'⟩
  · exact Option.some.inj (hWalk.symm.trans hWalk')
  · simp [hNone' _ hWalk] at hShape
  · simp [hNone _ hWalk'] at hShape'
  · rfl

/-- A branch has one expansion only. -/
theorem Expands.unique {branch : Branch} {events other : List Event}
    (h : Expands schemas visited branch events) (h' : Expands schemas visited branch other) :
    events = other := by
  induction h generalizing other with
  | schema members ih =>
      cases h' with
      | schema members' => rw [ih members']
  | nil =>
      cases h' with
      | nil => rfl
  | cons first rest ihFirst ihRest =>
      cases h' with
      | cons first' rest' => rw [ihFirst first', ihRest rest']
  | reference target inner ih =>
      cases h' with
      | reference target' inner' =>
          cases Option.some.inj (target.symm.trans target')
          exact ih inner'
      | merge target' _ _ => simp [target] at target'
      | fields target' _ => simp [target] at target'
  | merge target isMerge inner ih =>
      cases h' with
      | reference target' _ => simp [target] at target'
      | merge _ _ inner' => exact ih inner'
      | fields _ isMerge' => simp [isMerge] at isMerge'
  | fields target isMerge =>
      cases h' with
      | reference target' _ => simp [target] at target'
      | merge _ isMerge' _ => simp [isMerge] at isMerge'
      | fields _ _ => rfl
  | cut dead =>
      cases h' with
      | cut _ => rfl
      | follow fresh known _ _ => simp_all
  | follow fresh known leads inner ih =>
      cases h' with
      | cut dead => simp_all
      | follow _ known' leads' inner' =>
          cases Option.some.inj (known.symm.trans known')
          cases leads.unique leads'
          exact ih inner'

/-! ### What is collected -/

/-- The properties that an event declares. -/
def Event.declared : Event → List (String × Schema)
  | .fragment s => s.properties
  | .cut _ => []

/-- All declarations in order. -/
def declarations (events : List Event) : List (String × Schema) := events.flatMap Event.declared

/-- Some reference is cut. -/
def HasCut (events : List Event) : Prop := ∃ r, Event.cut r ∈ events

@[simp] theorem declarations_append (before after : List Event) :
    declarations (before ++ after) = declarations before ++ declarations after :=
  List.flatMap_append

@[simp] theorem declarations_fragment (s : Schema) : declarations [.fragment s] = s.properties := by
  simp [declarations, Event.declared]

@[simp] theorem hasCut_append {before after : List Event} :
    HasCut (before ++ after) ↔ HasCut before ∨ HasCut after := by
  simp [HasCut, exists_or]

@[simp] theorem not_hasCut_fragment (s : Schema) : ¬ HasCut [.fragment s] := by
  simp [HasCut]

/-- What was merged so far is the left-biased union of the declarations so far, and
there are reasons exactly when something was cut. -/
structure Collects (f : Flattened) (events : List Event) : Prop where
  properties : f.properties = Table.union [] (declarations events)
  reasons : f.unresolved ≠ [] ↔ HasCut events

/-- The result of a branch. A branch is unresolved when it declares nothing and
something was cut. Its properties may repeat keys, since a later union drops
the repetitions. -/
def Agrees (events : List Event) : Flattening → Prop
  | .unresolved _ => declarations events = [] ∧ HasCut events
  | .merged f =>
    Table.union [] f.properties = Table.union [] (declarations events) ∧
      (f.unresolved ≠ [] ↔ HasCut events) ∧ ¬ (declarations events = [] ∧ HasCut events)

theorem Collects.empty : Collects {} [] := by
  constructor <;> simp [declarations, HasCut]

theorem agrees_ownFields (s : Schema) : Agrees [.fragment s] (.merged (ownFields s)) := by
  simp [Agrees, ownFields]

theorem Agrees.withBase {events : List Event} {result : Flattening} (h : Agrees events result)
    (name : String) : Agrees events (withBase name result) := by
  cases result with
  | unresolved reason => exact h
  | merged f => exact h

/-- Adding the result of a branch extends the collection by its events. -/
theorem Collects.add {into : Flattened} {before events : List Event} {result : Flattening}
    (h : Collects into before) (hResult : Agrees events result) :
    Collects (into.add result) (before ++ events) := by
  cases result with
  | unresolved reason =>
      obtain ⟨hNothing, hCut⟩ := hResult
      constructor
      · simp [Flattened.add, h.properties, hNothing]
      · simp [Flattened.add, hCut]
  | merged f =>
      obtain ⟨hProperties, hReasons, _⟩ := hResult
      constructor
      · change into.properties.union f.properties = _
        rw [h.properties, ← Table.union_union_empty, hProperties, Table.union_union_empty,
          declarations_append, Table.union_append]
      · change into.unresolved ++ f.unresolved ≠ [] ↔ _
        rw [hasCut_append, ← h.reasons, ← hReasons, ne_eq, List.append_eq_nil_iff]
        tauto

/-- The end of a merge: unresolved exactly when there is no property and a reason. -/
theorem Collects.conclude {f : Flattened} {events : List Event} (h : Collects f events) :
    Agrees events f.conclude := by
  have hEmpty : f.properties.isEmpty = true ↔ declarations events = [] := by
    rw [List.isEmpty_iff, h.properties]
    constructor
    · intro hNil
      have hKeys := Table.keys_union_empty (declarations events)
      rw [hNil] at hKeys
      cases hList : declarations events with
      | nil => rfl
      | cons entry rest => simp [hList, Table.keys, List.eraseDups_cons] at hKeys
    · intro hNil
      rw [hNil]
      rfl
  have hCut : (!f.unresolved.isEmpty) = true ↔ HasCut events := by
    rw [← h.reasons]
    simp
  unfold Flattened.conclude
  by_cases hBoth : declarations events = [] ∧ HasCut events
  · rw [if_pos (by rw [Bool.and_eq_true, hEmpty, hCut]; exact hBoth)]
    exact hBoth
  · rw [if_neg (by rw [Bool.and_eq_true, hEmpty, hCut]; exact hBoth)]
    refine ⟨?_, h.reasons, hBoth⟩
    rw [h.properties, Table.union_union_empty]

end ClientTypes.Resolution
