import ClientTypes.Proofs.Resolution.Flattening
import Mathlib.Logic.Relation

/-! Schemas inside schemas. The fields of a merge come from inside the merge itself, or from
inside schemas of the table that its members draw on. -/
namespace ClientTypes

/-- A schema stands directly in another one: as a property, as the items, as the entries of a map, or
as a member of a union. -/
inductive Placed (s : Schema) : Schema → Prop where
  | property {key : String} {c : Schema} (hProperty : (key, c) ∈ s.properties) : Placed s c
  | items {c : Schema} (hItems : s.items = some c) : Placed s c
  | entries {c : Schema} (hEntries : s.additional = .each c) : Placed s c
  | oneOf {c : Schema} (hMember : c ∈ s.oneOf) : Placed s c
  | anyOf {c : Schema} (hMember : c ∈ s.anyOf) : Placed s c

theorem placed_of_mem_unionMembers {s c : Schema} (h : c ∈ s.unionMembers) : Placed s c := by
  unfold Schema.unionMembers at h
  split at h
  · exact .anyOf h
  · exact .oneOf h

/-- What a schema is made of. The members of a merge do not stand in it, as they describe the schema
itself. -/
def Component (s c : Schema) : Prop := Placed s c ∨ c ∈ s.allOf

/-- A schema is a part of another one at any depth, which may be none. -/
abbrev Contained : Schema → Schema → Prop := Relation.ReflTransGen Component

/-- A schema is a part of another one, below something that stands in that one or in a part of it. -/
def Inside (s n : Schema) : Prop := ∃ a b, Contained s a ∧ Placed a b ∧ Contained b n

theorem Contained.placed {s n c : Schema} (h : Contained s n) (hc : Placed n c) : Contained s c :=
  h.tail (Or.inl hc)

theorem Contained.member {s n m : Schema} (h : Contained s n) (hm : m ∈ n.allOf) : Contained s m :=
  h.tail (Or.inr hm)

theorem Inside.of_placed {s c : Schema} (h : Placed s c) : Inside s c := ⟨s, c, .refl, h, .refl⟩

theorem Contained.inside {s m n : Schema} (h : Contained s m) (h' : Inside m n) : Inside s n := by
  obtain ⟨a, b, hAbove, hPlaced, hBelow⟩ := h'
  exact ⟨a, b, h.trans hAbove, hPlaced, hBelow⟩

theorem Inside.contained {s n : Schema} (h : Inside s n) : Contained s n := by
  obtain ⟨a, b, hAbove, hPlaced, hBelow⟩ := h
  exact (hAbove.placed hPlaced).trans hBelow

theorem Inside.placed {s n c : Schema} (h : Inside s n) (hc : Placed n c) : Inside s c :=
  h.contained.inside (.of_placed hc)

theorem component_iff {s c : Schema} : Component s c ↔
    c ∈ s.properties.map Prod.snd ∨ s.items = some c ∨ s.additional = .each c ∨ c ∈ s.oneOf ∨
      c ∈ s.anyOf ∨ c ∈ s.allOf := by
  constructor
  · rintro (hPlaced | hMember)
    · cases hPlaced <;> simp_all
      exact Or.inl ⟨_, ‹_›⟩
    · simp [hMember]
  · intro h
    rcases h with hProperty | hItems | hEntries | hOne | hAny | hMember
    · obtain ⟨entry, hEntry, rfl⟩ := List.mem_map.mp hProperty
      exact Or.inl (.property hEntry)
    · exact Or.inl (.items hItems)
    · exact Or.inl (.entries hEntries)
    · exact Or.inl (.oneOf hOne)
    · exact Or.inl (.anyOf hAny)
    · exact Or.inr hMember

/-- A list of schemas that has their components has all their parts. -/
theorem Contained.mem_of_closed {s n : Schema} {schemas : List Schema} (h : Contained s n)
    (hClosed : ∀ a ∈ schemas, ∀ c, Component a c → c ∈ schemas) (hs : s ∈ schemas) : n ∈ schemas := by
  induction h with
  | refl => exact hs
  | tail _ hLast ih => exact hClosed _ ih _ hLast

/-! ### Sizes -/

theorem size_eq (s : Schema) : s.size =
    1 + Schema.sizeOfProperties s.properties + Schema.sizeOfItems s.items +
      Schema.sizeOfAdditional s.additional + Schema.sizeOfMembers s.allOf +
      Schema.sizeOfMembers s.oneOf + Schema.sizeOfMembers s.anyOf := by
  cases s
  rw [Schema.size]

theorem size_pos (s : Schema) : 0 < s.size := by
  rw [size_eq]
  omega

theorem size_le_sizeOfProperties {entry : String × Schema} {properties : List (String × Schema)}
    (h : entry ∈ properties) : entry.2.size ≤ Schema.sizeOfProperties properties := by
  induction properties with
  | nil => simp at h
  | cons first rest ih =>
      simp only [Schema.sizeOfProperties]
      rcases List.mem_cons.mp h with rfl | hRest
      · omega
      · have := ih hRest
        omega

theorem size_le_sizeOfMembers {m : Schema} {members : List Schema} (h : m ∈ members) :
    m.size ≤ Schema.sizeOfMembers members := by
  induction members with
  | nil => simp at h
  | cons first rest ih =>
      simp only [Schema.sizeOfMembers]
      rcases List.mem_cons.mp h with rfl | hRest
      · omega
      · have := ih hRest
        omega

theorem size_lt_of_placed {s c : Schema} (h : Placed s c) : c.size < s.size := by
  rw [size_eq s]
  cases h with
  | property hProperty =>
      have : c.size ≤ _ := size_le_sizeOfProperties hProperty
      omega
  | items hItems =>
      rw [hItems, Schema.sizeOfItems]
      omega
  | entries hEntries =>
      rw [hEntries, Schema.sizeOfAdditional]
      omega
  | oneOf hMember =>
      have := size_le_sizeOfMembers hMember
      omega
  | anyOf hMember =>
      have := size_le_sizeOfMembers hMember
      omega

theorem size_lt_of_member {s m : Schema} (h : m ∈ s.allOf) : m.size < s.size := by
  have := size_le_sizeOfMembers h
  rw [size_eq s]
  omega

theorem size_lt_of_component {s c : Schema} (h : Component s c) : c.size < s.size :=
  h.elim size_lt_of_placed size_lt_of_member

theorem Contained.size_le {s n : Schema} (h : Contained s n) : n.size ≤ s.size := by
  induction h with
  | refl => exact Nat.le_refl _
  | tail _ hLast ih =>
      have := size_lt_of_component hLast
      omega

theorem Inside.size_lt {s n : Schema} (h : Inside s n) : n.size < s.size := by
  obtain ⟨a, b, hAbove, hPlaced, hBelow⟩ := h
  have hFirst := hAbove.size_le
  have hMiddle := size_lt_of_placed hPlaced
  have hLast := hBelow.size_le
  omega

namespace Resolution

open Naming

/-! ### Parts that paths lead to -/

theorem mem_of_itemAt? {α : Type} {items : List α} {place : Int} {item : α}
    (h : Text.itemAt? items place = some item) : item ∈ items := by
  unfold Text.itemAt? at h
  split at h
  · exact List.mem_of_getElem? h
  · split at h
    · exact List.mem_of_getElem? h
    · cases h

theorem contained_of_membersUnder? {s m : Schema} {segment : String} {members : List Schema}
    (h : membersUnder? s segment = some members) (hm : m ∈ members) : Contained s m := by
  unfold membersUnder? at h
  split at h <;> cases h
  · exact Contained.member .refl hm
  · exact Contained.placed .refl (.oneOf hm)
  · exact Contained.placed .refl (.anyOf hm)

theorem contained_of_walk {whole part : Schema} {path : List String}
    (h : walk whole path = some part) : Contained whole part := by
  fun_induction walk whole path with
  | case1 s =>
      cases h
      exact .refl
  | case2 s rest ih =>
      obtain ⟨c, hItems, hRest⟩ := Option.bind_eq_some_iff.mp h
      exact (Contained.placed .refl (.items hItems)).trans (ih c hRest)
  | case3 s key rest ih =>
      obtain ⟨c, hLookup, hRest⟩ := Option.bind_eq_some_iff.mp h
      have hMem : (key, c) ∈ s.properties :=
        Table.mem_of_get? (by rw [Table.get?_eq_lookup]; exact hLookup)
      exact (Contained.placed .refl (.property hMem)).trans (ih c hRest)
  | case4 s segment place rest _ _ ih =>
      simp only [Option.bind_eq_bind, Option.bind_eq_some_iff] at h
      obtain ⟨members, hMembers, place, _, m, hAt, hRest⟩ := h
      exact (contained_of_membersUnder? hMembers (mem_of_itemAt? hAt)).trans (ih m hRest)
  | case5 => cases h

/-- The part that a path leads to is a part. -/
theorem IsPart.contained {whole part : Schema} {path : List String} (h : IsPart whole path part) :
    Contained whole part := by
  rcases h with ⟨hWalk, _⟩ | ⟨rfl, _⟩
  · exact contained_of_walk hWalk
  · exact .refl

theorem IsPart.eq_whole {whole part : Schema} (h : IsPart whole [] part) : part = whole := by
  rcases h with ⟨hWalk, _⟩ | ⟨hPart, _⟩
  · rw [walk] at hWalk
    exact (Option.some.inj hWalk).symm
  · exact hPart

/-! ### Where merged fields come from -/

section Sources

variable {schemas : Table String Schema} {visited : List String}

variable (schemas) in
/-- A member of a merge draws on a schema of the table: it refers to the schema, or what it refers to
draws on it, or it is a merge of its own with a member that does. -/
inductive Draws : Schema → String → Prop where
  | head {m whole : Schema} {reference : String} (target : m.target? = some reference)
      (known : schemas.get? (Pointer.ofReference reference).schema = some whole) :
      Draws m (Pointer.ofReference reference).schema
  | onward {m whole part : Schema} {reference name : String} (target : m.target? = some reference)
      (known : schemas.get? (Pointer.ofReference reference).schema = some whole)
      (leads : IsPart whole (Pointer.ofReference reference).path part) (next : Draws part name) :
      Draws m name
  | inner {m member : Schema} {name : String} (target : m.target? = none)
      (isMerge : m.isMerge = true) (mem : member ∈ m.allOf) (next : Draws member name) : Draws m name

variable (schemas) in
/-- A member draws on a schema that something stands in. -/
def DrawsFrom (m n : Schema) : Prop :=
  ∃ name whole, Draws schemas m name ∧ schemas.get? name = some whole ∧ Inside whole n

variable (schemas) in
/-- Where the declarations of a branch stand. -/
def Source (n : Schema) : Branch → Prop
  | .schema s => Inside s n ∨ ∃ m ∈ s.allOf, DrawsFrom schemas m n
  | .members ms => ∃ m ∈ ms, Inside m n ∨ DrawsFrom schemas m n
  | .member m => Inside m n ∨ DrawsFrom schemas m n
  | .reference r => ∀ m : Schema, m.target? = some r → DrawsFrom schemas m n

theorem DrawsFrom.inner {m member n : Schema} (hTarget : m.target? = none) (hMerge : m.isMerge = true)
    (hMem : member ∈ m.allOf) (h : DrawsFrom schemas member n) : DrawsFrom schemas m n := by
  obtain ⟨name, whole, hDraws, hKnown, hInside⟩ := h
  exact ⟨name, whole, .inner hTarget hMerge hMem hDraws, hKnown, hInside⟩

/-- What is declared in an expansion stands in what is expanded, or in a schema that a member draws
on. -/
theorem Expands.source {branch : Branch} {events : List Event}
    (h : Expands schemas visited branch events) {entry : String × Schema}
    (hEntry : entry ∈ declarations events) : Source schemas entry.2 branch := by
  -- Along the expansion a fragment stands in what is expanded; only a reference that is followed
  -- leaves it, and the member that refers is then the one that draws on the schema.
  induction h with
  | @schema visited s events members ih =>
      rw [declarations_append, List.mem_append, declarations_fragment] at hEntry
      rcases hEntry with hMembers | hOwn
      · obtain ⟨m, hm, hInside | hDraws⟩ := ih hMembers
        · exact Or.inl (Contained.inside (Contained.member .refl hm) hInside)
        · exact Or.inr ⟨m, hm, hDraws⟩
      · exact Or.inl (.of_placed (.property hOwn))
  | nil => simp [declarations] at hEntry
  | cons first rest ihFirst ihRest =>
      rw [declarations_append, List.mem_append] at hEntry
      rcases hEntry with hFirst | hRest
      · exact ⟨_, List.mem_cons_self, ihFirst hFirst⟩
      · obtain ⟨m, hm, hFound⟩ := ihRest hRest
        exact ⟨m, List.mem_cons_of_mem _ hm, hFound⟩
  | reference target inner ih => exact Or.inr (ih hEntry _ target)
  | merge target isMerge inner ih =>
      rcases ih hEntry with hInside | ⟨member, hMem, hDraws⟩
      · exact Or.inl hInside
      · exact Or.inr (hDraws.inner target isMerge hMem)
  | fields target isMerge =>
      rw [declarations_fragment] at hEntry
      exact Or.inl (.of_placed (.property hEntry))
  | cut dead => simp [declarations, Event.declared] at hEntry
  | follow fresh known leads inner ih =>
      intro m hTarget
      rcases ih hEntry with hInside | ⟨name, whole, hDraws, hKnown, hInside⟩
      · exact ⟨_, _, .head hTarget known, known, leads.contained.inside hInside⟩
      · exact ⟨name, whole, .onward hTarget known leads hDraws, hKnown, hInside⟩

/-- The fields of a merge stand in the merge, or in a schema that a member draws on. -/
theorem flatten_source {name : String} {s : Schema} {f : Flattened}
    (h : flatten schemas name s visited = .merged f) {entry : String × Schema}
    (hEntry : entry ∈ f.properties) :
    Inside s entry.2 ∨ ∃ m ∈ s.allOf, DrawsFrom schemas m entry.2 := by
  obtain ⟨events, hExpands, g, hCollects, hFlatten⟩ := @flatten_agrees schemas visited name s
  have hSame : f = g := eq_of_conclude (hFlatten ▸ h)
  have hDeclared : entry ∈ declarations events := by
    rw [hSame, hCollects.properties] at hEntry
    simpa using Table.mem_union hEntry
  exact hExpands.source hDeclared

end Sources

end Resolution

end ClientTypes
