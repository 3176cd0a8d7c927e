import ClientTypes.Proofs.Schema.Kinds

/-! The shape of schemas that are read. The rules that tell the kind of a schema overlap, but each of
them leaves a schema of one kind with what that kind needs and nothing else; and a schema is made of
schemas that were read themselves, so the shape is there at every depth. -/
namespace ClientTypes

namespace Schema

/-- A schema without members of a composition. -/
structure NoMembers (s : Schema) : Prop where
  allOf : s.allOf = []
  oneOf : s.oneOf = []
  anyOf : s.anyOf = []

/-- A schema has what its kind needs, and nothing that belongs to another kind. -/
structure WellShaped (s : Schema) : Prop where
  reference : s.reference ≠ none →
    s.kind = .object ∧ s.properties = [] ∧ s.items = none ∧ s.NoMembers
  array : s.kind = .array → ∃ items, s.items = some items
  map : s.kind = .map → s.additional = .anything ∨ ∃ values, s.additional = .each values
  primitive : s.kind = .primitive →
    (∃ type ∈ primitiveTypes, s.type = some type) ∧ s.properties = [] ∧ s.NoMembers
  members : s.kind ≠ .composed → s.NoMembers

/-- The schema and all its parts are well shaped. -/
def WellFormed (s : Schema) : Prop := ∀ n, Contained s n → n.WellShaped

theorem WellFormed.contained {s n : Schema} (h : s.WellFormed) (hn : Contained s n) : n.WellFormed :=
  fun part hPart => h part (hn.trans hPart)

/-- The schema was read from a value. -/
def IsRead (s : Schema) : Prop := ∃ v, Schema.ofValue v = .ok s

theorem isRead_empty : IsRead {} := ⟨.null, rfl⟩

theorem isRead_object : IsRead { type := some "object" } := ⟨.map [], rfl⟩

theorem wellShaped_empty : WellShaped {} where
  reference h := absurd rfl h
  array h := SchemaKind.noConfusion h
  map h := SchemaKind.noConfusion h
  primitive h := SchemaKind.noConfusion h
  members _ := ⟨rfl, rfl, rfl⟩

section Forms

variable {P : Schema → Prop} {Q : List (Scalar × Schema) → Prop} {own : KindParts} {s : Schema}
  (hForm : own.OfForm P Q) (h : own.Makes s)

include h

theorem reference_of_makes (hNull : own.reference = .null) : s.reference = none := by
  have hRead := h.reference
  rw [hNull] at hRead
  exact (Checked.valid.inj hRead).symm

theorem properties_of_makes (hNil : own.properties = []) : s.properties = [] :=
  List.map_eq_nil_iff.mp (h.properties.symm.trans hNil)

include hForm

theorem noMembers_of_makes (hOther : own.kind ≠ .composed) : s.NoMembers := by
  refine ⟨h.allOf.trans ?_, h.oneOf.trans ?_, h.anyOf.trans ?_⟩ <;>
    cases hForm <;> first | rfl | exact absurd rfl hOther

/-- Each of the six forms is well shaped. -/
theorem wellShaped_of_makes : s.WellShaped where
  reference hReference := by
    cases hForm with
    | reference reference =>
        have hMembers := noMembers_of_makes (.reference (P := P) (Q := Q) reference) h nofun
        exact ⟨h.kind, properties_of_makes h rfl, h.items, hMembers⟩
    | _ => exact absurd (reference_of_makes h rfl) hReference
  array hKind := by
    rw [h.kind] at hKind
    cases hForm with
    | array => exact ⟨_, h.items⟩
    | _ => cases hKind
  map hKind := by
    rw [h.kind] at hKind
    cases hForm with
    | map _ _ hValues => exact h.additional ▸ hValues.imp_right fun ⟨c, hEach, _⟩ => ⟨c, hEach⟩
    | _ => cases hKind
  primitive hKind := by
    rw [h.kind] at hKind
    have hMembers := noMembers_of_makes hForm h (by simp [hKind])
    cases hForm with
    | @primitive type hType =>
        exact ⟨⟨type, hType, (Checked.valid.inj h.type).symm⟩, properties_of_makes h rfl, hMembers⟩
    | _ => cases hKind
  members hKind := noMembers_of_makes hForm h (h.kind ▸ hKind)

end Forms

/-! ### Schemas that are read -/

/-- Each schema in what a value is read into was read from a value itself. -/
theorem rolesOfValue_isRead (v : Value) :
    (SchemaRoles.ofValue v).Gives IsRead fun ps => ∀ e ∈ ps, e.2.IsRead := by
  have hSchema (v : Value) : ∀ s, (SchemaRoles.ofValue v).schema () = .ok s → s.IsRead :=
    fun _ h => ⟨v, h⟩
  match v with
  | .scalar s => exact scalarRoles_gives isRead_empty (by simp) s
  | .list items =>
      refine ⟨hSchema _, fun ms hms => ?_, fun ps hps => ?_⟩
      · refine allSchemas_gives ?_ hms
        rw [rolesOfItems_eq_map, List.forall_mem_map]
        exact fun item _ => hSchema item
      · unfold SchemaRoles.ofValue at hps
        dsimp only at hps
        split at hps
        · cases hps
          simp
        · cases hps
  | .map entries =>
      refine ⟨hSchema _, fun ms hms => forall_of_replicate isRead_empty (Except.ok.inj hms), ?_⟩
      intro ps hps
      refine (allProperties_gives ?_ hps).2
      rw [rolesOfEntries_eq_map, List.forall_mem_map]
      exact fun e _ => hSchema e.2
  | .knot _ v => exact rolesOfValue_isRead v
  | .loop v => exact rolesOfValue_isRead v
  | .beyond =>
      exact ⟨by simp [SchemaRoles.ofValue], by simp [SchemaRoles.ofValue], by simp [SchemaRoles.ofValue]⟩

/-- A schema that is read has no content, or is of one of the six forms, made of schemas that are read. -/
theorem IsRead.form {s : Schema} (h : s.IsRead) :
    s = {} ∨ ∃ own : KindParts, own.OfForm IsRead (fun ps => ∀ e ∈ ps, e.2.IsRead) ∧ own.Makes s := by
  obtain ⟨v, h⟩ := h
  have hEmpty (t : Schema) (hRead : (Except.ok {} : Except DocumentFault Schema) = .ok t) : t = {} :=
    (Except.ok.inj hRead).symm
  induction v using Value.opened.induct with
  | case1 _ v ih => exact ih h
  | case2 v ih => exact ih h
  | case3 v hKnot hLoop =>
      cases v with
      | scalar => exact Or.inl (hEmpty s h)
      | list => exact Or.inl (hEmpty s h)
      | map entries =>
          refine Or.inr (form_of_schemaOfEntries ?_ (by simp) isRead_object h)
          rw [rolesOfEntries_eq_map, List.forall_mem_map]
          exact fun e _ => rolesOfValue_isRead e.2
      | knot number v => exact absurd rfl (hKnot number v)
      | loop v => exact absurd rfl (hLoop v)
      | beyond => cases h

theorem IsRead.wellShaped {s : Schema} (h : s.IsRead) : s.WellShaped := by
  rcases h.form with rfl | ⟨own, hForm, hMakes⟩
  · exact wellShaped_empty
  · exact wellShaped_of_makes hForm hMakes

theorem IsRead.component {s c : Schema} (h : s.IsRead) (hc : Component s c) : c.IsRead := by
  rcases h.form with rfl | ⟨own, hForm, hMakes⟩
  · simp [component_iff] at hc
  · exact hForm.component (by simp) (fun _ hps => hps) hMakes hc

/-- Every schema that is read is well shaped at every depth. -/
theorem IsRead.wellFormed {s : Schema} (h : s.IsRead) : s.WellFormed := by
  intro n hn
  have hRead : n.IsRead := by
    induction hn with
    | refl => exact h
    | tail _ hc ih => exact ih.component hc
  exact hRead.wellShaped

end Schema
end ClientTypes
