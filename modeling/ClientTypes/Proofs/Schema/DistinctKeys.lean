import ClientTypes.Proofs.Resolution.Nesting

/-! Schemas whose properties are mappings. The properties of a schema are kept as a list of
entries, so that they keep their order; that no key is there twice, in the schema and in every
part of it, is said here and can be computed. -/
namespace ClientTypes

/-- No property is described twice, in the schema and in its parts. -/
def Schema.DistinctKeys (s : Schema) : Prop := ∀ n, Contained s n → (n.properties.map Prod.fst).Nodup

namespace Schema.DistinctKeys

variable {s : Schema}

theorem own (h : s.DistinctKeys) : (s.properties.map Prod.fst).Nodup := h s .refl

theorem contained {n : Schema} (h : s.DistinctKeys) (hn : Contained s n) : n.DistinctKeys :=
  fun part hPart => h part (hn.trans hPart)

/-- It suffices to look at the schema and at what it is made of. -/
theorem of_components (hOwn : (s.properties.map Prod.fst).Nodup)
    (hComponents : ∀ c, Component s c → c.DistinctKeys) : s.DistinctKeys := by
  intro n hn
  rcases hn.cases_head with rfl | ⟨c, hFirst, hRest⟩
  · exact hOwn
  · exact hComponents c hFirst n hRest

end Schema.DistinctKeys

theorem distinctKeys_iff {s : Schema} : s.DistinctKeys ↔
    (s.properties.map Prod.fst).Nodup ∧ ∀ c, Component s c → c.DistinctKeys :=
  ⟨fun h => ⟨h.own, fun _ hc => h.contained (.single hc)⟩, fun h => .of_components h.1 h.2⟩

/-- Nothing stands in a schema that is not described. -/
theorem distinctKeys_undescribed (type : Option String) : ({ type } : Schema).DistinctKeys :=
  .of_components .nil fun c hc => by simp [component_iff] at hc

theorem Schema.DistinctKeys.elements {s : Schema} (h : s.DistinctKeys) :
    (s.items.getD {}).DistinctKeys := by
  cases hItems : s.items with
  | none => exact distinctKeys_undescribed none
  | some c => exact h.contained (Contained.placed .refl (.items hItems))

/-! ### Computing it -/

namespace Schema

mutual
/-- No property is described twice at any depth. -/
def hasDistinctKeys : Schema → Bool
  | { properties, items, additional, allOf, oneOf, anyOf, .. } =>
    decide (properties.map Prod.fst).Nodup && distinctInProperties properties &&
      distinctInItems items && distinctInAdditional additional &&
      distinctInMembers allOf && distinctInMembers oneOf && distinctInMembers anyOf
def distinctInProperties : List (String × Schema) → Bool
  | [] => true
  | (_, s) :: rest => s.hasDistinctKeys && distinctInProperties rest
def distinctInItems : Option Schema → Bool
  | none => true
  | some s => s.hasDistinctKeys
def distinctInAdditional : Additional Schema → Bool
  | .each s => s.hasDistinctKeys
  | _ => true
def distinctInMembers : List Schema → Bool
  | [] => true
  | s :: rest => s.hasDistinctKeys && distinctInMembers rest
end

theorem distinctInProperties_iff (properties : List (String × Schema)) :
    distinctInProperties properties = true ↔ ∀ e ∈ properties, e.2.hasDistinctKeys = true := by
  induction properties with
  | nil => simp [distinctInProperties]
  | cons entry rest ih => simp [distinctInProperties, ih]

theorem distinctInMembers_iff (members : List Schema) :
    distinctInMembers members = true ↔ ∀ m ∈ members, m.hasDistinctKeys = true := by
  induction members with
  | nil => simp [distinctInMembers]
  | cons m rest ih => simp [distinctInMembers, ih]

theorem distinctInItems_iff (items : Option Schema) :
    distinctInItems items = true ↔ ∀ c, items = some c → c.hasDistinctKeys = true := by
  cases items <;> simp [distinctInItems]

theorem distinctInAdditional_iff (additional : Additional Schema) :
    distinctInAdditional additional = true ↔ ∀ c, additional = .each c → c.hasDistinctKeys = true := by
  cases additional <;> simp [distinctInAdditional]

theorem hasDistinctKeys_iff_components (s : Schema) : s.hasDistinctKeys = true ↔
    (s.properties.map Prod.fst).Nodup ∧ ∀ c, Component s c → c.hasDistinctKeys = true := by
  cases s
  simp only [hasDistinctKeys, Bool.and_eq_true, decide_eq_true_eq, distinctInProperties_iff,
    distinctInItems_iff, distinctInAdditional_iff, distinctInMembers_iff, component_iff, or_imp,
    forall_and, and_assoc, List.mem_map, forall_exists_index, and_imp, forall_apply_eq_imp_iff₂]
  tauto

theorem hasDistinctKeys_iff (s : Schema) : s.hasDistinctKeys = true ↔ s.DistinctKeys := by
  rw [hasDistinctKeys_iff_components, distinctKeys_iff]
  refine and_congr_right fun _ => forall_congr' fun c => imp_congr_right fun hc => ?_
  exact hasDistinctKeys_iff c
termination_by s.size
decreasing_by exact size_lt_of_component hc

instance (s : Schema) : Decidable s.DistinctKeys :=
  decidable_of_iff (s.hasDistinctKeys = true) (hasDistinctKeys_iff s)

end Schema

end ClientTypes
