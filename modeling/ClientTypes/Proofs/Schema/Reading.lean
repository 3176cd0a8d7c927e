import ClientTypes.Proofs.Schema.DistinctKeys
import ClientTypes.Proofs.Schema.Kinds
import ClientTypes.Proofs.Value.DistinctKeys

/-! What a tree of data is read into. The properties of a schema are the entries of a mapping, so
when no mapping of the tree has a key twice, no property of the schema is described twice. -/
namespace ClientTypes

/-- Properties of schemas before their keys are checked, none of them described twice at any depth. -/
structure DistinctProperties (properties : List (Scalar × Schema)) : Prop where
  keys : (properties.map Prod.fst).Nodup
  schemas : ∀ e ∈ properties, e.2.DistinctKeys

theorem DistinctProperties.nil : DistinctProperties [] := ⟨.nil, by simp⟩

/-- In each of its roles a value is read into schemas that describe no property twice. -/
abbrev SchemaRoles.Distinct (r : SchemaRoles) : Prop := r.Gives Schema.DistinctKeys DistinctProperties

/-! ### Schemas from their parts -/

theorem distinctKeys_of_makes {own : KindParts} {s : Schema}
    (hForm : own.OfForm Schema.DistinctKeys DistinctProperties) (h : own.Makes s) :
    s.DistinctKeys := by
  have hKeys := (hForm.properties .nil).keys
  rw [h.properties, List.map_map] at hKeys
  refine .of_components ?_ fun c hc => hForm.component .nil (fun _ hps => hps.schemas) h hc
  exact List.Nodup.of_map (Scalar.text ·) (by simpa [Function.comp_def] using hKeys)

theorem schemaOfEntries_distinct {entries : List (Scalar × Value)}
    {readings : List (Scalar × SchemaRoles)} (hReadings : ∀ e ∈ readings, e.2.Distinct) {s : Schema}
    (h : schemaOfEntries entries readings = .ok s) : s.DistinctKeys := by
  obtain ⟨own, hForm, hMakes⟩ :=
    form_of_schemaOfEntries hReadings .nil (distinctKeys_undescribed _) h
  exact distinctKeys_of_makes hForm hMakes

/-! ### Values as schemas -/

theorem keys_rolesOfEntries (entries : List (Scalar × Value)) :
    (rolesOfEntries entries).map Prod.fst = entries.map Prod.fst := by
  simp [rolesOfEntries_eq_map, Function.comp_def]

theorem distinctProperties_of_readings {entries : List (Scalar × Value)}
    (hKeys : (entries.map Prod.fst).Nodup) (hReadings : ∀ e ∈ rolesOfEntries entries, e.2.Distinct)
    {ps : List (Scalar × Schema)} (h : allProperties (rolesOfEntries entries) = .ok ps) :
    DistinctProperties ps := by
  obtain ⟨hSame, hSchemas⟩ := allProperties_gives (fun e he => (hReadings e he).schema) h
  refine ⟨?_, hSchemas⟩
  rw [hSame, keys_rolesOfEntries]
  exact hKeys

theorem rolesOfValue_distinct {v : Value} (h : v.DistinctKeys) : (SchemaRoles.ofValue v).Distinct := by
  have hEmpty : ({} : Schema).DistinctKeys := distinctKeys_undescribed none
  induction h with
  | scalar s => exact scalarRoles_gives hEmpty .nil s
  | list _ ih =>
      refine ⟨fun t ht => ?_, fun ms hms => ?_, fun ps hps => ?_⟩
      · cases ht
        exact hEmpty
      · refine allSchemas_gives ?_ hms
        rw [rolesOfItems_eq_map, List.forall_mem_map]
        exact fun item hItem => (ih item hItem).schema
      · unfold SchemaRoles.ofValue at hps
        dsimp only at hps
        split at hps
        · cases hps
          exact .nil
        · cases hps
  | @map entries hKeys _ ih =>
      have hReadings : ∀ e ∈ rolesOfEntries entries, e.2.Distinct := by
        rw [rolesOfEntries_eq_map, List.forall_mem_map]
        exact ih
      exact ⟨fun t ht => schemaOfEntries_distinct hReadings ht,
        fun ms hms => forall_of_replicate hEmpty (Except.ok.inj hms),
        fun ps hps => distinctProperties_of_readings hKeys hReadings hps⟩
  | knot _ _ ih => exact ih
  | loop _ ih => exact ih
  | beyond => exact ⟨by simp [SchemaRoles.ofValue], by simp [SchemaRoles.ofValue], by simp [SchemaRoles.ofValue]⟩

theorem allProperties_distinct {entries : List (Scalar × Value)} (h : DistinctEntries entries)
    {ps : List (Scalar × Schema)} (hRead : allProperties (rolesOfEntries entries) = .ok ps) :
    DistinctProperties ps := by
  refine distinctProperties_of_readings h.keys ?_ hRead
  rw [rolesOfEntries_eq_map, List.forall_mem_map]
  exact fun e he => rolesOfValue_distinct (h.values e he)

/-- A schema that is read from mappings without a key twice describes no property twice. -/
theorem Schema.distinctKeys_of_ofValue {v : Value} (h : v.DistinctKeys) {s : Schema}
    (hRead : Schema.ofValue v = .ok s) : s.DistinctKeys :=
  (rolesOfValue_distinct h).schema s hRead

end ClientTypes
