import ClientTypes.Proofs.Resolution.Origin
import ClientTypes.Proofs.Schema.DistinctKeys
import ClientTypes.Proofs.Model.Tidy

/-! Resolving leads to tidy models. A property is asked for once under each name, since the
properties of a schema are a mapping and so are those of a merge; what an array or a map
contains was resolved itself; and the values of a union come from its arms alone. -/
namespace ClientTypes.Resolution

variable {setup : Setup}

/-! ### What is asked for -/

/-- When no schema of the table describes a property twice, resolving asks for no schema that does. -/
theorem closedUnderAsking_distinctKeys (hTable : ∀ e ∈ setup.schemas, e.2.DistinctKeys) :
    ClosedUnderAsking setup Schema.DistinctKeys :=
  closedUnderAsking_of_contained (distinctKeys_undescribed none) (fun _ _ hKeys => hKeys.contained)
    hTable

theorem requestsFor_nodup (owner : String) (required : List String) {s : Schema} (hKeys : s.DistinctKeys) :
    ((requestsFor owner required s.properties).map (·.name)).Nodup := by
  rw [names_requestsFor]
  exact hKeys.own

theorem composedRequests_nodup (name : String) {s : Schema} (hKeys : s.DistinctKeys) :
    ((composedRequests setup name s).map (·.name)).Nodup := by
  unfold composedRequests
  split_ifs
  · cases hFlat : flatten setup.schemas name s with
    | unresolved reason => exact .nil
    | merged f =>
        rw [mergedRequests, names_requestsFor]
        exact flatten_keys_nodup hFlat
  · exact requestsFor_nodup _ _ hKeys
  · exact .nil

/-- A model asks for no name twice. -/
theorem fieldRequests_nodup (name : String) {s : Schema} (hKeys : s.DistinctKeys) :
    ((fieldRequests setup name s).map (·.name)).Nodup := by
  unfold fieldRequests
  split
  · exact .nil
  · split
    · exact .nil
    · cases s.kind with
      | object => exact requestsFor_nodup _ _ hKeys
      | composed => exact composedRequests_nodup _ hKeys
      | map =>
          dsimp only
          split
          · exact requestsFor_nodup _ _ hKeys
          · exact .nil
      | array => exact .nil
      | primitive => exact .nil

/-! ### Properties -/

theorem enumValues_ofOneKind (values : List Value) (w : Workspace) :
    Ensures (enumValues values) w fun v _ => v.OfOneKind :=
  .bind .any fun _ _ _ => .pure ⟨fun _ => rfl, fun h => absurd rfl h⟩

theorem unionValues_ofOneKind {resolve : Resolve} (name owner : String) (members : List Schema)
    (w : Workspace) :
    Ensures (unionValues setup resolve name owner members) w fun v _ => v.OfOneKind :=
  (unionValues_arms name owner members).imp fun _ _ hArms => .of_arms hArms.1 hArms.2

theorem tidy_blankProperty (r : Request) : Throughout Tidy (blankProperty r) :=
  throughout_iff.mpr ⟨⟨.nil, by simp [blankProperty]⟩, by simp [blankProperty], by simp [blankProperty]⟩

theorem tidy_enrich (config : Config) {p : Property} (h : Throughout Tidy p) :
    Throughout Tidy (enrich config p) := by
  have hRefines := enrich_refines config p
  exact throughout_tidy_congr h (by rw [hRefines]) (by rw [hRefines]) (by rw [hRefines])

theorem tidy_spelledEntry {p : Property} (h : Throughout Tidy p) :
    Throughout Tidy (spelledEntry p) := by
  unfold spelledEntry
  split
  · exact throughout_tidy_congr h rfl rfl rfl
  · exact h

/-- Properties of schemas that describe no property twice are tidy. -/
def ResolvesTidy (resolve : Resolve) : Prop :=
  ∀ r, r.schema.DistinctKeys → ∀ w, Ensures (resolve r) w fun p _ => Throughout Tidy p

section Steps

variable {resolve : Resolve} {w : Workspace} {p : Property}

theorem referenceProperty_tidy (hp : Throughout Tidy p) (reference : String) :
    Ensures (referenceProperty setup p reference) w fun p' _ => Throughout Tidy p' := by
  unfold referenceProperty
  dsimp only
  split
  · exact .pure (throughout_tidy_congr hp rfl rfl rfl)
  · exact .bind .any fun _ _ _ => .pure (throughout_tidy_congr hp rfl rfl rfl)

theorem unionProperty_tidy (hp : Throughout Tidy p) (s : Schema) (owner : String) :
    Ensures (unionProperty setup resolve p s owner) w fun p' _ => Throughout Tidy p' := by
  obtain ⟨hOwn, hItems, hEntries⟩ := throughout_iff.mp hp
  refine .bind (unionValues_ofOneKind _ _ _ w) fun values _ hValues => ?_
  refine .bind .any fun number _ _ => .bind .any fun _ _ _ => .pure ?_
  refine throughout_iff.mpr ⟨⟨hOwn.entries, ?_⟩, hItems, hEntries⟩
  rintro _ ⟨⟩
  exact hValues.shared _

theorem composedProperty_tidy (hp : Throughout Tidy p) (s : Schema) (owner : String) :
    Ensures (composedProperty setup resolve p s owner) w fun p' _ => Throughout Tidy p' := by
  unfold composedProperty
  split
  · split
    · exact .pure (throughout_tidy_congr hp rfl rfl rfl)
    · exact unionProperty_tidy hp s owner
  · split
    · exact referenceProperty_tidy hp _
    · exact .bind .any fun _ _ _ => .pure (throughout_tidy_congr hp rfl rfl rfl)

variable (hResolve : ResolvesTidy resolve)

include hResolve

theorem arrayProperty_tidy (hp : Throughout Tidy p) {s : Schema} (owner : String)
    (hKeys : s.DistinctKeys) :
    Ensures (arrayProperty resolve p s owner) w fun p' _ => Throughout Tidy p' := by
  obtain ⟨hOwn, _, hEntries⟩ := throughout_iff.mp hp
  refine .bind (hResolve _ hKeys.elements w) fun item _ hItem => ?_
  have hNamed : Throughout Tidy { item with baseName := p.baseName, name := p.name } :=
    throughout_tidy_congr hItem rfl rfl rfl
  have hElement : ∀ inner, some { item with baseName := p.baseName, name := p.name } = some inner →
      Throughout Tidy inner := by
    rintro _ ⟨⟩
    exact hNamed
  dsimp only
  split
  · exact .pure (throughout_iff.mpr ⟨⟨hOwn.entries, hOwn.values⟩, hElement, hEntries⟩)
  next values hUnion =>
    refine .pure (throughout_iff.mpr ⟨⟨hOwn.entries, ?_⟩, hElement, hEntries⟩)
    rintro _ ⟨⟩
    exact (throughout_iff.mp hItem).1.values values (Option.filter_eq_some_iff.mp hUnion).1

theorem mapProperty_tidy (hp : Throughout Tidy p) {s : Schema} (owner : String)
    (hKeys : ∀ c, s.additional = .each c → c.DistinctKeys) :
    Ensures (mapProperty resolve p s owner) w fun p' _ => Throughout Tidy p' := by
  obtain ⟨hOwn, _, hEntries⟩ := throughout_iff.mp hp
  unfold mapProperty
  split
  next inner hInner =>
    refine .bind (hResolve _ (hKeys inner hInner) w) fun value _ hValue => .pure ?_
    refine throughout_iff.mpr ⟨⟨hOwn.entries, hOwn.values⟩, ?_, hEntries⟩
    rintro _ ⟨⟩
    exact throughout_tidy_congr hValue rfl rfl rfl
  next => exact .pure (throughout_tidy_congr hp rfl rfl rfl)

theorem resolveVars_tidy (owner : String) (required : List String)
    {properties : List (String × Schema)} (hKeys : ∀ e ∈ properties, e.2.DistinctKeys) :
    Ensures (resolveVars resolve owner required properties) w fun vars _ =>
      ∀ p ∈ vars, Throughout Tidy p := by
  induction properties generalizing w with
  | nil => exact .pure (by simp)
  | cons entry rest ih =>
      rw [List.forall_mem_cons] at hKeys
      refine .bind (hResolve _ hKeys.1 w) fun first _ hFirst => .bind (ih hKeys.2) fun more _ hMore => .pure ?_
      exact List.forall_mem_cons.mpr ⟨hFirst, hMore⟩

theorem mapEntries_tidy (owner : String) (required : List String) {entries : List (String × Schema)}
    (hKeys : ∀ e ∈ entries, e.2.DistinctKeys) :
    Ensures (mapEntries resolve owner required entries) w fun ps _ => ∀ p ∈ ps, Throughout Tidy p := by
  rw [mapEntries_eq]
  exact .bind (resolveVars_tidy hResolve _ _ hKeys) fun vars _ hVars =>
    .pure (List.forall_mem_map.mpr fun p hp => tidy_spelledEntry (hVars p hp))

variable (hNamed : Named resolve)

include hNamed

theorem documentedMap_tidy (hp : Throughout Tidy p) {s : Schema} (owner : String)
    (hKeys : s.DistinctKeys) :
    Ensures (documentedMap resolve p s owner) w fun p' _ => Throughout Tidy p' := by
  obtain ⟨hOwn, hItems, _⟩ := throughout_iff.mp hp
  have hEach : ∀ e ∈ s.properties, e.2.DistinctKeys :=
    fun e he => hKeys.contained (Contained.placed .refl (.property he))
  refine .bind .self fun entries w1 hRun => .pure ?_
  have hNames := mapEntries_reads hNamed baseName_spelledEntry (inlineName owner p.baseName)
    s.required s.properties entries w1 hRun
  refine throughout_iff.mpr ⟨⟨?_, hOwn.values⟩, hItems, ?_⟩
  · rw [hNames]
    exact requestsFor_nodup _ _ hKeys
  · exact mapEntries_tidy hResolve _ _ hEach entries w1 hRun

theorem typedProperty_tidy {r : Request} (hKeys : r.schema.DistinctKeys) :
    Ensures (typedProperty setup resolve r) w fun p _ => Throughout Tidy p := by
  have hBlank := tidy_blankProperty r
  obtain ⟨hOwn, hElement, hEntries⟩ := throughout_iff.mp hBlank
  unfold typedProperty
  dsimp only
  split
  · exact referenceProperty_tidy hBlank _
  · split
    · exact arrayProperty_tidy hResolve hBlank _ hKeys
    · split
      · exact documentedMap_tidy hResolve hNamed hBlank _ hKeys
      · exact mapProperty_tidy hResolve hBlank _ fun c hEach =>
          hKeys.contained (Contained.placed .refl (.entries hEach))
    · exact composedProperty_tidy hBlank _ _
    · split
      · exact .pure (throughout_tidy_congr hBlank rfl rfl rfl)
      · refine .bind (enumValues_ofOneKind _ w) fun values _ hValues => .pure ?_
        refine throughout_iff.mpr ⟨⟨hOwn.entries, ?_⟩, hElement, hEntries⟩
        rintro _ ⟨⟩
        exact hValues
    · split
      · exact .pure (throughout_tidy_congr hBlank rfl rfl rfl)
      · exact .bind .any fun _ _ _ => .pure (throughout_tidy_congr hBlank rfl rfl rfl)

theorem propertyStep_tidy : ResolvesTidy (propertyStep setup resolve) := by
  intro r hKeys w
  refine (propertyStep_ensures r).imp ?_
  rintro p w' ⟨typed, w1, hTyped, _, rfl⟩
  exact tidy_enrich _ (typedProperty_tidy hResolve hNamed hKeys typed w1 hTyped)

/-! ### Models -/

omit hNamed

theorem mergedModel_tidy {m : Model} (hm : TidyInside m) {s : Schema}
    (hKeys : ∀ f, flatten setup.schemas m.name s = .merged f → ∀ e ∈ f.properties, e.2.DistinctKeys) :
    Ensures (mergedModel setup resolve m s) w fun m' _ => TidyInside m' := by
  refine .bind .any fun _ _ _ => ?_
  cases hFlat : flatten setup.schemas m.name s with
  | unresolved reason => exact .bind .any fun _ _ _ => .pure ⟨hm.inside, hm.values⟩
  | merged f =>
      exact .bind (resolveVars_tidy hResolve _ _ (hKeys f hFlat)) fun _ _ hVars => .pure ⟨hVars, hm.values⟩

theorem composedModel_tidy {m : Model} (hm : TidyInside m) {s : Schema} (hTarget : s.target? = none)
    (hKind : s.kind = .composed) (hAsks : AsksFor setup Schema.DistinctKeys s) :
    Ensures (composedModel setup resolve m s) w fun m' _ => TidyInside m' := by
  unfold composedModel
  split
  next hAllOf =>
    have hMerge : s.isMerge = true := by simp [Schema.isMerge, hKind, hAllOf]
    exact mergedModel_tidy hResolve hm (hAsks.merged hTarget hMerge m.name)
  next =>
    split
    · exact .bind (resolveVars_tidy hResolve _ _ hAsks.properties) fun _ _ hVars =>
        .pure ⟨hVars, hm.values⟩
    · refine .bind (unionValues_ofOneKind _ _ _ w) fun values _ hValues => .pure ⟨hm.inside, ?_⟩
      rintro _ ⟨⟩
      exact hValues

theorem modelStep_tidy (name : String) {s : Schema} (hAsks : AsksFor setup Schema.DistinctKeys s) :
    Ensures (modelStep setup resolve name s) w fun m _ => TidyInside m := by
  have hBlank : TidyInside (blankModel name s) :=
    ⟨by simp [blankModel], by simp [blankModel]⟩
  unfold modelStep
  dsimp only
  split
  · exact .bind .any fun _ _ _ => .pure ⟨hBlank.inside, hBlank.values⟩
  · split
    · exact .bind .any fun _ _ _ => .pure ⟨hBlank.inside, hBlank.values⟩
    next hInPlace =>
      have hTarget : s.target? = none := by simpa [Option.isSome_iff_ne_none] using hInPlace
      cases hKind : s.kind with
      | composed => exact composedModel_tidy hResolve hBlank hTarget hKind hAsks
      | object =>
          exact .bind (resolveVars_tidy hResolve _ _ hAsks.properties) fun _ _ hVars =>
            .pure ⟨hVars, hBlank.values⟩
      | map =>
          dsimp only
          split
          · exact .bind (mapEntries_tidy hResolve _ _ hAsks.properties) fun _ _ hVars =>
              .pure ⟨hVars, hBlank.values⟩
          · exact .bind .any fun _ _ _ => .pure ⟨hBlank.inside, hBlank.values⟩
      | array => exact .bind .any fun _ _ _ => .pure ⟨hBlank.inside, hBlank.values⟩
      | primitive =>
          refine .bind .any fun _ w1 _ => ?_
          split
          · exact .pure ⟨hBlank.inside, hBlank.values⟩
          · refine .bind (enumValues_ofOneKind _ w1) fun values _ hValues => .pure ⟨hBlank.inside, ?_⟩
            rintro _ ⟨⟩
            exact hValues

end Steps

theorem propertyWithin_tidy (setup : Setup) (fuel : Nat) : ResolvesTidy (propertyWithin setup fuel) := by
  induction fuel with
  | zero => exact fun _ _ _ => .halt
  | succ fuel ih => exact propertyStep_tidy ih (propertyWithin_named setup fuel)

/-- A model that comes from a schema that describes no property twice is tidy. -/
theorem ResolvedFrom.tidy {m : Model} {s : Schema} (hTable : ∀ e ∈ setup.schemas, e.2.DistinctKeys)
    (hKeys : s.DistinctKeys) (h : ResolvedFrom setup m s) : TidyContent m := by
  obtain ⟨fuel, w, w1, hRun⟩ := h
  have hAsks := closedUnderAsking_distinctKeys hTable s hKeys
  have hInside := modelStep_tidy (propertyWithin_tidy setup fuel) m.name hAsks m w1 hRun
  have hFields := (modelStep_reads (propertyWithin_named setup fuel) baseName_spelledEntry m.name s
    m w1 hRun).2
  refine ⟨hInside, ?_⟩
  rw [hFields]
  exact fieldRequests_nodup m.name hKeys

theorem Origin.tidy {m : Model} (hTable : ∀ e ∈ setup.schemas, e.2.DistinctKeys)
    (h : Origin setup Schema.DistinctKeys m) : TidyContent m := by
  cases h with
  | schema hGood hFrom => exact hFrom.tidy hTable hGood
  | @union name description values hArms hBare hIs =>
      subst hIs
      refine ⟨⟨by simp [unionModel], ?_⟩, .nil⟩
      rintro _ ⟨⟩
      exact .of_arms hArms hBare

end ClientTypes.Resolution
