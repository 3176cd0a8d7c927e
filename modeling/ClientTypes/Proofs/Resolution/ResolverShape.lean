import ClientTypes.Proofs.Resolution.Shape

/-! The resolver builds properties and models of the described shape. Each step keeps
the workspace so, given that resolving the properties inside does; the last theorems tie
the steps together for properties and models of any depth. -/
namespace ClientTypes.Resolution

open Naming TargetType

variable {α β : Type} {setup : Setup} {w : Workspace}

/-- From a workspace whose models were built the run grows into such a workspace, and its
result meets `post` over the names that are known then. -/
def Checks (setup : Setup) (x : Run α) (w : Workspace) (post : α → (String → Prop) → Prop) :
    Prop :=
  AllBuilt setup w →
    Ensures x w fun a w' => Grows w w' ∧ AllBuilt setup w' ∧ post a (Known setup w')

namespace Checks

variable {x : Run α} {P : α → (String → Prop) → Prop} {Q : β → (String → Prop) → Prop}

theorem imp {P' : α → (String → Prop) → Prop} (h : Checks setup x w P)
    (hPost : ∀ a names, P a names → P' a names) : Checks setup x w P' :=
  fun hBuilt => (h hBuilt).imp fun _ _ hEnd => ⟨hEnd.1, hEnd.2.1, hPost _ _ hEnd.2.2⟩

protected theorem pure {a : α} (h : P a (Known setup w)) : Checks setup (pure a) w P :=
  fun hBuilt => .pure ⟨.refl w, hBuilt, h⟩

protected theorem bind {f : α → Run β} (hx : Checks setup x w P)
    (hf : ∀ a w1, Grows w w1 → P a (Known setup w1) → Checks setup (f a) w1 Q) :
    Checks setup (x >>= f) w Q := by
  intro hBuilt
  refine .bind (hx hBuilt) fun a w1 hFirst => ?_
  obtain ⟨hGrows, hBuilt1, hPost⟩ := hFirst
  refine (hf a w1 hGrows hPost hBuilt1).imp ?_
  rintro b w2 ⟨hGrows2, hBuilt2, hPost2⟩
  exact ⟨hGrows.trans hGrows2, hBuilt2, hPost2⟩

theorem report (part : Part) (level : Level) (message : String) :
    Checks setup (report part level message) w fun _ _ => True :=
  fun hBuilt => .modify ⟨w.withReport_grows _, hBuilt.of_synthetic_eq rfl, trivial⟩

theorem reportAll (part : Part) (level : Level) (messages : List String) :
    Checks setup (reportAll part level messages) w fun _ _ => True := by
  have hKept (w' : Workspace) (r : Report) (h : Grows w w' ∧ AllBuilt setup w') :
      Grows w (w'.withReport r) ∧ AllBuilt setup (w'.withReport r) :=
    ⟨h.1.trans (w'.withReport_grows r), h.2.of_synthetic_eq rfl⟩
  intro hBuilt
  exact (Preserves.reportAll hKept part level messages w ⟨.refl w, hBuilt⟩).imp
    fun _ _ hEnd => ⟨hEnd.1, hEnd.2, trivial⟩

theorem textOf (v : Value) : Checks setup (textOf v) w fun _ _ => True :=
  fun hBuilt => .textOf fun _ => ⟨.refl w, hBuilt, trivial⟩

end Checks

theorem enumMembers_checks (values : List Value) :
    Checks setup (enumMembers values) w fun _ _ => True := by
  induction values generalizing w with
  | nil => exact .pure trivial
  | cons v rest ih =>
      exact .bind (.textOf v) fun _ _ _ _ => .bind ih fun _ _ _ _ => .pure trivial

theorem enumValues_checks (values : List Value) :
    Checks setup (enumValues values) w fun _ _ => True :=
  .bind (enumMembers_checks values) fun _ _ _ _ => .pure trivial

/-- The type of a schema of the table is known. -/
theorem known_of_has {target : String} (h : setup.schemas.has target = true) :
    Known setup w (typeName target) := by
  obtain ⟨s, hGet⟩ := Option.isSome_iff_exists.mp h
  exact Or.inl ⟨(target, s), Table.mem_of_get? hGet, rfl⟩

/-- The property is built once it is refined. -/
def Buildable (setup : Setup) (p : Property) (names : String → Prop) : Prop :=
  Built setup.config names (enrich setup.config p)

theorem referenceProperty_checks (r : Request) (reference : String) :
    Checks setup (referenceProperty setup (blankProperty r) reference) w (Buildable setup) := by
  unfold referenceProperty
  dsimp only
  split
  next hHas =>
    refine .pure (.single (.typed ?_) rfl rfl rfl)
    dsimp only
    exact .model (known_of_has hHas)
  next =>
    refine .bind (.report _ _ _) fun _ _ _ _ => .pure ?_
    exact .single (.typed isType_fallback) rfl rfl rfl

/-- Properties inside a schema are built. -/
def Builds (setup : Setup) (resolve : Resolve) : Prop :=
  ∀ r w, Checks setup (resolve r) w fun p names => Built setup.config names p

section Steps

variable {resolve : Resolve} (hResolve : Builds setup resolve)

include hResolve

/-! ### Containers -/

theorem arrayProperty_checks (r : Request) (s : Schema) (owner : String) :
    Checks setup (arrayProperty resolve (blankProperty r) s owner) w (Buildable setup) := by
  refine .bind (hResolve _ w) fun item w1 _ hItem => ?_
  dsimp only
  split
  · exact .pure (.array hItem rfl rfl rfl rfl)
  · exact .pure (.array hItem rfl rfl rfl rfl)

theorem mapProperty_checks (r : Request) (s : Schema) (owner : String) :
    Checks setup (mapProperty resolve (blankProperty r) s owner) w (Buildable setup) := by
  unfold mapProperty
  split
  · exact .bind (hResolve _ w) fun value w1 _ hValue => .pure (.map hValue rfl rfl rfl rfl)
  · exact .pure (.openMap rfl rfl rfl (by simp [blankProperty]))

theorem resolveVars_checks (owner : String) (required : List String)
    (properties : List (String × Schema)) :
    Checks setup (resolveVars resolve owner required properties) w fun ps names =>
      ∀ p ∈ ps, Built setup.config names p := by
  induction properties generalizing w with
  | nil => exact .pure (by simp)
  | cons entry rest ih =>
      refine .bind (hResolve _ w) fun first w1 _ hFirst => .bind ih fun more w2 hGrows hMore => .pure ?_
      rw [List.forall_mem_cons]
      exact ⟨hFirst.mono fun _ => hGrows.known, hMore⟩

theorem mapEntries_checks (owner : String) (required : List String)
    (entries : List (String × Schema)) :
    Checks setup (mapEntries resolve owner required entries) w fun ps names =>
      ∀ p ∈ ps, Built setup.config names p := by
  rw [mapEntries_eq]
  exact .bind (resolveVars_checks hResolve _ _ _) fun vars w1 _ hVars =>
    .pure (List.forall_mem_map.mpr fun p hp => .spelled (hVars p hp))

theorem documentedMap_checks (r : Request) (s : Schema) (owner : String) :
    Checks setup (documentedMap resolve (blankProperty r) s owner) w (Buildable setup) := by
  refine .bind (mapEntries_checks hResolve _ _ _) fun entries w1 _ hEntries => ?_
  exact .pure (.openMap rfl rfl rfl hEntries)

/-! ### Unions -/

omit hResolve in
theorem isPlain_fallback : IsPlain fallback := by decide

omit hResolve in
theorem referenceVariant_checks (reference : String) :
    Checks setup (referenceVariant setup reference) w fun variant _ =>
      IsPlain variant.datatype := by
  unfold referenceVariant
  dsimp only
  split
  · refine .pure ?_
    dsimp only
    exact (isTypeName_typeName _).plain
  · exact .bind (.report _ _ _) fun _ _ _ _ => .pure isPlain_fallback

theorem memberVariant_checks (name owner : String) (place : Nat) (member : Schema) :
    Checks setup (memberVariant setup resolve name owner place member) w fun variant _ =>
      member.target?.isSome = true → IsPlain variant.datatype := by
  unfold memberVariant
  split
  next reference hTarget => exact (referenceVariant_checks reference).imp fun _ _ h _ => h
  next hTarget => exact .bind (hResolve _ w) fun _ _ _ _ => .pure (by simp [hTarget])

/-- The arms of references are named by letters and digits. -/
theorem variantsFrom_checks (name owner : String) (found : List Variant) (members : List Schema) :
    Checks setup (variantsFrom setup resolve name owner found members) w fun variants _ =>
      members.all (·.target?.isSome) = true →
      (∀ v ∈ found, IsPlain v.datatype) →
      ∀ v ∈ variants, IsPlain v.datatype := by
  induction members generalizing w found with
  | nil => exact .pure fun _ h => h
  | cons member rest ih =>
      refine .bind (memberVariant_checks hResolve _ _ _ _) fun variant w1 _ hVariant => ?_
      split
      · refine .bind (.report _ _ _) fun _ _ _ _ => (ih found).imp fun variants _ h hAll hFound => ?_
        simp only [List.all_cons, Bool.and_eq_true] at hAll
        exact h hAll.2 hFound
      · refine (ih _).imp fun variants _ h hAll hFound => ?_
        simp only [List.all_cons, Bool.and_eq_true] at hAll
        apply h hAll.2
        intro v hv
        rcases List.mem_append.mp hv with hOld | hNew
        · exact hFound v hOld
        · rw [List.mem_singleton.mp hNew]
          exact hVariant hAll.1

theorem unionValues_checks (name owner : String) (members : List Schema) :
    Checks setup (unionValues setup resolve name owner members) w fun values _ =>
      values.kind = .untagged →
      ∀ v ∈ values.variants, IsPlain v.datatype := by
  refine .bind (variantsFrom_checks hResolve name owner [] members) fun variants w1 _ h => .pure ?_
  intro hKind
  refine h ?_ (by simp)
  by_contra hOther
  simp [unionKind, hOther] at hKind

omit hResolve in
/-- The name of a union is a type name. -/
theorem isTypeName_unionName {s : Schema} {values : AllowableValues} {owner name : String}
    (h : values.kind = .untagged → ∀ v ∈ values.variants, IsPlain v.datatype) :
    IsTypeName (unionName s values owner name) := by
  have hBack : IsPlain (if values.kind = .untagged then
      String.join (values.variants.map (·.datatype)) else typeName (inlineName owner name)) := by
    split
    next hKind => exact isPlain_join (by simpa using h hKind)
    next => exact (isTypeName_typeName _).plain
  unfold unionName
  split
  · exact isTypeName_of_front ⟨'A', "nyOf".toList, rfl, rfl⟩ (by decide) (by decide) hBack
  · exact isTypeName_of_front ⟨'O', "neOf".toList, rfl, rfl⟩ (by decide) (by decide) hBack

omit hResolve in
/-- A registered model is known by its classname, which is spelled after its name. -/
theorem addSynthetic_checks {m : Model} (hModel : BuiltModel setup.config (Known setup w) m) :
    Checks setup (modifyGet (·.addSynthetic m) : Run Model) w fun kept names =>
      kept.classname = typeName m.name ∧ names kept.classname := by
  intro hBuilt
  have hBuilt' := hBuilt.addSynthetic hModel
  obtain ⟨_, hKept⟩ := w.addSynthetic_spec m
  exact .modifyGet ⟨w.addSynthetic_grows m, hBuilt', hBuilt'.known_of_synthetic? hKept⟩

theorem unionProperty_checks (r : Request) (s : Schema) (owner : String) :
    Checks setup (unionProperty setup resolve (blankProperty r) s owner) w (Buildable setup) := by
  refine .bind (unionValues_checks hResolve _ _ _) fun values w1 _ hPlain => ?_
  have hNumber : Checks setup (modifyGet (·.nextList) : Run Nat) w1 fun _ _ => True :=
    fun hBuilt => .modifyGet ⟨w1.nextList_grows, hBuilt.of_synthetic_eq rfl, trivial⟩
  refine .bind hNumber fun number w2 _ _ => ?_
  have hName : IsTypeName (unionName s { values with sharedList := some number } owner
      (blankProperty r).baseName) := isTypeName_unionName hPlain
  have hModel : BuiltModel setup.config (Known setup w2) (unionModel (unionName s
      { values with sharedList := some number } owner (blankProperty r).baseName) s.description
      { values with sharedList := some number }) :=
    ⟨hName.typeName_eq.symm, rfl, by simp [unionModel], .nothing rfl rfl rfl rfl⟩
  refine .bind (addSynthetic_checks hModel) fun kept w3 _ hKept => ?_
  obtain ⟨hSpelled, hKnown⟩ := hKept
  rw [hSpelled.trans hName.typeName_eq] at hKnown
  exact .pure (.single (.typed (.model hKnown)) rfl rfl rfl)

/-! ### Models -/

theorem mergedModel_checks (name : String) (s : Schema) :
    Checks setup (mergedModel setup resolve (blankModel name s) s) w fun m names =>
      BuiltModel setup.config names m ∧ m.name = name := by
  refine .bind (.reportAll _ _ _) fun _ _ _ _ => ?_
  split
  · exact .bind (.report _ _ _) fun _ _ _ _ =>
      .pure ⟨⟨rfl, rfl, by simp [blankModel], .nothing rfl rfl rfl rfl⟩, rfl⟩
  · refine .bind (resolveVars_checks hResolve _ _ _) fun vars w2 _ hVars => .pure ⟨?_, rfl⟩
    refine ⟨rfl, rfl, hVars, .object rfl rfl rfl fun type hType => ?_⟩
    dsimp only at hType
    split at hType
    · exact hType
    · cases hType

theorem composedModel_checks (name : String) (s : Schema) :
    Checks setup (composedModel setup resolve (blankModel name s) s) w fun m names =>
      BuiltModel setup.config names m ∧ m.name = name := by
  unfold composedModel
  split
  · exact mergedModel_checks hResolve name s
  · split
    · exact .bind (resolveVars_checks hResolve _ _ _) fun vars w1 _ hVars =>
        .pure ⟨⟨rfl, rfl, hVars, .object rfl rfl rfl (by simp [blankModel])⟩, rfl⟩
    · exact .bind (unionValues_checks hResolve _ _ _) fun values w1 _ _ =>
        .pure ⟨⟨rfl, rfl, by simp [blankModel], .nothing rfl rfl rfl rfl⟩, rfl⟩

theorem wrapper_checks (name : String) (s : Schema) :
    Checks setup (modelStep.wrapper resolve name s (blankModel name s)) w fun m names =>
      BuiltModel setup.config names m ∧ m.name = name :=
  .bind (hResolve _ w) fun _ _ _ hWhole =>
    .pure ⟨⟨rfl, rfl, by simp [blankModel], .container hWhole rfl rfl rfl rfl⟩, rfl⟩

theorem modelStep_checks (name : String) (s : Schema) :
    Checks setup (modelStep setup resolve name s) w fun m names =>
      BuiltModel setup.config names m ∧ m.name = name := by
  unfold modelStep
  dsimp only
  split
  · exact .bind (.report _ _ _) fun _ _ _ _ =>
      .pure ⟨⟨rfl, rfl, by simp [blankModel], .nothing rfl rfl rfl rfl⟩, rfl⟩
  · split
    · exact .bind (hResolve _ w) fun followed w1 _ hFollowed =>
        .pure ⟨⟨rfl, rfl, by simp [blankModel], .value hFollowed rfl rfl rfl rfl⟩, rfl⟩
    · split
      · exact composedModel_checks hResolve name s
      · split
        · exact .bind (mapEntries_checks hResolve _ _ _) fun vars w1 _ hVars =>
            .pure ⟨⟨rfl, rfl, hVars, .openMap rfl rfl rfl rfl⟩, rfl⟩
        · exact wrapper_checks hResolve name s
      · exact wrapper_checks hResolve name s
      · refine .bind (hResolve _ w) fun single w1 _ hSingle => ?_
        split
        · exact .pure ⟨⟨rfl, rfl, by simp [blankModel], .value hSingle rfl rfl rfl rfl⟩, rfl⟩
        · refine .bind (enumValues_checks _) fun values w2 hGrows _ => ?_
          have hLater := hSingle.mono fun _ => hGrows.known
          exact .pure ⟨⟨rfl, rfl, by simp [blankModel], .value hLater rfl rfl rfl rfl⟩, rfl⟩
      · exact .bind (resolveVars_checks hResolve _ _ _) fun vars w1 _ hVars =>
          .pure ⟨⟨rfl, rfl, hVars, .object rfl rfl rfl (by simp [blankModel])⟩, rfl⟩

/-! ### Inline objects -/

theorem hoist_checks (name : String) (s : Schema) :
    Checks setup (hoist setup resolve name s) w fun classname names => names classname := by
  intro hBuilt
  refine hoist_ensures (fun held hHeld => ⟨.refl w, hBuilt, (hBuilt.known_of_synthetic? hHeld).2⟩) fun _ => ?_
  have hNew : Checks setup (do
      let m ← modelStep setup resolve name s
      let kept ← modifyGet (·.addSynthetic m)
      return kept.classname) w fun classname names => names classname :=
    .bind (modelStep_checks hResolve name s) fun m w1 _ hModel =>
      .bind (addSynthetic_checks hModel.1) fun kept w2 _ hKept => .pure hKept.2
  exact hNew hBuilt

theorem composedProperty_checks (r : Request) (s : Schema) (owner : String) :
    Checks setup (composedProperty setup resolve (blankProperty r) s owner) w (Buildable setup) := by
  unfold composedProperty
  split
  · split
    · exact .pure (.single (.openObject rfl) rfl rfl rfl)
    · exact unionProperty_checks hResolve r s owner
  · split
    · exact referenceProperty_checks r _
    · exact .bind (hoist_checks hResolve _ s) fun classname w1 _ hKnown =>
        .pure (.single (.typed (.model hKnown)) rfl rfl rfl)

omit hResolve in
/-- The type of a primitive schema is built in, or taken away when the property is
refined; the format decides which. -/
theorem provisional_ofPrimitive {names : String → Prop} {r : Request} {type : Option String}
    {values : Option AllowableValues} :
    Provisional names { blankProperty r with datatype := ofPrimitive type r.schema.format, values } := by
  have hText : ∀ format, format = r.schema.format → Provisional names
      { blankProperty r with datatype := ofText format, values } := by
    intro format hFormat
    unfold ofText
    split
    · exact .dateTime rfl hFormat.symm rfl
    · exact .typed (.leaf (by simp [leaves]))
    · exact .typed (.leaf (by simp [leaves]))
    · exact .typed (.leaf (by simp [leaves, TargetType.string]))
  unfold ofPrimitive
  split
  · exact hText _ rfl
  · exact hText _ rfl
  · unfold ofInteger
    split
    · exact .typed (.leaf (by simp [leaves]))
    · exact .typed isType_fixedWidth
    · exact .pointerSized rfl
  · unfold ofNumber
    split
    · exact .typed (.leaf (by simp [leaves]))
    · exact .typed (.leaf (by simp [leaves]))
  · exact .typed (.leaf (by simp [leaves]))
  · exact .openObject rfl

theorem typedProperty_checks (r : Request) :
    Checks setup (typedProperty setup resolve r) w (Buildable setup) := by
  unfold typedProperty
  dsimp only
  split
  · exact referenceProperty_checks r _
  · split
    · exact arrayProperty_checks hResolve r _ _
    · split
      · exact documentedMap_checks hResolve r _ _
      · exact mapProperty_checks hResolve r _ _
    · exact composedProperty_checks hResolve r _ _
    · split
      · exact .pure (.single provisional_ofPrimitive rfl rfl rfl)
      · exact .bind (enumValues_checks _) fun values w1 _ _ =>
          .pure (.single provisional_ofPrimitive rfl rfl rfl)
    · split
      · exact .pure (.single (.openObject rfl) rfl rfl rfl)
      · exact .bind (hoist_checks hResolve _ _) fun classname w1 _ hKnown =>
          .pure (.single (.typed (.model hKnown)) rfl rfl rfl)

theorem propertyStep_builds : Builds setup (propertyStep setup resolve) := fun r _ =>
  .bind (typedProperty_checks hResolve r) fun _ _ _ hProperty =>
    .bind (.reportAll _ _ _) fun _ _ hGrows _ => .pure (hProperty.mono fun _ => hGrows.known)

end Steps

/-! ### Any depth -/

theorem propertyWithin_builds (fuel : Nat) : Builds setup (propertyWithin setup fuel) := by
  induction fuel with
  | zero => exact fun _ _ _ => .halt
  | succ fuel ih => exact propertyStep_builds ih

theorem resolveProperty_checks (r : Request) :
    Checks setup (resolveProperty setup r) w fun p names => Built setup.config names p :=
  propertyWithin_builds _ r w

theorem resolveModel_checks (name : String) (s : Schema) :
    Checks setup (resolveModel setup name s) w fun m names =>
      BuiltModel setup.config names m ∧ m.name = name :=
  modelStep_checks (propertyWithin_builds _) name s

end ClientTypes.Resolution
