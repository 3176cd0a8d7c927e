import ClientTypes.Proofs.Resolution.Run
import ClientTypes.Proofs.Resolution.Enrichment
import ClientTypes.CrossReference.Renaming
import ClientTypes.Resolution.Resolver

/-! The sets of values that resolving builds. There are two ways to build one: from the members of an
enumeration, and from the arms of a union. What holds of the sets that are built so holds of every set
inside a property or a model that is resolved, and inside the models that are registered on the way. -/
namespace ClientTypes.Resolution

open CrossReference

variable {α β : Type} {setup : Setup} {P : AllowableValues → Prop}

/-! ### Sets of values inside properties and models -/

theorem valuesInProperty_eq (p : Property) :
    valuesInProperty p = valuesInItems p.items ++ p.values.toList ++ valuesInProperties p.marks.entries := by
  obtain ⟨_, _, _, _, _, _, _, _, _, marks⟩ := p
  cases marks
  rfl

theorem mem_valuesInProperties {v : AllowableValues} {ps : List Property} :
    v ∈ valuesInProperties ps ↔ ∃ p ∈ ps, v ∈ valuesInProperty p := by
  induction ps with
  | nil => simp [valuesInProperties]
  | cons p rest ih => simp [valuesInProperties, ih]

/-- Every set of values inside the property meets `P`. -/
def ValuesMeet (P : AllowableValues → Prop) (p : Property) : Prop := ∀ v ∈ valuesInProperty p, P v

/-- Every set of values inside the model meets `P`. -/
def ModelValuesMeet (P : AllowableValues → Prop) (m : Model) : Prop := ∀ v ∈ valuesInModel m, P v

theorem valuesMeet_iff {p : Property} : ValuesMeet P p ↔ (∀ item, p.items = some item → ValuesMeet P item) ∧
    (∀ v, p.values = some v → P v) ∧ ∀ e ∈ p.marks.entries, ValuesMeet P e := by
  have hItems : (∀ v ∈ valuesInItems p.items, P v) ↔ ∀ item, p.items = some item → ValuesMeet P item := by
    cases p.items with
    | none => simp [valuesInItems]
    | some item => simp [valuesInItems, ValuesMeet]
  have hEntries : (∀ v ∈ valuesInProperties p.marks.entries, P v) ↔ ∀ e ∈ p.marks.entries, ValuesMeet P e :=
    ⟨fun h e he v hv => h v (mem_valuesInProperties.mpr ⟨e, he, hv⟩), fun h v hv => by
      obtain ⟨e, he, hIn⟩ := mem_valuesInProperties.mp hv
      exact h e he v hIn⟩
  rw [ValuesMeet, valuesInProperty_eq]
  simp only [List.forall_mem_append, hItems, hEntries, Option.mem_toList, and_assoc]

theorem modelValuesMeet_iff {m : Model} : ModelValuesMeet P m ↔
    (∀ v, m.values = some v → P v) ∧ ∀ p ∈ m.vars, ValuesMeet P p := by
  have hVars : (∀ v ∈ valuesInProperties m.vars, P v) ↔ ∀ p ∈ m.vars, ValuesMeet P p :=
    ⟨fun h p hp v hv => h v (mem_valuesInProperties.mpr ⟨p, hp, hv⟩), fun h v hv => by
      obtain ⟨p, hp, hIn⟩ := mem_valuesInProperties.mp hv
      exact h p hp v hIn⟩
  rw [ModelValuesMeet, valuesInModel]
  simp only [List.forall_mem_append, hVars, Option.mem_toList]

/-- Other types, names and marks leave the values inside a property as they are. -/
theorem ValuesMeet.congr {p p' : Property} (h : ValuesMeet P p) (hItems : p'.items = p.items)
    (hValues : p'.values = p.values) (hEntries : p'.marks.entries = p.marks.entries) :
    ValuesMeet P p' := by
  rw [ValuesMeet, valuesInProperty_eq, hItems, hValues, hEntries, ← valuesInProperty_eq]
  exact h

theorem ValuesMeet.enrich {p : Property} (h : ValuesMeet P p) (config : Config) :
    ValuesMeet P (enrich config p) := by
  have hRefines := enrich_refines config p
  exact h.congr (by rw [hRefines]) (by rw [hRefines]) (by rw [hRefines])

theorem ValuesMeet.spelled {p : Property} (h : ValuesMeet P p) : ValuesMeet P (spelledEntry p) := by
  unfold spelledEntry
  split
  · exact h.congr rfl rfl rfl
  · exact h

theorem valuesMeet_blankProperty (r : Request) : ValuesMeet P (blankProperty r) :=
  valuesMeet_iff.mpr ⟨by simp [blankProperty], by simp [blankProperty], by simp [blankProperty]⟩

theorem modelValuesMeet_of_bare {m : Model} (hVars : m.vars = []) (hValues : m.values = none) :
    ModelValuesMeet P m :=
  modelValuesMeet_iff.mpr ⟨by simp [hValues], by simp [hVars]⟩

theorem modelValuesMeet_of_vars {m : Model} (hVars : ∀ p ∈ m.vars, ValuesMeet P p)
    (hValues : m.values = none) : ModelValuesMeet P m :=
  modelValuesMeet_iff.mpr ⟨by simp [hValues], hVars⟩

theorem modelValuesMeet_of_values {m : Model} {v : AllowableValues} (hVars : m.vars = [])
    (hValues : m.values = some v) (h : P v) : ModelValuesMeet P m := by
  refine modelValuesMeet_iff.mpr ⟨?_, by simp [hVars]⟩
  rw [hValues]
  rintro _ ⟨⟩
  exact h

/-! ### Runs -/

/-- The models that were registered on the way have values that meet `P`. -/
def Adds (P : AllowableValues → Prop) (w w' : Workspace) : Prop :=
  ∀ m ∈ w'.synthetic, m ∈ w.synthetic ∨ ModelValuesMeet P m

theorem Adds.of_synthetic_eq {w w' : Workspace} (h : w'.synthetic = w.synthetic) : Adds P w w' :=
  fun _ hm => Or.inl (h ▸ hm)

theorem Adds.trans {w w1 w2 : Workspace} (h : Adds P w w1) (h' : Adds P w1 w2) : Adds P w w2 :=
  fun m hm => (h' m hm).elim (h m) Or.inr

/-- If the run ends, its result meets `post`, and the values of the models that it registers meet `P`. -/
def Yields (P : AllowableValues → Prop) (x : Run α) (post : α → Prop) : Prop :=
  ∀ w, Ensures x w fun a w' => post a ∧ Adds P w w'

namespace Yields

variable {x : Run α} {post : α → Prop} {then_ : β → Prop}

protected theorem pure {a : α} (h : post a) : Yields P (pure a) post :=
  fun _ => .pure ⟨h, .of_synthetic_eq rfl⟩

protected theorem bind {f : α → Run β} (hx : Yields P x post)
    (hf : ∀ a, post a → Yields P (f a) then_) : Yields P (x >>= f) then_ := by
  intro w
  refine .bind (hx w) fun a w1 hFirst => (hf a hFirst.1 w1).imp fun b w2 hNext => ?_
  exact ⟨hNext.1, hFirst.2.trans hNext.2⟩

theorem report (part : Part) (level : Level) (message : String) :
    Yields P (report part level message) fun _ => True :=
  fun _ => .modify ⟨trivial, .of_synthetic_eq rfl⟩

theorem reportAll (part : Part) (level : Level) (messages : List String) :
    Yields P (reportAll part level messages) fun _ => True := by
  intro w
  have hSame : Preserves (fun w' => w'.synthetic = w.synthetic) (Resolution.reportAll part level messages) :=
    .reportAll (fun _ _ h => h) part level messages
  exact (hSame w rfl).imp fun _ _ h => ⟨trivial, .of_synthetic_eq h⟩

theorem textOf (v : Value) : Yields P (textOf v) fun text => v.display? = some text := by
  unfold Resolution.textOf
  split
  next text hText => exact .pure hText
  next => exact fun _ => .halt

/-- A new model whose values meet `P`. -/
theorem addSynthetic {m : Model} (h : ModelValuesMeet P m) :
    Yields P (modifyGet (·.addSynthetic m) : Run Model) fun _ => True := by
  refine fun w => .modifyGet ⟨trivial, fun held hHeld => ?_⟩
  rcases Workspace.mem_addSynthetic hHeld with hOld | rfl
  · exact Or.inl hOld
  · exact Or.inr h

theorem nextList : Yields P (modifyGet (·.nextList) : Run Nat) fun _ => True :=
  fun _ => .modifyGet ⟨trivial, .of_synthetic_eq rfl⟩

end Yields

/-! ### The two ways to build a set of values -/

/-- Every set of values that is built meets `P`, and goes on to do so when it is shown elsewhere. -/
structure MetByBuilt (setup : Setup) (P : AllowableValues → Prop) : Prop where
  enum : ∀ values, Yields P (enumValues values) P
  union : ∀ resolve : Resolve, (∀ r, Yields P (resolve r) (ValuesMeet P)) → ∀ name owner members,
    Yields P (unionValues setup resolve name owner members) P
  shared : ∀ v number, P v → P { v with sharedList := number }

section Steps

variable (hBuilt : MetByBuilt setup P) {resolve : Resolve} {p : Property}

theorem referenceProperty_values (hp : ValuesMeet P p) (reference : String) :
    Yields P (referenceProperty setup p reference) (ValuesMeet P) := by
  unfold referenceProperty
  dsimp only
  split
  · exact .pure (hp.congr rfl rfl rfl)
  · exact .bind (.report _ _ _) fun _ _ => .pure (hp.congr rfl rfl rfl)

variable (hResolve : ∀ r, Yields P (resolve r) (ValuesMeet P))

include hResolve

theorem arrayProperty_values (hp : ValuesMeet P p) (s : Schema) (owner : String) :
    Yields P (arrayProperty resolve p s owner) (ValuesMeet P) := by
  obtain ⟨_, hValues, hEntries⟩ := valuesMeet_iff.mp hp
  refine .bind (hResolve _) fun item hItem => ?_
  have hNamed : ValuesMeet P { item with baseName := p.baseName, name := p.name } := hItem.congr rfl rfl rfl
  have hElement : ∀ inner, some { item with baseName := p.baseName, name := p.name } = some inner →
      ValuesMeet P inner := by
    rintro _ ⟨⟩
    exact hNamed
  dsimp only
  split
  · exact .pure (valuesMeet_iff.mpr ⟨hElement, hValues, hEntries⟩)
  next values hUnion =>
    refine .pure (valuesMeet_iff.mpr ⟨hElement, ?_, hEntries⟩)
    rintro _ ⟨⟩
    exact (valuesMeet_iff.mp hItem).2.1 values (Option.filter_eq_some_iff.mp hUnion).1

theorem mapProperty_values (hp : ValuesMeet P p) (s : Schema) (owner : String) :
    Yields P (mapProperty resolve p s owner) (ValuesMeet P) := by
  obtain ⟨_, hValues, hEntries⟩ := valuesMeet_iff.mp hp
  unfold mapProperty
  split
  · refine .bind (hResolve _) fun value hValue => .pure (valuesMeet_iff.mpr ⟨?_, hValues, hEntries⟩)
    rintro _ ⟨⟩
    exact hValue.congr rfl rfl rfl
  · exact .pure (hp.congr rfl rfl rfl)

theorem resolveVars_values (owner : String) (required : List String) (properties : List (String × Schema)) :
    Yields P (resolveVars resolve owner required properties) fun vars => ∀ p ∈ vars, ValuesMeet P p := by
  induction properties with
  | nil => exact .pure (by simp)
  | cons entry rest ih =>
      refine .bind (hResolve _) fun first hFirst => .bind ih fun more hMore => .pure ?_
      exact List.forall_mem_cons.mpr ⟨hFirst, hMore⟩

theorem mapEntries_values (owner : String) (required : List String) (entries : List (String × Schema)) :
    Yields P (mapEntries resolve owner required entries) fun ps => ∀ p ∈ ps, ValuesMeet P p := by
  rw [mapEntries_eq]
  exact .bind (resolveVars_values hResolve _ _ _) fun vars hVars =>
    .pure (List.forall_mem_map.mpr fun p hp => (hVars p hp).spelled)

theorem documentedMap_values (hp : ValuesMeet P p) (s : Schema) (owner : String) :
    Yields P (documentedMap resolve p s owner) (ValuesMeet P) := by
  obtain ⟨hItems, hValues, _⟩ := valuesMeet_iff.mp hp
  exact .bind (mapEntries_values hResolve _ _ _) fun entries hEntries =>
    .pure (valuesMeet_iff.mpr ⟨hItems, hValues, hEntries⟩)

theorem mergedModel_values {m : Model} (hBare : m.values = none) (hVars : m.vars = []) (s : Schema) :
    Yields P (mergedModel setup resolve m s) (ModelValuesMeet P) := by
  refine .bind (.reportAll _ _ _) fun _ _ => ?_
  split
  · exact .bind (.report _ _ _) fun _ _ => .pure (modelValuesMeet_of_bare hVars hBare)
  · exact .bind (resolveVars_values hResolve _ _ _) fun vars hMeet =>
      .pure (modelValuesMeet_of_vars hMeet hBare)

theorem wrapper_values (name : String) (s : Schema) :
    Yields P (modelStep.wrapper resolve name s (blankModel name s)) (ModelValuesMeet P) :=
  .bind (hResolve _) fun _ _ => .pure (modelValuesMeet_of_bare rfl rfl)

include hBuilt

theorem composedModel_values (name : String) (s : Schema) :
    Yields P (composedModel setup resolve (blankModel name s) s) (ModelValuesMeet P) := by
  unfold composedModel
  split
  · exact mergedModel_values hResolve rfl rfl s
  · split
    · exact .bind (resolveVars_values hResolve _ _ _) fun _ hVars => .pure (modelValuesMeet_of_vars hVars rfl)
    · exact .bind (hBuilt.union resolve hResolve _ _ _) fun _ hValues =>
        .pure (modelValuesMeet_of_values rfl rfl hValues)

theorem modelStep_values (name : String) (s : Schema) :
    Yields P (modelStep setup resolve name s) (ModelValuesMeet P) := by
  unfold modelStep
  dsimp only
  split
  · exact .bind (.report _ _ _) fun _ _ => .pure (modelValuesMeet_of_bare rfl rfl)
  · split
    · exact .bind (hResolve _) fun _ _ => .pure (modelValuesMeet_of_bare rfl rfl)
    · split
      · exact composedModel_values hBuilt hResolve name s
      · split
        · exact .bind (mapEntries_values hResolve _ _ _) fun _ hVars =>
            .pure (modelValuesMeet_of_vars hVars rfl)
        · exact wrapper_values hResolve name s
      · exact wrapper_values hResolve name s
      · refine .bind (hResolve _) fun _ _ => ?_
        split
        · exact .pure (modelValuesMeet_of_bare rfl rfl)
        · exact .bind (hBuilt.enum _) fun _ hValues => .pure (modelValuesMeet_of_values rfl rfl hValues)
      · exact .bind (resolveVars_values hResolve _ _ _) fun _ hVars => .pure (modelValuesMeet_of_vars hVars rfl)

theorem hoist_values (name : String) (s : Schema) : Yields P (hoist setup resolve name s) fun _ => True := by
  have hNew : Yields P (do
      let m ← modelStep setup resolve name s
      let kept ← modifyGet (·.addSynthetic m)
      return kept.classname) fun _ => True :=
    .bind (modelStep_values hBuilt hResolve name s) fun m hModel =>
      .bind (.addSynthetic hModel) fun _ _ => .pure trivial
  exact fun w => hoist_ensures (fun _ _ => ⟨trivial, .of_synthetic_eq rfl⟩) fun _ => hNew w

theorem unionProperty_values (hp : ValuesMeet P p) (s : Schema) (owner : String) :
    Yields P (unionProperty setup resolve p s owner) (ValuesMeet P) := by
  obtain ⟨hItems, _, hEntries⟩ := valuesMeet_iff.mp hp
  refine .bind (hBuilt.union resolve hResolve _ _ _) fun values hValues => ?_
  refine .bind .nextList fun number _ => ?_
  have hShared := hBuilt.shared values (some number) hValues
  have hModel : ModelValuesMeet P (unionModel (unionName s { values with sharedList := some number } owner
      p.baseName) s.description { values with sharedList := some number }) :=
    modelValuesMeet_of_values rfl rfl hShared
  refine .bind (.addSynthetic hModel) fun _ _ => .pure (valuesMeet_iff.mpr ⟨hItems, ?_, hEntries⟩)
  rintro _ ⟨⟩
  exact hShared

theorem composedProperty_values (hp : ValuesMeet P p) (s : Schema) (owner : String) :
    Yields P (composedProperty setup resolve p s owner) (ValuesMeet P) := by
  unfold composedProperty
  split
  · split
    · exact .pure (hp.congr rfl rfl rfl)
    · exact unionProperty_values hBuilt hResolve hp s owner
  · split
    · exact referenceProperty_values hp _
    · exact .bind (hoist_values hBuilt hResolve _ _) fun _ _ => .pure (hp.congr rfl rfl rfl)

theorem typedProperty_values (r : Request) : Yields P (typedProperty setup resolve r) (ValuesMeet P) := by
  have hBlank : ValuesMeet P (blankProperty r) := valuesMeet_blankProperty r
  obtain ⟨hItems, _, hEntries⟩ := valuesMeet_iff.mp hBlank
  unfold typedProperty
  dsimp only
  split
  · exact referenceProperty_values hBlank _
  · split
    · exact arrayProperty_values hResolve hBlank _ _
    · split
      · exact documentedMap_values hResolve hBlank _ _
      · exact mapProperty_values hResolve hBlank _ _
    · exact composedProperty_values hBuilt hResolve hBlank _ _
    · split
      · exact .pure (hBlank.congr rfl rfl rfl)
      · refine .bind (hBuilt.enum _) fun values hValues => .pure (valuesMeet_iff.mpr ⟨hItems, ?_, hEntries⟩)
        rintro _ ⟨⟩
        exact hValues
    · split
      · exact .pure (hBlank.congr rfl rfl rfl)
      · exact .bind (hoist_values hBuilt hResolve _ _) fun _ _ => .pure (hBlank.congr rfl rfl rfl)

theorem propertyStep_values (r : Request) : Yields P (propertyStep setup resolve r) (ValuesMeet P) :=
  .bind (typedProperty_values hBuilt hResolve r) fun _ hp =>
    .bind (.reportAll _ _ _) fun _ _ => .pure (hp.enrich setup.config)

end Steps

/-! ### Any depth -/

/-- What holds of the sets that are built holds of every set inside a property. -/
theorem propertyWithin_values (hBuilt : MetByBuilt setup P) (fuel : Nat) (r : Request) :
    Yields P (propertyWithin setup fuel r) (ValuesMeet P) := by
  induction fuel generalizing r with
  | zero => exact fun _ => .halt
  | succ fuel ih => exact propertyStep_values hBuilt ih r

/-- What holds of the sets that are built holds of every set inside a model. -/
theorem modelWithin_values (hBuilt : MetByBuilt setup P) (fuel : Nat) (name : String) (s : Schema) :
    Yields P (modelStep setup (propertyWithin setup fuel) name s) (ModelValuesMeet P) :=
  modelStep_values hBuilt (propertyWithin_values hBuilt fuel) name s

end ClientTypes.Resolution
