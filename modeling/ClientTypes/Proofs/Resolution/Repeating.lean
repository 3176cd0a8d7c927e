import ClientTypes.Proofs.Model.Serialized
import ClientTypes.Proofs.CrossReference.Stamps
import ClientTypes.Proofs.Resolution.Fields
import ClientTypes.Proofs.Resolution.FixedPoint
import ClientTypes.Proofs.Resolution.Invariant

/-! Resolving once more. Models are only added to a workspace, and the model of a name answers for the name
ever after. So what was resolved once is resolved again in every later workspace, to an equal result and
without adding anything: inline objects are answered from the table, and all else goes as it went before. -/
namespace ClientTypes

/-! ### Equal records -/

namespace Property

variable {p q : Property}

theorem unshared_eq_iff : p.unshared = q.unshared ↔
    p.baseName = q.baseName ∧ p.name = q.name ∧ p.datatype = q.datatype ∧ p.dataFormat = q.dataFormat ∧
      p.container = q.container ∧ p.items.map unshared = q.items.map unshared ∧
      p.values.map AllowableValues.unshared = q.values.map AllowableValues.unshared ∧
      p.description = q.description ∧ p.required = q.required ∧ p.marks.unshared = q.marks.unshared := by
  rw [unshared_eq p, unshared_eq q, mk.injEq]

end Property

namespace Resolution

open TargetType

variable {α β : Type}

/-! ### A run, and the same run later -/

/-- Nothing was registered, neither a model nor a friendly name. -/
structure Still (w w' : Workspace) : Prop where
  hints : w'.hints = w.hints
  synthetic : w'.synthetic = w.synthetic

namespace Still

variable {w w' w'' : Workspace}

theorem refl (w : Workspace) : Still w w := ⟨rfl, rfl⟩

theorem trans (h : Still w w') (h' : Still w' w'') : Still w w'' :=
  ⟨h'.hints.trans h.hints, h'.synthetic.trans h.synthetic⟩

theorem grows (h : Still w w') : Grows w w' := ⟨h.hints, [], by rw [h.synthetic, List.append_nil]⟩

theorem reports (messages : List String) (part : Part) (level : Level) (w : Workspace) :
    Still w (messages.foldl (fun w m => w.withReport ⟨part, level, m⟩) w) := by
  induction messages generalizing w with
  | nil => exact .refl w
  | cons m rest ih =>
      have hFirst : Still w (w.withReport ⟨part, level, m⟩) := ⟨rfl, rfl⟩
      exact hFirst.trans (ih _)

end Still

/-- Wherever the first run ends, models were only added, and the second one ends in every later workspace, with a
result like that of the first one and without registering anything. -/
def RepeatedBy (like : α → α → Prop) (x y : Run α) : Prop :=
  ∀ w a w', x w = .ok (a, w') → Grows w w' ∧
    ∀ later, Grows w' later → ∃ b after, y later = .ok (b, after) ∧ like b a ∧ Still later after

namespace RepeatedBy

variable {like : α → α → Prop} {like' : β → β → Prop} {x y : Run α}

protected theorem pure {a b : α} (h : like b a) : RepeatedBy like (pure a) (pure b) := by
  intro w a' w' hRun
  cases hRun
  exact ⟨.refl w, fun later _ => ⟨b, later, rfl, h, .refl later⟩⟩

protected theorem bind {f g : α → Run β} (hx : RepeatedBy like x y)
    (hf : ∀ a b, like b a → RepeatedBy like' (f a) (g b)) : RepeatedBy like' (x >>= f) (y >>= g) := by
  intro w c w' hRun
  obtain ⟨a, w1, hFirst, hNext⟩ := bind_eq_ok_iff.mp hRun
  obtain ⟨hGrows, hAgain⟩ := hx w a w1 hFirst
  obtain ⟨a', -, -, hLike, -⟩ := hAgain w1 (.refl w1)
  have hGrows' : Grows w1 w' := (hf a a' hLike w1 c w' hNext).1
  refine ⟨hGrows.trans hGrows', fun later hLater => ?_⟩
  obtain ⟨b, later1, hFirst', hLike', hStill⟩ := hAgain later (hGrows'.trans hLater)
  obtain ⟨d, after, hNext', hLike'', hStill'⟩ :=
    (hf a b hLike' w1 c w' hNext).2 later1 (hLater.trans hStill.grows)
  exact ⟨d, after, bind_eq_ok_iff.mpr ⟨b, later1, hFirst', hNext'⟩, hLike'', hStill.trans hStill'⟩

/-- The first step gives the same both times. -/
theorem bind_same {f g : α → Run β} (hx : RepeatedBy Eq x y) (hf : ∀ a, RepeatedBy like' (f a) (g a)) :
    RepeatedBy like' (x >>= f) (y >>= g) :=
  .bind hx fun _ b hSame => hSame ▸ hf b

/-- Two steps that register nothing. -/
theorem quiet {f g : Workspace → α × Workspace} (hf : ∀ w, Still w (f w).2) (hg : ∀ w, Still w (g w).2)
    (hLike : ∀ w later, like (g later).1 (f w).1) : RepeatedBy like (modifyGet f : Run α) (modifyGet g) := by
  intro w a w' hRun
  have hResult : f w = (a, w') := Except.ok.inj hRun
  have hGrows := (hf w).grows
  rw [hResult] at hGrows
  refine ⟨hGrows, fun later _ => ⟨(g later).1, (g later).2, rfl, ?_, hg later⟩⟩
  have hBoth := hLike w later
  rwa [hResult] at hBoth

theorem report (part : Part) (level : Level) (message : String) :
    RepeatedBy Eq (report part level message) (report part level message) :=
  .quiet (fun _ => ⟨rfl, rfl⟩) (fun _ => ⟨rfl, rfl⟩) fun _ _ => rfl

theorem reportAll (part : Part) (level : Level) (messages messages' : List String) :
    RepeatedBy Eq (reportAll part level messages) (reportAll part level messages') :=
  .quiet (Still.reports messages part level) (Still.reports messages' part level) fun _ _ => rfl

theorem nextList : RepeatedBy (fun _ _ => True) (modifyGet (·.nextList) : Run Nat) (modifyGet (·.nextList)) :=
  .quiet (fun _ => ⟨rfl, rfl⟩) (fun _ => ⟨rfl, rfl⟩) fun _ _ => trivial

theorem halt (obstacle : Obstacle) : RepeatedBy like (halt obstacle) (halt obstacle) := by
  intro w a w' hRun
  cases hRun

theorem textOf (v : Value) : RepeatedBy Eq (textOf v) (textOf v) := by
  unfold Resolution.textOf
  split
  · exact .pure rfl
  · exact .halt _

/-- A model that is registered a second time is there already. -/
theorem addSynthetic {m m' : Model} (hName : m'.name = m.name) :
    RepeatedBy Eq (modifyGet (·.addSynthetic m) : Run Model) (modifyGet (·.addSynthetic m')) := by
  intro w kept w' hRun
  have hResult : w.addSynthetic m = (kept, w') := Except.ok.inj hRun
  have hGrows := w.addSynthetic_grows m
  have hKept := (w.addSynthetic_spec m).2
  rw [hResult] at hGrows hKept
  refine ⟨hGrows, fun later hLater => ⟨kept, later, ?_, rfl, .refl later⟩⟩
  have hThere : later.synthetic? m'.name = some kept := hName ▸ hLater.synthetic? hKept
  have hAgain : later.addSynthetic m' = (kept, later) := by rw [Workspace.addSynthetic, hThere]
  exact congrArg Except.ok hAgain

end RepeatedBy

/-! ### Parts of equal records -/

/-- The same in what `view` leaves of them. -/
def AlikeIn {γ : Type} (view : α → γ) (a b : α) : Prop := view a = view b

/-- Properties that are equal but for the numbers of lists. -/
abbrev Alike : Property → Property → Prop := AlikeIn Property.unshared

theorem enrich_alike {config : Config} {p q : Property} (h : Alike p q) :
    Alike (enrich config p) (enrich config q) := by
  have hView (p : Property) : (enrich config p).unshared = enrich config p.unshared := by
    rw [enrich_eq, enrich_eq, Property.unshared_eq, Property.unshared_eq p]
    rfl
  rw [Alike, AlikeIn, hView, hView, h]

/-- An element that is given the names of its property. -/
theorem renamed_alike {p q : Property} (h : Alike p q) (baseName name : String) :
    Alike { p with baseName, name } { q with baseName, name } := by
  obtain ⟨-, -, hRest⟩ := Property.unshared_eq_iff.mp h
  exact Property.unshared_eq_iff.mpr ⟨rfl, rfl, hRest⟩

theorem datatype_alike {p q : Property} (h : Alike p q) : p.datatype = q.datatype :=
  (Property.unshared_eq_iff.mp h).2.2.1

/-- The same unions are shown. -/
theorem filter_isUnion_alike {values values' : Option AllowableValues}
    (h : values'.map AllowableValues.unshared = values.map AllowableValues.unshared) :
    (values'.filter (·.isUnion)).map AllowableValues.unshared =
      (values.filter (·.isUnion)).map AllowableValues.unshared := by
  have hView (values : Option AllowableValues) : (values.filter (·.isUnion)).map AllowableValues.unshared =
      (values.map AllowableValues.unshared).filter (·.isUnion) := by
    rw [Option.filter_map]
    rfl
  rw [hView, hView, h]

theorem unshared_spelledEntry (p : Property) : (spelledEntry p).unshared = spelledEntry p.unshared := by
  unfold spelledEntry
  rw [Property.unshared_eq p]
  dsimp only
  split
  · rw [Property.unshared_eq]
  · rw [Property.unshared_eq]

theorem spelledEntries_alike {ps qs : List Property} (h : AlikeIn (List.map Property.unshared) ps qs) :
    AlikeIn (List.map Property.unshared) (ps.map spelledEntry) (qs.map spelledEntry) := by
  have hView (ps : List Property) :
      (ps.map spelledEntry).map Property.unshared = (ps.map Property.unshared).map spelledEntry := by
    simp [Function.comp_def, unshared_spelledEntry]
  rw [AlikeIn, hView, hView, h]

/-- Numbers of lists leave types alone. -/
theorem map_datatype_unshared (items : Option Property) :
    (items.map Property.unshared).map (·.datatype) = items.map (·.datatype) := by
  cases items with
  | none => rfl
  | some item => rw [Option.map_some, Option.map_some, Property.unshared_eq, Option.map_some]

theorem elementType_alike {items items' : Option Property}
    (h : items'.map Property.unshared = items.map Property.unshared) :
    items'.map (·.datatype) = items.map (·.datatype) := by
  rw [← map_datatype_unshared, h, map_datatype_unshared]

theorem firstListType?_alike {vars vars' : List Property} (h : AlikeIn (List.map Property.unshared) vars' vars) :
    firstListType? vars' = firstListType? vars := by
  have hContainer (p : Property) : p.unshared.container = p.container := by rw [Property.unshared_eq]
  have hItems (p : Property) :
      p.unshared.items.map (·.datatype) = (p.items.map (·.datatype)).map id := by
    rw [Property.unshared_eq, Option.map_id]
    exact map_datatype_unshared p.items
  have hView (vars : List Property) : firstListType? (vars.map Property.unshared) = firstListType? vars :=
    (CrossReference.firstListType?_map hContainer hItems vars).trans (congrFun Option.map_id _)
  rw [← hView, h, hView]

/-- Models are equal when their fields are and the rest of them is. -/
theorem alike_of_vars {m m' : Model} (hVars : AlikeIn (List.map Property.unshared) m'.vars m.vars)
    (hRest : { m' with vars := [] } = { m with vars := [] }) : AlikeIn Model.unshared m' m := by
  have hView (m : Model) :
      m.unshared = { Model.unshared { m with vars := [] } with vars := m.vars.map Property.unshared } := rfl
  rw [AlikeIn, hView m, hView m', hRest, hVars]

/-! ### Steps of resolving -/

theorem enumMembers_repeated (values : List Value) :
    RepeatedBy Eq (enumMembers values) (enumMembers values) := by
  induction values with
  | nil => exact .pure rfl
  | cons v rest ih => exact .bind_same (.textOf v) fun _ => .bind_same ih fun _ => .pure rfl

theorem enumValues_repeated (values : List Value) : RepeatedBy Eq (enumValues values) (enumValues values) :=
  .bind_same (enumMembers_repeated values) fun _ => .pure rfl

theorem referenceProperty_repeated (setup : Setup) (p : Property) (reference : String) :
    RepeatedBy Alike (referenceProperty setup p reference) (referenceProperty setup p reference) := by
  unfold referenceProperty
  dsimp only
  split
  · exact .pure rfl
  · exact .bind_same (.report _ _ _) fun _ => .pure rfl

theorem referenceVariant_repeated (setup : Setup) (reference : String) :
    RepeatedBy Eq (referenceVariant setup reference) (referenceVariant setup reference) := by
  unfold referenceVariant
  dsimp only
  split
  · exact .pure rfl
  · exact .bind_same (.report _ _ _) fun _ => .pure rfl

section Steps

variable {setup : Setup} {resolve : Resolve} (hResolve : ∀ r, RepeatedBy Alike (resolve r) (resolve r))

include hResolve

theorem arrayProperty_repeated (p : Property) (s : Schema) (owner : String) :
    RepeatedBy Alike (arrayProperty resolve p s owner) (arrayProperty resolve p s owner) := by
  refine .bind (hResolve _) fun item item' hItem => ?_
  have hElement := renamed_alike hItem p.baseName p.name
  obtain ⟨-, -, hType, -, -, -, hValues, -, -, hMarks⟩ := Property.unshared_eq_iff.mp hItem
  have hList : listOf item'.datatype = listOf item.datatype := congrArg listOf hType
  have hMark : item'.marks.isUntagged = item.marks.isUntagged := (congrArg PropertyMarks.isUntagged hMarks :)
  have hShown := filter_isUnion_alike hValues
  dsimp only
  cases hUnion : item.values.filter (·.isUnion) with
  | none =>
      rw [hUnion, Option.map_none, Option.map_eq_none_iff] at hShown
      rw [hShown]
      exact .pure (Property.unshared_eq_iff.mpr
        ⟨rfl, rfl, hList, rfl, rfl, congrArg some hElement, rfl, rfl, rfl, rfl⟩)
  | some values =>
      rw [hUnion, Option.map_some, Option.map_eq_some_iff] at hShown
      obtain ⟨values', hUnion', hSame⟩ := hShown
      rw [hUnion', hMark]
      exact .pure (Property.unshared_eq_iff.mpr
        ⟨rfl, rfl, hList, rfl, rfl, congrArg some hElement, congrArg some hSame, rfl, rfl, rfl⟩)

theorem mapProperty_repeated (p : Property) (s : Schema) (owner : String) :
    RepeatedBy Alike (mapProperty resolve p s owner) (mapProperty resolve p s owner) := by
  unfold mapProperty
  split
  next inner =>
    refine .bind (hResolve _) fun value value' hValue => .pure ?_
    have hElement := renamed_alike hValue p.baseName p.name
    have hMap : mapOf value'.datatype = mapOf value.datatype := congrArg mapOf (datatype_alike hValue)
    exact Property.unshared_eq_iff.mpr ⟨rfl, rfl, hMap, rfl, rfl, congrArg some hElement, rfl, rfl, rfl, rfl⟩
  next => exact .pure rfl

theorem resolveVars_repeated (owner : String) (required : List String) (properties : List (String × Schema)) :
    RepeatedBy (AlikeIn (List.map Property.unshared)) (resolveVars resolve owner required properties)
      (resolveVars resolve owner required properties) := by
  induction properties with
  | nil => exact .pure rfl
  | cons entry rest ih =>
      refine .bind (hResolve _) fun first first' hFirst => .bind ih fun more more' hMore => .pure ?_
      exact List.cons_eq_cons.mpr ⟨hFirst, hMore⟩

theorem mapEntries_repeated (owner : String) (required : List String) (entries : List (String × Schema)) :
    RepeatedBy (AlikeIn (List.map Property.unshared)) (mapEntries resolve owner required entries)
      (mapEntries resolve owner required entries) := by
  rw [mapEntries_eq]
  exact .bind (resolveVars_repeated hResolve _ _ _) fun vars vars' hVars => .pure (spelledEntries_alike hVars)

theorem documentedMap_repeated (p : Property) (s : Schema) (owner : String) :
    RepeatedBy Alike (documentedMap resolve p s owner) (documentedMap resolve p s owner) := by
  refine .bind (mapEntries_repeated hResolve _ _ _) fun entries entries' hEntries => .pure ?_
  simpa [AlikeIn, Property.unshared_eq_iff, PropertyMarks.unshared] using hEntries

/-! ### Unions -/

theorem memberVariant_repeated (name owner : String) (place : Nat) (member : Schema) :
    RepeatedBy Eq (memberVariant setup resolve name owner place member)
      (memberVariant setup resolve name owner place member) := by
  unfold memberVariant
  split
  · exact referenceVariant_repeated setup _
  · refine .bind (hResolve _) fun sub sub' hSub => .pure ?_
    obtain ⟨-, -, hType, -, hContainer, -, -, -, -, hMarks⟩ := Property.unshared_eq_iff.mp hSub
    have hReason : sub'.marks.unresolved = sub.marks.unresolved := (congrArg PropertyMarks.unresolved hMarks :)
    rw [hType, hContainer, hReason]

theorem variantsFrom_repeated (name owner : String) (found : List Variant) (members : List Schema) :
    RepeatedBy Eq (variantsFrom setup resolve name owner found members)
      (variantsFrom setup resolve name owner found members) := by
  induction members generalizing found with
  | nil => exact .pure rfl
  | cons member rest ih =>
      refine .bind_same (memberVariant_repeated hResolve _ _ _ _) fun variant => ?_
      split
      · exact .bind_same (.report _ _ _) fun _ => ih _
      · exact ih _

theorem unionValues_repeated (name owner : String) (members : List Schema) :
    RepeatedBy Eq (unionValues setup resolve name owner members)
      (unionValues setup resolve name owner members) :=
  .bind_same (variantsFrom_repeated hResolve _ _ _ _) fun _ => .pure rfl

/-- The list of arms gets another number, and the model of the union is there already. -/
theorem unionProperty_repeated (p : Property) (s : Schema) (owner : String) :
    RepeatedBy Alike (unionProperty setup resolve p s owner) (unionProperty setup resolve p s owner) := by
  refine .bind_same (unionValues_repeated hResolve _ _ _) fun values => ?_
  refine .bind .nextList fun number number' _ => ?_
  refine .bind_same (.addSynthetic rfl) fun _ => .pure ?_
  exact Property.unshared_eq_iff.mpr ⟨rfl, rfl, rfl, rfl, rfl, rfl, rfl, rfl, rfl, rfl⟩

/-! ### Models -/

theorem wrapper_repeated (name : String) (s : Schema) (m : Model) :
    RepeatedBy (AlikeIn Model.unshared) (modelStep.wrapper resolve name s m)
      (modelStep.wrapper resolve name s m) := by
  refine .bind (hResolve _) fun whole whole' hWhole => .pure ?_
  obtain ⟨-, -, hType, -, hContainer, hItems, -⟩ := Property.unshared_eq_iff.mp hWhole
  have hElement : whole'.items.map (·.datatype) = whole.items.map (·.datatype) := elementType_alike hItems
  rw [hType, hContainer, hElement]
  rfl

theorem mergedModel_repeated (m : Model) (s : Schema) :
    RepeatedBy (AlikeIn Model.unshared) (mergedModel setup resolve m s) (mergedModel setup resolve m s) := by
  refine .bind_same (.reportAll _ _ _ _) fun _ => ?_
  split
  · exact .bind_same (.report _ _ _) fun _ => .pure rfl
  next f _ =>
    refine .bind (resolveVars_repeated hResolve _ _ _) fun vars vars' hVars => .pure ?_
    have hFirst : firstListType? vars' = firstListType? vars := firstListType?_alike hVars
    rw [hFirst]
    exact alike_of_vars hVars rfl

theorem composedModel_repeated (m : Model) (s : Schema) :
    RepeatedBy (AlikeIn Model.unshared) (composedModel setup resolve m s) (composedModel setup resolve m s) := by
  unfold composedModel
  split
  · exact mergedModel_repeated hResolve m s
  · split
    · exact .bind (resolveVars_repeated hResolve _ _ _) fun vars vars' hVars => .pure (alike_of_vars hVars rfl)
    · exact .bind_same (unionValues_repeated hResolve _ _ _) fun _ => .pure rfl

theorem modelStep_repeated (name : String) (s : Schema) :
    RepeatedBy (AlikeIn Model.unshared) (modelStep setup resolve name s) (modelStep setup resolve name s) := by
  unfold modelStep
  dsimp only
  split
  · exact .bind_same (.report _ _ _) fun _ => .pure rfl
  · split
    · refine .bind (hResolve _) fun followed followed' hFollowed => .pure ?_
      rw [datatype_alike hFollowed]
      rfl
    · cases s.kind with
      | composed => exact composedModel_repeated hResolve _ s
      | map =>
          dsimp only
          split
          · exact .bind (mapEntries_repeated hResolve _ _ _) fun vars vars' hVars => .pure (alike_of_vars hVars rfl)
          · exact wrapper_repeated hResolve name s _
      | array => exact wrapper_repeated hResolve name s _
      | primitive =>
          refine .bind (hResolve _) fun single single' hSingle => ?_
          rw [datatype_alike hSingle]
          split
          · exact .pure rfl
          · exact .bind_same (enumValues_repeated _) fun _ => .pure rfl
      | object => exact .bind (resolveVars_repeated hResolve _ _ _) fun vars vars' hVars => .pure (alike_of_vars hVars rfl)

/-! ### Properties -/

/-- The model that an inline object is hoisted to the first time is found under its name the next time, whether it
was made then or had been there before. -/
theorem hoist_repeated (name : String) (s : Schema) :
    RepeatedBy Eq (hoist setup resolve name s) (hoist setup resolve name s) := by
  intro w classname w' hRun
  have hFound {later : Workspace} {held : Model} (hHeld : later.synthetic? name = some held) :
      hoist setup resolve name s later = .ok (held.classname, later) := by
    refine bind_eq_ok_iff.mpr ⟨later, later, rfl, ?_⟩
    rw [hHeld]
    rfl
  suffices h : ∃ held, classname = held.classname ∧ Grows w w' ∧ w'.synthetic? name = some held by
    obtain ⟨held, rfl, hGrows, hHeld⟩ := h
    exact ⟨hGrows, fun later hLater => ⟨_, later, hFound (hLater.synthetic? hHeld), rfl, .refl later⟩⟩
  cases hHeld : w.synthetic? name with
  | some held =>
      rw [hFound hHeld] at hRun
      obtain ⟨rfl, rfl⟩ := Prod.mk.injEq .. ▸ Except.ok.inj hRun
      exact ⟨held, rfl, .refl w, hHeld⟩
  | none =>
      obtain ⟨_, _, hGet, hRun⟩ := bind_eq_ok_iff.mp hRun
      obtain ⟨rfl, rfl⟩ := Prod.mk.injEq .. ▸ Except.ok.inj hGet
      rw [hHeld] at hRun
      obtain ⟨m, w1, hModel, hRun⟩ := bind_eq_ok_iff.mp hRun
      obtain ⟨kept, w2, hKept, hRun⟩ := bind_eq_ok_iff.mp hRun
      obtain ⟨rfl, rfl⟩ := Prod.mk.injEq .. ▸ Except.ok.inj hRun
      have hAdded : w1.addSynthetic m = (kept, w2) := Except.ok.inj hKept
      have hGrows := (modelStep_repeated hResolve name s w m w1 hModel).1.trans (w1.addSynthetic_grows m)
      have hThere := (w1.addSynthetic_spec m).2
      have hName := modelStep_name setup resolve w name s m w1 hModel
      rw [hAdded] at hGrows hThere
      exact ⟨kept, rfl, hGrows, hName ▸ hThere⟩

theorem composedProperty_repeated (p : Property) (s : Schema) (owner : String) :
    RepeatedBy Alike (composedProperty setup resolve p s owner) (composedProperty setup resolve p s owner) := by
  unfold composedProperty
  split
  · split
    · exact .pure rfl
    · exact unionProperty_repeated hResolve p s owner
  · split
    · exact referenceProperty_repeated setup p _
    · exact .bind_same (hoist_repeated hResolve _ s) fun _ => .pure rfl

theorem typedProperty_repeated (r : Request) :
    RepeatedBy Alike (typedProperty setup resolve r) (typedProperty setup resolve r) := by
  unfold typedProperty
  dsimp only
  split
  · exact referenceProperty_repeated setup _ _
  · cases r.schema.kind with
    | array => exact arrayProperty_repeated hResolve _ _ _
    | map =>
        dsimp only
        split
        · exact documentedMap_repeated hResolve _ _ _
        · exact mapProperty_repeated hResolve _ _ _
    | composed => exact composedProperty_repeated hResolve _ _ _
    | primitive =>
        dsimp only
        split
        · exact .pure rfl
        · exact .bind_same (enumValues_repeated _) fun _ => .pure rfl
    | object =>
        dsimp only
        split
        · exact .pure rfl
        · exact .bind_same (hoist_repeated hResolve _ _) fun _ => .pure rfl

/-- The reports on the way may differ, but not what they are about. -/
theorem propertyStep_repeated (r : Request) :
    RepeatedBy Alike (propertyStep setup resolve r) (propertyStep setup resolve r) := by
  refine .bind (typedProperty_repeated hResolve r) fun p p' hAlike => ?_
  exact .bind_same (.reportAll _ _ _ _) fun _ => .pure (enrich_alike hAlike)

end Steps

theorem propertyWithin_repeated (setup : Setup) (fuel : Nat) (r : Request) :
    RepeatedBy Alike (propertyWithin setup fuel r) (propertyWithin setup fuel r) := by
  induction fuel generalizing r with
  | zero => exact .halt _
  | succ fuel ih => exact propertyStep_repeated ih r

/-- Resolving a property or a model leaves the models that are registered as they are and where they are, and
adds others behind them. What was resolved once is resolved again in the workspace it left, and in every later
one: to an equal record, and without registering anything. -/
theorem resolving_repeats (setup : Setup) (fuel : Nat) (w w' : Workspace) :
    (∀ r p, propertyWithin setup fuel r w = .ok (p, w') →
      Grows w w' ∧ ∀ later, Grows w' later → ∃ p' after,
        propertyWithin setup fuel r later = .ok (p', after) ∧ p'.unshared = p.unshared ∧ Still later after) ∧
    ∀ name s m, modelStep setup (propertyWithin setup fuel) name s w = .ok (m, w') →
      Grows w w' ∧ ∀ later, Grows w' later → ∃ m' after,
        modelStep setup (propertyWithin setup fuel) name s later = .ok (m', after) ∧
          m'.unshared = m.unshared ∧ Still later after := by
  constructor
  · intro r p hRun
    exact propertyWithin_repeated setup fuel r w p w' hRun
  · intro name s m hRun
    exact modelStep_repeated (propertyWithin_repeated setup fuel) name s w m w' hRun

/-- A pet that is a text or an inline object with a name. -/
def petRequest : Request where
  name := "pet"
  owner := "Owner"
  schema := {
    kind := .composed
    oneOf := [{ kind := .primitive, type := some "string" },
      { properties := [("name", { kind := .primitive, type := some "string" })] }] }

/-- The first time, the object and the union are registered. The second time, only the list of arms is a new one. -/
theorem resolving_repeats_pet : ∃ p w',
    propertyWithin ⟨Config.shipped, []⟩ 3 petRequest {} = .ok (p, w') ∧
      w'.synthetic.map (·.name) = ["Owner_pet_sub_1", "OneOfOwnerPet"] ∧
      ∃ p' after, propertyWithin ⟨Config.shipped, []⟩ 3 petRequest w' = .ok (p', after) ∧
        p'.unshared = p.unshared ∧ Still w' after := by
  have hNames : (propertyWithin ⟨Config.shipped, []⟩ 3 petRequest {}).toOption.map (·.2.synthetic.map (·.name)) =
      some ["Owner_pet_sub_1", "OneOfOwnerPet"] := by decide +kernel
  obtain ⟨⟨p, w'⟩, hFirst, hNames⟩ := Option.map_eq_some_iff.mp hNames
  have hRun := ok_of_toOption hFirst
  obtain ⟨-, hAgain⟩ := (resolving_repeats ⟨Config.shipped, []⟩ 3 {} w').1 petRequest p hRun
  exact ⟨p, w', hRun, hNames, hAgain w' (.refl w')⟩

end Resolution

end ClientTypes
