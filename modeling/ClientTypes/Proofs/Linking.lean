import ClientTypes.Proofs.Compilation.Removal

/-! Linking does not depend on the order of operations. What linking an operation notes at a
model is never looked at again, and operations that note something at one model note the same. -/
namespace ClientTypes.Linking

open CrossReference Compilation

/-! ### Registries of a compilation -/

/-- A registry as a compilation can have it: models are registered, matched with one another, and
operations are linked to them. -/
inductive Made : Registry → Prop
  | empty : Made {}
  | add {r : Registry} (m : Model) (h : Made r) : Made (r.add m)
  | run (config : Config) (hints : Hints) {r : Registry} (h : Made r) :
      Made (CrossReference.run config hints r).registry
  | link (config : Config) (renames : Table String String) (o : Operation) {r : Registry}
      (h : Made r) : Made (linkOperation config renames r o).2

/-- The registry with a shape noted at the model that it is about. -/
def noteShape (r : Registry) (shape : ResponseShape) : Registry :=
  { r with models := r.models.map (markModel shape) }

/-- The shape of the response that an operation is expected to give, in the names of the registry. -/
def shapeFor (renames : Table String String) (r : Registry) (o : Operation) : ResponseShape :=
  responseShape r (renameOperation renames o)

theorem registry_linkOperation (config : Config) (renames : Table String String) (r : Registry)
    (o : Operation) :
    (linkOperation config renames r o).2 = noteShape r (shapeFor renames r o) := rfl

section Note

variable (shape : ResponseShape) (m : Model) (r : Registry)

@[simp] theorem name_markModel : (markModel shape m).name = m.name := by
  rw [markModel_onlySingleField shape m]

@[simp] theorem classname_markModel : (markModel shape m).classname = m.classname := by
  rw [markModel_onlySingleField shape m]

@[simp] theorem vars_markModel : (markModel shape m).vars = m.vars := by
  rw [markModel_onlySingleField shape m]

@[simp] theorem removed_markModel : (markModel shape m).removed = m.removed := by
  rw [markModel_onlySingleField shape m]

@[simp] theorem paginationInner_markModel :
    (markModel shape m).marks.paginationInner = m.marks.paginationInner := by
  rw [markModel_onlySingleField shape m]

@[simp] theorem firstList?_markModel : (markModel shape m).firstList? = m.firstList? := by
  simp [Model.firstList?]

@[simp] theorem onlyVar?_markModel : onlyVar? (markModel shape m) = onlyVar? m := by
  simp [onlyVar?]

theorem lookup?_noteShape (classname : String) :
    (noteShape r shape).lookup? classname = (r.lookup? classname).map (markModel shape) := by
  simp only [noteShape, Registry.lookup?, List.find?_map, Function.comp_def, classname_markModel]

theorem names_noteShape : (noteShape r shape).models.map (·.name) = r.models.map (·.name) := by
  simp [noteShape, Function.comp_def]

end Note

/-- The models of a compilation have distinct names. -/
theorem Made.names {r : Registry} (h : Made r) : (r.models.map (·.name)).Nodup := by
  induction h with
  | empty => simp
  | add m _ ih =>
      rw [← Registry.keys_entries] at ih ⊢
      rw [Registry.entries_add]
      exact Table.nodup_keys_putNew ih _ _
  | @run config hints r _ ih =>
      cases hMatched : r.crossReferenced with
      | true => simpa [CrossReference.run, hMatched] using ih
      | false => rwa [names_of_matched (run_matched config hints hMatched)]
  | link config renames o _ ih => rwa [registry_linkOperation, names_noteShape]

theorem Made.eq_of_name {r : Registry} (h : Made r) {m m' : Model} (hm : m ∈ r.models)
    (hm' : m' ∈ r.models) (hName : m.name = m'.name) : m = m' :=
  List.inj_on_of_nodup_map h.names hm hm' hName

/-! ### What is noted is not read -/

/-- Shapes are read off names, properties and marks of pagination, and none of these is noted. -/
theorem shapeOf_noteShape (r : Registry) (shape : ResponseShape) (datatype : String) :
    shapeOf (noteShape r shape) datatype = shapeOf r datatype := by
  unfold shapeOf
  rw [lookup?_noteShape]
  cases r.lookup? datatype with
  | none => rfl
  | some m =>
      simp only [Option.map_some, paginationInner_markModel, firstList?_markModel,
        onlyVar?_markModel, name_markModel, lookup?_noteShape]
      split
      · rfl
      · split
        · rfl
        next p _ => cases r.lookup? p.datatype <;> simp

theorem responseShape_noteShape (r : Registry) (shape : ResponseShape) (o : Operation) :
    responseShape (noteShape r shape) o = responseShape r o := by
  unfold responseShape
  simp only [shapeOf_noteShape]

theorem shapeFor_noteShape (renames : Table String String) (r : Registry) (shape : ResponseShape) :
    shapeFor renames (noteShape r shape) = shapeFor renames r :=
  funext fun o => responseShape_noteShape r shape (renameOperation renames o)

theorem linkNote_noteShape (renames : Table String String) (r : Registry) (shape : ResponseShape)
    (o : Operation) : linkNote renames (noteShape r shape) o = linkNote renames r o := by
  rw [linkNote, responseShape_noteShape, linkNote]

/-- The linked operation depends on the registry by the shape of the response alone. -/
theorem operation_linkOperation (config : Config) (renames : Table String String) (r : Registry)
    (o : Operation) : (linkOperation config renames r o).1 =
      markNotes (markQuery config (markShape (renameOperation renames o) (shapeFor renames r o))) :=
  rfl

theorem operation_noteShape (config : Config) (renames : Table String String) (r : Registry)
    (shape : ResponseShape) (o : Operation) :
    (linkOperation config renames (noteShape r shape) o).1 =
      (linkOperation config renames r o).1 := by
  rw [operation_linkOperation, shapeFor_noteShape, operation_linkOperation]

/-- Linking operations one after another is linking each on its own, and noting all their shapes. -/
theorem linkAll_eq (config : Config) (renames : Table String String) (r : Registry)
    (os : List Operation) : linkAll config renames r os =
      (os.map fun o => (linkOperation config renames r o).1,
        (os.map (shapeFor renames r)).foldl noteShape r) := by
  induction os generalizing r with
  | nil => rfl
  | cons o rest ih =>
      rw [linkAll]
      dsimp only
      rw [registry_linkOperation, ih]
      simp only [operation_noteShape, shapeFor_noteShape, List.map_cons, List.foldl_cons]

/-! ### What is noted at one model -/

/-- The model of the response that an operation is expected to give. -/
def primaryModel? (renames : Table String String) (r : Registry) (o : Operation) : Option Model :=
  (((renameOperation renames o).primaryResponse?.bind (·.datatype)).filter (· ≠ "")).bind r.lookup?

/-- The model has a single property, and it is called by a key and has a type. -/
def HasOnly (m : Model) (key datatype : String) : Prop :=
  ∃ p, m.vars = [p] ∧ p.baseName = key ∧ p.datatype = datatype

theorem onlyVar?_eq_some {m : Model} {p : Property} (h : onlyVar? m = some p) : m.vars = [p] := by
  unfold onlyVar? at h
  split at h
  next hVars => rw [hVars, Option.some.inj h]
  next => cases h

theorem shapeOf_eq_single {r : Registry} {type model key datatype : String}
    (h : shapeOf r type = .single model key datatype) :
    ∃ m, r.lookup? type = some m ∧ m.name = model ∧ HasOnly m key datatype := by
  unfold shapeOf at h
  split at h
  · cases h
  next m hFound =>
    split at h
    · cases h
    · split at h
      · cases h
      next p hOnly =>
        split at h
        next =>
          split at h
          · cases h
          · cases h
            exact ⟨m, hFound, rfl, p, onlyVar?_eq_some hOnly, rfl, rfl⟩
        next => cases h

/-- A shape that is noted at a model is that of the model of the expected response. -/
theorem shapeFor_eq_single {renames : Table String String} {r : Registry} {o : Operation}
    {model key datatype : String} (h : shapeFor renames r o = .single model key datatype) :
    ∃ m, primaryModel? renames r o = some m ∧ m ∈ r.models ∧ m.name = model ∧
      HasOnly m key datatype := by
  unfold shapeFor responseShape at h
  split at h
  · cases h
  next type hType =>
    obtain ⟨m, hFound, hName, hOnly⟩ := shapeOf_eq_single h
    refine ⟨m, ?_, List.mem_of_find?_eq_some hFound, hName, hOnly⟩
    rw [primaryModel?, hType]
    exact hFound

/-- The model after linking, where only the model of the expected response may get a note of its
single property. -/
def Noted (primary : Option Model) (m m' : Model) : Prop :=
  m' = m ∨ ∃ key datatype, primary = some m ∧ HasOnly m key datatype ∧
    m' = { m with marks := { m.marks with
      singleKey := some key, singleDatatype := some datatype } }

theorem noted_markModel {r : Registry} (hMade : Made r) (renames : Table String String)
    (o : Operation) {m : Model} (hm : m ∈ r.models) :
    Noted (primaryModel? renames r o) m (markModel (shapeFor renames r o) m) := by
  cases hShape : shapeFor renames r o with
  | empty => exact Or.inl rfl
  | plain => exact Or.inl rfl
  | list type inner => exact Or.inl rfl
  | single model key datatype =>
      obtain ⟨held, hPrimary, hHeld, rfl, hOnly⟩ := shapeFor_eq_single hShape
      by_cases hName : m.name = held.name
      · obtain rfl := hMade.eq_of_name hm hHeld hName
        exact Or.inr ⟨key, datatype, hPrimary, hOnly, if_pos rfl⟩
      · exact Or.inl (if_neg hName)

theorem linkOperation_noted {r : Registry} (hMade : Made r) (config : Config)
    (renames : Table String String) (o : Operation) :
    List.Forall₂ (Noted (primaryModel? renames r o)) r.models
      (linkOperation config renames r o).2.models := by
  rw [registry_linkOperation, noteShape]
  dsimp only
  rw [List.forall₂_map_right_iff, List.forall₂_same]
  exact fun m hm => noted_markModel hMade renames o hm

/-! ### Any order -/

/-- Two shapes that are noted at one model are the same. -/
def Agree (shape shape' : ResponseShape) : Prop :=
  ∀ model key datatype key' datatype', shape = .single model key datatype →
    shape' = .single model key' datatype' → key = key' ∧ datatype = datatype'

theorem shapeFor_agree {r : Registry} (hMade : Made r) (renames : Table String String)
    (o o' : Operation) : Agree (shapeFor renames r o) (shapeFor renames r o') := by
  intro model key datatype key' datatype' hShape hShape'
  obtain ⟨m, -, hm, hName, p, hVars, rfl, rfl⟩ := shapeFor_eq_single hShape
  obtain ⟨m', -, hm', hName', p', hVars', rfl, rfl⟩ := shapeFor_eq_single hShape'
  obtain rfl := hMade.eq_of_name hm hm' (hName.trans hName'.symm)
  obtain rfl : p = p' := List.cons.inj (hVars.symm.trans hVars') |>.1
  exact ⟨rfl, rfl⟩

theorem Agree.markModel_comm {shape shape' : ResponseShape} (h : Agree shape shape') (m : Model) :
    markModel shape' (markModel shape m) = markModel shape (markModel shape' m) := by
  cases shape with
  | empty => rfl
  | plain => rfl
  | list type inner => rfl
  | single model key datatype =>
      cases shape' with
      | empty => rfl
      | plain => rfl
      | list type inner => rfl
      | single model' key' datatype' =>
          by_cases hSame : model = model'
          · subst hSame
            obtain ⟨rfl, rfl⟩ := h model key datatype key' datatype' rfl rfl
            rfl
          · by_cases hName : m.name = model
            · simp [markModel, hName, hSame]
            · by_cases hName' : m.name = model'
              · simp [markModel, hName', Ne.symm hSame]
              · simp [markModel, hName, hName']

theorem Agree.noteShape_comm {shape shape' : ResponseShape} (h : Agree shape shape')
    (r : Registry) : noteShape (noteShape r shape) shape' = noteShape (noteShape r shape') shape := by
  simp only [noteShape, List.map_map, Function.comp_def, h.markModel_comm]

/-- Linking the same operations in another order leaves the same registry. -/
theorem registry_linkAll_perm {r : Registry} (hMade : Made r) (config : Config)
    (renames : Table String String) {os os' : List Operation} (h : os.Perm os') :
    (linkAll config renames r os).2 = (linkAll config renames r os').2 := by
  rw [linkAll_eq, linkAll_eq]
  refine (h.map _).foldl_eq' ?_ r
  intro shape hShape shape' hShape' z
  obtain ⟨o, -, rfl⟩ := List.mem_map.mp hShape
  obtain ⟨o', -, rfl⟩ := List.mem_map.mp hShape'
  exact (shapeFor_agree hMade renames o o').noteShape_comm z

/-- Operations are linked to a registry independently of one another. -/
structure LinksApart (config : Config) (renames : Table String String) (r : Registry) : Prop where
  /-- In whatever list it stands, an operation becomes what it becomes on its own. -/
  operations : ∀ os, (linkAll config renames r os).1 =
    os.map fun o => (linkOperation config renames r o).1
  /-- Lists of the same operations leave the same models. -/
  registry : ∀ os os', os.Perm os' →
    (linkAll config renames r os).2 = (linkAll config renames r os').2
  /-- Linking an operation notes at most the only property of one model, that of its expected
  response. -/
  frame : ∀ o, (linkOperation config renames r o).2.crossReferenced = r.crossReferenced ∧
    List.Forall₂ (Noted (primaryModel? renames r o)) r.models
      (linkOperation config renames r o).2.models
  /-- What was noted for one operation does not change what another becomes, what is noted for it,
  and what is reported about it. -/
  unread : ∀ o o', let noted := (linkOperation config renames r o).2
    (linkOperation config renames noted o').1 = (linkOperation config renames r o').1 ∧
      shapeFor renames noted o' = shapeFor renames r o' ∧
      linkNote renames noted o' = linkNote renames r o'

/-- Operations can be linked in any order. -/
theorem links_apart {r : Registry} (hMade : Made r) (config : Config)
    (renames : Table String String) : LinksApart config renames r where
  operations os := by rw [linkAll_eq]
  registry _ _ h := registry_linkAll_perm hMade config renames h
  frame o := ⟨rfl, linkOperation_noted hMade config renames o⟩
  unread o o' := by
    dsimp only
    rw [registry_linkOperation]
    exact ⟨operation_noteShape .., congrFun (shapeFor_noteShape ..) o', linkNote_noteShape ..⟩

/-- A wrapper around a pet, and the pet, matched with one another. -/
def petRegistry : Registry :=
  (run {} {} ((({} : Registry).add
    { name := "PetResponse", classname := "PetResponse",
      vars := [{ baseName := "data", name := "data", datatype := "Pet" }] }).add
    { name := "Pet", classname := "Pet" })).registry

/-- Two operations that answer with the wrapper. -/
def petOperation (name : String) : Operation where
  operationId := name
  nickname := name
  method := "get"
  path := "/" ++ name
  responses := [{ code := "200", datatype := some "PetResponse", isDefault := true }]

theorem links_apart_pets : LinksApart {} [] petRegistry ∧
    petRegistry.crossReferenced = true ∧
    (linkAll {} [] petRegistry [petOperation "first", petOperation "second"]).2.models.map
      (·.marks.singleKey) = [some "data", none] :=
  ⟨links_apart (.run {} {} (.add _ (.add _ .empty))) {} [], by decide +kernel, by decide +kernel⟩

end ClientTypes.Linking
