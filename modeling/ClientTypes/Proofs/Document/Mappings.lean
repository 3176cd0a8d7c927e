import ClientTypes.Proofs.Document.Pointers
import ClientTypes.Proofs.Operations
import ClientTypes.Proofs.Schema.Reading

/-! Documents of descriptions whose mappings are mappings. Reading only picks parts of a
description, lays entries over one another and follows references inside it, so every schema that
it reads is one of a mapping, and describes no property twice. -/
namespace ClientTypes.Document

open Operations

/-! ### Picking parts -/

section Parts

variable {v : Value} (hv : v.DistinctKeys)

include hv

theorem member_distinct {name : String} {default part : Value} (hDefault : default.DistinctKeys)
    (h : member v name default = .ok part) : part.DistinctKeys := by
  unfold member at h
  split at h
  next entries hMap =>
    cases h
    exact (hv.entries hMap).fieldOr hDefault
  next => cases h

theorem entriesOrNone_distinct {entries : List (Scalar × Value)}
    (h : entriesOrNone v = .ok entries) : DistinctEntries entries := by
  unfold entriesOrNone at h
  split at h
  · split at h
    next es hMap =>
      cases h
      exact hv.entries hMap
    next => cases h
  · cases h
    exact .nil

theorem valueAt_distinct {name : String} {part : Value} (h : valueAt v name = .ok part) :
    part.DistinctKeys := by
  unfold valueAt at h
  split at h
  next entries hMap =>
    cases h
    exact (hv.entries hMap).fieldOr (.scalar _)
  next => cases h

theorem joined_distinct {second : Value} {items : List Value} (hSecond : second.DistinctKeys)
    (h : joined v second = .ok items) : ∀ item ∈ items, item.DistinctKeys := by
  unfold joined at h
  split at h
  next first more hFirst hMore =>
    cases h
    rw [List.forall_mem_append]
    exact ⟨hv.items hFirst, hSecond.items hMore⟩
  next =>
    cases h
    simp only [List.forall_mem_map]
    exact fun _ _ => .scalar _
  next => cases h

theorem pickContent_distinct {part : Value × Scalar} (h : pickContent v = .ok part) :
    part.1.DistinctKeys := by
  have hSchema {content found : Value} (hContent : content.DistinctKeys)
      (hFound : member content "schema" .null = .ok found) : found.DistinctKeys :=
    member_distinct hContent (.scalar _) hFound
  obtain ⟨isJson, _, h⟩ := ok_of_bind h
  split at h
  · obtain ⟨content, hContent, h⟩ := ok_of_bind h
    obtain ⟨found, hFound, h⟩ := ok_of_bind h
    cases h
    exact hSchema (valueAt_distinct hv hContent) hFound
  · obtain ⟨isForm, _, h⟩ := ok_of_bind h
    split at h
    · obtain ⟨content, hContent, h⟩ := ok_of_bind h
      obtain ⟨found, hFound, h⟩ := ok_of_bind h
      cases h
      exact hSchema (valueAt_distinct hv hContent) hFound
    · split at h
      · cases h
        exact .scalar _
      next contentType data rest hMap =>
        obtain ⟨found, hFound, h⟩ := ok_of_bind h
        cases h
        exact hSchema ((hv.entries hMap).values _ List.mem_cons_self) hFound
      · cases h

/-! ### References -/

theorem entriesOf_distinct : DistinctEntries (entriesOf v) := by
  unfold entriesOf
  split
  next entries hMap => exact hv.entries hMap
  next => exact .nil

theorem lookUp?_distinct {keys : List String} {target : Value} (h : lookUp? v keys = some target) :
    target.DistinctKeys :=
  lookUp?_induction (fun hMap hInner => (entriesOf_distinct hMap).field hInner) hv h

omit hv in
theorem extensionsOf_distinct {entries : List (Scalar × Value)} {extensions : Table String Value}
    (hEntries : ∀ e ∈ entries, e.2.DistinctKeys) (h : extensionsOf entries = .ok extensions) :
    ∀ e ∈ extensions, e.2.DistinctKeys := by
  induction entries generalizing extensions with
  | nil =>
      cases h
      simp
  | cons entry rest ih =>
      obtain ⟨key, first⟩ := entry
      rw [List.forall_mem_cons] at hEntries
      cases key with
      | text key =>
          obtain ⟨more, hMore, hSame⟩ := ok_of_map h
          have hRest := ih hEntries.2 hMore
          rw [← hSame]
          split
          · exact List.forall_mem_cons.mpr ⟨hEntries.1, hRest⟩
          · exact hRest
      | _ => cases h

theorem withExtensions_distinct {extensions : Table String Value}
    (hExtensions : ∀ e ∈ extensions, e.2.DistinctKeys) : (withExtensions extensions v).DistinctKeys := by
  unfold withExtensions
  split
  next entries hMap =>
    refine DistinctEntries.map ?_
    have hOwn := hv.entries hMap
    clear hMap
    induction extensions generalizing entries with
    | nil => exact hOwn
    | cons first rest ih =>
        rw [List.forall_mem_cons] at hExtensions
        exact ih hExtensions.2 _ (hOwn.putIn _ hExtensions.1)
  next => exact hv

/-- What a reference leads to is a part of the description, with entries of references on the way. -/
theorem followFrom_distinct {doc target : Value} (hDoc : doc.DistinctKeys) {fuel : Nat}
    {seen : List String} (h : followFrom doc fuel seen v = .ok target) : target.DistinctKeys := by
  induction fuel generalizing v seen with
  | zero =>
      obtain ⟨-, rfl⟩ | ⟨_, _, _, _, hFuel, -⟩ := followFrom_cases h
      · exact hv
      · cases hFuel
  | succ fuel ih =>
      obtain ⟨-, rfl⟩ | ⟨_, reference, found, extensions, ⟨⟩, -, hTarget, hExtensions, hRest⟩ := followFrom_cases h
      · exact hv
      · obtain ⟨keys, -, hFound⟩ := Option.bind_eq_some_iff.mp hTarget
        have hLaid := extensionsOf_distinct (entriesOf_distinct hv).values hExtensions
        exact ih (withExtensions_distinct (lookUp?_distinct hDoc hFound) hLaid) hRest

theorem follow_distinct {doc target : Value} (hDoc : doc.DistinctKeys) (h : follow doc v = .ok target) :
    target.DistinctKeys :=
  followFrom_distinct hv hDoc h

end Parts

/-! ### Parameters and bodies -/

theorem parameterSchema_distinct {entries : List (Scalar × Value)} (h : DistinctEntries entries) :
    (parameterSchema entries).DistinctKeys := by
  have hText : (Value.record [("type", .text "string")]).DistinctKeys :=
    .map (by decide) (by simpa using .scalar _)
  unfold parameterSchema
  dsimp only
  split
  · split
    · exact (h.filter _).map
    · exact hText
  · split
    · exact h.fieldOr (.scalar _)
    · exact hText

theorem readParameter_distinct {parameter : Value} {entries : List (Scalar × Value)}
    (hEntries : DistinctEntries entries) {d : ParameterDef}
    (h : readParameter parameter entries = .ok d) : d.schema.DistinctKeys := by
  unfold readParameter at h
  dsimp only at h
  split at h
  · obtain ⟨_, _, h⟩ := ok_of_bind h
    cases h
  · obtain ⟨schema, hSchema, h⟩ := ok_of_bind h
    obtain ⟨_, _, hThree, _, rfl⟩ := Checked.valid_of_seq (Checked.valid_of_orThrow h)
    obtain ⟨_, _, hTwo, _, rfl⟩ := Checked.valid_of_seq hThree
    obtain ⟨_, _, hOne, _, rfl⟩ := Checked.valid_of_seq hTwo
    obtain ⟨_, _, rfl⟩ := Checked.valid_of_map hOne
    exact Schema.distinctKeys_of_ofValue (parameterSchema_distinct hEntries) hSchema

theorem readParameters_distinct {parameters : List Value} (hAll : ∀ p ∈ parameters, p.DistinctKeys)
    {ds : List ParameterDef} (h : readParameters parameters = .ok ds) :
    ∀ d ∈ ds, d.schema.DistinctKeys := by
  induction parameters generalizing ds with
  | nil =>
      cases h
      simp
  | cons parameter rest ih =>
      rw [List.forall_mem_cons] at hAll
      unfold readParameters at h
      split at h
      next entries hMap =>
        split at h
        · exact ih hAll.2 h
        · obtain ⟨first, hFirst, h⟩ := ok_of_bind h
          obtain ⟨more, hMore, h⟩ := ok_of_bind h
          cases h
          exact List.forall_mem_cons.mpr
            ⟨readParameter_distinct (hAll.1.entries hMap) hFirst, ih hAll.2 hMore⟩
      next => cases h

theorem bodyParameter?_distinct {parameters : List Value} (hAll : ∀ p ∈ parameters, p.DistinctKeys)
    {entries : List (Scalar × Value)} (h : bodyParameter? parameters = some entries) :
    DistinctEntries entries := by
  induction parameters with
  | nil => cases h
  | cons parameter rest ih =>
      rw [List.forall_mem_cons] at hAll
      unfold bodyParameter? at h
      split at h
      next es hMap =>
        split at h
        · cases h
          exact hAll.1.entries hMap
        · exact ih hAll.2 h
      next => exact ih hAll.2 h

theorem bodySource?_distinct {body : Value} {parameters : List Value} (hBody : body.DistinctKeys)
    (hAll : ∀ p ∈ parameters, p.DistinctKeys) {source : BodySource}
    (h : bodySource? body parameters = .ok (some source)) : source.schema.DistinctKeys := by
  unfold bodySource? at h
  split at h
  · obtain ⟨content, hContent, h⟩ := ok_of_bind h
    obtain ⟨⟨schema, contentType⟩, hPicked, h⟩ := ok_of_bind h
    have hSchema : schema.DistinctKeys :=
      pickContent_distinct (member_distinct hBody DistinctEntries.nil.map hContent) hPicked
    dsimp only at h
    split at h <;> cases h
    exact hSchema
  · split at h
    · cases h
    next entries hFound =>
      have hSchema : ((field? entries "schema").getD .null).DistinctKeys :=
        (bodyParameter?_distinct hAll hFound).fieldOr (.scalar _)
      split at h <;> cases h
      exact hSchema

/-! ### Operations -/

/-- The schemas in the table describe no property twice. -/
def DistinctTable (h : Hoisting) : Prop := ∀ e ∈ h.schemas, e.2.DistinctKeys

variable {h : Hoisting} {s : Schema}

theorem mem_putSchema {schemas : List (Scalar × Schema)} {name : Scalar} {e : Scalar × Schema}
    (he : e ∈ putSchema schemas name s) : e ∈ schemas ∨ e.2 = s := by
  induction schemas with
  | nil => simp_all [putSchema]
  | cons entry rest ih =>
      unfold putSchema at he
      split at he
      · rcases List.mem_cons.mp he with rfl | hRest
        · exact Or.inr rfl
        · exact Or.inl (List.mem_cons_of_mem _ hRest)
      · rcases List.mem_cons.mp he with rfl | hRest
        · exact Or.inl List.mem_cons_self
        · exact (ih hRest).imp_left (List.mem_cons_of_mem _)

theorem DistinctTable.put (hTable : DistinctTable h) (hs : s.DistinctKeys) (name : Scalar) :
    ∀ e ∈ putSchema h.schemas name s, e.2.DistinctKeys := by
  intro e he
  rcases mem_putSchema he with hOld | hNew
  · exact hTable e hOld
  · exact hNew ▸ hs

theorem DistinctTable.placeBody (hTable : DistinctTable h) (hs : s.DistinctKeys) :
    DistinctTable (h.placeBody s).2 := by
  unfold Hoisting.placeBody
  split
  · exact hTable
  · split
    · exact hTable.put hs _
    · exact hTable

theorem DistinctTable.placeResponse (hTable : DistinctTable h) (hs : s.DistinctKeys) (code : String) :
    DistinctTable (h.placeResponse code s).2 := by
  unfold Hoisting.placeResponse
  split
  · exact hTable
  · split
    · exact hTable.put hs _
    · exact hTable

theorem readBody_distinct (hTable : DistinctTable h) {source : BodySource}
    (hSource : source.schema.DistinctKeys) :
    Ensures (readBody source) h fun d h' => d.schema.DistinctKeys ∧ DistinctTable h' := by
  refine .lift_bind fun extensions => ?_
  refine .lift_bind_ok fun schema hSchema => ?_
  have hDistinct := Schema.distinctKeys_of_ofValue hSource hSchema
  refine .bind (P := fun _ h' => DistinctTable h') (.modifyGet (hTable.placeBody hDistinct))
    fun schemaName _ hPlaced => ?_
  refine .lift fun d hChecked => ?_
  obtain ⟨_, _, hTwo, _, rfl⟩ := Checked.valid_of_seq (Checked.valid_of_orThrow hChecked)
  obtain ⟨_, _, hOne, _, rfl⟩ := Checked.valid_of_seq hTwo
  obtain ⟨_, _, rfl⟩ := Checked.valid_of_map hOne
  exact ⟨hDistinct, hPlaced⟩

theorem readOptionalBody_distinct (hTable : DistinctTable h) {source : Option BodySource}
    (hSource : ∀ given, source = some given → given.schema.DistinctKeys) :
    Ensures (readOptionalBody source) h fun body h' =>
      (∀ d, body = some d → d.schema.DistinctKeys) ∧ DistinctTable h' := by
  cases source with
  | none => exact .pure ⟨by simp, hTable⟩
  | some source =>
      refine .map ((readBody_distinct hTable (hSource source rfl)).imp fun d _ hRead => ⟨?_, hRead.2⟩)
      rintro _ ⟨⟩
      exact hRead.1

theorem placeResponseSchema_distinct (hTable : DistinctTable h) (code : String) {schema : Option Schema}
    (hSchema : ∀ s, schema = some s → s.DistinctKeys) :
    Ensures (placeResponseSchema code schema) h fun _ h' => DistinctTable h' := by
  cases schema with
  | none => exact .pure hTable
  | some s => exact .modifyGet (hTable.placeResponse (hSchema s rfl) code)

variable {doc : Value} (hDoc : doc.DistinctKeys)

include hDoc

theorem readResponse_distinct (hTable : DistinctTable h) (primary : Option String) (code : String)
    {raw : Value} (hRaw : raw.DistinctKeys) :
    Ensures (readResponse doc primary code raw) h fun d h' =>
      (∀ s, d.schema = some s → s.DistinctKeys) ∧ DistinctTable h' := by
  unfold readResponse
  refine .lift_bind_ok fun followed hFollowed => ?_
  have hResponse : (if followed.isGiven then followed else .map []).DistinctKeys := by
    split
    · exact follow_distinct hRaw hDoc hFollowed
    · exact DistinctEntries.nil.map
  refine .lift_bind_ok fun rawSchema hRawSchema => ?_
  have hGiven : rawSchema.DistinctKeys := by
    obtain ⟨hasContent, _, hRawSchema⟩ := ok_of_bind hRawSchema
    split at hRawSchema
    · obtain ⟨content, hContent, hRawSchema⟩ := ok_of_bind hRawSchema
      obtain ⟨picked, hPicked, hRawSchema⟩ := ok_of_bind hRawSchema
      cases hRawSchema
      exact pickContent_distinct (valueAt_distinct hResponse hContent) hPicked
    · exact member_distinct hResponse (.scalar _) hRawSchema
  dsimp only
  split
  · refine .lift_bind fun extensions => ?_
    refine .lift_bind_ok fun schema hSchema => ?_
    have hDistinct : ∀ s, schema = some s → s.DistinctKeys := by
      rintro s rfl
      split at hSchema
      · cases hSchema
      · obtain ⟨read, hRead, hSame⟩ := ok_of_map hSchema
        cases hSame
        exact Schema.distinctKeys_of_ofValue hGiven hRead
    refine .bind (placeResponseSchema_distinct hTable code hDistinct) fun name _ hPlaced => ?_
    exact .lift_bind fun description => .pure ⟨hDistinct, hPlaced⟩
  · exact .throw

theorem readResponseEntries_distinct (hTable : DistinctTable h) (primary : Option String)
    {entries : List (String × Value)} (hEntries : ∀ e ∈ entries, e.2.DistinctKeys) :
    Ensures (readResponseEntries doc primary entries) h fun ds h' =>
      (∀ d ∈ ds, ∀ s, d.schema = some s → s.DistinctKeys) ∧ DistinctTable h' := by
  induction entries generalizing h with
  | nil => exact .pure ⟨by simp, hTable⟩
  | cons entry rest ih =>
      rw [List.forall_mem_cons] at hEntries
      refine .bind (readResponse_distinct hDoc hTable primary entry.1 hEntries.1) fun first _ hFirst => ?_
      refine .bind (ih hFirst.2 hEntries.2) fun more _ hMore => .pure ?_
      exact ⟨List.forall_mem_cons.mpr ⟨hFirst.1, hMore.1⟩, hMore.2⟩

theorem readResponses_distinct (hTable : DistinctTable h) {responses : Value}
    (hResponses : responses.DistinctKeys) :
    Ensures (readResponses doc responses) h fun ds h' =>
      (∀ d ∈ ds, ∀ s, d.schema = some s → s.DistinctKeys) ∧ DistinctTable h' := by
  unfold readResponses
  split
  next entries hMap =>
    refine .lift_bind fun codes => readResponseEntries_distinct hDoc hTable _ fun e he => ?_
    obtain ⟨entry, hEntry, hSame⟩ := List.mem_map.mp (List.of_mem_zip he).2
    exact hSame ▸ (hResponses.entries hMap).values entry hEntry
  · exact .lift_bind fun _ => .throw
  · exact .throw
  · exact .throw

/-- The schemas that an operation mentions describe no property twice. -/
def DistinctOperation (d : OperationDef) : Prop := ∀ s ∈ schemasOf d, s.DistinctKeys

theorem readOperation_distinct (hTable : DistinctTable h) (path : Scalar) (method : String)
    {operation shared : Value} (hOperation : operation.DistinctKeys) (hShared : shared.DistinctKeys) :
    Ensures (readOperation doc path method operation shared) h fun d h' =>
      DistinctOperation d ∧ DistinctTable h' := by
  have hEmpty : (Value.list []).DistinctKeys := .list (by simp)
  unfold readOperation
  refine .lift_bind_ok fun own hOwn => ?_
  refine .lift_bind_ok fun listed hListed => ?_
  have hAll := joined_distinct hShared (member_distinct hOperation hEmpty hOwn) hListed
  have hFollow : ∀ p ∈ listed, ∀ h, DistinctTable h →
      Ensures (liftM (follow doc p) : Reading Value) h fun found h' =>
        found.DistinctKeys ∧ DistinctTable h' :=
    fun p hp _ hKept => .lift fun _ hFound => ⟨follow_distinct (hAll p hp) hDoc hFound, hKept⟩
  refine .bind (.mapM_forall hFollow hTable) fun followed _ hFollowed => ?_
  refine .lift_bind_ok fun parameters hParameters => ?_
  refine .lift_bind_ok fun ownBody hOwnBody => ?_
  refine .lift_bind_ok fun rawBody hRawBody => ?_
  have hBody : rawBody.DistinctKeys :=
    follow_distinct (member_distinct hOperation (.scalar _) hOwnBody) hDoc hRawBody
  refine .lift_bind_ok fun source hSource => ?_
  have hGiven : ∀ given, source = some given → given.schema.DistinctKeys := by
    rintro given rfl
    exact bodySource?_distinct hBody hFollowed.1 hSource
  refine .bind (readOptionalBody_distinct hFollowed.2 hGiven) fun body _ hReadBody => ?_
  refine .lift_bind fun givenId => ?_
  refine .lift_bind fun operationId => ?_
  refine .lift_bind fun summary => ?_
  refine .lift_bind fun notes => ?_
  refine .lift_bind fun tags => ?_
  refine .lift_bind_ok fun rawResponses hRawResponses => ?_
  have hResponses := member_distinct hOperation DistinctEntries.nil.map hRawResponses
  refine .bind (readResponses_distinct hDoc hReadBody.2 hResponses) fun responses _ hRead => ?_
  refine .lift fun d hChecked => ⟨?_, hRead.2⟩
  obtain ⟨_, _, hFour, _, rfl⟩ := Checked.valid_of_seq (Checked.valid_of_orThrow hChecked)
  obtain ⟨_, _, hThree, _, rfl⟩ := Checked.valid_of_seq hFour
  obtain ⟨_, _, hTwo, _, rfl⟩ := Checked.valid_of_seq hThree
  obtain ⟨_, _, hOne, _, rfl⟩ := Checked.valid_of_seq hTwo
  obtain ⟨_, _, rfl⟩ := Checked.valid_of_map hOne
  intro s hs
  simp only [schemasOf, List.mem_append, List.mem_map, Option.mem_toList, Option.map_eq_some_iff,
    List.mem_filterMap] at hs
  rcases hs with (⟨p, hp, rfl⟩ | ⟨b, hb, rfl⟩) | ⟨r, hr, hSchema⟩
  · exact readParameters_distinct hFollowed.1 hParameters p hp
  · exact hReadBody.1 b hb
  · exact hRead.1 r hr s hSchema

theorem readMethods_distinct (hTable : DistinctTable h) (path : Scalar) {shared : Value}
    (hShared : shared.DistinctKeys) {entries : List (Scalar × Value)}
    (hEntries : ∀ e ∈ entries, e.2.DistinctKeys) :
    Ensures (readMethods doc path shared entries) h fun ds h' =>
      (∀ d ∈ ds, DistinctOperation d) ∧ DistinctTable h' := by
  induction entries generalizing h with
  | nil => exact .pure ⟨by simp, hTable⟩
  | cons entry rest ih =>
      obtain ⟨key, operation⟩ := entry
      rw [List.forall_mem_cons] at hEntries
      cases key with
      | text key =>
          rw [readMethods]
          split
          · refine .bind (readOperation_distinct hDoc hTable path _ hEntries.1 hShared) fun first _ hFirst => ?_
            refine .bind (ih hFirst.2 hEntries.2) fun more _ hMore => .pure ?_
            exact ⟨List.forall_mem_cons.mpr ⟨hFirst.1, hMore.1⟩, hMore.2⟩
          · exact ih hTable hEntries.2
      | _ => exact .throw

theorem readPaths_distinct (hTable : DistinctTable h) {entries : List (Scalar × Value)}
    (hEntries : ∀ e ∈ entries, e.2.DistinctKeys) :
    Ensures (readPaths doc entries) h fun ds h' =>
      (∀ d ∈ ds, DistinctOperation d) ∧ DistinctTable h' := by
  have hEmpty : (Value.list []).DistinctKeys := .list (by simp)
  induction entries generalizing h with
  | nil => exact .pure ⟨by simp, hTable⟩
  | cons entry rest ih =>
      rw [List.forall_mem_cons] at hEntries
      refine .lift_bind_ok fun shared hShared => ?_
      refine .lift_bind_ok fun methods hMethods => ?_
      have hOwn := (entriesOrNone_distinct hEntries.1 hMethods).values
      refine .bind (readMethods_distinct hDoc hTable entry.1
        (member_distinct hEntries.1 hEmpty hShared) hOwn) fun first _ hFirst => ?_
      refine .bind (ih hFirst.2 hEntries.2) fun more _ hMore => .pure ?_
      exact ⟨List.forall_mem_append.mpr ⟨hFirst.1, hMore.1⟩, hMore.2⟩

/-! ### Documents -/

theorem declaredSchemas_distinct {schemas : List (Scalar × Schema)}
    (h : declaredSchemas doc = .ok schemas) : ∀ e ∈ schemas, e.2.DistinctKeys := by
  obtain ⟨entries, hEntries, h⟩ := ok_of_bind h
  obtain ⟨components, hComponents, hEntries⟩ := ok_of_bind hEntries
  obtain ⟨newer, hNewer, hEntries⟩ := ok_of_bind hEntries
  obtain ⟨older, hOlder, hEntries⟩ := ok_of_bind hEntries
  have hPlace : (if newer.isGiven then newer else older).DistinctKeys := by
    split
    · exact member_distinct (member_distinct hDoc DistinctEntries.nil.map hComponents) (.scalar _) hNewer
    · exact member_distinct hDoc (.scalar _) hOlder
  exact (allProperties_distinct (entriesOrNone_distinct hPlace hEntries) h).schemas

/-- In a document that is read from a description without a key twice, no schema describes a property
twice: neither those of its table nor those that its operations mention. -/
theorem ofValue_distinct {document : ApiDocument} (h : ofValue doc = .ok document) :
    (∀ e ∈ document.schemas, e.2.DistinctKeys) ∧ ∀ d ∈ document.operations, DistinctOperation d := by
  obtain ⟨declared, hDeclared, h⟩ := ok_of_bind h
  obtain ⟨rawPaths, hRawPaths, h⟩ := ok_of_bind h
  obtain ⟨paths, hPaths, h⟩ := ok_of_bind h
  obtain ⟨⟨operations, hoisting⟩, hRun, h⟩ := ok_of_bind h
  obtain ⟨info, _, h⟩ := ok_of_bind h
  obtain ⟨title, _, h⟩ := ok_of_bind h
  obtain ⟨rawVersion, _, h⟩ := ok_of_bind h
  obtain ⟨version, _, h⟩ := ok_of_bind h
  obtain ⟨_, t, hTitle, hSchemas, rfl⟩ := Checked.valid_of_seq (Checked.valid_of_orThrow h)
  obtain ⟨_, _, rfl⟩ := Checked.valid_of_map hTitle
  have hBegin : DistinctTable { schemas := declared } := declaredSchemas_distinct hDoc hDeclared
  have hEntries := (entriesOrNone_distinct (member_distinct hDoc (.scalar _) hRawPaths) hPaths).values
  obtain ⟨hOperations, hTable⟩ := readPaths_distinct hDoc hBegin hEntries _ _ hRun
  refine ⟨fun e he => ?_, hOperations⟩
  have hIn := checkedProperties_eq (Checked.valid_of_inside hSchemas)
  exact hTable (.text e.1, e.2) (hIn ▸ List.mem_map_of_mem he)

end ClientTypes.Document
