import ClientTypes.Proofs.Document.Dialect.Parts

/-! The two dialects of descriptions read the same. Operations agree because their parts do, and paths
and documents because their operations do. -/
namespace ClientTypes.Document

variable {doc doc' : Value} {strict : Prop}

/-! ### Operations -/

theorem mapM_follow_inline {parameters : List Value} (h : ∀ p ∈ parameters, Inline p) :
    (parameters.mapM fun p => (liftM (follow doc p) : Reading Value)) = pure parameters := by
  induction parameters with
  | nil => rfl
  | cons p rest ih =>
      rw [List.forall_mem_cons] at h
      rw [List.mapM_cons, follow_inline h.1, ih h.2]
      rfl

theorem inline_newerParameter {p : Value} (h : Inline p) : Inline (newerParameter p) := by
  rcases map_or_not p with ⟨entries, hMap⟩ | hNot
  · rw [Inline, newerParameter, part?_eq (opened_onEntries hMap _),
      field?_newerParameterEntries (by decide) (by decide), ← part?_eq hMap]
    exact h
  · rwa [newerParameter, onEntries_of_ne hNot]

theorem inline_newerParameters {parameters : List Value} (h : ∀ p ∈ parameters, Inline p) :
    ∀ p ∈ newerParameters parameters, Inline p := by
  intro q hq
  obtain ⟨p, hp, rfl⟩ := List.mem_map.mp hq
  exact inline_newerParameter (h p (List.mem_filter.mp hp).1)

section OperationFields

variable {entries : List (Scalar × Value)}

theorem field?_newerBodyEntry (parameters : List Value) (name : String) :
    field? (newerBodyEntry parameters) name =
      if name = "requestBody" then (parameters.find? isBody).map newerBody else none := by
  unfold newerBodyEntry
  cases parameters.find? isBody with
  | none => simp [field?]
  | some p => simp [field?, eq_comm]

theorem field?_newerOperation {name : String} (hParameters : name ≠ "parameters")
    (hResponses : name ≠ "responses") (hBody : name ≠ "requestBody") :
    field? (newerOperationEntries entries) name = field? entries name := by
  rw [newerOperationEntries, field?_append, field?_newerBodyEntry,
    field?_rekey_of_ne hParameters hParameters, field?_rekey_of_ne hResponses hResponses,
    if_neg hBody, Option.or_none]

theorem field?_newerOperation_parameters :
    (field? (newerOperationEntries entries) "parameters").getD (.list []) =
      onItems newerParameters ((field? entries "parameters").getD (.list [])) := by
  rw [newerOperationEntries, field?_append, field?_newerBodyEntry,
    field?_rekey_new (Or.inl rfl), field?_rekey_of_ne (by decide) (by decide), if_neg (by decide),
    Option.or_none]
  exact Option.getD_map (onItems newerParameters) (.list []) _

theorem field?_newerOperation_responses :
    (field? (newerOperationEntries entries) "responses").getD (.map []) =
      onEntries (mapValues newerResponse) ((field? entries "responses").getD (.map [])) := by
  rw [newerOperationEntries, field?_append, field?_newerBodyEntry,
    field?_rekey_of_ne (by decide) (by decide), field?_rekey_new (Or.inl rfl), if_neg (by decide),
    Option.or_none]
  exact Option.getD_map (onEntries (mapValues newerResponse)) (.map []) _

theorem field?_newerOperation_body (h : field? entries "requestBody" = none) :
    (field? (newerOperationEntries entries) "requestBody").getD .null =
      movedBody (listedParameters entries) := by
  rw [newerOperationEntries, field?_append, field?_newerBodyEntry,
    field?_rekey_of_ne (by decide) (by decide), field?_rekey_of_ne (by decide) (by decide), h,
    if_pos rfl]
  rfl

end OperationFields

theorem readOperation_newer {path : Scalar} {method : String} {operation : Value}
    (h : OlderOperation operation)
    (hNamed : strict → ∀ p ∈ listedParameters (entriesOf operation), Named p) :
    Agrees strict (readOperation doc' path method (newerOperation operation) (.list []))
      (readOperation doc path method operation (.list [])) := by
  rcases map_or_not operation with ⟨entries, hMap⟩ | hNot
  · have hNewer : (newerOperation operation).opened = .map (newerOperationEntries entries) :=
      opened_onEntries hMap _
    have hEntries := entriesOf_eq hMap
    have hInline := h.parameters
    have hNoBody : field? entries "requestBody" = none := (part?_eq hMap).symm.trans h.noBody
    have hGiven := h.responses
    rw [part?_eq hMap] at hGiven
    have hRead : readResponses doc'
        (onEntries (mapValues newerResponse) ((field? entries "responses").getD (.map []))) =
          readResponses doc ((field? entries "responses").getD (.map [])) :=
      readResponses_newer (forall_getD nofun hGiven)
    have hSame : ∀ name, name ≠ "parameters" → name ≠ "responses" → name ≠ "requestBody" →
        field? (newerOperationEntries entries) name = field? entries name :=
      fun _ => field?_newerOperation
    unfold readOperation
    simp only [member_eq hMap, member_eq hNewer, liftM_ok_bind, field?_newerOperation_parameters,
      field?_newerOperation_responses, field?_newerOperation_body hNoBody, hNoBody,
      hSame "operationId" (by decide) (by decide) (by decide),
      hSame "summary" (by decide) (by decide) (by decide),
      hSame "description" (by decide) (by decide) (by decide),
      hSame "tags" (by decide) (by decide) (by decide)]
    rw [hRead]
    rw [hEntries] at hInline hNamed
    unfold listedParameters at hInline hNamed ⊢
    -- What is left differs in the parameters and in where the body is. Both are read from a list
    -- only: anything else that stands for the parameters is refused as it is.
    rcases list_or_not ((field? entries "parameters").getD (.list [])) with ⟨items, hList⟩ | hNoList
    · rw [itemsOf_eq hList] at hInline hNamed ⊢
      obtain ⟨source, source', hOld, hNew, hBody⟩ := bodySource?_newer items
      rw [onItems_eq hList, joined_nil hList, joined_nil rfl, liftM_ok_bind, liftM_ok_bind,
        mapM_follow_inline hInline, mapM_follow_inline (inline_newerParameters hInline),
        pure_bind, pure_bind, follow_movedBody, follow_inline (v := none.getD .null) rfl]
      refine .bind (.lift (readParameters_newer hNamed)) fun parameters => .of_eq ?_
      simp only [liftM_ok_bind, Option.getD_none, hOld, hNew, hBody]
    · rw [onItems_of_ne hNoList, joined_nil_of_ne hNoList, liftM_error_bind, liftM_error_bind]
      exact .of_eq rfl
  · rw [newerOperation, onEntries_of_ne hNot]
    unfold readOperation
    rw [member_of_ne hNot, liftM_error_bind, liftM_error_bind]
    exact .of_eq rfl

/-! ### Paths -/

theorem readMethods_newer {path : Scalar} {entries : List (Scalar × Value)}
    (h : ∀ e ∈ entries, isMethod e.1 = true → OlderOperation e.2)
    (hNamed : strict → ∀ e ∈ entries, isMethod e.1 = true →
      ∀ p ∈ listedParameters (entriesOf e.2), Named p) :
    Agrees strict (readMethods doc' path (.list []) (newerPathEntries entries))
      (readMethods doc path (.list []) entries) := by
  induction entries with
  | nil => exact .of_eq rfl
  | cons e rest ih =>
      rw [List.forall_mem_cons] at h
      have hRest := ih h.2 fun hStrict e he => hNamed hStrict e (List.mem_cons_of_mem _ he)
      obtain ⟨key, operation⟩ := e
      cases key with
      | text key =>
          have hMethod : isMethod (.text key) =
            httpMethods.contains (String.ofList (key.toList.map Char.toLower)) := rfl
          rw [newerPathEntries, List.map_cons, readMethods]
          cases hKey : isMethod (.text key) with
          | true =>
              have hFirst : strict → ∀ p ∈ listedParameters (entriesOf operation), Named p :=
                fun hStrict => hNamed hStrict _ List.mem_cons_self hKey
              simp only [if_true]
              rw [readMethods, ← hMethod, hKey, if_pos rfl, if_pos rfl]
              exact .bind (readOperation_newer (h.1 hKey) hFirst) fun _ =>
                .bind hRest fun _ => .of_eq rfl
          | false =>
              simp only [Bool.false_eq_true, if_false]
              rw [readMethods, ← hMethod, hKey, if_neg nofun, if_neg nofun]
              exact hRest
      | _ => exact .of_eq rfl

theorem readPaths_newer {entries : List (Scalar × Value)} (h : ∀ e ∈ entries, OlderPath e.2)
    (hNamed : strict → ∀ path ∈ entries, ∀ e ∈ entriesOf path.2, isMethod e.1 = true →
      ∀ p ∈ listedParameters (entriesOf e.2), Named p) :
    Agrees strict (readPaths doc' (mapValues newerPath entries)) (readPaths doc entries) := by
  induction entries with
  | nil => exact .of_eq rfl
  | cons e rest ih =>
      rw [List.forall_mem_cons] at h
      have hRest := ih h.2 fun hStrict e he => hNamed hStrict e (List.mem_cons_of_mem _ he)
      have hFirst := fun hStrict => hNamed hStrict e List.mem_cons_self
      obtain ⟨path, methods⟩ := e
      change Agrees strict (readPaths doc' ((path, newerPath methods) :: mapValues newerPath rest)) _
      rw [readPaths, readPaths]
      rcases map_or_not methods with ⟨entries, hMap⟩ | hNot
      · have hOwn : field? entries "parameters" = none :=
          (part?_eq hMap).symm.trans h.1.ownParameters
        have hOperations := h.1.operations
        rw [entriesOf_eq hMap] at hOperations
        simp only [entriesOf_eq hMap] at hFirst
        have hStill : field? (newerPathEntries entries) "parameters" = none :=
          field?_map_eq_none (fun e => by split <;> rfl) hOwn
        rw [newerPath, onEntries_eq hMap, member_eq hMap, member_map, entriesOrNone_eq hMap,
          entriesOrNone_map, hOwn, hStill, liftM_ok_bind]
        simp only [liftM_ok_bind, Option.getD_none]
        exact .bind (readMethods_newer hOperations hFirst) fun _ => .bind hRest fun _ => .of_eq rfl
      · rw [newerPath, onEntries_of_ne hNot, member_of_ne hNot, liftM_error_bind, liftM_error_bind]
        exact .of_eq rfl

/-! ### Documents -/

/-- Schemas are declared where they were moved to. -/
theorem declaredEntries_newer {entries : List (Scalar × Value)} (hMap : doc.opened = .map entries)
    (h : field? entries "components" = none) :
    declaredEntries (newerDocument doc) = declaredEntries doc := by
  have hComponents : field? (newerDocumentEntries entries) "components" =
      (field? entries "definitions").map fun schemas => .record [("schemas", schemas)] := by
    rw [newerDocumentEntries, field?_rekey_new, field?_rekey_of_ne (by decide) (by decide)]
    refine Or.inr ?_
    rw [field?_rekey_of_ne (by decide) (by decide)]
    exact h
  have hDefinitions : field? (newerDocumentEntries entries) "definitions" = none :=
    field?_rekey_old (by decide)
  unfold declaredEntries
  rw [newerDocument, onEntries_eq hMap]
  simp only [member_map, member_eq hMap, hComponents, hDefinitions, h]
  cases field? entries "definitions" with
  | none => rfl
  | some schemas =>
      change entriesOrNone (if schemas.isGiven then schemas else .null) = entriesOrNone schemas
      -- Empty definitions count as not given, and the reader then looks where there is nothing left.
      cases hGiven : schemas.isGiven with
      | true => rw [if_pos rfl]
      | false => simp [entriesOrNone, hGiven, Value.isGiven]

/-- What is under the paths of a description is read the same. -/
theorem readPaths_given_newer {paths : Value} (h : ∀ e ∈ entriesOf paths, OlderPath e.2)
    (hNamed : strict → ∀ path ∈ entriesOf paths, ∀ e ∈ entriesOf path.2, isMethod e.1 = true →
      ∀ p ∈ listedParameters (entriesOf e.2), Named p)
    (hoisting : Hoisting) :
    Agree strict
      (entriesOrNone (onEntries (mapValues newerPath) paths) >>= fun entries =>
        (readPaths doc' entries).run hoisting)
      (entriesOrNone paths >>= fun entries => (readPaths doc entries).run hoisting) := by
  rcases map_or_not paths with ⟨entries, hMap⟩ | hNot
  · rw [entriesOf_eq hMap] at h hNamed
    rw [onEntries_eq hMap, entriesOrNone_map, entriesOrNone_eq hMap, ok_bind, ok_bind]
    exact readPaths_newer h hNamed hoisting
  · rw [onEntries_of_ne hNot, entriesOrNone_of_ne hNot]
    cases paths.isGiven with
    | true =>
        rw [if_pos rfl, error_bind, error_bind]
        exact .refl _
    | false =>
        rw [if_neg nofun, ok_bind, ok_bind, readPaths, readPaths]
        exact .refl _

theorem ofValue_agree (h : OlderDocument doc) (hNamed : strict → AllNamed doc) :
    Agree strict (ofValue (newerDocument doc)) (ofValue doc) := by
  rcases map_or_not doc with ⟨entries, hMap⟩ | hNot
  · have hNewer : (newerDocument doc).opened = .map (newerDocumentEntries entries) :=
      opened_onEntries hMap _
    have hComponents : field? entries "components" = none :=
      (part?_eq hMap).symm.trans h.noComponents
    have hInfo : field? (newerDocumentEntries entries) "info" = field? entries "info" := by
      rw [newerDocumentEntries, field?_rekey_of_ne (by decide) (by decide),
        field?_rekey_of_ne (by decide) (by decide)]
    have hPaths : (field? (newerDocumentEntries entries) "paths").getD .null =
        onEntries (mapValues newerPath) ((field? entries "paths").getD .null) := by
      rw [newerDocumentEntries, field?_rekey_of_ne (by decide) (by decide),
        field?_rekey_new (Or.inl rfl)]
      exact Option.getD_map (onEntries (mapValues newerPath)) .null _
    have hOlder := h.paths
    unfold AllNamed at hNamed
    rw [part?_eq hMap] at hOlder hNamed
    unfold ofValue declaredSchemas
    rw [declaredEntries_newer hMap hComponents, member_eq hNewer, member_eq hMap, member_eq hNewer,
      member_eq hMap, hInfo, hPaths]
    refine .bind (.refl _) fun schemas => ?_
    rw [ok_bind, ok_bind, ← bind_assoc, ← bind_assoc]
    have hPathsNamed := fun hStrict => forall_getD (d := .null) nofun (hNamed hStrict)
    exact .bind (readPaths_given_newer (forall_getD nofun hOlder) hPathsNamed _) fun _ => .refl _
  · rw [newerDocument, onEntries_of_ne hNot]
    exact .refl _

/-- A description in the older dialect is read as the same document after it was rewritten into the
newer one: the same schemas in the same order, those that were moved there included, and the same
operations. When every parameter has a name the faults are the same too. -/
theorem ofValue_newerDocument (h : OlderDocument doc) :
    (ofValue (newerDocument doc)).toOption = (ofValue doc).toOption ∧
      (AllNamed doc → ofValue (newerDocument doc) = ofValue doc) := by
  have hAgree : Agree (AllNamed doc) (ofValue (newerDocument doc)) (ofValue doc) :=
    ofValue_agree h id
  exact ⟨hAgree.result, hAgree.fault⟩

/-- A description in the older dialect, with a body, a parameter that has a format, and a response that
lists what is declared. -/
def petsDocument : Value := .record [
  ("swagger", .text "2.0"),
  ("info", .record [("title", .text "Pets"), ("version", .text "1")]),
  ("definitions", .record [("Pet", pet)]),
  ("paths", .record [("/pets", .record [("post", createPet)])])]
where
  pet : Value := .record [
    ("type", .text "object"), ("properties", .record [("name", .record [("type", .text "string")])])]
  limit : Value := .record [
    ("name", .text "limit"), ("in", .text "query"), ("type", .text "integer"),
    ("format", .text "int32")]
  body : Value := .record [
    ("name", .text "pet"), ("in", .text "body"), ("required", .bool true), ("schema", pet),
    ("x-codegen-operation-name", .text "CreatePet")]
  created : Value := .record [
    ("description", .text "created"), ("schema", .record [
      ("type", .text "array"), ("items", .record [("$ref", .text "#/definitions/Pet")])])]
  failed : Value := .record [("description", .text "failed"), ("schema", pet)]
  createPet : Value := .record [
    ("parameters", .list [limit, body]),
    ("responses", .record [("201", created), ("default", failed)])]

open petsDocument

theorem petsDocument_older : OlderDocument petsDocument := by
  have hCreated : OlderResponse created := ⟨rfl, rfl⟩
  have hFailed : OlderResponse failed := ⟨rfl, rfl⟩
  have hOperation : OlderOperation createPet := by
    refine ⟨rfl, List.forall_mem_cons.mpr ⟨rfl, List.forall_mem_singleton.mpr rfl⟩, ?_⟩
    rintro _ ⟨⟩
    exact List.forall_mem_cons.mpr ⟨hCreated, List.forall_mem_singleton.mpr hFailed⟩
  refine ⟨rfl, ?_⟩
  rintro _ ⟨⟩
  refine List.forall_mem_singleton.mpr ⟨rfl, ?_⟩
  exact List.forall_mem_singleton.mpr fun _ => hOperation

theorem petsDocument_named : AllNamed petsDocument := by
  have hLimit : Named limit := fun _ => nofun
  have hBody : Named body := fun _ => nofun
  rintro _ ⟨⟩
  refine List.forall_mem_singleton.mpr (List.forall_mem_singleton.mpr fun _ => ?_)
  exact List.forall_mem_cons.mpr ⟨hLimit, List.forall_mem_singleton.mpr hBody⟩

theorem ofValue_newerDocument_pets :
    OlderDocument petsDocument ∧ ofValue (newerDocument petsDocument) = ofValue petsDocument ∧
      part? (newerOperation createPet) "requestBody" = some (.record [
        ("required", .bool true), ("x-codegen-operation-name", .text "CreatePet"),
        ("content", contentOf pet)]) ∧
      (ofValue petsDocument).toOption.map (·.schemas.keys) =
        some ["Pet", "body_1", "inline_response_default"] ∧
      (ofValue petsDocument).toOption.map (fun d => d.operations.map fun o =>
        (o.parameters.map (·.name), o.body.bind (·.schemaName))) = some [(["limit"], some "body_1")] :=
  ⟨petsDocument_older, (ofValue_newerDocument petsDocument_older).2 petsDocument_named,
    rfl, by decide +kernel, by decide +kernel⟩

end ClientTypes.Document
