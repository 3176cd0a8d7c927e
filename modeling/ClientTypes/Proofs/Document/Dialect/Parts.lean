import ClientTypes.Proofs.Document.Dialect

/-! The parts of an operation read the same in both dialects: its parameters, its body and its
responses. -/
namespace ClientTypes.Document

variable {doc doc' : Value} {strict : Prop}

/-! ### Parameters -/

theorem field?_newerParameterEntries {entries : List (Scalar × Value)} {name : String}
    (hOther : name ≠ "schema") (hPart : inlineSchemaKeys.contains name = false) :
    field? (newerParameterEntries entries) name = field? entries name := by
  unfold newerParameterEntries
  split
  · have hNotPart : ∀ v, isSchemaPart (.text name, v) = false := by
      intro v
      simpa [isSchemaPart, inlineSchemaKeys] using hPart
    rw [field?_append, field?_filter (by simp [hNotPart, hOther])]
    simp [field?, hOther.symm]
  · rfl

theorem parameterSchema_newer (entries : List (Scalar × Value)) :
    parameterSchema (newerParameterEntries entries) = parameterSchema entries := by
  unfold newerParameterEntries
  split
  next hNone =>
    have hDropped : field? (entries.filter fun e => !isSchemaPart e && e.1 != .text "schema")
        "schema" = none := field?_filter_out (by simp)
    unfold parameterSchema
    rw [field?_append, hDropped, hNone]
    rfl
  next => rfl

theorem toOption_of_nameless {parameter : Value} {entries : List (Scalar × Value)}
    (h : field? entries "name" = none) : (readParameter parameter entries).toOption = none := by
  unfold readParameter
  rw [h]
  cases parameter.display? <;> rfl

theorem readParameter_newer {parameter parameter' : Value} {entries : List (Scalar × Value)}
    (hNamed : strict → field? entries "name" ≠ none) :
    Agree strict (readParameter parameter' (newerParameterEntries entries))
      (readParameter parameter entries) := by
  have hSame : ∀ name, name ≠ "schema" → inlineSchemaKeys.contains name = false →
      field? (newerParameterEntries entries) name = field? entries name :=
    fun _ => field?_newerParameterEntries
  have hName := hSame "name" (by decide) (by decide)
  cases hGiven : field? entries "name" with
  | none =>
      -- Both are refused before the schema is read, each with a text of its own parameter.
      refine ⟨?_, fun hStrict => absurd hGiven (hNamed hStrict)⟩
      rw [toOption_of_nameless hGiven, toOption_of_nameless (hName.trans hGiven)]
  | some v =>
      have hEq : readParameter parameter' (newerParameterEntries entries) =
          readParameter parameter entries := by
        unfold readParameter Checked.needed Checked.fieldOr
        rw [parameterSchema_newer, hName, hSame "in" (by decide) (by decide),
          hSame "required" (by decide) (by decide), hSame "description" (by decide) (by decide),
          hGiven]
        rfl
      rw [hEq]
      exact .refl _

theorem isBody_newerParameter (p : Value) : isBody (newerParameter p) = isBody p := by
  rcases map_or_not p with ⟨entries, hMap⟩ | hNot
  · rw [newerParameter, isBody, isBody, entriesOf_eq (opened_onEntries hMap _), entriesOf_eq hMap,
      isBodyParameter, isBodyParameter, field?_newerParameterEntries (by decide) (by decide)]
  · rw [newerParameter, onEntries_of_ne hNot]

theorem newerParameters_cons (p : Value) (rest : List Value) :
    newerParameters (p :: rest) =
      if isBody p then newerParameters rest else newerParameter p :: newerParameters rest := by
  unfold newerParameters
  rw [List.filter_cons]
  cases isBody p <;> rfl

theorem isBody_of_ne {p : Value} (h : ∀ entries, p.opened ≠ .map entries) : isBody p = false := by
  rw [isBody, entriesOf_of_ne h]
  rfl

theorem readParameters_body {p : Value} {rest : List Value} (h : isBody p = true) :
    readParameters (p :: rest) = readParameters rest := by
  rcases map_or_not p with ⟨entries, hMap⟩ | hNot
  · rw [isBody, entriesOf_eq hMap] at h
    rw [readParameters, hMap]
    exact if_pos h
  · simp [isBody_of_ne hNot] at h

theorem readParameters_other {p : Value} {entries : List (Scalar × Value)} {rest : List Value}
    (hMap : p.opened = .map entries) (h : isBody p = false) :
    readParameters (p :: rest) = do
      let first ← readParameter p entries
      let more ← readParameters rest
      return first :: more := by
  rw [isBody, entriesOf_eq hMap] at h
  rw [readParameters, hMap]
  exact if_neg (by simp [h])

theorem readParameters_of_ne {p : Value} {rest : List Value} (h : ∀ entries, p.opened ≠ .map entries) :
    readParameters (p :: rest) = .error .noMembers := by
  rw [readParameters]
  split
  next entries hMap => exact absurd hMap (h entries)
  next => rfl

/-- The parameters that are not sent in the body are read the same. -/
theorem readParameters_newer {parameters : List Value}
    (hNamed : strict → ∀ p ∈ parameters, Named p) :
    Agree strict (readParameters (newerParameters parameters)) (readParameters parameters) := by
  induction parameters with
  | nil => exact .refl _
  | cons p rest ih =>
      have hRest := ih fun hStrict q hq => hNamed hStrict q (List.mem_cons_of_mem _ hq)
      rw [newerParameters_cons]
      cases hBody : isBody p with
      | true =>
          rw [readParameters_body hBody]
          exact hRest
      | false =>
          rw [if_neg nofun]
          rcases map_or_not p with ⟨entries, hMap⟩ | hNot
          · have hName : strict → field? entries "name" ≠ none := by
              intro hStrict
              rw [← part?_eq hMap]
              exact hNamed hStrict p List.mem_cons_self hBody
            have hNewer : (newerParameter p).opened = .map (newerParameterEntries entries) :=
              opened_onEntries hMap _
            have hStill : isBody (newerParameter p) = false := by rw [isBody_newerParameter, hBody]
            rw [readParameters_other hMap hBody, readParameters_other hNewer hStill]
            exact .bind (readParameter_newer hName) fun _ => .bind hRest fun _ => .refl _
          · rw [newerParameter, onEntries_of_ne hNot, readParameters_of_ne hNot,
              readParameters_of_ne hNot]
            exact .refl _

/-! ### Bodies -/

theorem bodyParameter?_eq (parameters : List Value) :
    bodyParameter? parameters = (parameters.find? isBody).map entriesOf := by
  induction parameters with
  | nil => rfl
  | cons p rest ih =>
      rw [bodyParameter?, List.find?_cons]
      rcases map_or_not p with ⟨entries, hMap⟩ | hNot
      · have hEntries := entriesOf_eq hMap
        rw [hMap, isBody, hEntries, ih]
        cases hIn : isBodyParameter entries <;> simp [hIn, hEntries]
      · rw [isBody_of_ne hNot, ih]
        split
        · exact absurd ‹_› (hNot _)
        · rfl

/-- No parameter that is left is sent in the body. -/
theorem bodyParameter?_newerParameters (parameters : List Value) :
    bodyParameter? (newerParameters parameters) = none := by
  rw [bodyParameter?_eq, Option.map_eq_none_iff, List.find?_eq_none]
  intro q hq
  obtain ⟨p, hp, rfl⟩ := List.mem_map.mp hq
  rw [isBody_newerParameter]
  simpa using (List.mem_filter.mp hp).2

theorem readBody_newer {entries : List (Scalar × Value)} {schema content : Value} {type : Scalar} :
    readBody ⟨entries.filter describesBody ++ [(.text "content", content)], schema, type⟩ =
      readBody ⟨entries, schema, type⟩ := by
  have hExtensions : extensionsOf (entries.filter describesBody ++ [(.text "content", content)]) =
      extensionsOf entries := by
    rw [extensionsOf_append_plain _ (by decide)]
    refine extensionsOf_filter fun e hDropped => ?_
    unfold describesBody at hDropped
    split at hDropped
    next key hKey =>
      simp only [Bool.or_eq_false_iff] at hDropped
      exact ⟨key, hKey, hDropped.2⟩
    next => cases hDropped
  have hField : ∀ name, describesBody (.text name, .null) = true → name ≠ "content" →
      field? (entries.filter describesBody ++ [(.text "content", content)]) name =
        field? entries name := by
    intro name hKept hOther
    rw [field?_append, field?_filter fun _ => hKept]
    simp [field?, hOther.symm]
  unfold readBody Checked.fieldOr
  simp only
  rw [hExtensions, hField "description" (by decide) (by decide),
    hField "required" (by decide) (by decide)]

/-- A body with the entries that describe it. A body without a schema is none. -/
def describedBody (entries : List (Scalar × Value)) : Value → Option BodySource
  | .null => none
  | schema => some { entries, schema, contentType := .text jsonContent }

theorem bodySource?_parameter {parameters : List Value} {p : Value}
    (h : parameters.find? isBody = some p) :
    bodySource? .null parameters =
      .ok (describedBody (entriesOf p) ((field? (entriesOf p) "schema").getD .null)) := by
  unfold bodySource?
  rw [bodyParameter?_eq, h]
  simp only [Value.isGiven, Bool.false_eq_true, if_false, Option.map_some]
  unfold describedBody
  split <;> simp_all

theorem bodySource?_newerBody (p : Value) (parameters : List Value) :
    bodySource? (newerBody p) parameters =
      .ok (describedBody (entriesOf (newerBody p)) ((field? (entriesOf p) "schema").getD .null)) := by
  have hDropped : describesBody (.text "content", .null) = false := by decide
  have hContent : field? (entriesOf (newerBody p)) "content" =
      some (contentOf ((field? (entriesOf p) "schema").getD .null)) := by
    change field? (_ ++ _) "content" = _
    rw [field?_append, field?_filter_out fun _ => hDropped]
    rfl
  have hGiven : (newerBody p).isGiven = true := by simp [newerBody, Value.isGiven]
  have hOpened : (newerBody p).opened = .map (entriesOf (newerBody p)) := rfl
  unfold bodySource?
  rw [if_pos hGiven, member_eq hOpened, hContent, hOpened]
  -- Both sides ask only whether the schema is null.
  generalize (field? (entriesOf p) "schema").getD .null = schema
  cases schema with
  | scalar s => cases s <;> rfl
  | _ => rfl

theorem readOptionalBody_newer (p schema : Value) :
    readOptionalBody (describedBody (entriesOf (newerBody p)) schema) =
      readOptionalBody (describedBody (entriesOf p) schema) := by
  unfold describedBody
  split
  · rfl
  · unfold readOptionalBody
    dsimp only
    exact congrArg _ readBody_newer

/-- The body of an operation after rewriting, which had none of its own. -/
def movedBody (parameters : List Value) : Value :=
  ((parameters.find? isBody).map newerBody).getD .null

/-- The body is found where it was moved to, and is read the same. -/
theorem bodySource?_newer (parameters : List Value) :
    ∃ source source', bodySource? .null parameters = .ok source ∧
      bodySource? (movedBody parameters) (newerParameters parameters) = .ok source' ∧
      readOptionalBody source' = readOptionalBody source := by
  unfold movedBody
  cases hFind : parameters.find? isBody with
  | none =>
      refine ⟨none, none, ?_, ?_, rfl⟩
      · simp [bodySource?, Value.isGiven, bodyParameter?_eq, hFind]
      · simp [bodySource?, Value.isGiven, bodyParameter?_newerParameters]
  | some p =>
      exact ⟨_, _, bodySource?_parameter hFind, bodySource?_newerBody p _,
        readOptionalBody_newer p _⟩

theorem follow_movedBody (parameters : List Value) :
    follow doc (movedBody parameters) = .ok (movedBody parameters) := by
  refine follow_inline ?_
  unfold movedBody
  cases parameters.find? isBody with
  | none => rfl
  | some p =>
      have hDropped : describesBody (.text "$ref", .null) = false := by decide
      change field? (_ ++ _) "$ref" = none
      rw [field?_append, field?_filter_out fun _ => hDropped]
      rfl

/-! ### Responses -/

theorem opened_given {v : Value} {entries : List (Scalar × Value)} (h : v.opened = .map entries) :
    (if v.isGiven then v else .map []).opened = .map entries := by
  have hGiven : v.isGiven = !entries.isEmpty := by rw [← isGiven_opened, h, Value.isGiven]
  rw [hGiven]
  cases entries <;> simp [h, Value.opened]

theorem readResponse_newer {primary : Option String} {code : String} {raw : Value}
    (h : OlderResponse raw) :
    readResponse doc' primary code (newerResponse raw) = readResponse doc primary code raw := by
  rcases map_or_not raw with ⟨entries, hMap⟩ | hNot
  · have hNewer : (newerResponse raw).opened = .map (rekey "schema" "content" contentOf entries) :=
      opened_onEntries hMap _
    have hBare : field? entries "content" = none := (part?_eq hMap).symm.trans h.bare
    have hInline : Inline (newerResponse raw) := by
      rw [Inline, part?_eq hNewer, field?_rekey_of_ne (by decide) (by decide), ← part?_eq hMap]
      exact h.inline
    have hExtensions : extensionsOf (rekey "schema" "content" contentOf entries) =
        extensionsOf entries := extensionsOf_rekey (by decide) (by decide)
    have hDescription : field? (rekey "schema" "content" contentOf entries) "description" =
        field? entries "description" := field?_rekey_of_ne (by decide) (by decide)
    have hContent : field? (rekey "schema" "content" contentOf entries) "content" =
        (field? entries "schema").map contentOf := field?_rekey_new (Or.inr hBare)
    have hMoved : field? (rekey "schema" "content" contentOf entries) "schema" = none :=
      field?_rekey_old (by decide)
    have hOldOpened := opened_given hMap
    have hNewOpened := opened_given hNewer
    unfold readResponse Checked.fieldOr
    rw [follow_inline h.inline, follow_inline hInline]
    simp only [liftM_ok_bind]
    simp only [holdsText, valueAt, hOldOpened, hNewOpened, member_eq hOldOpened,
      member_eq hNewOpened, hBare, hContent, hMoved, hExtensions, hDescription]
    cases field? entries "schema" <;> rfl
  · rw [newerResponse, onEntries_of_ne hNot]
    unfold readResponse
    rw [follow_inline h.inline, follow_inline h.inline]

theorem readResponseEntries_newer {primary : Option String} (codes : List String)
    {entries : List (Scalar × Value)} (h : ∀ e ∈ entries, OlderResponse e.2) :
    readResponseEntries doc' primary (codes.zip ((mapValues newerResponse entries).map (·.2))) =
      readResponseEntries doc primary (codes.zip (entries.map (·.2))) := by
  induction entries generalizing codes with
  | nil => simp [mapValues, readResponseEntries]
  | cons e rest ih =>
      cases codes with
      | nil => rfl
      | cons code codes =>
          rw [List.forall_mem_cons] at h
          change readResponseEntries doc' primary ((code, newerResponse e.2) ::
            codes.zip ((mapValues newerResponse rest).map (·.2))) = _
          rw [readResponseEntries, readResponse_newer h.1, ih codes h.2]
          rfl

theorem readResponses_newer {responses : Value} (h : ∀ e ∈ entriesOf responses, OlderResponse e.2) :
    readResponses doc' (onEntries (mapValues newerResponse) responses) =
      readResponses doc responses := by
  rcases map_or_not responses with ⟨entries, hMap⟩ | hNot
  · rw [entriesOf_eq hMap] at h
    rw [onEntries_eq hMap]
    have hKeys : (mapValues newerResponse entries).mapM (fun e => neededText e.1.display?) =
        entries.mapM fun e => neededText e.1.display? := by
      rw [mapValues, List.mapM_map]
      rfl
    unfold readResponses
    rw [hMap]
    simp only [Value.opened, hKeys]
    congr 1
    funext codes
    exact readResponseEntries_newer codes h
  · rw [onEntries_of_ne hNot]
    unfold readResponses
    split
    · exact absurd ‹_› (hNot _)
    all_goals rfl

end ClientTypes.Document
