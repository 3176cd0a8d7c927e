import ClientTypes.Document.Reader
import ClientTypes.Proofs.Document.Numbering
import ClientTypes.Proofs.Checked
import ClientTypes.Proofs.Ensures
import ClientTypes.Proofs.Table

/-! What reading a description moves into its table of schemas. -/
namespace ClientTypes.Document

/-- A schema that was moved from its place in an operation into the table. -/
structure Moved where
  origin : Origin
  name : String
  schema : Schema

/-- What was moved for one schema that got a name: nothing if the name is that of a reference. -/
def movedBy (origin : Origin) (s : Schema) (name : Option String) : List Moved :=
  match s.target?, name with
  | none, some name => [⟨origin, name, s⟩]
  | _, _ => []

def movedForBody (d : BodyDef) : List Moved := movedBy .body d.schema d.schemaName

def movedForResponse (d : ResponseDef) : List Moved :=
  match d.schema with
  | some s => movedBy (.response d.code) s d.schemaName
  | none => []

def movedFor (d : OperationDef) : List Moved :=
  d.body.toList.flatMap movedForBody ++ d.responses.flatMap movedForResponse

/-- The schemas that were moved into the table of a document, in order. -/
def moved (operations : List OperationDef) : List Moved := operations.flatMap movedFor

/-- Write schemas into the table, one after the other. -/
def putAll (schemas : List (Scalar × Schema)) (ms : List Moved) : List (Scalar × Schema) :=
  ms.foldl (fun t m => putSchema t (.text m.name) m.schema) schemas

/-- The state of reading after some schemas were moved, from a table of declared ones. -/
structure After (declared : List (Scalar × Schema)) (ms : List Moved) (h : Hoisting) : Prop where
  schemas : h.schemas = putAll declared ms
  bodies : h.bodies = (ms.map (·.origin)).count .body
  responses : ∀ code, (h.responses.get? code).getD 0 = (ms.map (·.origin)).count (.response code)
  names : ms.map (·.name) = (places (ms.map (·.origin))).map Place.name

variable {declared : List (Scalar × Schema)} {ms : List Moved} {h : Hoisting}

theorem After.begin (declared : List (Scalar × Schema)) : After declared [] { schemas := declared } where
  schemas := rfl
  bodies := rfl
  responses _ := rfl
  names := rfl

theorem After.placeBody (hAfter : After declared ms h) (s : Schema) :
    After declared (ms ++ movedBy .body s (h.placeBody s).1) (h.placeBody s).2 := by
  unfold Hoisting.placeBody movedBy
  cases hTarget : s.target? with
  | some reference => simpa using hAfter
  | none =>
      by_cases hMoved : isHoistable s = true
      · simp only [hMoved, if_true]
        refine ⟨?_, ?_, ?_, ?_⟩
        · simp [putAll, hAfter.schemas]
        · simp [hAfter.bodies]
        · simp [hAfter.responses]
        · simp [hAfter.names, places_append_singleton, Place.name, hAfter.bodies]
      · simpa [hMoved] using hAfter

theorem After.placeResponse (hAfter : After declared ms h) (code : String) (s : Schema) :
    After declared (ms ++ movedBy (.response code) s (h.placeResponse code s).1)
      (h.placeResponse code s).2 := by
  unfold Hoisting.placeResponse movedBy
  cases hTarget : s.target? with
  | some reference => simpa using hAfter
  | none =>
      by_cases hMoved : isHoistable s = true
      · simp only [hMoved, if_true]
        refine ⟨?_, ?_, ?_, ?_⟩
        · simp [putAll, hAfter.schemas]
        · simp [hAfter.bodies]
        · intro other
          by_cases hSame : other = code
          · simp [Table.get?_put, hSame, hAfter.responses]
          · simp [Table.get?_put, hSame, Ne.symm hSame, hAfter.responses]
        · simp [hAfter.names, places_append_singleton, Place.name, hAfter.responses]
      · simpa [hMoved] using hAfter

/-! ### Reading operations -/

variable {doc : Value}

theorem readBody_moves (hAfter : After declared ms h) (source : BodySource) :
    Ensures (readBody source) h fun d h' => After declared (ms ++ movedForBody d) h' := by
  refine .lift_bind fun extensions => ?_
  refine .lift_bind fun schema => ?_
  refine .bind (P := fun name h' => After declared (ms ++ movedBy .body schema name) h')
    (.modifyGet (hAfter.placeBody schema)) fun schemaName _ hPlaced => ?_
  refine .lift fun d hChecked => ?_
  obtain ⟨_, _, hTwo, _, rfl⟩ := Checked.valid_of_seq (Checked.valid_of_orThrow hChecked)
  obtain ⟨_, _, hOne, _, rfl⟩ := Checked.valid_of_seq hTwo
  obtain ⟨_, _, rfl⟩ := Checked.valid_of_map hOne
  exact hPlaced

theorem readOptionalBody_moves (hAfter : After declared ms h) (source : Option BodySource) :
    Ensures (readOptionalBody source) h fun body h' =>
      After declared (ms ++ body.toList.flatMap movedForBody) h' := by
  cases source with
  | none => exact .pure (by simpa using hAfter)
  | some source => exact .map ((readBody_moves hAfter source).imp fun _ _ h => by simpa using h)

theorem placeResponseSchema_moves (hAfter : After declared ms h) (code : String) (s : Option Schema) :
    Ensures (placeResponseSchema code s) h fun name h' => After declared
      (ms ++ (s.map fun s => movedBy (.response code) s name).getD []) h' := by
  cases s with
  | none => exact .pure (by simpa using hAfter)
  | some s => exact .modifyGet (hAfter.placeResponse code s)

theorem readResponse_moves (hAfter : After declared ms h) (primary : Option String) (code : String)
    (raw : Value) : Ensures (readResponse doc primary code raw) h fun d h' =>
      After declared (ms ++ movedForResponse d) h' := by
  unfold readResponse
  refine .lift_bind fun followed => ?_
  refine .lift_bind fun rawSchema => ?_
  dsimp only
  split
  · refine .lift_bind fun extensions => ?_
    refine .lift_bind fun schema => ?_
    refine .bind (placeResponseSchema_moves hAfter code schema) fun name _ hPlaced => ?_
    refine .lift_bind fun description => .pure ?_
    cases schema with
    | none => exact hPlaced
    | some s => exact hPlaced
  · exact .throw

theorem readResponseEntries_moves (hAfter : After declared ms h) (primary : Option String)
    (entries : List (String × Value)) :
    Ensures (readResponseEntries doc primary entries) h fun ds h' =>
      After declared (ms ++ ds.flatMap movedForResponse) h' := by
  induction entries generalizing ms h with
  | nil => exact .pure (by simpa using hAfter)
  | cons entry rest ih =>
      refine .bind (readResponse_moves hAfter primary entry.1 entry.2) fun first _ hFirst => ?_
      refine .bind (ih hFirst) fun more _ hMore => .pure ?_
      simpa using hMore

theorem readResponses_moves (hAfter : After declared ms h) (responses : Value) :
    Ensures (readResponses doc responses) h fun ds h' =>
      After declared (ms ++ ds.flatMap movedForResponse) h' := by
  unfold readResponses
  split
  · refine .lift_bind fun codes => ?_
    exact readResponseEntries_moves hAfter _ _
  · exact .lift_bind fun _ => .throw
  · exact .throw
  · exact .throw

theorem readOperation_moves (hAfter : After declared ms h) (path : Scalar) (method : String)
    (operation shared : Value) :
    Ensures (readOperation doc path method operation shared) h fun d h' =>
      After declared (ms ++ movedFor d) h' := by
  unfold readOperation
  refine .lift_bind fun own => ?_
  refine .lift_bind fun listed => ?_
  refine .bind (.mapM (fun _ _ hKept => .lift fun _ _ => hKept) listed hAfter)
    fun followed _ hAfter => ?_
  refine .lift_bind fun parameters => ?_
  refine .lift_bind fun ownBody => ?_
  refine .lift_bind fun rawBody => ?_
  refine .lift_bind fun source => ?_
  refine .bind (readOptionalBody_moves hAfter source) fun body _ hAfter => ?_
  refine .lift_bind fun givenId => ?_
  refine .lift_bind fun operationId => ?_
  refine .lift_bind fun summary => ?_
  refine .lift_bind fun notes => ?_
  refine .lift_bind fun tags => ?_
  refine .lift_bind fun rawResponses => ?_
  refine .bind (readResponses_moves hAfter rawResponses) fun responses _ hAfter => ?_
  refine .lift fun d hChecked => ?_
  obtain ⟨_, _, hFour, _, rfl⟩ := Checked.valid_of_seq (Checked.valid_of_orThrow hChecked)
  obtain ⟨_, _, hThree, _, rfl⟩ := Checked.valid_of_seq hFour
  obtain ⟨_, _, hTwo, _, rfl⟩ := Checked.valid_of_seq hThree
  obtain ⟨_, _, hOne, _, rfl⟩ := Checked.valid_of_seq hTwo
  obtain ⟨_, _, rfl⟩ := Checked.valid_of_map hOne
  simpa [movedFor] using hAfter

theorem readMethods_moves (hAfter : After declared ms h) (path : Scalar) (shared : Value)
    (entries : List (Scalar × Value)) :
    Ensures (readMethods doc path shared entries) h fun ds h' =>
      After declared (ms ++ moved ds) h' := by
  induction entries generalizing ms h with
  | nil => exact .pure (by simpa [moved] using hAfter)
  | cons entry rest ih =>
      obtain ⟨key, operation⟩ := entry
      cases key with
      | text key =>
          rw [readMethods]
          split
          · refine .bind (readOperation_moves hAfter path _ operation shared) fun first _ hFirst => ?_
            refine .bind (ih hFirst) fun more _ hMore => .pure ?_
            simpa [moved] using hMore
          · exact ih hAfter
      | _ => exact .throw

theorem readPaths_moves (hAfter : After declared ms h) (entries : List (Scalar × Value)) :
    Ensures (readPaths doc entries) h fun ds h' => After declared (ms ++ moved ds) h' := by
  induction entries generalizing ms h with
  | nil => exact .pure (by simpa [moved] using hAfter)
  | cons entry rest ih =>
      refine .lift_bind fun shared => ?_
      refine .lift_bind fun methods => ?_
      refine .bind (readMethods_moves hAfter entry.1 shared methods) fun first _ hFirst => ?_
      refine .bind (ih hFirst) fun more _ hMore => .pure ?_
      simpa [moved] using hMore

end ClientTypes.Document
