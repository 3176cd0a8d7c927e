import ClientTypes.Proofs.Document.Entries

/-! Rewriting a description in the older dialect into the newer one. Its definitions become the schemas
of its components, the parameter that is sent in the body becomes a body, the parts of a schema on a
parameter become its schema, and the schema of a response goes under its content. -/
namespace ClientTypes.Document

open Text

/-! ### Rewriting into the newer dialect -/

/-- A schema as the content of a body or of a response. -/
def contentOf (schema : Value) : Value := .record [(jsonContent, .record [("schema", schema)])]

def newerResponse : Value → Value := onEntries (rekey "schema" "content" contentOf)

def isSchemaPart (e : Scalar × Value) : Bool := inlineSchemaKeys.any fun key => e.1 == .text key

/-- Move the parts of a schema into a schema of the parameter, unless there is one. -/
def newerParameterEntries (entries : List (Scalar × Value)) : List (Scalar × Value) :=
  match (field? entries "schema").getD .null with
  | .null =>
    (entries.filter fun e => !isSchemaPart e && e.1 != .text "schema") ++
      [(.text "schema", .map (entries.filter isSchemaPart))]
  | _ => entries

def newerParameter : Value → Value := onEntries newerParameterEntries

/-- A parameter is sent in the body. -/
def isBody (parameter : Value) : Bool := isBodyParameter (entriesOf parameter)

/-- What a parameter says about a body: its description, whether it is needed, and its extensions. A key
that is no text goes along, as it is a fault in both dialects. -/
def describesBody (e : Scalar × Value) : Bool :=
  match e.1 with
  | .text key => key == "description" || key == "required" || startsWith "x-" key
  | _ => true

/-- The body that a parameter describes. -/
def newerBody (parameter : Value) : Value :=
  let entries := entriesOf parameter
  .map (entries.filter describesBody ++
    [(.text "content", contentOf ((field? entries "schema").getD .null))])

def newerParameters (parameters : List Value) : List Value :=
  (parameters.filter fun p => !isBody p).map newerParameter

/-- The body of an operation, when one of its parameters describes it. -/
def newerBodyEntry (parameters : List Value) : List (Scalar × Value) :=
  match parameters.find? isBody with
  | some parameter => [(.text "requestBody", newerBody parameter)]
  | none => []

/-- The parameters that an operation lists. -/
def listedParameters (entries : List (Scalar × Value)) : List Value :=
  itemsOf ((field? entries "parameters").getD (.list []))

def newerOperationEntries (entries : List (Scalar × Value)) : List (Scalar × Value) :=
  rekey "parameters" "parameters" (onItems newerParameters)
      (rekey "responses" "responses" (onEntries (mapValues newerResponse)) entries) ++
    newerBodyEntry (listedParameters entries)

def newerOperation : Value → Value := onEntries newerOperationEntries

/-- The key of an entry of a path is that of an operation. -/
def isMethod : Scalar → Bool
  | .text key => httpMethods.contains (String.ofList (key.toList.map Char.toLower))
  | _ => false

def newerPathEntries (entries : List (Scalar × Value)) : List (Scalar × Value) :=
  entries.map fun e => if isMethod e.1 then (e.1, newerOperation e.2) else e

def newerPath : Value → Value := onEntries newerPathEntries

def newerDocumentEntries (entries : List (Scalar × Value)) : List (Scalar × Value) :=
  rekey "definitions" "components" (fun schemas => .record [("schemas", schemas)])
    (rekey "paths" "paths" (onEntries (mapValues newerPath)) entries)

/-- Rewrite a description in the older dialect into the newer one. -/
def newerDocument : Value → Value := onEntries newerDocumentEntries

/-! ### Descriptions in the older dialect -/

/-- The value stands in its place, and does not refer to another one. -/
def Inline (v : Value) : Prop := part? v "$ref" = none

/-- A response stands in its place, and has its schema directly under it. -/
structure OlderResponse (response : Value) : Prop where
  inline : Inline response
  bare : part? response "content" = none

structure OlderOperation (operation : Value) : Prop where
  noBody : part? operation "requestBody" = none
  parameters : ∀ p ∈ listedParameters (entriesOf operation), Inline p
  responses : ∀ v ∈ part? operation "responses", ∀ e ∈ entriesOf v, OlderResponse e.2

structure OlderPath (methods : Value) : Prop where
  ownParameters : part? methods "parameters" = none
  operations : ∀ e ∈ entriesOf methods, isMethod e.1 = true → OlderOperation e.2

/-- A description in the older dialect whose operations have their parameters and responses in their
place. -/
structure OlderDocument (doc : Value) : Prop where
  noComponents : part? doc "components" = none
  paths : ∀ v ∈ part? doc "paths", ∀ e ∈ entriesOf v, OlderPath e.2

/-- A parameter has a name, unless it is sent in the body. -/
def Named (parameter : Value) : Prop := isBody parameter = false → part? parameter "name" ≠ none

/-- All parameters of all operations have names. -/
def AllNamed (doc : Value) : Prop :=
  ∀ v ∈ part? doc "paths", ∀ path ∈ entriesOf v, ∀ e ∈ entriesOf path.2, isMethod e.1 = true →
    ∀ p ∈ listedParameters (entriesOf e.2), Named p

/-! ### Readings that agree -/

/-- Two readings give the same result, or both fail. Their faults are the same too when a condition
holds: the fault of a parameter without a name shows the parameter. -/
structure Agree {α : Type} (strict : Prop) (x y : Except DocumentFault α) : Prop where
  result : x.toOption = y.toOption
  fault : strict → x = y

/-- Two readings agree from every state. -/
def Agrees {α : Type} (strict : Prop) (x y : Reading α) : Prop := ∀ h, Agree strict (x h) (y h)

section Agreement

variable {α β : Type} {strict : Prop}

theorem Agree.refl (x : Except DocumentFault α) : Agree strict x x := ⟨rfl, fun _ => rfl⟩

theorem Agree.bind {x y : Except DocumentFault α} {f g : α → Except DocumentFault β}
    (h : Agree strict x y) (hf : ∀ a, Agree strict (f a) (g a)) :
    Agree strict (x >>= f) (y >>= g) := by
  refine ⟨?_, fun hStrict => ?_⟩
  · have hResult := h.result
    cases x with
    | error fault =>
        cases y with
        | error fault' => rfl
        | ok b => cases hResult
    | ok a =>
        cases y with
        | error fault => cases hResult
        | ok b =>
            cases hResult
            exact (hf a).result
  · rw [h.fault hStrict]
    exact bind_congr fun a => (hf a).fault hStrict

theorem Agrees.of_eq {x y : Reading α} (h : x = y) : Agrees strict x y := h ▸ fun _ => .refl _

theorem Agrees.bind {x y : Reading α} {f g : α → Reading β} (h : Agrees strict x y)
    (hf : ∀ a, Agrees strict (f a) (g a)) : Agrees strict (x >>= f) (y >>= g) :=
  fun w => (h w).bind fun r => hf r.1 r.2

theorem Agrees.lift {x y : Except DocumentFault α} (h : Agree strict x y) :
    Agrees strict (liftM x : Reading α) (liftM y) := fun _ => h.bind fun _ => .refl _

end Agreement

end ClientTypes.Document
