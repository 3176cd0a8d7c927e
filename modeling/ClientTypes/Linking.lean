import ClientTypes.CrossReference.Registry
import ClientTypes.Config
import ClientTypes.Linking.Notes
import ClientTypes.Naming.Identifier
import ClientTypes.Naming.Words

/-!
Linking operations to the models of their responses.

The types of an operation are renamed as the models were. Then the model of the expected response
decides what the function gives back: a list of elements, the only field of a wrapper, nothing, or the
model itself. Looking at a response may leave a mark at its model.
-/

namespace ClientTypes.Linking

open Naming CrossReference

def renameOperation (renames : Table String String) (o : Operation) : Operation :=
  { o with
    bodyParam := o.bodyParam.map fun p => { p with datatype := renameIdentifiers renames p.datatype }
    responses := o.responses.map fun r =>
      { r with datatype := r.datatype.map (renameIdentifiers renames) } }

/-- What the expected response of an operation turns out to be. -/
inductive ResponseShape where
  /-- There is no response with a type. -/
  | empty
  /-- Nothing more is known. -/
  | plain
  /-- A list of elements of type `inner`. -/
  | list (datatype inner : String)
  /-- The only field of a model is another model. -/
  | single (model key datatype : String)
deriving DecidableEq, Repr

/-- The only property of a model. -/
def onlyVar? (m : Model) : Option Property :=
  match m.vars with
  | [p] => some p
  | _ => none

/-- The shape of a response of a type. The first model of that classname is looked at, removed or
not. -/
def shapeOf (r : Registry) (datatype : String) : ResponseShape :=
  match r.lookup? datatype with
  | none => .plain
  | some m =>
    match m.marks.paginationInner <|> (m.firstList?.map (·.datatype)) with
    | some inner => .list datatype inner
    | none =>
      match onlyVar? m with
      | none => .plain
      | some p =>
        match r.lookup? p.datatype with
        | some target => if target.removed then .plain else .single m.name p.baseName p.datatype
        | none => .plain

def responseShape (r : Registry) (o : Operation) : ResponseShape :=
  match (o.primaryResponse?.bind (·.datatype)).filter (· ≠ "") with
  | none => .empty
  | some datatype => shapeOf r datatype

/-- Change the first response that callers expect. -/
def updatePrimary (f : Response → Response) : List Response → List Response
  | [] => []
  | r :: rest => if r.isDefault then f r :: rest else r :: updatePrimary f rest

def markShape (o : Operation) : ResponseShape → Operation
  | .empty => { o with marks := { o.marks with emptyResponse := true } }
  | .plain => o
  | .list datatype inner => { o with
      responses := updatePrimary
        (fun r => { r with marks := { r.marks with paginationInner := some inner } }) o.responses
      marks := { o.marks with
        isList := true
        responsePlural := some (Text.replace "Response" "ListResponse" datatype)
        responsePluralSnake := some (underscore (Text.replace "Response" "" datatype))
        responseSingle := some inner } }
  | .single _ key datatype => { o with
      marks := { o.marks with singleKey := some key, singleDatatype := some datatype } }

def markModel (shape : ResponseShape) (m : Model) : Model :=
  match shape with
  | .single model key datatype =>
    if m.name = model then
      { m with marks := { m.marks with singleKey := some key, singleDatatype := some datatype } }
    else m
  | _ => m

def markParameter (config : Config) (p : Parameter) : Parameter :=
  { p with marks := { p.marks with
      isTextList := p.marks.isTextList ||
        (p.container == some .array && p.itemsDatatype == some "String")
      ignored := p.marks.ignored || config.ignoredQueryParams.contains p.baseName } }

/-- Mark the parameters of the query, and the operation with what holds for all of them. -/
def markQuery (config : Config) (o : Operation) : Operation :=
  { o with
    queryParams := o.queryParams.map (markParameter config)
    marks := { o.marks with
      optionalQuery := o.queryParams.all (!·.required)
      textQuery := o.queryParams.any fun p => p.isString || p.isUuid } }

/-- Make the notes of an operation a documentation comment. Empty notes stay empty. -/
def markNotes (o : Operation) : Operation :=
  { o with notes := o.notes.map fun notes => if notes = "" then notes else docComment notes }

/-- Link one operation. -/
def linkOperation (config : Config) (renames : Table String String) (r : Registry)
    (o : Operation) : Operation × Registry :=
  let o := renameOperation renames o
  let shape := responseShape r o
  (markNotes (markQuery config (markShape o shape)),
    { r with models := r.models.map (markModel shape) })

/-- The report of linking one operation. -/
def linkNote (renames : Table String String) (r : Registry) (o : Operation) : List Report :=
  match responseShape r (renameOperation renames o) with
  | .list _ inner => [⟨.linker, .debug, o.operationId ++ ": list endpoint over " ++ inner⟩]
  | _ => []

def linkAll (config : Config) (renames : Table String String) (r : Registry) :
    List Operation → List Operation × Registry
  | [] => ([], r)
  | o :: rest =>
    let (linked, r') := linkOperation config renames r o
    let (more, r'') := linkAll config renames r' rest
    (linked :: more, r'')

/-- The reports of linking operations. Marks that linking leaves do not change them. -/
def linkNotes (renames : Table String String) (r : Registry) (os : List Operation) :
    List Report :=
  os.flatMap (linkNote renames r)

def groupTag (o : Operation) : String := (o.tags.head?).getD "default"

/-- Add an operation to the group of its tag, or begin one. -/
def addToGroup (groups : Table String TagGroup) (o : Operation) : Table String TagGroup :=
  let tag := groupTag o
  let group := (groups.get? tag).getD { baseName := underscore tag, classname := camelize tag }
  groups.put tag { group with operations := group.operations ++ [o.operationId] }

/-- Operations by their first tag, in order of first appearance. -/
def groupByTag (os : List Operation) : List TagGroup :=
  Table.values (os.foldl addToGroup [])

end ClientTypes.Linking
