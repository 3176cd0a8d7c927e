import ClientTypes.Model

/-!
Compiled models as values.

In the full form every field is written, in the order of the record. The sparse form leaves out the
fields that have their default, at every depth; it is how the marks of a record are listed. Marks
are written under the names that templates read.
-/

namespace ClientTypes

inductive Form where
  | full
  | sparse
deriving DecidableEq, Repr

/-- A field that is ready to be written, and whether it has its default. -/
structure Entry where
  key : String
  value : Value
  isDefault : Bool
deriving Repr

namespace Entry

/-- A field without a default. -/
def always (key : String) (value : Value) : Entry := ⟨key, value, false⟩

/-- A truth value, false by default. -/
def flag (key : String) (b : Bool) : Entry := ⟨key, .bool b, !b⟩

/-- A text with a default. -/
def text (key default s : String) : Entry := ⟨key, .text s, s == default⟩

/-- A text or nothing, nothing by default. -/
def optionalText (key : String) (s : Option String) : Entry := ⟨key, .optionalText s, s.isNone⟩

/-- A list, empty by default. -/
def list (key : String) (items : List Value) : Entry := ⟨key, .list items, items.isEmpty⟩

/-- A list of texts, empty by default. -/
def texts (key : String) (items : List String) : Entry := list key (items.map .text)

/-- A value or nothing, nothing by default. -/
def optional (key : String) (v : Option Value) : Entry := ⟨key, v.getD .null, v.isNone⟩

end Entry

def Form.pick : Form → List Entry → List Entry
  | .full, entries => entries
  | .sparse, entries => entries.filter fun e => !e.isDefault

def Form.write (form : Form) (entries : List Entry) : Value :=
  .record ((form.pick entries).map fun e => (e.key, e.value))

def Container.word : Container → String
  | .array => "array"
  | .map => "map"

def Container.entry (c : Option Container) : Entry :=
  .optionalText "container" (c.map word)

def ValuesKind.word : ValuesKind → String
  | .enum => "enum"
  | .untagged => "untagged"
  | .complex => "complex"

def EnumMember.toValue (form : Form) (m : EnumMember) : Value :=
  form.write [.always "name" (.text m.name), .always "value" m.value]

def Variant.toValue (form : Form) (v : Variant) : Value :=
  form.write
    [.always "name" (.text v.name), .always "datatype" (.text v.datatype),
     Container.entry v.container, .flag "is_model" v.isModel,
     .optionalText "unresolved" v.unresolved]

/-- Allowable values. The number of a shared list is not written. -/
def AllowableValues.toValue (form : Form) (v : AllowableValues) : Value :=
  form.write
    [.always "kind" (.text v.kind.word),
     .list "enum_vars" (v.enumMembers.map (·.toValue form)),
     .list "variants" (v.variants.map (·.toValue form))]

/-- Marks of a property, with its entries already written. -/
def PropertyMarks.entryList {π : Type} (m : PropertyMarks π) (entries : List Value) : List Entry :=
  [.flag "x-rustgen-is-required" m.isRequired,
   .flag "x-rustgen-has-default-impl" m.hasDefault,
   .optionalText "x-rustgen-default-impl" m.defaultValue,
   .flag "is-enum" m.isEnum,
   .flag "x-rustgen-is-untagged" m.isUntagged,
   .flag "x-rustgen-has-empty-enum" m.hasEmptyMember,
   .flag "x-rustgen-serde-no-rename" m.keepsName,
   .flag "x-rustgen-is-string" m.isString,
   .flag "x-rustgen-skip-serializing-if-none" m.skipsNone,
   .list "x-rustgen-map-entries" entries,
   .optionalText "x-rustgen-unresolved" m.unresolved]

/-- A record of marks. It has its default when all its marks have. -/
def Entry.marks (form : Form) (entries : List Entry) : Entry :=
  ⟨"meta", form.write entries, entries.all (·.isDefault)⟩

mutual
def Property.toValue (form : Form) : Property → Value
  | { baseName, name, datatype, dataFormat, container, items, values, description, required,
      marks := m@{ entries, .. } } =>
    form.write
      [.always "base_name" (.text baseName), .always "name" (.text name),
       .always "datatype" (.text datatype), .optionalText "data_format" dataFormat,
       Container.entry container, .optional "items" (writeItems form items),
       .optional "allowable_values" (values.map (·.toValue form)),
       .optionalText "description" description, .flag "required" required,
       .marks form (m.entryList (writeProperties form entries))]
def writeItems (form : Form) : Option Property → Option Value
  | none => none
  | some p => some (p.toValue form)
def writeProperties (form : Form) : List Property → List Value
  | [] => []
  | p :: rest => p.toValue form :: writeProperties form rest
end

def PropertyMarks.toValue (form : Form) (m : PropertyMarks Property) : Value :=
  form.write (m.entryList (writeProperties form m.entries))

/-- A field of a model with a value of its own. -/
def FieldDefault.toValue (form : Form) (d : FieldDefault) : Value :=
  form.write [.always "key" (.text d.key), .always "value" (.text d.value)]

/-- The marks of a model, field by field. -/
def ModelMarks.entryList (form : Form) (m : ModelMarks) : List Entry :=
  [.flag "has-vars" m.hasVars,
   .flag "is-enum" m.isEnum,
   .flag "x-rustgen-is-bool" m.isBool,
   .flag "x-rustgen-is-integer" m.isInteger,
   .flag "x-rustgen-is-string" m.isString,
   .flag "x-rustgen-is-datetime" m.isDateTime,
   .flag "x-rustgen-is-array" m.isArray,
   .flag "x-rustgen-is-untagged" m.isUntagged,
   .flag "x-rustgen-has-string" m.hasString,
   .flag "x-rustgen-map-like" m.mapLike,
   .flag "x-rustgen-noop" m.noop,
   .flag "x-rustgen-body-model" m.bodyModel,
   .flag "x-rustgen-placeholder" m.placeholder,
   .flag "x-rustgen-has-default-impl" m.hasDefault,
   .list "x-rustgen-default-impl" (m.defaults.map (·.toValue form)),
   .optionalText "x-codegen-pagination-response-inner" m.paginationInner,
   .optionalText "x-codegen-single-response-key" m.singleKey,
   .optionalText "x-codegen-single-response-datatype" m.singleDatatype,
   .flag "x-rustgen-resolution-failed" m.resolutionFailed,
   .texts "x-rustgen-unresolved-bases" m.unresolvedBases,
   .texts "x-rustgen-composed-bases" m.composedBases]

def ModelMarks.toValue (form : Form) (m : ModelMarks) : Value := form.write (m.entryList form)

/-- A model, with the properties that have to be given listed once more at the end. -/
def Model.toValue (m : Model) : Value :=
  Form.full.write
    [.always "name" (.text m.name), .always "classname" (.text m.classname),
     .optionalText "title" m.title, .optionalText "description" m.description,
     .list "vars" (writeProperties .full m.vars), .flag "is_enum" m.isEnum,
     .optional "allowable_values" (m.values.map (·.toValue .full)),
     .optionalText "data_type" m.dataType, Container.entry m.container,
     .optionalText "container_inner" m.containerInner, .flag "removed" m.removed,
     .marks .full (m.marks.entryList .full),
     .list "required_vars" (writeProperties .full m.requiredVars)]

/-- The marks of a parameter, field by field. -/
def ParameterMarks.entryList (m : ParameterMarks) : List Entry :=
  [.flag "x-codegen-list-container-string" m.isTextList,
   .flag "x-codegen-ignore" m.ignored,
   .flag "x-codegen-is-map-container" m.isMap]

def Parameter.toValue (p : Parameter) : Value :=
  Form.full.write
    [.always "base_name" (.text p.baseName), .always "param_name" (.text p.paramName),
     .always "location" (.text p.location), .always "datatype" (.text p.datatype),
     .flag "required" p.required, .text "description" "" p.description,
     Container.entry p.container, .optionalText "items_datatype" p.itemsDatatype,
     .flag "is_string" p.isString, .flag "is_uuid" p.isUuid, .marks .full p.marks.entryList]

/-- The marks of a response, field by field. -/
def ResponseMarks.entryList (m : ResponseMarks) : List Entry :=
  [.optionalText "x-codegen-pagination-response-inner" m.paginationInner]

def Response.toValue (r : Response) : Value :=
  Form.full.write
    [.always "code" (.text r.code), .text "message" "" r.message,
     .optionalText "datatype" r.datatype, .flag "is_default" r.isDefault,
     .marks .full r.marks.entryList]

/-- The marks of an operation, field by field. -/
def OperationMarks.entryList (m : OperationMarks) : List Entry :=
  [.flag "x-codegen-is-list-fn" m.isList,
   .optionalText "x-codegen-response-plural" m.responsePlural,
   .optionalText "x-codegen-response-plural-snake-case" m.responsePluralSnake,
   .optionalText "x-codegen-response-single" m.responseSingle,
   .optionalText "x-codegen-single-response-datatype" m.singleDatatype,
   .optionalText "x-codegen-single-response-key" m.singleKey,
   .flag "x-codegen-response-empty-default" m.emptyResponse,
   .flag "x-codegen-has-optional-query-params" m.optionalQuery,
   .flag "x-codegen-has-string-params" m.textQuery]

def OperationMarks.toValue (form : Form) (m : OperationMarks) : Value := form.write m.entryList

def Operation.toValue (o : Operation) : Value :=
  Form.full.write
    [.always "operation_id" (.text o.operationId), .always "nickname" (.text o.nickname),
     .always "method" (.text o.method), .always "path" (.text o.path),
     .text "summary" "" o.summary, .optionalText "notes" o.notes, .texts "tags" o.tags,
     .optional "body_param" (o.bodyParam.map (·.toValue)),
     .list "query_params" (o.queryParams.map (·.toValue)),
     .list "path_params" (o.pathParams.map (·.toValue)),
     .list "header_params" (o.headerParams.map (·.toValue)),
     .list "responses" (o.responses.map (·.toValue)), .marks .full o.marks.entryList]

def TagGroup.toValue (g : TagGroup) : Value :=
  Form.full.write
    [.always "base_name" (.text g.baseName), .always "classname" (.text g.classname),
     .texts "operations" g.operations]

def CompiledApi.toValue (api : CompiledApi) : Value :=
  Form.full.write
    [.text "title" "" api.title, .text "version" "" api.version,
     .text "models_file" "models.rs" api.modelsFile, .list "models" (api.models.map (·.toValue)),
     .texts "removed_models" api.removedModels,
     .list "operations" (api.operations.map (·.toValue)),
     .list "tags" (api.tags.map (·.toValue))]

end ClientTypes
