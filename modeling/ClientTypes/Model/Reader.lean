import ClientTypes.Model
import ClientTypes.Checked

/-!
Reading compiled models back from values.

Every field is checked, fields that are left out take their defaults, and fields that are not known
are passed over. Marks are read under the names that templates read, or under plain names; where both
stand, the names for templates win.
-/

namespace ClientTypes

open Checked

def Container.choices : List (String × Container) := [("array", .array), ("map", .map)]

def ValuesKind.choices : List (String × ValuesKind) :=
  [("enum", .enum), ("untagged", .untagged), ("complex", .complex)]

def EnumMember.ofValue : Value → Checked EnumMember :=
  recordOf fun es => EnumMember.mk <$> needed es "name" text <*> needed es "value" any

def Variant.ofValue : Value → Checked Variant :=
  recordOf fun es => Variant.mk
    <$> needed es "name" text
    <*> needed es "datatype" text
    <*> fieldOr es "container" none (optional (oneOf Container.choices))
    <*> fieldOr es "is_model" false flag
    <*> fieldOr es "unresolved" none (optional text)

/-- Read allowable values. They are shown in one place. -/
def AllowableValues.ofValue : Value → Checked AllowableValues :=
  recordOf fun es => (AllowableValues.mk · · · none)
    <$> needed es "kind" (oneOf ValuesKind.choices)
    <*> fieldOr es "enum_vars" [] (listOf EnumMember.ofValue)
    <*> fieldOr es "variants" [] (listOf Variant.ofValue)

/-- Read the marks of a property, given how its entries are read. -/
def PropertyMarks.ofValueWith {π : Type} (entry : Value → Checked π) :
    Value → Checked (PropertyMarks π) :=
  recordOf fun es => PropertyMarks.mk
    <$> eitherOr es "x-rustgen-is-required" "is_required" false flag
    <*> eitherOr es "x-rustgen-has-default-impl" "has_default_impl" false flag
    <*> eitherOr es "x-rustgen-default-impl" "default_impl" none (optional text)
    <*> eitherOr es "is-enum" "is_enum" false flag
    <*> eitherOr es "x-rustgen-is-untagged" "is_untagged" false flag
    <*> eitherOr es "x-rustgen-has-empty-enum" "has_empty_enum" false flag
    <*> eitherOr es "x-rustgen-serde-no-rename" "serde_no_rename" false flag
    <*> eitherOr es "x-rustgen-is-string" "is_string" false flag
    <*> eitherOr es "x-rustgen-skip-serializing-if-none" "skip_serializing_if_none" false flag
    <*> eitherOr es "x-rustgen-map-entries" "map_entries" [] (listOf entry)
    <*> eitherOr es "x-rustgen-unresolved" "unresolved" none (optional text)

/-- Read a property, given how the properties inside it are read. -/
def Property.ofValueWith (inner : Value → Checked Property) : Value → Checked Property :=
  recordOf fun es => Property.mk
    <$> needed es "base_name" text
    <*> needed es "name" text
    <*> needed es "datatype" text
    <*> fieldOr es "data_format" none (optional text)
    <*> fieldOr es "container" none (optional (oneOf Container.choices))
    <*> fieldOr es "items" none (optional inner)
    <*> fieldOr es "allowable_values" none (optional AllowableValues.ofValue)
    <*> fieldOr es "description" none (optional text)
    <*> fieldOr es "required" false flag
    <*> fieldOr es "meta" {} (PropertyMarks.ofValueWith inner)

mutual
def Value.depth : Value → Nat
  | .scalar _ | .loop _ | .beyond => 0
  | .knot _ v => v.depth
  | .list items => depthOfItems items + 1
  | .map entries => depthOfEntries entries + 1
def depthOfItems : List Value → Nat
  | [] => 0
  | v :: rest => max v.depth (depthOfItems rest)
def depthOfEntries : List (Scalar × Value) → Nat
  | [] => 0
  | (_, v) :: rest => max v.depth (depthOfEntries rest)
end

/-- Read a property at most `depth` levels deep. -/
def Property.ofValueWithin : (depth : Nat) → Value → Checked Property
  | 0, _ => refuse .notRecord
  | depth + 1, v => Property.ofValueWith (ofValueWithin depth) v

/-- Read a property. No property inside it lies deeper than the value itself. -/
def Property.ofValue (v : Value) : Checked Property := Property.ofValueWithin (v.depth + 1) v

def PropertyMarks.ofValue (v : Value) : Checked (PropertyMarks Property) :=
  PropertyMarks.ofValueWith Property.ofValue v

/-- Read a field of a model with a value of its own. -/
def FieldDefault.ofValue : Value → Checked FieldDefault :=
  recordOf fun es => FieldDefault.mk <$> needed es "key" text <*> needed es "value" text

def ModelMarks.ofValue : Value → Checked ModelMarks :=
  recordOf fun es => ModelMarks.mk
    <$> eitherOr es "has-vars" "has_vars" false flag
    <*> eitherOr es "is-enum" "is_enum" false flag
    <*> eitherOr es "x-rustgen-is-bool" "is_bool" false flag
    <*> eitherOr es "x-rustgen-is-integer" "is_integer" false flag
    <*> eitherOr es "x-rustgen-is-string" "is_string" false flag
    <*> eitherOr es "x-rustgen-is-datetime" "is_datetime" false flag
    <*> eitherOr es "x-rustgen-is-array" "is_array" false flag
    <*> eitherOr es "x-rustgen-is-untagged" "is_untagged" false flag
    <*> eitherOr es "x-rustgen-has-string" "has_string" false flag
    <*> eitherOr es "x-rustgen-map-like" "map_like" false flag
    <*> eitherOr es "x-rustgen-noop" "noop" false flag
    <*> eitherOr es "x-rustgen-body-model" "body_model" false flag
    <*> eitherOr es "x-rustgen-placeholder" "placeholder" false flag
    <*> eitherOr es "x-rustgen-has-default-impl" "has_default_impl" false flag
    <*> eitherOr es "x-rustgen-default-impl" "default_impl" [] (listOf FieldDefault.ofValue)
    <*> eitherOr es "x-codegen-pagination-response-inner" "pagination_inner" none (optional text)
    <*> eitherOr es "x-codegen-single-response-key" "single_response_key" none (optional text)
    <*> eitherOr es "x-codegen-single-response-datatype" "single_response_datatype" none
      (optional text)
    <*> eitherOr es "x-rustgen-resolution-failed" "resolution_failed" false flag
    <*> eitherOr es "x-rustgen-unresolved-bases" "unresolved_bases" [] (listOf text)
    <*> eitherOr es "x-rustgen-composed-bases" "composed_bases" [] (listOf text)

def Model.ofValue : Value → Checked Model :=
  recordOf fun es => Model.mk
    <$> needed es "name" text
    <*> needed es "classname" text
    <*> fieldOr es "title" none (optional text)
    <*> fieldOr es "description" none (optional text)
    <*> fieldOr es "vars" [] (listOf Property.ofValue)
    <*> fieldOr es "is_enum" false flag
    <*> fieldOr es "allowable_values" none (optional AllowableValues.ofValue)
    <*> fieldOr es "data_type" none (optional text)
    <*> fieldOr es "container" none (optional (oneOf Container.choices))
    <*> fieldOr es "container_inner" none (optional text)
    <*> fieldOr es "removed" false flag
    <*> fieldOr es "meta" {} ModelMarks.ofValue

def ParameterMarks.ofValue : Value → Checked ParameterMarks :=
  recordOf fun es => ParameterMarks.mk
    <$> eitherOr es "x-codegen-list-container-string" "list_container_string" false flag
    <*> eitherOr es "x-codegen-ignore" "ignore" false flag
    <*> eitherOr es "x-codegen-is-map-container" "is_map_container" false flag

def Parameter.ofValue : Value → Checked Parameter :=
  recordOf fun es => Parameter.mk
    <$> needed es "base_name" text
    <*> needed es "param_name" text
    <*> needed es "location" text
    <*> needed es "datatype" text
    <*> fieldOr es "required" false flag
    <*> fieldOr es "description" "" text
    <*> fieldOr es "container" none (optional (oneOf Container.choices))
    <*> fieldOr es "items_datatype" none (optional text)
    <*> fieldOr es "is_string" false flag
    <*> fieldOr es "is_uuid" false flag
    <*> fieldOr es "meta" {} ParameterMarks.ofValue

def ResponseMarks.ofValue : Value → Checked ResponseMarks :=
  recordOf fun es => ResponseMarks.mk
    <$> eitherOr es "x-codegen-pagination-response-inner" "pagination_inner" none (optional text)

def Response.ofValue : Value → Checked Response :=
  recordOf fun es => Response.mk
    <$> needed es "code" text
    <*> fieldOr es "message" "" text
    <*> fieldOr es "datatype" none (optional text)
    <*> fieldOr es "is_default" false flag
    <*> fieldOr es "meta" {} ResponseMarks.ofValue

def OperationMarks.ofValue : Value → Checked OperationMarks :=
  recordOf fun es => OperationMarks.mk
    <$> eitherOr es "x-codegen-is-list-fn" "is_list_fn" false flag
    <*> eitherOr es "x-codegen-response-plural" "response_plural" none (optional text)
    <*> eitherOr es "x-codegen-response-plural-snake-case" "response_plural_snake_case" none
      (optional text)
    <*> eitherOr es "x-codegen-response-single" "response_single" none (optional text)
    <*> eitherOr es "x-codegen-single-response-datatype" "single_response_datatype" none
      (optional text)
    <*> eitherOr es "x-codegen-single-response-key" "single_response_key" none (optional text)
    <*> eitherOr es "x-codegen-response-empty-default" "response_empty_default" false flag
    <*> eitherOr es "x-codegen-has-optional-query-params" "has_optional_query_params" false flag
    <*> eitherOr es "x-codegen-has-string-params" "has_string_params" false flag

def Operation.ofValue : Value → Checked Operation :=
  recordOf fun es => Operation.mk
    <$> needed es "operation_id" text
    <*> needed es "nickname" text
    <*> needed es "method" text
    <*> needed es "path" text
    <*> fieldOr es "summary" "" text
    <*> fieldOr es "notes" none (optional text)
    <*> fieldOr es "tags" [] (listOf text)
    <*> fieldOr es "body_param" none (optional Parameter.ofValue)
    <*> fieldOr es "query_params" [] (listOf Parameter.ofValue)
    <*> fieldOr es "path_params" [] (listOf Parameter.ofValue)
    <*> fieldOr es "header_params" [] (listOf Parameter.ofValue)
    <*> fieldOr es "responses" [] (listOf Response.ofValue)
    <*> fieldOr es "meta" {} OperationMarks.ofValue

end ClientTypes
