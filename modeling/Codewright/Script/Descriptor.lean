import Codewright.Json.Record

/-!
# Descriptors of scripts

What a script, one of its declarations, or one of their members is to look like. Each descriptor has a record that
reads it from JSON. A default or initial value that is null differs from no value.
-/

namespace Codewright.Script

open Json

/-- The languages that scripts are written in. -/
inductive Dialect where
  | javascript
  | typescript
deriving DecidableEq, Repr

/-- The name of a dialect. -/
def Dialect.name : Dialect → String
  | .javascript => "javascript"
  | .typescript => "typescript"

/-- The dialect has types. -/
def Dialect.isTyped (d : Dialect) : Bool := d == .typescript

/-- Who sees a member of a class. -/
inductive Access where
  | pub | prot | priv
deriving DecidableEq, Repr

/-- The keyword of an access. -/
def Access.keyword : Access → String
  | .pub => "public"
  | .prot => "protected"
  | .priv => "private"

/-- Reads an access. -/
def Access.decode : Decoder Access := .oneOf ([Access.pub, .prot, .priv].map fun a => (a.keyword, a))

/-- A parameter. -/
structure Parameter where
  name : String := ""
  type : Option String := none
  default : Option Json := none
  optional : Bool := false
  /-- The parameter takes all arguments that are left. -/
  rest : Bool := false

/-- A method of a class or an interface. -/
structure Method where
  name : String := ""
  params : List Parameter := []
  body : Option String := none
  isStatic : Bool := false
  isAsync : Bool := false
  returnType : Option String := none
  access : Option Access := none

/-- A field of a class. -/
structure ClassField where
  name : String := ""
  type : Option String := none
  value : Option Json := none
  isStatic : Bool := false
  isReadonly : Bool := false
  optional : Bool := false
  access : Option Access := none

/-- A class. -/
structure Class where
  name : String := ""
  parent : Option String := none
  interfaces : List String := []
  isAbstract : Bool := false
  constructorParams : Option (List Parameter) := none
  fields : List ClassField := []
  methods : List Method := []
  exported : Bool := true
  exportedAsDefault : Bool := false

/-- A function. -/
structure Function where
  name : String := ""
  params : List Parameter := []
  body : Option String := none
  isAsync : Bool := false
  returnType : Option String := none
  exported : Bool := true
  exportedAsDefault : Bool := false

/-- An import. -/
structure Import where
  source : String := ""
  names : List String := []
  default : Option String := none
  space : Option String := none

/-- A constant. -/
structure Constant where
  name : String := ""
  value : Json := .null
  type : Option String := none
  exported : Bool := true

/-- A module. -/
structure Module where
  imports : List Import := []
  constants : List Constant := []
  functions : List Function := []
  defaultExport : Option String := none

/-- A property of an interface. -/
structure InterfaceProperty where
  name : String := ""
  type : Option String := none
  optional : Bool := false
  isReadonly : Bool := false

/-- An interface. -/
structure Interface where
  name : String := ""
  parents : List String := []
  properties : List InterfaceProperty := []
  methods : List Method := []
  exported : Bool := true

/-- Another name for a type. -/
structure TypeAlias where
  name : String := ""
  definition : String := ""
  typeParams : List String := []
  exported : Bool := true

/-- A member of an enum. -/
structure EnumMember where
  name : String := ""
  value : Option Json := none

/-- An enum. -/
structure Enum where
  name : String := ""
  members : List EnumMember := []
  isConst : Bool := false
  exported : Bool := true

/-! ### Reading them -/

/-- Reads a text as a name, and an object as a record; what is wrong with the object is not told. No integer in it may
need more than 64 bits, unless it needs more than 128. -/
def nameOr {α : Type} (ofName : String → α) (record : Record α) : Decoder α := fun j =>
  match j.wideInteger?, j with
  | some (text, kind), _ => .error (.wrongType ("integer " ++ ticked text ++ " as " ++ kind) "any value")
  | none, .string name => .ok (ofName name)
  | none, .object es => (record.decode (.object es)).mapError fun _ => .noVariant record.name
  | none, _ => .error (.noVariant record.name)

/-- Reads a parameter: a name, or a record. -/
def Parameter.decode : Decoder Parameter := nameOr (fun name => { name }) {
  name := "ParamRepr"
  blank := {}
  fields := [
    .required "name" .string fun v s => { s with name := v },
    .optional "type" (.nullable .string) fun v s => { s with type := v },
    .optional "default" .present fun v s => { s with default := v },
    .optional "optional" .bool fun v s => { s with optional := v },
    .optional "rest" .bool fun v s => { s with rest := v }] }

/-- The fields of a method. -/
def Method.record : Record Method where
  name := "MethodOptions"
  blank := {}
  fields := [
    .required "name" .string fun v s => { s with name := v },
    (Field.optional "params" (.list Parameter.decode) fun v s => { s with params := v }).orNamed "parameters",
    .optional "body" (.nullable .string) fun v s => { s with body := v },
    .optional "static" .bool fun v s => { s with isStatic := v },
    .optional "async" .bool fun v s => { s with isAsync := v },
    .optional "return_type" (.nullable .string) fun v s => { s with returnType := v },
    .optional "visibility" (.nullable Access.decode) fun v s => { s with access := v }]

/-- The fields of a field of a class. -/
def ClassField.record : Record ClassField where
  name := "FieldOptions"
  blank := {}
  fields := [
    .required "name" .string fun v s => { s with name := v },
    .optional "type" (.nullable .string) fun v s => { s with type := v },
    .optional "value" .present fun v s => { s with value := v },
    .optional "static" .bool fun v s => { s with isStatic := v },
    .optional "readonly" .bool fun v s => { s with isReadonly := v },
    .optional "optional" .bool fun v s => { s with optional := v },
    .optional "visibility" (.nullable Access.decode) fun v s => { s with access := v }]

/-- The fields of a class. -/
def Class.record : Record Class where
  name := "ClassOptions"
  blank := {}
  fields := [
    .required "name" .string fun v s => { s with name := v },
    .optional "extends" (.nullable .string) fun v s => { s with parent := v },
    .optional "implements" (.list .string) fun v s => { s with interfaces := v },
    .optional "abstract" .bool fun v s => { s with isAbstract := v },
    (Field.optional "constructor_params" (.nullable (.list Parameter.decode))
      fun v s => { s with constructorParams := v }).orNamed "constructor",
    (Field.optional "fields" (.list ClassField.record.decode) fun v s => { s with fields := v }).orNamed "properties",
    .optional "methods" (.list Method.record.decode) fun v s => { s with methods := v },
    .optional "export" .bool fun v s => { s with exported := v },
    .optional "default_export" .bool fun v s => { s with exportedAsDefault := v }]

/-- The fields of a function. -/
def Function.record : Record Function where
  name := "FunctionOptions"
  blank := {}
  fields := [
    .required "name" .string fun v s => { s with name := v },
    (Field.optional "params" (.list Parameter.decode) fun v s => { s with params := v }).orNamed "parameters",
    .optional "body" (.nullable .string) fun v s => { s with body := v },
    .optional "async" .bool fun v s => { s with isAsync := v },
    .optional "return_type" (.nullable .string) fun v s => { s with returnType := v },
    .optional "export" .bool fun v s => { s with exported := v },
    .optional "default_export" .bool fun v s => { s with exportedAsDefault := v }]

/-- The fields of an import. -/
def Import.record : Record Import where
  name := "ImportOptions"
  blank := {}
  fields := [
    .required "from" .string fun v s => { s with source := v },
    .optional "names" (.list .string) fun v s => { s with names := v },
    .optional "default" (.nullable .string) fun v s => { s with default := v },
    .optional "namespace" (.nullable .string) fun v s => { s with space := v }]

/-- The fields of a constant. -/
def Constant.record : Record Constant where
  name := "ConstantOptions"
  blank := {}
  fields := [
    .required "name" .string fun v s => { s with name := v },
    .required "value" .any fun v s => { s with value := v },
    .optional "type" (.nullable .string) fun v s => { s with type := v },
    .optional "export" .bool fun v s => { s with exported := v }]

/-- The fields of a module. -/
def Module.record : Record Module where
  name := "ModuleOptions"
  blank := {}
  fields := [
    .optional "imports" (.list Import.record.decode) fun v s => { s with imports := v },
    .optional "constants" (.list Constant.record.decode) fun v s => { s with constants := v },
    .optional "functions" (.list Function.record.decode) fun v s => { s with functions := v },
    .optional "default_export" (.nullable .string) fun v s => { s with defaultExport := v }]

/-- The fields of a property of an interface. -/
def InterfaceProperty.record : Record InterfaceProperty where
  name := "InterfacePropertyOptions"
  blank := {}
  fields := [
    .required "name" .string fun v s => { s with name := v },
    .optional "type" (.nullable .string) fun v s => { s with type := v },
    .optional "optional" .bool fun v s => { s with optional := v },
    .optional "readonly" .bool fun v s => { s with isReadonly := v }]

/-- The fields of an interface. -/
def Interface.record : Record Interface where
  name := "InterfaceOptions"
  blank := {}
  fields := [
    .required "name" .string fun v s => { s with name := v },
    .optional "extends" (.list .string) fun v s => { s with parents := v },
    .optional "properties" (.list InterfaceProperty.record.decode) fun v s => { s with properties := v },
    .optional "methods" (.list Method.record.decode) fun v s => { s with methods := v },
    .optional "export" .bool fun v s => { s with exported := v }]

/-- The fields of another name for a type. -/
def TypeAlias.record : Record TypeAlias where
  name := "TypeAliasOptions"
  blank := {}
  fields := [
    .required "name" .string fun v s => { s with name := v },
    (Field.required "definition" .string fun v s => { s with definition := v }).orNamed "value",
    .optional "type_params" (.list .string) fun v s => { s with typeParams := v },
    .optional "export" .bool fun v s => { s with exported := v }]

/-- Reads a member of an enum: a name, or a record. -/
def EnumMember.decode : Decoder EnumMember := nameOr (fun name => { name }) {
  name := "EnumMemberRepr"
  blank := {}
  fields := [
    .required "name" .string fun v s => { s with name := v },
    .optional "value" (.nullable .any) fun v s => { s with value := v }] }

/-- The fields of an enum. -/
def Enum.record : Record Enum where
  name := "EnumOptions"
  blank := {}
  fields := [
    .required "name" .string fun v s => { s with name := v },
    .optional "members" (.list EnumMember.decode) fun v s => { s with members := v },
    .optional "const" .bool fun v s => { s with isConst := v },
    .optional "export" .bool fun v s => { s with exported := v }]

end Codewright.Script
