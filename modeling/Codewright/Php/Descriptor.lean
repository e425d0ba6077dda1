import Codewright.Json.Record
import Codewright.Php.Modifiers

/-!
# Descriptors

A descriptor says what a class, an interface, a trait or one of their members is to look like. Descriptors are read
from JSON; each has a record that names its fields. A default value that is null differs from no default value.
-/

namespace Codewright.Php

open Json

/-- The visibilities by keyword. -/
def Visibility.table : List (String × Visibility) :=
  [Visibility.pub, .prot, .priv].map fun v => (v.keyword, v)

/-- Reads a visibility. -/
def Visibility.decode : Decoder Visibility := Decoder.oneOf Visibility.table

namespace Descriptor

/-- A parameter of a method. -/
structure Parameter where
  name : String := ""
  type : Option String := none
  default : Option Json := none
  byRef : Bool := false
  variadic : Bool := false
  /-- The visibility of the property that the parameter declares as well. -/
  promote : Option Visibility := none

/-- A method. The body is a text of statements; without one the method is empty. -/
structure Method where
  name : String := ""
  visibility : Visibility := .pub
  isStatic : Bool := false
  isAbstract : Bool := false
  isFinal : Bool := false
  returnType : Option String := none
  parameters : List Parameter := []
  body : Option String := none
  doc : Option String := none

/-- A property. -/
structure Property where
  name : String := ""
  visibility : Visibility := .pub
  isStatic : Bool := false
  isReadonly : Bool := false
  type : Option String := none
  default : Option Json := none
  doc : Option String := none

/-- A constant. -/
structure Constant where
  name : String := ""
  value : Json := .null
  visibility : Visibility := .pub

/-- What a file has beside its declaration. -/
structure Frame where
  space : Option String := none
  imports : List String := []
  strictTypes : Bool := false

/-- A file with one class. -/
structure Class where
  name : String := ""
  frame : Frame := {}
  parent : Option String := none
  interfaces : List String := []
  isAbstract : Bool := false
  isFinal : Bool := false
  traits : List String := []
  constants : List Constant := []
  properties : List Property := []
  methods : List Method := []
  doc : Option String := none

/-- A file with one interface. -/
structure Interface where
  name : String := ""
  frame : Frame := {}
  parents : List String := []
  constants : List Constant := []
  methods : List Method := []
  doc : Option String := none

/-- A file with one trait. -/
structure Trait where
  name : String := ""
  frame : Frame := {}
  properties : List Property := []
  methods : List Method := []
  doc : Option String := none

/-! ### Reading them -/

/-- The fields of a parameter. -/
def Parameter.record : Record Parameter where
  name := "ParameterSpec"
  blank := {}
  fields := [
    .required "name" .string fun v s => { s with name := v },
    .optional "type" (.nullable .string) fun v s => { s with type := v },
    .optional "default" .present fun v s => { s with default := v },
    .optional "by_ref" .bool fun v s => { s with byRef := v },
    .optional "variadic" .bool fun v s => { s with variadic := v },
    .optional "promote" (.nullable Visibility.decode) fun v s => { s with promote := v }]

/-- The fields of a method. -/
def Method.record : Record Method where
  name := "MethodSpec"
  blank := {}
  fields := [
    .required "name" .string fun v s => { s with name := v },
    .optional "visibility" Visibility.decode fun v s => { s with visibility := v },
    .optional "static" .bool fun v s => { s with isStatic := v },
    .optional "abstract" .bool fun v s => { s with isAbstract := v },
    .optional "final" .bool fun v s => { s with isFinal := v },
    .optional "return_type" (.nullable .string) fun v s => { s with returnType := v },
    (Field.optional "parameters" (.list Parameter.record.decode) fun v s => { s with parameters := v }).orNamed
      "params",
    .optional "body" (.nullable .string) fun v s => { s with body := v },
    .optional "doc_comment" (.nullable .string) fun v s => { s with doc := v }]

/-- The fields of a property. -/
def Property.record : Record Property where
  name := "PropertySpec"
  blank := {}
  fields := [
    .required "name" .string fun v s => { s with name := v },
    .optional "visibility" Visibility.decode fun v s => { s with visibility := v },
    .optional "static" .bool fun v s => { s with isStatic := v },
    .optional "readonly" .bool fun v s => { s with isReadonly := v },
    .optional "type" (.nullable .string) fun v s => { s with type := v },
    .optional "default" .present fun v s => { s with default := v },
    .optional "doc_comment" (.nullable .string) fun v s => { s with doc := v }]

/-- The fields of a constant. -/
def Constant.record : Record Constant where
  name := "ConstantSpec"
  blank := {}
  fields := [
    .required "name" .string fun v s => { s with name := v },
    .required "value" .any fun v s => { s with value := v },
    .optional "visibility" Visibility.decode fun v s => { s with visibility := v }]

/-- The fields of a file with a class. -/
def Class.record : Record Class where
  name := "ClassSpec"
  blank := {}
  fields := [
    .optional "name" .string fun v s => { s with name := v },
    .optional "namespace" (.nullable .string) fun v s => { s with frame.space := v },
    .optional "uses" (.list .string) fun v s => { s with frame.imports := v },
    .optional "extends" (.nullable .string) fun v s => { s with parent := v },
    .optional "implements" (.list .string) fun v s => { s with interfaces := v },
    .optional "abstract" .bool fun v s => { s with isAbstract := v },
    .optional "final" .bool fun v s => { s with isFinal := v },
    .optional "traits" (.list .string) fun v s => { s with traits := v },
    .optional "constants" (.list Constant.record.decode) fun v s => { s with constants := v },
    .optional "properties" (.list Property.record.decode) fun v s => { s with properties := v },
    .optional "methods" (.list Method.record.decode) fun v s => { s with methods := v },
    .optional "doc_comment" (.nullable .string) fun v s => { s with doc := v },
    .optional "strict_types" .bool fun v s => { s with frame.strictTypes := v }]

/-- The fields of a file with an interface. -/
def Interface.record : Record Interface where
  name := "InterfaceSpec"
  blank := {}
  fields := [
    .optional "name" .string fun v s => { s with name := v },
    .optional "namespace" (.nullable .string) fun v s => { s with frame.space := v },
    .optional "uses" (.list .string) fun v s => { s with frame.imports := v },
    .optional "extends" (.list .string) fun v s => { s with parents := v },
    .optional "constants" (.list Constant.record.decode) fun v s => { s with constants := v },
    .optional "methods" (.list Method.record.decode) fun v s => { s with methods := v },
    .optional "doc_comment" (.nullable .string) fun v s => { s with doc := v },
    .optional "strict_types" .bool fun v s => { s with frame.strictTypes := v }]

/-- The fields of a file with a trait. -/
def Trait.record : Record Trait where
  name := "TraitSpec"
  blank := {}
  fields := [
    .optional "name" .string fun v s => { s with name := v },
    .optional "namespace" (.nullable .string) fun v s => { s with frame.space := v },
    .optional "uses" (.list .string) fun v s => { s with frame.imports := v },
    .optional "properties" (.list Property.record.decode) fun v s => { s with properties := v },
    .optional "methods" (.list Method.record.decode) fun v s => { s with methods := v },
    .optional "doc_comment" (.nullable .string) fun v s => { s with doc := v },
    .optional "strict_types" .bool fun v s => { s with frame.strictTypes := v }]

end Descriptor

end Codewright.Php
