import Codewright.Json.Record
import Codewright.Php.SyntaxError

/-!
# Errors of making and changing PHP

An `EditError` ends the call that met it. A method body that cannot be read is no error: it is left out, with a
warning.
-/

namespace Codewright.Php

/-- What a descriptor describes. -/
inductive Described where
  | method | property | parameter | constant | cls | iface | trait
deriving DecidableEq, Repr

/-- The word for what is described. -/
def Described.word : Described → String
  | .method => "method"
  | .property => "property"
  | .parameter => "parameter"
  | .constant => "constant"
  | .cls => "class"
  | .iface => "interface"
  | .trait => "trait"

/-- What is wrong with a descriptor. -/
inductive DescriptorFault where
  /-- The value is no record of the descriptor. -/
  | misfit (why : Json.Misfit)
  | invalidName (what : Described) (name : String)
  | abstractAndFinal (what : Described) (name : String)
  | abstractWithBody (method : String)
  | readonlyWithoutType (property : String)
  | readonlyWithDefault (property : String)
  | variadicWithDefault (parameter : String)
deriving DecidableEq, Repr

/-- The wording of a fault of a descriptor. -/
def DescriptorFault.message : DescriptorFault → String
  | .misfit why => why.message
  | .invalidName what name => "invalid " ++ what.word ++ " name '" ++ name ++ "'"
  | .abstractAndFinal what name => what.word ++ " '" ++ name ++ "' cannot be both abstract and final"
  | .abstractWithBody method => "abstract method '" ++ method ++ "' cannot have a body"
  | .readonlyWithoutType property => "readonly property '" ++ property ++ "' must have a type"
  | .readonlyWithDefault property => "readonly property '" ++ property ++ "' cannot have a default"
  | .variadicWithDefault parameter => "variadic parameter '" ++ parameter ++ "' cannot have a default"

/-- What is wrong with a value that should be an operation. -/
inductive OperationFault where
  | notAnObject
  | noType
  | missingField (operation field : String)
  | methodNameNotText
deriving DecidableEq, Repr

/-- The wording of a fault of an operation. -/
def OperationFault.message : OperationFault → String
  | .notAnObject => "operation must be an object"
  | .noType => "operation needs a string 'type'"
  | .missingField operation field => "'" ++ operation ++ "' requires '" ++ field ++ "'"
  | .methodNameNotText => "'method_name' must be a string"

/-- Why PHP code could not be made or changed. -/
inductive EditError where
  | source (why : SyntaxError)
  | unknownOperation (tag : String)
  | invalidOperation (why : OperationFault)
  | noClass
  | methodNotFound (cls method : String)
  | invalidType (text : String) (why : SyntaxError)
  | invalidDescriptor (why : DescriptorFault)
  | unknownCreateType (type : String)
deriving DecidableEq, Repr

/-- The wording of an error. -/
def EditError.message : EditError → String
  | .source why => "failed to parse source: " ++ why.message
  | .unknownOperation tag => "unknown edit operation '" ++ tag ++ "'"
  | .invalidOperation why => "invalid edit operation: " ++ why.message
  | .noClass => "no class found in source"
  | .methodNotFound cls method => "method '" ++ method ++ "' not found in class '" ++ cls ++ "'"
  | .invalidType text why => "invalid type '" ++ text ++ "': " ++ why.message
  | .invalidDescriptor why => "invalid descriptor: " ++ why.message
  | .unknownCreateType type => "unknown create type '" ++ type ++ "', expected class, interface or trait"

end Codewright.Php
