import Codewright.Css.Sheet
import Codewright.Json.Path
import Codewright.Php.EditError

/-!
# Errors of the workshop

A `CraftError` ends the call that met it. `CraftError.message` is its wording. The texts of errors that come from
reading files, or from reading JSON, are not laid down here: these errors are told apart, and no more.
-/

namespace Codewright

/-- What is wrong with the options or the operation that a caller gives. -/
inductive OptionFault where
  | misfit (why : Json.Misfit)
  | noOperationType
  /-- A document is to be made, but none is given. -/
  | noData
  | badIndent
  | badPath (path : String)
  /-- A stylesheet is to be made, but nothing to put into it is given. -/
  | noStyles
  | noImportSource
  | noSearchText
  /-- A property is to be added to an interface and a class at once, or to neither. -/
  | noSingleTarget
  /-- A file is larger than the workshop reads. -/
  | tooLarge (path : String) (size limit : Nat)
deriving DecidableEq, Repr

/-- The wording of a fault of options. -/
def OptionFault.message : OptionFault → String
  | misfit why => why.message
  | noOperationType => "operation needs a string 'type'"
  | noData => "json create needs 'data'"
  | badIndent => "'indent' must be a non-negative integer"
  | badPath path => "invalid path '" ++ path ++ "'"
  | noStyles => "css create needs at least one of 'imports', 'variables', 'rules' or 'media'"
  | noImportSource => "add_import needs a non-empty 'from'"
  | noSearchText => "replace needs a non-empty 'search'"
  | noSingleTarget => "add_property needs exactly one of 'interface' or 'class'"
  | tooLarge path size limit =>
    path ++ " is " ++ toString size ++ " bytes, above the " ++ toString limit ++ " byte limit"

/-- Why an operation that is well formed cannot be done on a source. -/
inductive Obstacle where
  | path (why : Json.PathError)
  /-- Two values are to be merged, and one is no object. -/
  | notObjects
  | stylesheet (why : Css.Fault)
  | noRule (selector : String)
  /-- The named declaration does not exist. -/
  | notFound (kind name : String)
  /-- No declaration of the kind exists. -/
  | noneFound (kind : String)
  | textNotFound (text : String)
deriving DecidableEq, Repr

/-- The wording of an obstacle. -/
def Obstacle.message : Obstacle → String
  | path why => why.message
  | notObjects => "merge needs an object document and an object value"
  | stylesheet why => why.message
  | noRule selector => "no rule matches selector '" ++ selector ++ "'"
  | notFound kind name => kind ++ " '" ++ name ++ "' not found"
  | noneFound kind => "no " ++ kind ++ " found in source"
  | textNotFound text => "search text '" ++ text ++ "' not found"

/-- Why code could not be made, changed or looked at. -/
inductive CraftError where
  | php (why : Php.EditError)
  | unsupportedExtension (extension : String)
  | missingExtension (path : String)
  | duplicateExtension (extension first second : String)
  | invalidOptions (why : OptionFault)
  | unknownType (language type : String)
  | unknownOperation (language operation : String)
  | operationFailed (why : Obstacle)
  | fileNotFound (path : String)
  /-- A file can be neither read nor found missing. -/
  | unreadable
  /-- A document is no JSON. -/
  | notJson
  /-- The program stops, because it would cut through a character. -/
  | stopped
deriving DecidableEq, Repr

namespace CraftError

/-- The wording of an error, where it is laid down. -/
def message? : CraftError → Option String
  | php why => some why.message
  | unsupportedExtension extension => some ("unsupported file extension '" ++ extension ++ "'")
  | missingExtension path => some ("path '" ++ path ++ "' has no file extension")
  | duplicateExtension extension first second =>
    some ("extension '" ++ extension ++ "' is claimed by both '" ++ first ++ "' and '" ++ second ++ "'")
  | invalidOptions why => some ("invalid options: " ++ why.message)
  | unknownType language type => some (language ++ " adapter cannot create type '" ++ type ++ "'")
  | unknownOperation language operation =>
    some (language ++ " adapter has no edit operation '" ++ operation ++ "'")
  | operationFailed why => some ("operation failed: " ++ why.message)
  | fileNotFound path => some ("file not found: " ++ path)
  | unreadable => none
  | notJson => none
  | stopped => none

end CraftError

end Codewright
