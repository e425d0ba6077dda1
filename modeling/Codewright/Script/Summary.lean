import Codewright.Json.Basic
import Codewright.Script.Descriptor
import Codewright.Script.Shape

/-!
# The summary of a script

`Summary.ofText` lists the classes, functions, imports and exports of a script, and for a typed dialect its
interfaces, type names and enums.
-/

namespace Codewright.Script

open Text Json

namespace Summary

/-- A class. -/
structure Class where
  name : String
  parent : Option String
  interfaces : List String
  methods : List String

/-- An interface. -/
structure Interface where
  name : String
  parents : List String
  members : List String

/-- An import. -/
structure Import where
  source : String
  default : Option String
  names : List String
  space : Option String

/-- What only typed scripts declare. -/
structure Typed where
  interfaces : List Interface
  types : List String
  enums : List String

end Summary

/-- What a script declares. -/
structure Summary where
  classes : List Summary.Class
  functions : List String
  imports : List Summary.Import
  exports : List String
  typed : Option Summary.Typed

/-! ### Lists of names -/

/-- The entries between commas, with single spaces inside and none around; empty ones are left out. -/
def splitList (text : String) : List String :=
  ((piecesOf ',' text).map collapseSpace).filter fun item => !item.isEmpty

/-- What follows the last occurrence of `needle`. -/
def afterLast? (needle : List Char) : List Char → Option (List Char)
  | [] => none
  | c :: cs =>
    match afterLast? needle cs with
    | some rest => some rest
    | none => if needle.isPrefixOf (c :: cs) then some ((c :: cs).drop needle.length) else none

/-- The name under which an entry of an export list is exported. -/
def exportedName (item : String) : String :=
  String.ofList (trim ((afterLast? " as ".toList item.toList).getD item.toList))

/-- Words that stand in front of a bracket but name no method. -/
def notMethods : List String := ["if", "for", "while", "switch", "catch", "return", "function", "with"]

namespace Reading

/-- Where the body of a declaration ends that a pattern has found: at its closing brace, or else at the end. -/
def closingOf (r : Reading) (m : Match) : Nat := (matchingBrace? r.faces (m.stop - 1)).getD r.faces.length

/-- The entries of the list in a group. -/
def listOf (r : Reading) (m : Match) (index : Nat) : List String := ((r.group? m index).map splitList).getD []

/-- The classes. -/
def classes (r : Reading) : List Summary.Class :=
  (r.topLevel Shape.cls).filterMap fun m => (r.group? m 1).map fun name =>
    ⟨name, r.group? m 2, r.listOf m 3,
      (r.namesInBlock Shape.method (m.stop - 1) (r.closingOf m)).filter fun n => !notMethods.contains n⟩

/-- The interfaces. -/
def interfaces (r : Reading) : List Summary.Interface :=
  (r.topLevel Shape.iface).filterMap fun m => (r.group? m 1).map fun name =>
    ⟨name, r.listOf m 2, r.namesInBlock Shape.member (m.stop - 1) (r.closingOf m)⟩

/-- The imports. -/
def imports (r : Reading) : List Summary.Import :=
  (r.topLevel Shape.importing).filterMap fun m => (r.group? m 4).map fun source =>
    ⟨source, r.group? m 1, r.listOf m 2, r.group? m 3⟩

/-- The exported names with the places of their exports. -/
def exportsWithPlaces (r : Reading) : List (Nat × String) :=
  let declared := (r.all Shape.exportedDecl).filterMap fun m => (r.group? m 1).map fun name => (m.start, name)
  let listed := (r.all Shape.exportedList).flatMap fun m =>
    (r.listOf m 1).map fun item => (m.start, exportedName item)
  let defaults := (r.all Shape.exportedDefault).filterMap fun m =>
    if (declared.map (·.1)).contains m.start then none else some (m.start, "default")
  declared ++ listed ++ defaults

/-- The exported names, in the order of the source and each of them once. -/
def exports (r : Reading) : List String :=
  ((r.exportsWithPlaces.mergeSort fun a b => a.1 ≤ b.1).map (·.2)).eraseDups

/-- What only typed scripts declare. -/
def typed (r : Reading) : Summary.Typed :=
  ⟨r.interfaces, r.topLevelNames Shape.typeAlias, r.topLevelNames Shape.enum⟩

/-- The summary of a source. -/
def summary (r : Reading) (d : Dialect) : Summary :=
  ⟨r.classes, r.topLevelNames Shape.function ++ r.topLevelNames Shape.arrow, r.imports, r.exports,
    if d.isTyped then some r.typed else none⟩

end Reading

namespace Summary

/-- The summary of a source. -/
def ofText (d : Dialect) (source : String) : Summary := (Reading.ofText source.toList).summary d

/-! ### Writing it as JSON -/

/-- A class as JSON. -/
def Class.toJson (c : Class) : Json :=
  .object [("name", .string c.name), ("extends", .ofOption c.parent), ("implements", .ofStrings c.interfaces),
    ("methods", .ofStrings c.methods)]

/-- An interface as JSON. -/
def Interface.toJson (i : Interface) : Json :=
  .object [("name", .string i.name), ("extends", .ofStrings i.parents), ("members", .ofStrings i.members)]

/-- An import as JSON. -/
def Import.toJson (i : Import) : Json :=
  .object [("from", .string i.source), ("default", .ofOption i.default), ("names", .ofStrings i.names),
    ("namespace", .ofOption i.space)]

/-- The entries of what only typed scripts declare. -/
def Typed.fields (t : Typed) : Entries :=
  [("interfaces", .array (t.interfaces.map Interface.toJson)), ("types", .ofStrings t.types),
    ("enums", .ofStrings t.enums)]

/-- The entries of a summary. -/
def fields (s : Summary) : Entries :=
  [("classes", .array (s.classes.map Class.toJson)), ("functions", .ofStrings s.functions),
    ("imports", .array (s.imports.map Import.toJson)), ("exports", .ofStrings s.exports)] ++
    s.typed.elim [] Typed.fields

end Summary

end Codewright.Script
