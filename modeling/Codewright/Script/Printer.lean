import Codewright.Json.Text
import Codewright.Script.Descriptor
import Codewright.Text.Splice

/-!
# The text of scripts

Each descriptor has a `print` that writes it in a `Style`: a dialect and a unit of indentation. What only a typed
dialect can say is left out for the other. Default and initial values are written as JSON.
-/

namespace Codewright.Script

open Text

/-- How a script is written. -/
structure Style where
  dialect : Dialect
  unit : String

/-- A text, if it is wanted. -/
def textIf (wanted : Bool) (text : String) : String := if wanted then text else ""

/-- A text made from something, if it is there. -/
def textOf {α : Type} (x : Option α) (text : α → String) : String := x.elim "" text

/-- The words in front of a declaration that is exported. -/
def exportText (exported exportedAsDefault : Bool) : String :=
  if exportedAsDefault then "export default " else textIf exported "export "

/-- Lines between braces, indented by one level. -/
def braced (unit body : String) : String := "\x7b\n" ++ indentText body unit ++ "\n\x7d"

/-- A body between braces, without the whitespace at its ends. -/
def bodyText (unit : String) (body : Option String) : String :=
  let body := trimmed (body.getD "")
  if body.isEmpty then "\x7b\x7d" else braced unit body

/-- A head with lines between braces below it. -/
def withLines (head unit : String) (members : List String) : String :=
  if members.isEmpty then head ++ " \x7b\x7d\n"
  else head ++ " " ++ braced unit (String.intercalate "\n" members) ++ "\n"

/-! ### Members -/

/-- A parameter. -/
def Parameter.print (d : Dialect) (p : Parameter) : String :=
  textIf p.rest "..." ++ p.name ++
    textIf d.isTyped (textIf (p.optional && p.default.isNone) "?" ++ textOf p.type (": " ++ ·)) ++
    textOf p.default fun v => " = " ++ v.compact

/-- Parameters in round brackets. -/
def paramsText (d : Dialect) (ps : List Parameter) : String :=
  "(" ++ String.intercalate ", " (ps.map (Parameter.print d)) ++ ")"

/-- The type behind the parameters. -/
def returnText (d : Dialect) (type : Option String) : String := textIf d.isTyped (textOf type (": " ++ ·))

/-- The access in front of a member. -/
def accessText (d : Dialect) (access : Option Access) : String :=
  textIf d.isTyped (textOf access fun a => a.keyword ++ " ")

/-- A method of a class. -/
def Method.print (s : Style) (m : Method) : String :=
  accessText s.dialect m.access ++ textIf m.isStatic "static " ++ textIf m.isAsync "async " ++ m.name ++
    paramsText s.dialect m.params ++ returnText s.dialect m.returnType ++ " " ++ bodyText s.unit m.body

/-- A method of an interface. -/
def Method.signature (m : Method) : String :=
  m.name ++ paramsText .typescript m.params ++ ": " ++ m.returnType.getD "void" ++ ";"

/-- A field of a class. -/
def ClassField.print (d : Dialect) (f : ClassField) : String :=
  accessText d f.access ++ textIf f.isStatic "static " ++ textIf (d.isTyped && f.isReadonly) "readonly " ++ f.name ++
    textIf d.isTyped (textIf f.optional "?" ++ textOf f.type (": " ++ ·)) ++
    (textOf f.value fun v => " = " ++ v.compact) ++ ";"

/-- A property of an interface. -/
def InterfaceProperty.print (p : InterfaceProperty) : String :=
  textIf p.isReadonly "readonly " ++ p.name ++ textIf p.optional "?" ++ ": " ++ p.type.getD "any" ++ ";"

/-- A member of an enum. -/
def EnumMember.print (m : EnumMember) : String := m.name ++ (textOf m.value fun v => " = " ++ v.compact) ++ ","

/-! ### Declarations -/

/-- What an import binds. -/
def Import.bindings (i : Import) : List String :=
  i.default.toList ++ (i.space.toList.map ("* as " ++ ·)) ++
    if i.names.isEmpty then [] else ["\x7b " ++ String.intercalate ", " i.names ++ " \x7d"]

/-- An import. -/
def Import.print (i : Import) : String :=
  if i.bindings.isEmpty then "import '" ++ i.source ++ "';"
  else "import " ++ String.intercalate ", " i.bindings ++ " from '" ++ i.source ++ "';"

/-- A list behind a keyword, if the list is not empty. -/
def clauseText (keyword : String) (names : List String) : String :=
  if names.isEmpty then "" else " " ++ keyword ++ " " ++ String.intercalate ", " names

/-- The head of a class. -/
def Class.head (d : Dialect) (c : Class) : String :=
  exportText c.exported c.exportedAsDefault ++ textIf (d.isTyped && c.isAbstract) "abstract " ++ "class " ++ c.name ++
    textOf c.parent (" extends " ++ ·) ++ textIf d.isTyped (clauseText "implements" c.interfaces)

/-- The constructor that stores its parameters. -/
def Class.constructorText (s : Style) (c : Class) (params : List Parameter) : String :=
  let body := (if c.parent.isSome then ["super();"] else []) ++
    params.map fun p => "this." ++ p.name ++ " = " ++ p.name ++ ";"
  "constructor" ++ paramsText s.dialect params ++ " " ++ bodyText s.unit (some (String.intercalate "\n" body))

/-- The parts of the body of a class: the fields, the constructor, the methods. -/
def Class.sections (s : Style) (c : Class) : List String :=
  (if c.fields.isEmpty then [] else [String.intercalate "\n" (c.fields.map (ClassField.print s.dialect))]) ++
    c.constructorParams.toList.map (c.constructorText s) ++ c.methods.map (Method.print s)

/-- A class. -/
def Class.print (s : Style) (c : Class) : String :=
  if (c.sections s).isEmpty then c.head s.dialect ++ " \x7b\x7d\n"
  else
    c.head s.dialect ++ " \x7b\n" ++
      String.intercalate "\n\n" ((c.sections s).map fun part => indentText part s.unit) ++ "\n\x7d\n"

/-- A function. -/
def Function.print (s : Style) (f : Function) : String :=
  exportText f.exported f.exportedAsDefault ++ textIf f.isAsync "async " ++ "function " ++ f.name ++
    paramsText s.dialect f.params ++ returnText s.dialect f.returnType ++ " " ++ bodyText s.unit f.body ++ "\n"

/-- A constant. -/
def Constant.print (d : Dialect) (c : Constant) : String :=
  exportText c.exported false ++ "const " ++ c.name ++ returnText d c.type ++ " = " ++ c.value.compact ++ ";"

/-- Lines that belong together, unless there are none. -/
def linesSection (ls : List String) : List String := if ls.isEmpty then [] else [String.intercalate "\n" ls]

/-- The parts of a module: the imports, the constants, the functions, the default export. -/
def Module.sections (s : Style) (m : Module) : List String :=
  linesSection (m.imports.map Import.print) ++ linesSection (m.constants.map (Constant.print s.dialect)) ++
    m.functions.map (fun f => trimmedEnd (f.print s)) ++
    m.defaultExport.toList.map fun name => "export default " ++ name ++ ";"

/-- A module. -/
def Module.print (s : Style) (m : Module) : String :=
  if (m.sections s).isEmpty then "" else String.intercalate "\n\n" (m.sections s) ++ "\n"

/-- An interface. -/
def Interface.print (s : Style) (i : Interface) : String :=
  withLines (exportText i.exported false ++ "interface " ++ i.name ++ clauseText "extends" i.parents) s.unit
    (i.properties.map InterfaceProperty.print ++ i.methods.map Method.signature)

/-- Another name for a type; semicolons behind the definition are dropped. -/
def TypeAlias.print (t : TypeAlias) : String :=
  let params := if t.typeParams.isEmpty then "" else "<" ++ String.intercalate ", " t.typeParams ++ ">"
  let definition := dropWhileEnd (· == ';') (trim t.definition.toList)
  exportText t.exported false ++ "type " ++ t.name ++ params ++ " = " ++ String.ofList definition ++ ";\n"

/-- An enum. -/
def Enum.print (s : Style) (e : Enum) : String :=
  withLines (exportText e.exported false ++ textIf e.isConst "const " ++ "enum " ++ e.name) s.unit
    (e.members.map EnumMember.print)

end Codewright.Script
