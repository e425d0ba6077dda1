import Codewright.Language.Options
import Codewright.Script.Printer
import Codewright.Script.Shape

/-!
# Changing and making scripts

Changes are put into the text of a script; all that they do not concern stays as it is.

* `create` – a script from options, by their `type`;
* `addMethod`, `addImport`, `replaceText`, `addProperty` – the changes;
* `editOne` – an operation read from JSON and done;
* `revise`, `verdict` – the same, and whether a script is well formed, unless the program stops at a slash.
-/

namespace Codewright.Script

open Text Json

/-- Makes a script. -/
def create (s : Style) (options : Json) : Except CraftError String :=
  match (options.textAt? "type").getD "class", s.dialect with
  | "class", _ => do return (← readOptions Class.record options).print s
  | "function", _ => do return (← readOptions Function.record options).print s
  | "module", .javascript => do return (← readOptions Module.record options).print s
  | "interface", .typescript => do return (← readOptions Interface.record options).print s
  | "type", .typescript => do return (← readOptions TypeAlias.record options).print
  | "enum", .typescript => do return (← readOptions Enum.record options).print s
  | other, d => .error (.unknownType d.name other)

/-! ### Operations -/

/-- A method for a class; without a name, for the first class. -/
structure MethodAddition where
  cls : Option String := none
  method : Method := {}

/-- The fields of a method for a class. -/
def MethodAddition.record : Record MethodAddition where
  name := "AddMethod"
  blank := {}
  fields := [
    .optional "class" (.nullable .string) fun v s => { s with cls := v },
    .required "method" Method.record.decode fun v s => { s with method := v }]

/-- The fields of a text for the end of a script. -/
def contentRecord : Record String where
  name := "Append"
  blank := ""
  fields := [.required "content" .string fun v _ => v]

/-- A text to look for, and another one for its place. -/
structure Replacement where
  search : String := ""
  replacement : String := ""

/-- The fields of a replacement. -/
def Replacement.record : Record Replacement where
  name := "Replace"
  blank := {}
  fields := [
    .required "search" .string fun v s => { s with search := v },
    .required "replace" .string fun v s => { s with replacement := v }]

/-- A property for an interface or a class. -/
structure PropertyAddition where
  iface : Option String := none
  cls : Option String := none
  property : Json := .null

/-- The fields of a property for an interface or a class. -/
def PropertyAddition.record : Record PropertyAddition where
  name := "AddProperty"
  blank := {}
  fields := [
    .optional "interface" (.nullable .string) fun v s => { s with iface := v },
    .optional "class" (.nullable .string) fun v s => { s with cls := v },
    .required "property" .any fun v s => { s with property := v }]

/-! ### Changes -/

/-- The block with a name; without a name, the first one. -/
def findBlock (blocks : List Block) (name : Option String) (kind : String) : Except CraftError Block :=
  match name with
  | some name =>
    match blocks.find? fun b => b.name == name with
    | some b => .ok b
    | none => .error (.operationFailed (.notFound kind name))
  | none =>
    match blocks with
    | b :: _ => .ok b
    | [] => .error (.operationFailed (.noneFound kind))

/-- The unit of indentation that a block uses, or else the given one. -/
def unitIn (text : List Char) (b : Block) (unit : String) : String :=
  ((bodyIndent? text b.opening b.closing).map String.ofList).getD unit

/-- A source with a method at the end of a class. -/
def addMethod (s : Style) (source : String) (o : MethodAddition) : Except CraftError String := do
  let r := Reading.ofText source.toList
  let block ← findBlock (r.blocks Shape.cls) o.cls "class"
  let s := { s with unit := unitIn r.text block s.unit }
  return String.ofList
    (insertLast r.text block.opening block.closing (o.method.print s).toList s.unit.toList true)

/-- Where the last top-level import of a reading ends. -/
def lastImportEnd? (r : Reading) : Option Nat := (r.topLevel Shape.importing).getLast?.map (·.stop)

/-- A source with an import behind the last one, or at the start. -/
def addImport (source : String) (i : Import) : Except CraftError String :=
  if isBlankText i.source then .error (.invalidOptions .noImportSource)
  else
    let r := Reading.ofText source.toList
    let line := i.print.toList
    match lastImportEnd? r with
    | some stop =>
      let place := stop + ((r.text.drop stop).takeWhile (· != '\n')).length
      .ok (String.ofList (r.text.take place ++ '\n' :: line ++ r.text.drop place))
    | none =>
      if isBlankList r.text then .ok (String.ofList (line ++ ['\n']))
      else .ok (String.ofList (line ++ '\n' :: '\n' :: r.text.dropWhile (· == '\n')))

/-- A source with a text behind its content. -/
def append (source content : String) : String := String.ofList (appendBlock source.toList content.toList)

/-- A source with every occurrence of a text replaced. -/
def replaceText (source : String) (o : Replacement) : Except CraftError String :=
  if o.search.isEmpty then .error (.invalidOptions .noSearchText)
  else if contains o.search source then .ok (replaceAll o.search o.replacement source)
  else .error (.operationFailed (.textNotFound o.search))

/-- A source with a property at the end of an interface or at the start of a class. -/
def addProperty (s : Style) (source : String) (o : PropertyAddition) : Except CraftError String := do
  let r := Reading.ofText source.toList
  match o.iface, o.cls with
  | some name, none =>
    let property ← readOptions InterfaceProperty.record o.property
    let block ← findBlock (r.blocks Shape.iface) (some name) "interface"
    let unit := unitIn r.text block s.unit
    return String.ofList (insertLast r.text block.opening block.closing property.print.toList unit.toList true)
  | none, some name =>
    let property ← readOptions ClassField.record o.property
    let block ← findBlock (r.blocks Shape.cls) (some name) "class"
    let unit := unitIn r.text block s.unit
    return String.ofList
      (insertFirst r.text block.opening block.closing (property.print s.dialect).toList unit.toList)
  | _, _ => .error (.invalidOptions .noSingleTarget)

/-- Does one operation on a script. -/
def editOne (s : Style) (source : String) (operation : Json) : Except CraftError String := do
  match ← operationTag operation, s.dialect with
  | "add_method", _ => addMethod s source (← readOptions MethodAddition.record operation)
  | "add_import", _ => addImport source (← readOptions Import.record operation)
  | "append", _ => return append source (← readOptions contentRecord operation)
  | "replace", _ => replaceText source (← readOptions Replacement.record operation)
  | "add_property", .typescript => addProperty s source (← readOptions PropertyAddition.record operation)
  | other, d => .error (.unknownOperation d.name other)

/-- The brackets of a source nest outside of its quoted parts and comments. -/
def isValid (source : String) : Bool :=
  match mask .script source.toList with
  | .ok cells => bracketsBalanced (cells.map Cell.face)
  | .error _ => false

/-! ### Slashes that stop the program -/

/-- The program stops when it masks the source. -/
def stops (source : String) : Bool := maskCuts .script source.toList

/-- The operation looks for structure in the source, which it does once its options are read. -/
def looksForStructure (s : Style) (operation : Json) : Bool :=
  match operation.textAt? "type", s.dialect with
  | some "add_method", _ => (readOptions MethodAddition.record operation).isOk
  | some "add_import", _ => (readOptions Import.record operation).toOption.any fun i => !isBlankText i.source
  | some "add_property", .typescript => (readOptions PropertyAddition.record operation).isOk
  | _, _ => false

/-- Does one operation on a script, unless the program stops. -/
def revise (s : Style) (source : String) (operation : Json) : Except CraftError String :=
  if looksForStructure s operation && stops source then .error .stopped else editOne s source operation

/-- Whether a script is well formed, unless the program stops. -/
def verdict (source : String) : Except CraftError Bool :=
  if stops source then .error .stopped else .ok (isValid source)

end Codewright.Script
