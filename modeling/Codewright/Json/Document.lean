import Codewright.Json.Parse
import Codewright.Json.Text
import Codewright.Language.Options

/-!
# JSON documents

A document is changed as a value and written again with the indentation that its source uses.

* `Document.create` – a document from options;
* `Document.edit` – a source after some operations;
* `Document.Summary` – what a document consists of.
-/

namespace Codewright.Document

open Text Json

/-- The indentation of a document when nothing says otherwise. -/
def usualIndent : String := "    "

/-- The text of a document: its value on several lines, and a line feed. -/
def print (unit : String) (v : Json) : String := v.pretty unit ++ "\n"

/-- The spaces and tabs at the start of a line, if there are any and something else follows. -/
def lineUnit? (line : List Char) : Option String :=
  let unit := line.takeWhile fun c => c == ' ' || c == '\t'
  if unit.isEmpty || line.all isSpace then none else some (String.ofList unit)

/-- The indentation of the first indented line behind the first line. -/
def detectIndent (source : String) : String :=
  (((lines source.toList).drop 1).findSome? lineUnit?).getD usualIndent

/-- The indentation that options ask for: a number of spaces. -/
def indentOption : Option Json → Except CraftError String
  | none | some .null => .ok usualIndent
  | some (.number text) =>
    match digitsValue? text.toList with
    | some n => .ok (String.ofList (List.replicate n ' '))
    | none => .error (.invalidOptions .badIndent)
  | some _ => .error (.invalidOptions .badIndent)

/-- Makes a document. -/
def create (options : Json) : Except CraftError String :=
  match options.get? "data" with
  | none => .error (.invalidOptions .noData)
  | some data => do return print (← indentOption (options.get? "indent")) data

/-! ### Operations -/

/-- A path and a value for it. -/
structure PathValue where
  path : String := ""
  value : Json := .null

/-- The fields of a path with a value. -/
def PathValue.record : Record PathValue where
  name := "PathValue"
  blank := {}
  fields := [
    .required "path" .string fun v s => { s with path := v },
    .required "value" .any fun v s => { s with value := v }]

/-- The fields of a path alone. -/
def pathRecord : Record String where
  name := "PathOnly"
  blank := ""
  fields := [.required "path" .string fun v _ => v]

/-- The fields of a value alone. -/
def valueRecord : Record Json where
  name := "MergeValue"
  blank := .null
  fields := [.required "value" .any fun v _ => v]

/-- The segments of a path. -/
def segmentsOf (path : String) : Except CraftError (List String) :=
  match segments? path with
  | some segments => .ok segments
  | none => .error (.invalidOptions (.badPath path))

/-- A path error as an obstacle. -/
def followed {α : Type} (result : Except PathError α) : Except CraftError α :=
  result.mapError fun why => .operationFailed (.path why)

/-- The document merged with a value; both have to be objects. -/
def mergeWith (patch : Json) (v : Json) : Except CraftError Json :=
  match v, patch with
  | .object es, .object new => .ok (.object (merge es new))
  | _, _ => .error (.operationFailed .notObjects)

/-- Does one operation on a document. -/
def editOne (v : Json) (operation : Json) : Except CraftError Json := do
  match ← operationTag operation with
  | "set" =>
    let o ← readOptions PathValue.record operation
    followed (v.set (← segmentsOf o.path) o.value)
  | "remove" =>
    let path ← readOptions pathRecord operation
    return v.remove (← segmentsOf path)
  | "merge" =>
    let patch ← readOptions valueRecord operation
    mergeWith patch v
  | "push" =>
    let o ← readOptions PathValue.record operation
    followed (v.push (← segmentsOf o.path) o.value)
  | other => .error (.unknownOperation "json" other)

/-- The value that a source holds. -/
def read (source : String) : Except CraftError Json :=
  match Json.parse? source with
  | some v => .ok v
  | none => .error .notJson

/-- A source after some operations. -/
def edit (source : String) (operations : List Json) : Except CraftError String := do
  let v ← editWith editOne (← read source) operations
  return print (detectIndent source) v

/-! ### Summary -/

/-- What a document consists of. -/
structure Summary where
  rootType : String
  topLevelKeys : List String
  maxDepth : Nat
  keyCount : Nat
deriving DecidableEq, Repr

/-- The keys of an object. -/
def keysOf : Json → List String
  | .object es => es.map (·.1)
  | _ => []

/-- The summary of a document. -/
def Summary.ofValue (v : Json) : Summary := ⟨v.typeName, keysOf v, v.depth, v.keyCount⟩

/-- The entries of a summary. -/
def Summary.fields (s : Summary) : Entries :=
  [("root_type", .string s.rootType), ("top_level_keys", .ofStrings s.topLevelKeys), ("max_depth", .ofNat s.maxDepth),
    ("key_count", .ofNat s.keyCount)]

end Codewright.Document
