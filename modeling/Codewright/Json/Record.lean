import Codewright.Json.Numeral
import Codewright.Text.Quoted

/-!
# Records read from JSON

A `Record` describes how a JSON value is read as a structure: by field names from an object, or by position from an
array. Fields are read in the order of the value, and the first one that does not fit decides the answer; only then
is a field missed. Keys that no field has are skipped.

* `Misfit` – why a value does not fit, with its wording `Misfit.message`;
* `Decoder` – readers of values; `Decoder.string`, `Decoder.list` and the like are the plain ones;
* `Field`, `Record`, `Record.decode` – the readers of structures.
-/

namespace Codewright

open Text

namespace Json

/-- Why a value does not fit what is expected. -/
inductive Misfit where
  | missing (field : String)
  | duplicate (field : String)
  | wrongType (found expected : String)
  | wrongValue (found expected : String)
  | wrongLength (length : Nat) (expected : String)
  | unknownVariant (found : String) (known : List String)
  | noVariant (type : String)
deriving DecidableEq, Repr

/-- A word in backticks. -/
def ticked (s : String) : String := "`" ++ s ++ "`"

/-- The wording of a misfit. -/
def Misfit.message : Misfit → String
  | missing field => "missing field " ++ ticked field
  | duplicate field => "duplicate field " ++ ticked field
  | wrongType found expected => "invalid type: " ++ found ++ ", expected " ++ expected
  | wrongValue found expected => "invalid value: " ++ found ++ ", expected " ++ expected
  | wrongLength length expected => "invalid length " ++ toString length ++ ", expected " ++ expected
  | unknownVariant found known =>
    "unknown variant " ++ ticked found ++ ", expected one of " ++ String.intercalate ", " (known.map ticked)
  | noVariant type => "data did not match any variant of untagged enum " ++ type

/-- How a message shows a value of the wrong kind. -/
def shown : Json → String
  | .null => "null"
  | .bool true => "boolean `true`"
  | .bool false => "boolean `false`"
  | .number _ => "number"
  | .string s => "string " ++ quoted s
  | .array _ => "sequence"
  | .object _ => "map"

/-- A reader of values. -/
abbrev Decoder (α : Type) := Json → Except Misfit α

namespace Decoder

/-- A value of the wrong kind. -/
def wrongType {α : Type} (j : Json) (expected : String) : Except Misfit α :=
  .error (.wrongType j.shown expected)

/-- Any value, with its numerals in plain form. -/
def any : Decoder Json := fun j => .ok j.plain

/-- A text. -/
def string : Decoder String
  | .string s => .ok s
  | j => wrongType j "a string"

/-- A truth value. -/
def bool : Decoder Bool
  | .bool b => .ok b
  | j => wrongType j "a boolean"

/-- A list of values that fit. -/
def list {α : Type} (decode : Decoder α) : Decoder (List α)
  | .array items => items.mapM decode
  | j => wrongType j "a sequence"

/-- The entries of an object, with their numerals in plain form. -/
def entries : Decoder Entries
  | .object es => .ok (plainEntries es)
  | j => wrongType j "a map"

/-- Null, or a value that fits. -/
def nullable {α : Type} (decode : Decoder α) : Decoder (Option α)
  | .null => .ok none
  | j => (decode j).map some

/-- A value that is there, null included. -/
def present : Decoder (Option Json) := fun j => (any j).map some

/-- One of some words. -/
def wordOf {α : Type} (table : List (String × α)) (word : String) : Except Misfit α :=
  match table.find? fun entry => entry.1 == word with
  | some entry => .ok entry.2
  | none => .error (.unknownVariant word (table.map (·.1)))

/-- One of some words, alone or as the only key of an object with the value null. -/
def oneOf {α : Type} (table : List (String × α)) : Decoder α
  | .string word => wordOf table word
  | .object [(word, value)] => do
    let a ← wordOf table word
    match value with
    | .null => return a
    | _ => wrongType value "unit"
  | .object _ => .error (.wrongValue "map" "map with a single key")
  | j => wrongType j "string or map"

end Decoder

/-- When a field has to be there. -/
inductive Need where
  /-- In every record. -/
  | always
  /-- Only in a record that is given by position. -/
  | byPosition
  | never
deriving DecidableEq, Repr

/-- A field of a structure `σ`: its name, its second name, and how its value is put into the structure. -/
structure Field (σ : Type) where
  name : String
  otherName : Option String := none
  need : Need := .never
  put : Json → σ → Except Misfit σ

namespace Field

variable {σ α : Type}

/-- A field that may be left out. -/
def optional (name : String) (decode : Decoder α) (put : α → σ → σ) : Field σ :=
  { name, put := fun j s => (decode j).map (put · s) }

/-- A field that has to be there. -/
def required (name : String) (decode : Decoder α) (put : α → σ → σ) : Field σ :=
  { optional name decode put with need := .always }

/-- A field that may be left out of an object, but not of an array. -/
def optionalByName (name : String) (decode : Decoder α) (put : α → σ → σ) : Field σ :=
  { optional name decode put with need := .byPosition }

/-- The same field with a second name. -/
def orNamed (f : Field σ) (other : String) : Field σ := { f with otherName := some other }

/-- The key names the field. -/
def hasKey (f : Field σ) (key : String) : Bool := f.name == key || f.otherName == some key

end Field

/-- How a value is read as a structure `σ`: its name, its fields, and the structure before any of them is read. -/
structure Record (σ : Type) where
  name : String
  fields : List (Field σ)
  blank : σ

namespace Record

variable {σ : Type}

/-- Puts the entries of an object into a structure; `seen` holds the names of the fields read before. -/
def readEntries (r : Record σ) : Entries → List String → σ → Except Misfit (List String × σ)
  | [], seen, s => .ok (seen, s)
  | (key, value) :: es, seen, s =>
    match r.fields.find? fun f => f.hasKey key with
    | none => readEntries r es seen s
    | some f =>
      if seen.contains f.name then .error (.duplicate f.name)
      else (f.put value s).bind fun s => readEntries r es (f.name :: seen) s

/-- What the structure is called in messages. -/
def title (r : Record σ) : String := "struct " ++ r.name

/-- What the structure is called where the number of its fields matters. -/
def titleWithSize (r : Record σ) : String :=
  r.title ++ " with " ++ if r.fields.length = 1 then "1 element" else toString r.fields.length ++ " elements"

/-- Puts the items of an array of `size` items into a structure, of which the first `i` fields are filled. -/
def readItems (r : Record σ) (size : Nat) : Nat → List (Field σ) → List Json → σ → Except Misfit σ
  | _, [], [], s => .ok s
  | _, [], _ :: _, _ => .error (.wrongLength size "fewer elements in array")
  | i, f :: fs, [], s =>
    if f.need = .never then readItems r size (i + 1) fs [] s else .error (.wrongLength i r.titleWithSize)
  | i, f :: fs, v :: vs, s => (f.put v s).bind fun s => readItems r size (i + 1) fs vs s

/-- Reads a structure. -/
def decode (r : Record σ) : Decoder σ
  | .object es => do
    let (seen, s) ← r.readEntries es [] r.blank
    match r.fields.find? fun f => f.need = .always && !seen.contains f.name with
    | some f => .error (.missing f.name)
    | none => return s
  | .array items => r.readItems items.length 0 r.fields items r.blank
  | j => Decoder.wrongType j r.title

end Record

end Json

end Codewright
