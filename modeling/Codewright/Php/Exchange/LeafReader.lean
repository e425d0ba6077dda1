import Codewright.Json.Written
import Codewright.Php.Exchange.Leaf

/-!
# Reading the exchange form

A tag stands alone, or it is the only key of an object that holds the content of the tag. A record is an object or an
array. In an object the fields come in any order, none of them twice, an optional one may be left out, and keys that no
field has are skipped. In an array there is an item for every field, in the order of the fields.

* `untag`, `isAlone` – values with a tag;
* `FieldReader` – a reader of the fields of a record, one after the other; `required` and `optional` read one of them;
* `record?` – a whole record;
* `span?`, `modifiers?`, `literal?`, `typeUpTo?` and the like – the readers of spans, literals, types and other leaves.
-/

namespace Codewright.Php.Exchange

open Json (Written)

/-! ### Values without parts -/

/-- A text. -/
def string? : Written → Option String
  | .string s => some s
  | _ => none

/-- A truth value. -/
def bool? : Written → Option Bool
  | .bool b => some b
  | _ => none

/-- A natural number below a bound. -/
def natBelow? (bound : Nat) : Written → Option Nat
  | .number text => text.toNat?.filter (· < bound)
  | _ => none

/-- An array whose items can all be read. -/
def list? {α : Type} (read : Written → Option α) : Written → Option (List α)
  | .array items => items.mapM read
  | _ => none

/-- Null, or a value that can be read. -/
def option? {α : Type} (read : Written → Option α) : Written → Option (Option α)
  | .null => some none
  | w => (read w).map some

/-! ### Values with a tag -/

/-- The tag of a value, and its content unless the tag stands alone. -/
def untag : Written → Option (String × Option Written)
  | .string tag => some (tag, none)
  | .object [(some tag, content)] => some (tag, some content)
  | _ => none

/-- The tag has no content. -/
def isAlone : Option Written → Bool
  | none => true
  | some .null => true
  | some _ => false

/-- The value of an enumeration with a tag, by a table of all values. -/
def ofTag? {α : Type} (table : List (α × String)) (w : Written) : Option α := do
  let (tag, content) ← untag w
  if isAlone content then (table.find? fun p => p.2 == tag).map (·.1) else none

/-! ### Records -/

/-- The fields of a record that are still to be read. -/
inductive Fields where
  | byPosition (items : List Written)
  | byName (entries : List (String × Written))

/-- The fields of a record. -/
def Fields.of? : Written → Option Fields
  | .array items => some (.byPosition items)
  | .object entries => do return .byName (← entries.mapM fun e => do return (← e.1, e.2))
  | _ => none

/-- No field is left over. -/
def Fields.areRead : Fields → Bool
  | .byPosition items => items.isEmpty
  | .byName _ => true

/-- A reader of fields, in their order. -/
abbrev FieldReader (α : Type) := StateT Fields Option α

/-- The value of the next field; `missing` if it is left out by name. -/
def takeField (name : String) (missing : Option Written) : FieldReader Written
  | .byPosition [] => none
  | .byPosition (v :: vs) => some (v, .byPosition vs)
  | .byName entries =>
    match entries.filter (·.1 == name) with
    | [] => missing.map (·, .byName entries)
    | [e] => some (e.2, .byName entries)
    | _ => none

/-- A field that has to be there. -/
def required {α : Type} (name : String) (read : Written → Option α) : FieldReader α := do
  read (← takeField name none)

/-- A field that may be left out, or null. -/
def optional {α : Type} (name : String) (read : Written → Option α) : FieldReader (Option α) := do
  option? read (← takeField name (some .null))

/-- A record, all fields of which are read. -/
def record? {α : Type} (fields : FieldReader α) (w : Written) : Option α := do
  let (a, rest) ← fields.run (← Fields.of? w)
  if rest.areRead then some a else none

end Codewright.Php.Exchange

namespace Codewright.Php.Exchange

open Source
open Json (Written)

/-- A span. -/
def span? : Written → Option Span :=
  record? do return ⟨← required "start" (natBelow? UInt64.size), ← required "end" (natBelow? UInt64.size)⟩

/-- A set of modifiers. -/
def modifiers? (w : Written) : Option Modifiers := (natBelow? 256 w).map .ofBits

/-- A literal. -/
def literal? (w : Written) : Option Literal := do
  match ← untag w with
  | ("Null", content) => if isAlone content then some .null else none
  | ("Bool", some c) => (bool? c).map .bool
  | ("Int", some c) => (string? c).map .int
  | ("Float", some c) => (string? c).map .float
  | ("String", some c) => (string? c).map .string
  | _ => none

/-- A type declaration that nests at most `n` deep. -/
def typeUpTo? : Nat → Written → Option TypeHint
  | 0, _ => none
  | n + 1, w => do
    match ← untag w with
    | ("Named", some c) => (string? c).map .named
    | ("Nullable", some c) => (typeUpTo? n c).map .nullable
    | ("Union", some c) => (list? (typeUpTo? n) c).map .union
    | ("Intersection", some c) => (list? (typeUpTo? n) c).map .intersection
    | _ => none

/-- An import. -/
def import? : Written → Option Import :=
  record? do return ⟨← required "name" string?, ← optional "alias" string?⟩

/-- A captured variable. -/
def capture? : Written → Option Capture :=
  record? do return ⟨← required "name" string?, ← required "by_ref" bool?⟩

/-- A rule for the methods of traits. -/
def adaptation? (w : Written) : Option Adaptation := do
  match ← untag w with
  | ("Precedence", some c) =>
    record? (do
      return .precedence (← required "trait_name" string?) (← required "method" string?)
        (← required "instead_of" (list? string?))) c
  | ("Alias", some c) =>
    record? (do
      return .rename (← optional "trait_name" string?) (← required "method" string?)
        (← optional "visibility" (ofTag? visibilityTags)) (← optional "alias" string?)) c
  | _ => none

/-- The doc comment of a declaration. -/
def docField : FieldReader (Option String) := optional "doc_comment" string?

/-- The attributes of a declaration. -/
def attributesField : FieldReader (List String) := required "attributes" (list? string?)

end Codewright.Php.Exchange
