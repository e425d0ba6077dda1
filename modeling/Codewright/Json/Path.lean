import Codewright.Json.Numeral
import Codewright.Text.Lines

/-!
# Paths into JSON values

A path is a list of segments, written with dots between them. A segment is a key of an object or an index of an
array; an index that is the length of the array means a new item.

* `segments?` – a path from its text;
* `Json.update` – the value at a path replaced by a function of it, with all that is missing on the way created;
  `Json.set` and `Json.push` are made from it;
* `Json.remove` – the value at a path taken away; a path that leads nowhere changes nothing.
-/

namespace Codewright

open Text

namespace Json

/-- Why a path cannot be followed, or a value not be put at its end. -/
inductive PathError where
  | notAnIndex (segment : String)
  | pastEnd (index length : Nat)
  | cannotDescend (type segment : String)
  | cannotPush (type : String)
deriving DecidableEq, Repr

/-- The wording of a path error. -/
def PathError.message : PathError → String
  | notAnIndex segment => "'" ++ segment ++ "' is not an array index"
  | pastEnd index length =>
    "index " ++ toString index ++ " is past the end of an array of length " ++ toString length
  | cannotDescend type segment => "cannot descend into " ++ type ++ " at '" ++ segment ++ "'"
  | cannotPush type => "cannot push onto " ++ type

/-- The segments of a path; none of them may be empty. -/
def segments? (path : String) : Option (List String) :=
  let parts := piecesOf '.' path
  if parts.any String.isEmpty then none else some parts

/-- Sizes and indices are below this bound. -/
def sizeBound : Nat := UInt64.size

/-- The number that decimal digits denote, if it is below the bound on sizes. -/
def digitsValue? (cs : List Char) : Option Nat :=
  if !cs.isEmpty && cs.all Char.isDigit then
    if decimalValue cs < sizeBound then some (decimalValue cs) else none
  else none

/-- The index that a segment denotes: digits, perhaps with a plus in front of them. -/
def index? (segment : String) : Option Nat :=
  match segment.toList with
  | '+' :: cs => digitsValue? cs
  | cs => digitsValue? cs

/-- The index that a segment denotes in an array of this length, its end included. -/
def indexIn (segment : String) (length : Nat) : Except PathError Nat :=
  match index? segment with
  | none => .error (.notAnIndex segment)
  | some i => if i ≤ length then .ok i else .error (.pastEnd i length)

/-- The entries of an object; null counts as an object without entries. -/
def asEntries? : Json → Option Entries
  | .object es => some es
  | .null => some []
  | _ => none

/-- The items with one value set, in its place or at the end. -/
def putItem (i : Nat) (v : Json) (items : List Json) : List Json :=
  if i < items.length then items.set i v else items ++ [v]

/-- The value with `f` applied at a path. On the way, what is missing is null, and null becomes an object. -/
def update (f : Json → Except PathError Json) : List String → Json → Except PathError Json
  | [], v => f v
  | segment :: path, .array items => do
    let i ← indexIn segment items.length
    let child ← update f path (items[i]?.getD .null)
    return .array (putItem i child items)
  | segment :: path, v =>
    match v.asEntries? with
    | some es => do
      let child ← update f path ((Entries.get? segment es).getD .null)
      return .object (Entries.put segment child es)
    | none => .error (.cannotDescend v.typeName segment)

/-- The value with `new` at a path. -/
def set (v : Json) (path : List String) (new : Json) : Except PathError Json := update (fun _ => .ok new) path v

/-- The array `v` with `new` behind its items; null counts as an empty array. -/
def pushItem (new : Json) : Json → Except PathError Json
  | .array items => .ok (.array (items ++ [new]))
  | .null => .ok (.array [new])
  | v => .error (.cannotPush v.typeName)

/-- The value with `new` behind the items of the array at a path. -/
def push (v : Json) (path : List String) (new : Json) : Except PathError Json := update (pushItem new) path v

/-- The value of a segment. -/
def child? (segment : String) : Json → Option Json
  | .object es => Entries.get? segment es
  | .array items => (index? segment).bind fun i => items[i]?
  | _ => none

/-- The value with another value for a segment that it has. -/
def withChild (v : Json) (segment : String) (new : Json) : Json :=
  match v with
  | .object es => .object (Entries.put segment new es)
  | .array items =>
    match index? segment with
    | some i => .array (items.set i new)
    | none => .array items
  | v => v

/-- The value without a segment, if it has it. -/
def removeChild (segment : String) : Json → Json
  | .object es => .object (Entries.erase segment es)
  | .array items =>
    match index? segment with
    | some i => .array (items.eraseIdx i)
    | none => .array items
  | v => v

/-- The value without what stands at a path. -/
def remove : List String → Json → Json
  | [], v => v
  | [segment], v => v.removeChild segment
  | segment :: path, v =>
    match v.child? segment with
    | some child => v.withChild segment (remove path child)
    | none => v

end Json

end Codewright
