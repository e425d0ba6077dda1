/-!
# JSON values

Objects keep the order of their keys. A number is kept as it is written, with one exception: its exponent always has
the letter `e` and a sign.

* `Entries.get?`, `Entries.put`, `Entries.erase` – the entries of an object; a key that is put again keeps its place;
* `Json.typeName`, `Json.depth`, `Json.keyCount` – what a document is made of;
* `Json.merge` – the deep merge of two objects.
-/

namespace Codewright

/-- A JSON value. -/
inductive Json where
  | null
  | bool (value : Bool)
  | number (text : String)
  | string (value : String)
  | array (items : List Json)
  | object (entries : List (String × Json))
deriving Repr, Inhabited

namespace Json

/-- The entries of an object in their order. -/
abbrev Entries := List (String × Json)

namespace Entries

/-- The keys in their order. -/
def keys (es : Entries) : List String := es.map (·.1)

/-- The value of a key. -/
def get? (key : String) : Entries → Option Json
  | [] => none
  | (k, v) :: es => if k = key then some v else get? key es

/-- The entries with one value set: in the place of the key, or at the end if the key is new. -/
def put (key : String) (value : Json) : Entries → Entries
  | [] => [(key, value)]
  | (k, v) :: es => if k = key then (k, value) :: es else (k, v) :: put key value es

/-- The entries without a key. -/
def erase (key : String) : Entries → Entries
  | [] => []
  | (k, v) :: es => if k = key then es else (k, v) :: erase key es

/-- Entries from pairs in which a key may come several times: its first place and its last value count. -/
def ofPairs (pairs : List (String × Json)) : Entries := pairs.foldl (fun es p => put p.1 p.2 es) []

end Entries

/-- The number `n`. -/
def ofNat (n : Nat) : Json := .number (toString n)

/-- A text, or null. -/
def ofOption (s : Option String) : Json := s.elim .null .string

/-- A list of texts. -/
def ofStrings (s : List String) : Json := .array (s.map .string)

/-- The value of a key, if the value is an object that has it. -/
def get? (key : String) : Json → Option Json
  | .object es => Entries.get? key es
  | _ => none

/-- The text under a key of an object. -/
def textAt? (key : String) (v : Json) : Option String :=
  match v.get? key with
  | some (.string s) => some s
  | _ => none

/-- The word for a kind of value. -/
def typeName : Json → String
  | .null => "null"
  | .bool _ => "boolean"
  | .number _ => "number"
  | .string _ => "string"
  | .array _ => "array"
  | .object _ => "object"

mutual

/-- How deep the containers nest; zero for a scalar. -/
def depth : Json → Nat
  | .array items => 1 + depthOfItems items
  | .object es => 1 + depthOfEntries es
  | _ => 0

/-- The greatest depth of the items. -/
def depthOfItems : List Json → Nat
  | [] => 0
  | v :: vs => max v.depth (depthOfItems vs)

/-- The greatest depth of the values of the entries. -/
def depthOfEntries : Entries → Nat
  | [] => 0
  | (_, v) :: es => max v.depth (depthOfEntries es)

end

mutual

/-- How many keys the objects of a value have together. -/
def keyCount : Json → Nat
  | .array items => keyCountOfItems items
  | .object es => keyCountOfEntries es
  | _ => 0

/-- The keys of all items. -/
def keyCountOfItems : List Json → Nat
  | [] => 0
  | v :: vs => v.keyCount + keyCountOfItems vs

/-- The keys of the entries, their own and those of their values. -/
def keyCountOfEntries : Entries → Nat
  | [] => 0
  | (_, v) :: es => 1 + v.keyCount + keyCountOfEntries es

end

mutual

/-- The value a key has after a merge with a new value: two objects merge, all else is replaced. -/
def mergeValue (old : Option Json) : Json → Json
  | .object patch =>
    match old with
    | some (.object es) => .object (merge es patch)
    | _ => .object patch
  | new => new

/-- The entries of one object overlaid with those of another, key by key. -/
def merge (target : Entries) : Entries → Entries
  | [] => target
  | (k, v) :: patch => merge (Entries.put k (mergeValue (Entries.get? k target) v) target) patch

end

end Json

end Codewright
