import Codewright.Json.Basic
import Codewright.Json.Written

/-!
# Reading JSON

`Json.parse?` reads a text that holds one value, with containers that nest at most 127 deep. A key that comes several
times keeps its first place and has its last value. An object whose first key is `numberKey` has no other entry; it
stands for the number that is written in the string under this key.
-/

namespace Codewright.Json

/-- How deep containers may nest. -/
def maxDepth : Nat := 127

/-- The key under which an object holds the text of a number. -/
def numberKey : String := "$serde_json::private::Number"

/-- The number that a text consists of. -/
def numberOfText? (text : String) : Option Json :=
  match numberText text.toList with
  | some (spelling, []) => some (.number spelling)
  | _ => none

/-- The number that the entries of an object stand for: there is one entry, with the text of the number. -/
def numberOfEntries? : List (Option String × Written) → Option Json
  | [(_, .string text)] => numberOfText? text
  | _ => none

/-- The object stands for a number. -/
def isNumberObject (es : List (Option String × Written)) : Bool := es.head?.any (·.1 == some numberKey)

mutual

/-- The value that is written. -/
def ofWritten? : Written → Option Json
  | .null => some .null
  | .bool b => some (.bool b)
  | .number text => some (.number text)
  | .string s => some (.string s)
  | .array vs => (itemsOfWritten? vs).map .array
  | .object es =>
    if isNumberObject es then numberOfEntries? es
    else (entriesOfWritten? es).map fun ps => .object (Entries.ofPairs ps)
  | .unreadable => none

/-- The items that are written. -/
def itemsOfWritten? : List Written → Option (List Json)
  | [] => some []
  | v :: vs => do return (← ofWritten? v) :: (← itemsOfWritten? vs)

/-- The keys and values that are written. -/
def entriesOfWritten? : List (Option String × Written) → Option (List (String × Json))
  | [] => some []
  | (key, v) :: es => do return (← key, ← ofWritten? v) :: (← entriesOfWritten? es)

end

/-- The value that a text holds. -/
def parse? (text : String) : Option Json := (Written.parseUpTo? maxDepth text).bind ofWritten?

end Codewright.Json
