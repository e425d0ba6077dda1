import Codewright.Language.Error

/-!
# Options and operations

What the languages share in reading options and operations: `readOptions` reads a record, `operationTag` the type of
an operation, and `editWith` does several operations one after the other.
-/

namespace Codewright

open Json

/-- Reads a record of options. -/
def readOptions {α : Type} (record : Record α) (j : Json) : Except CraftError α :=
  (record.decode j).mapError fun why => .invalidOptions (.misfit why)

/-- The type of an operation. -/
def operationTag (operation : Json) : Except CraftError String :=
  match operation.textAt? "type" with
  | some tag => .ok tag
  | none => .error (.invalidOptions .noOperationType)

/-- Does operations one after the other; the first failure ends the whole. -/
def editWith {α : Type} (edit : α → Json → Except CraftError α) : α → List Json → Except CraftError α
  | state, [] => .ok state
  | state, operation :: operations => do editWith edit (← edit state operation) operations

end Codewright
