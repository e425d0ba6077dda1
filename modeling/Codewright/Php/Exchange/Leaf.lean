import Codewright.Json.Basic
import Codewright.Php.Tree
import Codewright.Source.Diagnostic

/-!
# Leaves as JSON

The exchange form of names, types, literals, operators and spans. A value of an enumeration is its tag; a value with
parts is an object whose only key is the tag; a record is an object with a key for every field.

* `tagged`, `record`, `tagOf` – how values with a tag are written;
* `typeJson`, `literalJson` and the like – the leaves, one function each.
-/

namespace Codewright.Php.Exchange

open Source

/-- A tag with its content. -/
def tagged (tag : String) (content : Json) : Json := .object [(tag, content)]

/-- A tag with a record. -/
def record (tag : String) (fields : List (String × Json)) : Json := tagged tag (.object fields)

/-- The tag of a value of an enumeration, by a table of all values. -/
def tagOf {α : Type} [BEq α] (table : List (α × String)) (a : α) : Json :=
  .string (((table.find? fun p => p.1 == a).map (·.2)).getD "")

/-! ### Tables of tags -/

def binaryTags : List (BinaryOp × String) := [
  (.boolOr, "BooleanOr"), (.boolAnd, "BooleanAnd"), (.wordOr, "LogicalOr"), (.wordAnd, "LogicalAnd"),
  (.wordXor, "LogicalXor"), (.bitOr, "BitwiseOr"), (.bitXor, "BitwiseXor"), (.bitAnd, "BitwiseAnd"),
  (.equal, "Equal"), (.notEqual, "NotEqual"), (.identical, "Identical"), (.notIdentical, "NotIdentical"),
  (.spaceship, "Spaceship"), (.less, "Less"), (.lessEqual, "LessOrEqual"), (.greater, "Greater"),
  (.greaterEqual, "GreaterOrEqual"), (.shiftLeft, "ShiftLeft"), (.shiftRight, "ShiftRight"), (.concat, "Concat"),
  (.add, "Add"), (.sub, "Sub"), (.mul, "Mul"), (.div, "Div"), (.mod, "Mod"), (.pow, "Pow"), (.coalesce, "Coalesce")]

def assignTags : List (AssignOp × String) := [
  (.assign, "Assign"), (.add, "Add"), (.sub, "Sub"), (.mul, "Mul"), (.div, "Div"), (.mod, "Mod"), (.pow, "Pow"),
  (.concat, "Concat"), (.bitAnd, "BitwiseAnd"), (.bitOr, "BitwiseOr"), (.bitXor, "BitwiseXor"),
  (.shiftLeft, "ShiftLeft"), (.shiftRight, "ShiftRight"), (.coalesce, "Coalesce")]

def unaryTags : List (UnaryOp × String) := [
  (.not, "Not"), (.neg, "Neg"), (.pos, "Pos"), (.bitNot, "BitwiseNot")]

def stepTags : List (StepOp × String) := [
  (.preInc, "PreInc"), (.preDec, "PreDec"), (.postInc, "PostInc"), (.postDec, "PostDec")]

def castTags : List (CastType × String) := [
  (.int, "Int"), (.float, "Float"), (.string, "String"), (.bool, "Bool"), (.array, "Array"), (.object, "Object")]

def includeTags : List (IncludeKind × String) := [
  (.includes, "Include"), (.includesOnce, "IncludeOnce"), (.requires, "Require"), (.requiresOnce, "RequireOnce")]

def importTags : List (ImportKind × String) := [(.normal, "Normal"), (.function, "Function"), (.const, "Const")]

def visibilityTags : List (Visibility × String) := [(.pub, "public"), (.prot, "protected"), (.priv, "private")]

/-! ### Records -/

/-- A span as JSON. -/
def spanJson (s : Span) : Json := .object [("start", .ofNat s.start), ("end", .ofNat s.stop)]

/-- A diagnostic as JSON. -/
def diagnosticJson (d : Diagnostic) : Json :=
  .object [("severity", .string d.severity.label), ("message", .string d.message), ("span", spanJson d.span),
    ("hint", .ofOption d.hint)]

/-- A set of modifiers as JSON. -/
def modifiersJson (m : Modifiers) : Json := .ofNat m.bits

/-- A literal as JSON. -/
def literalJson : Literal → Json
  | .null => .string "Null"
  | .bool b => tagged "Bool" (.bool b)
  | .int text => tagged "Int" (.string text)
  | .float text => tagged "Float" (.string text)
  | .string text => tagged "String" (.string text)

mutual

/-- A type declaration as JSON. -/
def typeJson : TypeHint → Json
  | .named name => tagged "Named" (.string name)
  | .nullable inner => tagged "Nullable" (typeJson inner)
  | .union parts => tagged "Union" (.array (typesJson parts))
  | .intersection parts => tagged "Intersection" (.array (typesJson parts))

/-- Type declarations as JSON. -/
def typesJson : List TypeHint → List Json
  | [] => []
  | t :: ts => typeJson t :: typesJson ts

end

/-- An optional type declaration as JSON. -/
def optTypeJson : Option TypeHint → Json
  | none => .null
  | some t => typeJson t

/-- An import as JSON. -/
def importJson (i : Import) : Json := .object [("name", .string i.name), ("alias", .ofOption i.rename)]

/-- A captured variable as JSON. -/
def captureJson (c : Capture) : Json := .object [("name", .string c.name), ("by_ref", .bool c.byRef)]

/-- A rule for the methods of traits as JSON. -/
def adaptationJson : Adaptation → Json
  | .precedence traitName method insteadOf =>
    record "Precedence" [("trait_name", .string traitName), ("method", .string method),
      ("instead_of", .ofStrings insteadOf)]
  | .rename traitName method visibility newName =>
    record "Alias" [("trait_name", .ofOption traitName), ("method", .string method),
      ("visibility", visibility.elim .null (tagOf visibilityTags)), ("alias", .ofOption newName)]

/-- The doc comment and the attributes of a declaration, as fields. -/
def leadFields (doc : Option String) (attributes : List String) : List (String × Json) :=
  [("doc_comment", .ofOption doc), ("attributes", .ofStrings attributes)]

end Codewright.Php.Exchange
