import Codewright.Json.Parse
import Codewright.Php.Exchange.LeafReader

/-!
# Trees from JSON

* `Node.ofWritten?`, `File.ofWritten?` – the tree and the file that have a given exchange form.

What is read nests at most 127 deep; what is skipped may nest deeper.
-/

namespace Codewright.Php

open Source
open Json (Written maxDepth)

namespace Exchange

/-- A type declaration. A type takes a container for every other type that it is a part of. -/
def type? (w : Written) : Option TypeHint := typeUpTo? (maxDepth + 1) w

/-- A reader of the trees of every category. -/
abbrev TreeReader := (c : Category) → Written → Option (Node c)

/-- What a part of this category is if it is left out: null if it is optional. -/
def missingPart : Category → Option Written
  | .opt _ => some .null
  | _ => none

/-- A field that holds a tree, given a reader of trees. -/
def part (read : TreeReader) (c : Category) (name : String) : FieldReader (Node c) := do
  read c (← takeField name (missingPart c))

variable (read : TreeReader)

/-- The kind of a class-like declaration with this tag, given its name; its fields stand between the name and the
members. -/
def kindFields (tag : String) : FieldReader ClassKind :=
  match tag with
  | "Class" => do
    return .cls (← required "modifiers" modifiers?) (← optional "extends" string?)
      (← required "implements" (list? string?))
  | "Interface" => do return .iface (← required "extends" (list? string?))
  | "Trait" => return .trait
  | "Enum" => do return .enum (← optional "backing" type?) (← required "implements" (list? string?))
  | _ => failure

/-- The head and the members of a class-like declaration with this tag. -/
def classFields (tag : String) : FieldReader (ClassDecl × Members) := do
  let name ← required "name" string?
  let kind ← kindFields tag
  let members ← part read (.list .member) "members"
  return (⟨kind, name, ← docField, ← attributesField, ← required "span" span?⟩, members)

/-- A closure. -/
def closureFields : FieldReader Expr := do
  let isStatic ← required "is_static" bool?
  let byRef ← required "by_ref" bool?
  let params ← part read (.list .param) "params"
  let captures ← required "uses" (list? capture?)
  let returnType ← optional "return_type" type?
  return .closure ⟨isStatic, byRef, captures, returnType⟩ params (← part read (.list .stmt) "body")

/-- An arrow function. -/
def arrowFields : FieldReader Expr := do
  let isStatic ← required "is_static" bool?
  let byRef ← required "by_ref" bool?
  let params ← part read (.list .param) "params"
  let returnType ← optional "return_type" type?
  return .arrowFn ⟨isStatic, byRef, [], returnType⟩ params (← part read .expr "body")

/-- The fields of an expression with this tag. -/
def exprFields (tag : String) : FieldReader Expr :=
  let part (c : Category) (name : String) : FieldReader (Node c) := part read c name
  match tag with
  | "Array" => do return .array (← part (.list .item) "items") (← required "short" bool?)
  | "ClassConstFetch" => do return .classConstant (← part .expr "class") (← required "name" string?)
  | "StaticPropertyFetch" => do return .staticProperty (← part .expr "class") (← required "name" string?)
  | "PropertyFetch" => do
    return .propertyFetch (← part .expr "object") (← part .memberName "name") (← required "nullsafe" bool?)
  | "MethodCall" => do
    return .methodCall (← part .expr "object") (← part .memberName "name") (← part (.list .arg) "args")
      (← required "nullsafe" bool?)
  | "StaticCall" => do
    return .staticCall (← part .expr "class") (← part .memberName "name") (← part (.list .arg) "args")
  | "Call" => do return .call (← part .expr "callee") (← part (.list .arg) "args")
  | "New" => do return .new (← part .expr "class") (← part (.list .arg) "args")
  | "AnonymousClass" => do
    let args ← part (.list .arg) "args"
    let (decl, members) ← required "class" (record? (classFields read "Class"))
    return .anonymousClass args decl members
  | "Index" => do return .subscript (← part .expr "value") (← part (.opt .expr) "index")
  | "Assign" => do
    return .assign (← part .expr "target") (← required "op" (ofTag? assignTags)) (← part .expr "value")
  | "AssignRef" => do return .assignRef (← part .expr "target") (← part .expr "value")
  | "Binary" => do
    return .binary (← required "op" (ofTag? binaryTags)) (← part .expr "left") (← part .expr "right")
  | "Unary" => do return .unary (← required "op" (ofTag? unaryTags)) (← part .expr "expr")
  | "IncDec" => do return .incDec (← required "op" (ofTag? stepTags)) (← part .expr "expr")
  | "Cast" => do return .cast (← required "kind" (ofTag? castTags)) (← part .expr "expr")
  | "Ternary" => do
    return .ternary (← part .expr "cond") (← part (.opt .expr) "then") (← part .expr "otherwise")
  | "Instanceof" => do return .instanceOf (← part .expr "expr") (← part .expr "class")
  | "Closure" => closureFields read
  | "ArrowFn" => arrowFields read
  | "Match" => do return .matchExpr (← part .expr "subject") (← part (.list .arm) "arms")
  | "Yield" => do return .yield (← part (.opt .expr) "key") (← part (.opt .expr) "value")
  | "Include" => do return .includeExpr (← required "kind" (ofTag? includeTags)) (← part .expr "expr")
  | _ => failure

/-- An expression, given a reader of its parts. -/
def expr? (w : Written) : Option Expr := do
  match ← untag w with
  | ("VariadicPlaceholder", content) => if isAlone content then some .callablePlaceholder else none
  | ("Variable", some c) => return .variable (← string? c)
  | ("VariableVariable", some c) => return .variableVariable (← read .expr c)
  | ("Literal", some c) => return .literal (← literal? c)
  | ("Name", some c) => return .nameRef (← string? c)
  | ("ConstFetch", some c) => return .constantRef (← string? c)
  | ("Isset", some c) => return .isset (← read (.list .expr) c)
  | ("Empty", some c) => return .emptyCheck (← read .expr c)
  | ("Clone", some c) => return .clone (← read .expr c)
  | ("Print", some c) => return .print (← read .expr c)
  | ("Throw", some c) => return .throwExpr (← read .expr c)
  | ("YieldFrom", some c) => return .yieldFrom (← read .expr c)
  | ("ErrorSuppress", some c) => return .suppress (← read .expr c)
  | ("Paren", some c) => return .paren (← read .expr c)
  | (tag, some c) => record? (exprFields read tag) c
  | (_, none) => none

/-- A function. -/
def functionFields : FieldReader Stmt := do
  let name ← required "name" string?
  let byRef ← required "by_ref" bool?
  let params ← part read (.list .param) "params"
  let returnType ← optional "return_type" type?
  let body ← part read (.list .stmt) "body"
  return .function ⟨name, byRef, returnType, ← docField, ← attributesField, ← required "span" span?⟩ params body

/-- The fields of a statement with this tag. -/
def stmtFields (tag : String) : FieldReader Stmt :=
  let part (c : Category) (name : String) : FieldReader (Node c) := part read c name
  let body := part (.list .stmt) "body"
  match tag with
  | "Namespace" => do
    return .namespaceDecl (← optional "name" string?) (← part (.list .stmt) "stmts") (← required "braced" bool?)
      (← required "span" span?)
  | "Use" => do return .useDecl (← required "kind" (ofTag? importTags)) (← required "items" (list? import?))
  | "DeclareBlock" => do return .declareBlock (← part (.list .directive) "directives") (← body)
  | "Class" | "Interface" | "Trait" | "Enum" => do
    let (decl, members) ← classFields read tag
    return .classLike decl members
  | "Function" => functionFields read
  | "If" => do
    return .ifStmt (← part .expr "cond") (← part (.list .stmt) "then") (← part (.list .elseIf) "elseifs")
      (← part (.opt (.list .stmt)) "otherwise")
  | "While" => do return .whileStmt (← part .expr "cond") (← body)
  | "DoWhile" => do return .doWhile (← body) (← part .expr "cond")
  | "For" => do
    return .forStmt (← part (.list .expr) "init") (← part (.list .expr) "cond") (← part (.list .expr) "step")
      (← body)
  | "Foreach" => do
    return .foreach (← part .expr "subject") (← part (.opt .expr) "key") (← part .expr "value")
      (← required "by_ref" bool?) (← body)
  | "Switch" => do return .switchStmt (← part .expr "subject") (← part (.list .switchCase) "cases")
  | "Try" => do
    return .tryStmt (← body) (← part (.list .catchClause) "catches") (← part (.opt (.list .stmt)) "finally")
  | _ => failure

/-- A statement, given a reader of its parts. -/
def stmt? (w : Written) : Option Stmt := do
  match ← untag w with
  | ("Nop", content) => if isAlone content then some .nop else none
  | ("Declare", some c) => return .declare (← read (.list .directive) c)
  | ("Const", some c) => return .constDecl (← read (.list .definition) c)
  | ("Expr", some c) => return .exprStmt (← read .expr c)
  | ("Echo", some c) => return .echo (← read (.list .expr) c)
  | ("Return", some c) => return .returnStmt (← read (.opt .expr) c)
  | ("Break", some c) => return .breakStmt (← read (.opt .expr) c)
  | ("Continue", some c) => return .continueStmt (← read (.opt .expr) c)
  | ("Throw", some c) => return .throwStmt (← read .expr c)
  | ("Block", some c) => return .block (← read (.list .stmt) c)
  | ("Global", some c) => return .global (← list? string? c)
  | ("Static", some c) => return .staticVars (← read (.list .varItem) c)
  | ("Unset", some c) => return .unset (← read (.list .expr) c)
  | ("Goto", some c) => return .goto (← string? c)
  | ("Label", some c) => return .label (← string? c)
  | ("InlineHtml", some c) => return .inlineHtml (← string? c)
  | ("Comment", some c) => return .comment (← string? c)
  | (tag, some c) => record? (stmtFields read tag) c
  | (_, none) => none

/-- A method. -/
def methodFields : FieldReader Member := do
  let name ← required "name" string?
  let modifiers ← required "modifiers" modifiers?
  let byRef ← required "by_ref" bool?
  let params ← part read (.list .param) "params"
  let returnType ← optional "return_type" type?
  let body ← part read (.opt (.list .stmt)) "body"
  return .method ⟨name, modifiers, byRef, returnType, ← docField, ← attributesField, ← required "span" span?⟩
    params body

/-- The fields of a member with this tag. -/
def memberFields (tag : String) : FieldReader Member :=
  match tag with
  | "TraitUse" => do
    return .traitUse (← required "traits" (list? string?)) (← required "adaptations" (list? adaptation?))
  | "Const" => do
    let modifiers ← required "modifiers" modifiers?
    let items ← part read (.list .definition) "items"
    return .classConst ⟨modifiers, ← docField, ← attributesField⟩ items
  | "Property" => do
    let modifiers ← required "modifiers" modifiers?
    let type ← optional "ty" type?
    let items ← part read (.list .varItem) "props"
    return .property ⟨modifiers, type, ← docField, ← attributesField, ← required "span" span?⟩ items
  | "Method" => methodFields read
  | "Case" => do
    let name ← required "name" string?
    let value ← part read (.opt .expr) "value"
    return .enumCase ⟨name, ← docField, ← attributesField⟩ value
  | _ => failure

/-- A member, given a reader of its parts. -/
def member? (w : Written) : Option Member := do
  match ← untag w with
  | ("Comment", some c) => return .memberComment (← string? c)
  | (tag, some c) => record? (memberFields read tag) c
  | (_, none) => none

/-- A member name, given a reader of its parts. -/
def memberName? (w : Written) : Option (Node .memberName) := do
  match ← untag w with
  | ("Ident", some c) => return .ident (← string? c)
  | ("Expr", some c) => return .computed (← read .expr c)
  | _ => none

/-- A parameter. -/
def paramFields : FieldReader (Node .param) := do
  let name ← required "name" string?
  let type ← optional "ty" type?
  let default ← part read (.opt .expr) "default"
  return .param ⟨name, type, ← required "by_ref" bool?, ← required "variadic" bool?,
    ← required "promoted" modifiers?, ← attributesField⟩ default

/-- The fields of a tree that is a record without a tag. -/
def plainFields (c : Category) : FieldReader (Node c) :=
  let part (c : Category) (name : String) : FieldReader (Node c) := part read c name
  let name := required "name" string?
  let body := part (.list .stmt) "body"
  match c with
  | .param => paramFields read
  | .item => do
    return .item (← part (.opt .expr) "key") (← part .expr "value") (← required "by_ref" bool?)
      (← required "spread" bool?)
  | .arg => do
    return .arg (← optional "name" string?) (← part .expr "value") (← required "spread" bool?)
  | .arm => do return .arm (← part (.opt (.list .expr)) "conditions") (← part .expr "body")
  | .directive => do return .directive (← name) (← part .expr "value")
  | .definition => do return .definition (← name) (← part .expr "value")
  | .varItem => do return .varItem (← name) (← part (.opt .expr) "default")
  | .elseIf => do return .elseIf (← part .expr "cond") (← body)
  | .switchCase => do return .switchCase (← part (.opt .expr) "test") (← body)
  | .catchClause => do
    return .catchClause (← required "types" (list? string?)) (← optional "var" string?) (← body)
  | _ => failure

/-- A tree of any category but for lists and optional parts, given a reader of its parts. -/
def tree? (c : Category) (w : Written) : Option (Node c) :=
  match c with
  | .expr => expr? read w
  | .stmt => stmt? read w
  | .member => member? read w
  | .memberName => memberName? read w
  | c => record? (plainFields read c) w

/-- Trees, lists of trees and optional trees that nest at most `n` deep. -/
def treeUpTo? : Nat → TreeReader
  | 0, _, _ => none
  | n + 1, .list c, w => (list? (treeUpTo? n c) w).map .ofList
  | n + 1, .opt c, w => (option? (treeUpTo? n c) w).map .ofOption
  | n + 1, c, w => tree? (treeUpTo? n) c w

/-- Trees, read from values whose containers nest at most as deep as they may. A tree takes at least a container for
every two trees that it is a part of. -/
def readTree : TreeReader := treeUpTo? (2 * maxDepth + 2)

end Exchange

open Exchange

/-- The tree with an exchange form. -/
def Node.ofWritten? (c : Category) (w : Written) : Option (Node c) := readTree c (w.shallow maxDepth)

/-- The file with an exchange form. -/
def File.ofWritten? (w : Written) : Option File :=
  record? (do return ⟨← part readTree (.list .stmt) "stmts", ← required "span" span?⟩) (w.shallow maxDepth)

end Codewright.Php
