import Codewright.Php.Modifiers
import Codewright.Source.Span

/-!
# The leaves of the syntax tree of PHP

Names, type declarations, literals, operators, and the heads of declarations: all that a tree holds beside further
trees. Literals and attributes keep their source text.
-/

namespace Codewright.Php

open Source

/-- A name, perhaps qualified, as written. -/
abbrev Name := String

namespace Name

/-- The name begins at the root of the namespaces. -/
def isFullyQualified (n : Name) : Bool := n.toList.head? == some '\\'

/-- What follows the last backslash. -/
def lastSegment (n : Name) : String :=
  String.ofList (n.toList.reverse.takeWhile (· != '\\')).reverse

end Name

/-- A type declaration. -/
inductive TypeHint where
  | named (name : Name)
  | nullable (inner : TypeHint)
  | union (parts : List TypeHint)
  | intersection (parts : List TypeHint)
deriving Repr, Inhabited

/-- A literal. Numbers and strings are kept as written, strings with their quotes. -/
inductive Literal where
  | null
  | bool (value : Bool)
  | int (text : String)
  | float (text : String)
  | string (text : String)
deriving DecidableEq, Repr, Inhabited

/-- A string in single quotes: only quotes and backslashes are escaped in it. -/
def Literal.ofText (s : String) : Literal :=
  .string ("'" ++
    String.join (s.toList.map fun c => if c = '\\' || c = '\'' then "\\" ++ c.toString else c.toString) ++ "'")

/-- Operators between two operands. -/
inductive BinaryOp where
  | boolOr | boolAnd | wordOr | wordAnd | wordXor | bitOr | bitXor | bitAnd
  | equal | notEqual | identical | notIdentical | spaceship | less | lessEqual | greater | greaterEqual
  | shiftLeft | shiftRight | concat | add | sub | mul | div | mod | pow | coalesce
deriving DecidableEq, Repr, Inhabited

/-- What an assignment does with the old value. -/
inductive AssignOp where
  | assign | add | sub | mul | div | mod | pow | concat | bitAnd | bitOr | bitXor | shiftLeft | shiftRight | coalesce
deriving DecidableEq, Repr, Inhabited

/-- Operators in front of one operand. -/
inductive UnaryOp where
  | not | neg | pos | bitNot
deriving DecidableEq, Repr, Inhabited

/-- Increment and decrement, before or after the operand. -/
inductive StepOp where
  | preInc | preDec | postInc | postDec
deriving DecidableEq, Repr, Inhabited

/-- The types a value can be cast to. -/
inductive CastType where
  | int | float | string | bool | array | object
deriving DecidableEq, Repr, Inhabited

/-- The ways to read in another file. -/
inductive IncludeKind where
  | includes | includesOnce | requires | requiresOnce
deriving DecidableEq, Repr, Inhabited

/-- A variable that a closure captures. -/
structure Capture where
  name : String
  byRef : Bool
deriving DecidableEq, Repr, Inhabited

/-- What an import brings in. -/
inductive ImportKind where
  | normal | function | const
deriving DecidableEq, Repr, Inhabited

/-- An imported name, perhaps under another one. -/
structure Import where
  name : Name
  rename : Option String
deriving DecidableEq, Repr, Inhabited

/-- How a class-like declaration takes over the methods of its traits. -/
inductive Adaptation where
  /-- The method of one trait is taken instead of those of others. -/
  | precedence (traitName : Name) (method : String) (insteadOf : List Name)
  /-- A method gets another visibility, another name, or both. -/
  | rename (traitName : Option Name) (method : String) (visibility : Option Visibility) (newName : Option String)
deriving DecidableEq, Repr, Inhabited

/-- What tells the class-like declarations apart. -/
inductive ClassKind where
  | cls (modifiers : Modifiers) (parent : Option Name) (interfaces : List Name)
  | iface (parents : List Name)
  | trait
  | enum (backing : Option TypeHint) (interfaces : List Name)
deriving Repr, Inhabited

/-- The head of a class, interface, trait or enum. An anonymous class has an empty name. -/
structure ClassDecl where
  kind : ClassKind
  name : String
  doc : Option String
  attributes : List String
  span : Span
deriving Repr, Inhabited

/-- The head of a named function. -/
structure FunctionDecl where
  name : String
  byRef : Bool
  returnType : Option TypeHint
  doc : Option String
  attributes : List String
  span : Span
deriving Repr, Inhabited

/-- The head of a closure or an arrow function; an arrow function captures nothing by name. -/
structure ClosureDecl where
  isStatic : Bool
  byRef : Bool
  captures : List Capture
  returnType : Option TypeHint
deriving Repr, Inhabited

/-- A parameter but for its default value. -/
structure ParamDecl where
  name : String
  type : Option TypeHint
  byRef : Bool
  variadic : Bool
  /-- The modifiers of a parameter that is a property as well; none if it is not. -/
  promoted : Modifiers
  attributes : List String
deriving Repr, Inhabited

/-- The head of a method. -/
structure MethodDecl where
  name : String
  modifiers : Modifiers
  byRef : Bool
  returnType : Option TypeHint
  doc : Option String
  attributes : List String
  span : Span
deriving Repr, Inhabited

/-- The head of a property declaration. -/
structure PropertyDecl where
  modifiers : Modifiers
  type : Option TypeHint
  doc : Option String
  attributes : List String
  span : Span
deriving Repr, Inhabited

/-- The head of a constant declaration in a class. -/
structure ConstDecl where
  modifiers : Modifiers
  doc : Option String
  attributes : List String
deriving Repr, Inhabited

/-- The head of a case of an enum. -/
structure CaseDecl where
  name : String
  doc : Option String
  attributes : List String
deriving Repr, Inhabited

end Codewright.Php
