import Codewright.Php.Tree
import Codewright.Php.Operator
import Codewright.Php.Leaf
import Codewright.Php.Grammar.Stream

/-!
# Parts that expressions, statements and members share

Expressions contain statements (in closures) and statements contain expressions. A `Grammar` names the readers by
which the productions refer to one another; every production is a plain definition over a grammar, and the knot is
tied in one place.

A type is a name, a name behind a question mark, names with bars between them, or names with ampersands between them;
names joined by ampersands may stand in parentheses wherever a name may. In front of a parameter an ampersand is
part of the type only if a name or a parenthesis follows.

* `typeHint`, `returnType`, `nameList` – types;
* `Grammar` – readers of expressions of at least some binding strength, of operands, and of statements;
* `block`, `statementsUntil` – lists of statements, with the comments between them;
* `attributes`, `params`, `addModifier` – what stands around the name of a function;
* `args`, `definitions`, `varItems` – lists with commas.
-/

namespace Codewright.Php.Parse

/-- Reads a name or a type in parentheses, which may be nested at most `n` deep. -/
def typeAtomUpTo : Nat → Parse TypeHint
  | 0 => failWith .tooDeep
  | n + 1 => do
    if ← tryToken .openParen then
      let first ← typeAtomUpTo n
      let rest ← behind (tryToken .amp) (typeAtomUpTo n)
      let _ ← expect .closeParen
      return .intersection (first :: rest)
    else return .named (← expectIdent "type")

/-- Reads a name or a type in parentheses. -/
def typeAtom : Parse TypeHint := do
  typeAtomUpTo ((← get).unread + 1)

/-- Reads the ampersand of an intersection. -/
def tryIntersection : Parse Bool := do
  let s ← get
  if s.at_ .amp && (s.hasAt 1 .ident || s.hasAt 1 .openParen) then tryToken .amp else return false

/-- Reads a type. -/
def typeHint : Parse TypeHint := do
  if ← tryToken .question then return .nullable (← typeAtom)
  else
    let first ← typeAtom
    let alternatives ← behind (tryToken .pipe) typeAtom
    if alternatives.isEmpty then
      let parts ← behind tryIntersection typeAtom
      if parts.isEmpty then return first else return .intersection (first :: parts)
    else return .union (first :: alternatives)

/-- Reads a type behind a colon, if there is one. -/
def returnType : Parse (Option TypeHint) := afterToken .colon typeHint

/-- Reads names with commas between them. -/
def nameList (what : String) : Parse (List Name) := commaList (expectIdent what)

end Codewright.Php.Parse

namespace Codewright.Php

open Source

/-- The readers that the productions refer to. -/
structure Grammar where
  /-- An expression whose operators bind at least as tightly as the level says. -/
  expr : Level → Parse Expr
  /-- An operand: prefix operators, a primary expression, and what follows it. -/
  operand : Parse Expr
  /-- A primary expression. -/
  primary : Parse Expr
  /-- A statement. -/
  stmt : Parse Stmt

namespace Stream

/-- The word may stand in front of `class`. -/
def isClassModifier (t : Token) : Bool :=
  t.isKeyword "abstract" || t.isKeyword "final" || t.isKeyword "readonly"

/-- A class declaration begins here. -/
def atClass (s : Stream) : Bool :=
  match s.tokens.dropWhile isClassModifier with
  | t :: u :: _ => t.isKeyword "class" && u.kind == .ident
  | _ => false

/-- The declaration of a named function begins here. -/
def atFunction (s : Stream) : Bool :=
  s.atKeyword "function" && (s.hasAt 1 .ident || (s.hasAt 1 .amp && s.hasAt 2 .ident))

/-- A declaration begins here, to which the doc comment in front belongs. -/
def atDeclaration (s : Stream) : Bool :=
  s.at_ .attributeGroup || s.atClass || (s.atAnyKeyword ["interface", "trait", "enum"] && s.hasAt 1 .ident) ||
    s.atFunction

/-- The declaration of a namespace begins here. -/
def atNamespace (s : Stream) : Bool :=
  s.atKeyword "namespace" && (s.hasAt 1 .ident || s.hasAt 1 .semicolon || s.hasAt 1 .openBrace)

end Stream

namespace Parse

/-- Takes the comments due before the next statement. A doc comment that belongs to no declaration is one of them. -/
def leadingComments : Parse (List Stmt) := do
  let comments ← takeComments
  let doc ← if (← get).atDeclaration then pure none else takeDoc
  return (comments ++ doc.toList).map .comment

/-- The tokens that stand between statements and mean nothing there. -/
def fillers : List TokenKind := [.openTag, .closeTag, .semicolon]

/-- Reads attribute groups as they are written. -/
def attributes : Parse (List String) :=
  collect do
    if (← get).at_ .attributeGroup then return ([(← advance).text], true) else return ([], false)

/-- The next token is a modifier that cannot stand here. -/
def failModifier {α : Type} (reason : String) : Parse α := do
  failWith (.invalidModifier (← get).peek.text reason)

/-- Adds the modifier that comes next: one that is there already, or a second visibility, is an error. -/
def addModifier (m : Modifiers) (flag : Modifier) : Parse Modifiers := do
  if m.includes (.single flag) then failModifier "repeated modifier"
  else if flag.isVisibility && m.hasVisibility then
    failModifier "multiple access type modifiers are not allowed"
  else
    let _ ← advance
    return m.union (.single flag)

/-- The modifier among `flags` whose keyword comes next. -/
def nextModifier? (flags : List Modifier) (s : Stream) : Option Modifier := flags.find? fun f => s.atKeyword f.keyword

end Parse

namespace Grammar

open Parse

variable (g : Grammar)

/-- Reads an expression with any operators. -/
def anyExpr : Parse Expr := g.expr .wordOr

/-- Reads an expression that ends before the operators spelled as words. -/
def assignmentExpr : Parse Expr := g.expr .assignment

/-- Reads at least one expression, with commas between them. -/
def exprList : Parse (List Expr) := commaList g.anyExpr

/-- Reads an initial value, if there is one. -/
def initialValue : Parse (Option Expr) := afterToken .assign g.anyExpr

/-- Reads statements up to a closing brace or one of the keywords, which are left. -/
def statementsUntil (stops : List String) : Parse (List Stmt) :=
  collect do
    skipAll fillers
    let comments ← leadingComments
    let s ← get
    if s.at_ .closeBrace || s.atAnyKeyword stops then return (comments, false)
    else if s.atEnd then failExpected "'\x7d'"
    else return (comments ++ [← g.stmt], true)

/-- Reads statements in braces. -/
def block : Parse (List Stmt) := enclosedBy .openBrace .closeBrace (g.statementsUntil [])

/-- Reads an argument: three dots alone, or a value, perhaps spread or named. -/
def arg : Parse (Node .arg) := do
  let s ← get
  if s.at_ .ellipsis && s.hasAt 1 .closeParen then
    let _ ← advance
    return .arg none .callablePlaceholder false
  else
    let spread ← tryToken .ellipsis
    let s ← get
    if !spread && s.at_ .ident && s.hasAt 1 .colon then
      let name := (← advance).text
      let _ ← advance
      return .arg (some name) (← g.anyExpr) false
    else return .arg none (← g.anyExpr) spread

/-- Reads arguments in parentheses. -/
def args : Parse (List (Node .arg)) := enclosedBy .openParen .closeParen (commaListUntil .closeParen g.arg)

/-- Reads arguments in parentheses, if there are any. -/
def optionalArgs : Parse (List (Node .arg)) := do
  if (← get).at_ .openParen then g.args else return []

/-- Reads a parameter. -/
def param : Parse (Node .param) := do
  let attributes ← Parse.attributes
  let promoted ← refine (fun m => do
    match nextModifier? [.pub, .prot, .priv, .readonly] (← get) with
    | some flag => return some (← addModifier m flag)
    | none => return none) Modifiers.none
  let s ← get
  let type ←
    if s.at_ .variable || s.at_ .amp || s.at_ .ellipsis then pure none
    else some <$> typeHint
  let byRef ← tryToken .amp
  let variadic ← tryToken .ellipsis
  let name ← expectVariable
  let default ← g.initialValue
  return .param ⟨name, type, byRef, variadic, promoted, attributes⟩ (.ofOption default)

/-- Reads parameters in parentheses. -/
def params : Parse (List (Node .param)) := enclosedBy .openParen .closeParen (commaListUntil .closeParen g.param)

/-- Reads named values with commas between them. -/
def definitions : Parse (List (Node .definition)) :=
  commaList do
    let name ← expectIdent "constant name"
    let _ ← expect .assign
    return .definition name (← g.anyExpr)

/-- Reads variables, perhaps with initial values, with commas between them. -/
def varItems : Parse (List (Node .varItem)) :=
  commaList do
    let name ← expectVariable
    return .varItem name (.ofOption (← g.initialValue))

end Grammar

end Codewright.Php
