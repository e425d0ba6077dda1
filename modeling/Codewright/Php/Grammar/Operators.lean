import Codewright.Php.Grammar.Operands

/-!
# Reading operators

Operators are read by precedence climbing: `operatorExpr min` reads an operand and then every operator that binds at
least as tightly as `min`, each with a right operand that binds more tightly, or equally tightly where chains of the
operator group to the right. An assignment takes any operand that can be assigned to, whatever `min` is.

* `operand` – prefix operators and casts in front of a primary expression with its accesses;
* `operatorExpr` – operators between operands.
-/

namespace Codewright.Php

open Text Source

namespace Node

/-- The name is that of the construct that takes an array apart. -/
def isListName : Expr → Bool
  | .nameRef name => sameIgnoringCase name "list"
  | _ => false

/-- The expression may stand on the left of an assignment. -/
def isAssignable : Expr → Bool
  | .variable _ | .variableVariable _ | .propertyFetch .. | .staticProperty .. | .subscript .. | .array .. => true
  | .call callee _ => callee.isListName
  | _ => false

/-- The expression as a class behind `instanceof`: a bare name stands for a class there. -/
def asClass : Expr → Expr
  | .constantRef name => .nameRef name
  | e => e

end Node

namespace Grammar

open Parse

variable (g : Grammar)

/-- The tokens behind which `yield` has no operand. -/
def yieldEnds : List TokenKind := [.semicolon, .closeParen, .closeBracket, .comma, .closeTag, .eof]

/-- Reads a `yield`. -/
def yieldExpr : Parse Expr := do
  let _ ← expectKeyword "yield"
  if ← tryKeyword "from" then return .yieldFrom (← g.assignmentExpr)
  else if yieldEnds.contains (← get).kind then return .yield .absent .absent
  else
    let first ← g.assignmentExpr
    if ← tryToken .fatArrow then return .yield (.present first) (.present (← g.assignmentExpr))
    else return .yield .absent (.present first)

/-- Reads an operand that begins with an identifier. -/
def wordOperand : Parse Expr := do
  let s ← get
  if s.atKeyword "new" then g.newExpr
  else if s.atKeyword "clone" then
    let _ ← advance
    return .clone (← g.operand)
  else if s.atKeyword "print" then
    let _ ← advance
    return .print (← g.assignmentExpr)
  else if s.atKeyword "throw" then
    let _ ← advance
    return .throwExpr (← g.assignmentExpr)
  else if s.atKeyword "yield" then g.yieldExpr
  else match IncludeKind.ofKeyword? s.peek.text with
    | some kind =>
      let _ ← advance
      return .includeExpr kind (← g.assignmentExpr)
    | none => g.accesses (← g.primary)

/-- Reads an operand. -/
def operandExpr : Parse Expr := do
  match (← get).kind with
  | .bang =>
    let _ ← advance
    return .unary .not (← g.expr .not)
  | .minus =>
    let _ ← advance
    return .unary .neg (← g.expr .unary)
  | .plus =>
    let _ ← advance
    return .unary .pos (← g.expr .unary)
  | .tilde =>
    let _ ← advance
    return .unary .bitNot (← g.expr .unary)
  | .at =>
    let _ ← advance
    return .suppress (← g.expr .unary)
  | .cast =>
    let type := CastType.ofWord (← advance).text
    return .cast type (← g.expr .unary)
  | .increment =>
    let _ ← advance
    return .incDec .preInc (← g.operand)
  | .decrement =>
    let _ ← advance
    return .incDec .preDec (← g.operand)
  | .ident => g.wordOperand
  | _ => g.accesses (← g.primary)

/-- Reads the assignment behind an operand, if there is one. -/
def assignmentTo (target : Expr) : Parse Expr := do
  let s ← get
  match (if target.isAssignable then AssignOp.ofKind? s.kind else none) with
  | none => return target
  | some op =>
    let _ ← advance
    if op == .assign then
      if ← tryToken .amp then return .assignRef target (← g.assignmentExpr)
      else return .assign target op (← g.assignmentExpr)
    else return .assign target op (← g.assignmentExpr)

/-- Reads the branches of a conditional expression. -/
def branches (cond : Expr) : Parse Expr := do
  let _ ← expect .question
  let yes ← if (← get).at_ .colon then pure none else some <$> g.assignmentExpr
  let _ ← expect .colon
  return .ternary cond (.ofOption yes) (← g.expr .coalesce)

/-- Reads one operator with its right operand, if it binds at least as tightly as `min`. -/
def operator (min : Level) (left : Expr) : Parse (Option Expr) := do
  let s ← get
  if s.at_ .question then
    if Level.ternary < min then return none else return some (← g.branches left)
  else if s.atKeyword "instanceof" then
    if Level.instanceOf < min then return none
    else
      let _ ← advance
      return some (.instanceOf left (← g.operand).asClass)
  else match BinaryOp.ofToken? s.peek with
    | none => return none
    | some op =>
      if op.level < min then return none
      else
        let _ ← advance
        return some (.binary op left (← g.expr op.rightLevel))

/-- Reads an expression whose operators bind at least as tightly as `min`. -/
def operatorExpr (min : Level) : Parse Expr := do
  let first ← g.operand
  let left ← g.assignmentTo first
  refine (g.operator min) left

end Grammar

end Codewright.Php
