import Codewright.Php.Grammar.Members

/-!
# Reading operands

Primary expressions and the chains of accesses and calls behind them.

* `primary` – variables, literals, arrays, names, closures, `match`, and what stands in parentheses;
* `newExpr` – instances of named, computed and anonymous classes;
* `accesses` – subscripts, member accesses, calls, and increments behind an expression.
-/

namespace Codewright.Php

open Text Source

/-- The keywords that begin no expression. -/
def reservedWords : List String := [
  "abstract", "as", "case", "catch", "class", "const", "declare", "default", "do", "else", "elseif", "enddeclare",
  "endfor", "endforeach", "endif", "endswitch", "endwhile", "extends", "final", "finally", "for", "foreach", "global",
  "goto", "if", "implements", "insteadof", "interface", "namespace", "private", "protected", "public", "return",
  "switch", "trait", "try", "use", "var", "while"]

namespace Node

/-- The value of an argument. -/
def argValue : Node .arg → Expr
  | .arg _ value _ => value

end Node

namespace Grammar

open Parse

variable (g : Grammar)

/-- Reads an expression in parentheses and gives what they hold. -/
def parenthesized : Parse Expr := enclosedBy .openParen .closeParen g.anyExpr

/-- Reads an expression in braces and gives what they hold. -/
def inBraces : Parse Expr := enclosedBy .openBrace .closeBrace g.anyExpr

/-- Reads an item of an array literal. -/
def arrayItem : Parse (Node .item) := do
  if (← get).at_ .comma then failUnsupported "skipped array elements"
  else if ← tryToken .ellipsis then return .item .absent (← g.anyExpr) false true
  else if ← tryToken .amp then return .item .absent (← g.anyExpr) true false
  else
    let first ← g.anyExpr
    if ← tryToken .fatArrow then
      let byRef ← tryToken .amp
      return .item (.present first) (← g.anyExpr) byRef false
    else return .item .absent first false false

/-- Reads the items of an array literal and the token that closes it. -/
def arrayItems (close : TokenKind) : Parse (Node (.list .item)) := do
  let items ← commaListUntil close g.arrayItem
  let _ ← expect close
  return .ofList items

/-- Reads the variables that a closure captures. -/
def captures : Parse (List Capture) := do
  if ← tryKeyword "use" then
    enclosedBy .openParen .closeParen <| commaListUntil .closeParen do
      let byRef ← tryToken .amp
      return ⟨← expectVariable, byRef⟩
  else return []

/-- Reads a closure. -/
def closure (isStatic : Bool) : Parse Expr := do
  let _ ← expectKeyword "function"
  let byRef ← tryToken .amp
  let params ← g.params
  let captures ← Grammar.captures
  let returnType ← Parse.returnType
  let body ← g.block
  return .closure ⟨isStatic, byRef, captures, returnType⟩ (.ofList params) (.ofList body)

/-- Reads an arrow function. -/
def arrowFn (isStatic : Bool) : Parse Expr := do
  let _ ← expectKeyword "fn"
  let byRef ← tryToken .amp
  let params ← g.params
  let returnType ← Parse.returnType
  let _ ← expect .fatArrow
  let body ← g.assignmentExpr
  return .arrowFn ⟨isStatic, byRef, [], returnType⟩ (.ofList params) body

/-- Reads an arm of a `match`. -/
def matchArm : Parse (Node .arm) := do
  let s ← get
  let conditions ←
    if s.atKeyword "default" && !s.hasAt 1 .doubleColon then do
      let _ ← advance
      let _ ← tryToken .comma
      pure none
    else some <$> commaListUntil .fatArrow g.anyExpr
  let _ ← expect .fatArrow
  return .arm (.ofOption (conditions.map .ofList)) (← g.anyExpr)

/-- Reads a `match`. -/
def matchExpr : Parse Expr := do
  let _ ← expectKeyword "match"
  let subject ← g.parenthesized
  let arms ← enclosedBy .openBrace .closeBrace (commaListUntil .closeBrace g.matchArm)
  return .matchExpr subject (.ofList arms)

/-- Reads a name that stands for itself: one that is called or asked for a member, or a constant. -/
def plainName : Parse Expr := do
  let s ← get
  let text := (← advance).text
  if s.hasAt 1 .openParen || s.hasAt 1 .doubleColon then return .nameRef text else return .constantRef text

/-- Reads an expression that begins with an identifier. -/
def identPrimary : Parse Expr := do
  let s ← get
  let text := s.peek.text
  let word := asciiLower text
  let called := s.hasAt 1 .openParen
  let qualifies := s.hasAt 1 .doubleColon
  if ["true", "false", "null"].contains word && !qualifies && !called then
    let _ ← advance
    return .literal (if word == "true" then .bool true else if word == "false" then .bool false else .null)
  else if word == "array" && called then
    let _ ← advance
    let _ ← advance
    return .array (← g.arrayItems .closeParen) false
  else if word == "isset" && called then
    let _ ← advance
    return .isset (.ofList ((← g.args).map Node.argValue))
  else if word == "empty" && called then
    let _ ← advance
    return .emptyCheck (← g.parenthesized)
  else if word == "exit" || word == "die" then
    let _ ← advance
    return .call (.nameRef text) (.ofList (← g.optionalArgs))
  else if word == "function" then g.closure false
  else if word == "fn" && (called || s.hasAt 1 .amp) then g.arrowFn false
  else if word == "static" && s.keywordAt 1 "function" then
    let _ ← advance
    g.closure true
  else if word == "static" && s.keywordAt 1 "fn" then
    let _ ← advance
    g.arrowFn true
  else if word == "match" && called then g.matchExpr
  else if reservedWords.contains word && !qualifies then failExpected "expression"
  else plainName

/-- Reads a primary expression. -/
def primaryExpr : Parse Expr := do
  match (← get).kind with
  | .variable => return .variable (← advance).text
  | .int => return .literal (.int (← advance).text)
  | .float => return .literal (.float (← advance).text)
  | .string => return .literal (.string (← advance).text)
  | .openBracket =>
    let _ ← advance
    return .array (← g.arrayItems .closeBracket) true
  | .openParen => return .paren (← g.parenthesized)
  | .dollar =>
    let _ ← advance
    match (← get).kind with
    | .openBrace => return .variableVariable (← g.inBraces)
    | .variable | .dollar => return .variableVariable (← g.primary)
    | _ => failExpected "variable or '\x7b' after '$'"
  | .ident => g.identPrimary
  | _ => failExpected "expression"

/-! ### New instances -/

/-- Reads an anonymous class behind `new`. -/
def anonymousClass : Parse Expr := do
  let start := (← get).peek.span.start
  let isReadonly ← tryKeyword "readonly"
  let _ ← expectKeyword "class"
  let args ← g.optionalArgs
  let parent ← Parse.parent
  let interfaces ← Parse.interfaces "implements"
  let members ← g.members
  let modifiers := if isReadonly then Modifiers.single .readonly else .none
  let span := (← get).spanFrom start
  return .anonymousClass (.ofList args) ⟨.cls modifiers parent interfaces, "", none, [], span⟩ (.ofList members)

/-- Reads one access in the class expression behind `new`. -/
def classAccess (cls : Expr) : Parse (Option Expr) := do
  let s ← get
  if (s.at_ .arrow || s.at_ .nullsafeArrow) && s.hasAt 1 .ident then
    let _ ← advance
    return some (.propertyFetch cls (.ident (← advance).text) (s.at_ .nullsafeArrow))
  else if s.at_ .doubleColon && s.hasAt 1 .variable then
    let _ ← advance
    return some (.staticProperty cls (← advance).text)
  else if s.at_ .openBracket then
    return some (.subscript cls (.present (← enclosedBy .openBracket .closeBracket g.anyExpr)))
  else return none

/-- Reads the class of a new instance. -/
def classExpr : Parse Expr := do
  match (← get).kind with
  | .ident => return .nameRef (← advance).text
  | .variable => refine g.classAccess (.variable (← advance).text)
  | .openParen => return .paren (← g.parenthesized)
  | _ => failExpected "class name"

/-- Reads a new instance. -/
def newExpr : Parse Expr := do
  let _ ← expectKeyword "new"
  let s ← get
  if s.atKeyword "class" || (s.atKeyword "readonly" && s.keywordAt 1 "class") then g.anonymousClass
  else
    let cls ← g.classExpr
    return .new cls (.ofList (← g.optionalArgs))

/-! ### Accesses -/

/-- Reads the name of a member behind an arrow. -/
def memberName : Parse (Node .memberName) := do
  match (← get).kind with
  | .ident => return .ident (← advance).text
  | .variable => return .computed (.variable (← advance).text)
  | .openBrace => return .computed (← g.inBraces)
  | _ => failExpected "member name"

/-- Reads a member behind a double colon. -/
def staticMember (cls : Expr) : Parse Expr := do
  match (← get).kind with
  | .variable =>
    let name := (← advance).text
    if (← get).at_ .openParen then return .staticCall cls (.computed (.variable name)) (.ofList (← g.args))
    else return .staticProperty cls name
  | .ident =>
    let name := (← advance).text
    if (← get).at_ .openParen then return .staticCall cls (.ident name) (.ofList (← g.args))
    else return .classConstant cls name
  | .openBrace =>
    let name ← g.inBraces
    return .staticCall cls (.computed name) (.ofList (← g.args))
  | _ => failExpected "member name after '::'"

/-- Reads a member behind an arrow. -/
def arrowMember (object : Expr) (nullsafe : Bool) : Parse Expr := do
  let name ← g.memberName
  if (← get).at_ .openParen then return .methodCall object name (.ofList (← g.args)) nullsafe
  else return .propertyFetch object name nullsafe

/-- Reads one access behind an expression. -/
def access (e : Expr) : Parse (Option Expr) := do
  match (← get).kind with
  | .openBracket =>
    let _ ← advance
    let index ← if (← get).at_ .closeBracket then pure none else some <$> g.anyExpr
    let _ ← expect .closeBracket
    return some (.subscript e (.ofOption index))
  | .arrow =>
    let _ ← advance
    return some (← g.arrowMember e false)
  | .nullsafeArrow =>
    let _ ← advance
    return some (← g.arrowMember e true)
  | .doubleColon =>
    let _ ← advance
    return some (← g.staticMember e)
  | .openParen => return some (.call e (.ofList (← g.args)))
  | .increment =>
    let _ ← advance
    return some (.incDec .postInc e)
  | .decrement =>
    let _ ← advance
    return some (.incDec .postDec e)
  | _ => return none

/-- Reads the accesses behind an expression. -/
def accesses (e : Expr) : Parse Expr := refine g.access e

end Grammar

end Codewright.Php
