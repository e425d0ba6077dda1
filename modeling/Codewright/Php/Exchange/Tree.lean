import Codewright.Php.Exchange.Leaf

/-!
# Trees as JSON

* `Node.toJson`, `File.toJson` – the exchange form of a tree and of a file.
-/

namespace Codewright.Php

open Source Exchange

/-- The fields of a class-like declaration with the given members. -/
def ClassDecl.toJson (d : ClassDecl) (members : Json) : String × Json :=
  let rest := ("members", members) :: leadFields d.doc d.attributes ++ [("span", spanJson d.span)]
  let name := ("name", Json.string d.name)
  match d.kind with
  | .cls m parent interfaces =>
    ("Class", .object (name :: ("modifiers", modifiersJson m) :: ("extends", .ofOption parent) ::
      ("implements", .ofStrings interfaces) :: rest))
  | .iface parents => ("Interface", .object (name :: ("extends", .ofStrings parents) :: rest))
  | .trait => ("Trait", .object (name :: rest))
  | .enum backing interfaces =>
    ("Enum", .object (name :: ("backing", optTypeJson backing) :: ("implements", .ofStrings interfaces) :: rest))

/-- The items of an array. -/
def arrayItems : Json → List Json
  | .array items => items
  | _ => []

/-- A tree as JSON. -/
def Node.toJson : {c : Category} → Node c → Json
  | _, .nil => .array []
  | _, .cons head tail => .array (toJson head :: arrayItems (toJson tail))
  | _, .absent => .null
  | _, .present value => toJson value
  -- Expressions
  | _, .variable name => tagged "Variable" (.string name)
  | _, .variableVariable name => tagged "VariableVariable" (toJson name)
  | _, .literal value => tagged "Literal" (literalJson value)
  | _, .array items short => record "Array" [("items", toJson items), ("short", .bool short)]
  | _, .nameRef name => tagged "Name" (.string name)
  | _, .constantRef name => tagged "ConstFetch" (.string name)
  | _, .classConstant cls name => record "ClassConstFetch" [("class", toJson cls), ("name", .string name)]
  | _, .staticProperty cls name => record "StaticPropertyFetch" [("class", toJson cls), ("name", .string name)]
  | _, .propertyFetch object name nullsafe =>
    record "PropertyFetch" [("object", toJson object), ("name", toJson name), ("nullsafe", .bool nullsafe)]
  | _, .methodCall object name args nullsafe =>
    record "MethodCall" [("object", toJson object), ("name", toJson name), ("args", toJson args),
      ("nullsafe", .bool nullsafe)]
  | _, .staticCall cls name args =>
    record "StaticCall" [("class", toJson cls), ("name", toJson name), ("args", toJson args)]
  | _, .call callee args => record "Call" [("callee", toJson callee), ("args", toJson args)]
  | _, .new cls args => record "New" [("class", toJson cls), ("args", toJson args)]
  | _, .anonymousClass args decl members =>
    record "AnonymousClass" [("args", toJson args), ("class", (decl.toJson (toJson members)).2)]
  | _, .subscript value index => record "Index" [("value", toJson value), ("index", toJson index)]
  | _, .assign target op value =>
    record "Assign" [("target", toJson target), ("op", tagOf assignTags op), ("value", toJson value)]
  | _, .assignRef target value => record "AssignRef" [("target", toJson target), ("value", toJson value)]
  | _, .binary op left right =>
    record "Binary" [("op", tagOf binaryTags op), ("left", toJson left), ("right", toJson right)]
  | _, .unary op operand => record "Unary" [("op", tagOf unaryTags op), ("expr", toJson operand)]
  | _, .incDec op operand => record "IncDec" [("op", tagOf stepTags op), ("expr", toJson operand)]
  | _, .cast type operand => record "Cast" [("kind", tagOf castTags type), ("expr", toJson operand)]
  | _, .ternary cond yes no =>
    record "Ternary" [("cond", toJson cond), ("then", toJson yes), ("otherwise", toJson no)]
  | _, .instanceOf operand cls => record "Instanceof" [("expr", toJson operand), ("class", toJson cls)]
  | _, .isset operands => tagged "Isset" (toJson operands)
  | _, .emptyCheck operand => tagged "Empty" (toJson operand)
  | _, .closure decl params body =>
    record "Closure" [("is_static", .bool decl.isStatic), ("by_ref", .bool decl.byRef), ("params", toJson params),
      ("uses", .array (decl.captures.map captureJson)), ("return_type", optTypeJson decl.returnType),
      ("body", toJson body)]
  | _, .arrowFn decl params body =>
    record "ArrowFn" [("is_static", .bool decl.isStatic), ("by_ref", .bool decl.byRef), ("params", toJson params),
      ("return_type", optTypeJson decl.returnType), ("body", toJson body)]
  | _, .matchExpr subject arms => record "Match" [("subject", toJson subject), ("arms", toJson arms)]
  | _, .clone operand => tagged "Clone" (toJson operand)
  | _, .print operand => tagged "Print" (toJson operand)
  | _, .throwExpr operand => tagged "Throw" (toJson operand)
  | _, .yield key value => record "Yield" [("key", toJson key), ("value", toJson value)]
  | _, .yieldFrom operand => tagged "YieldFrom" (toJson operand)
  | _, .callablePlaceholder => .string "VariadicPlaceholder"
  | _, .includeExpr kind operand => record "Include" [("kind", tagOf includeTags kind), ("expr", toJson operand)]
  | _, .suppress operand => tagged "ErrorSuppress" (toJson operand)
  | _, .paren inner => tagged "Paren" (toJson inner)
  -- Parts of expressions
  | _, .ident name => tagged "Ident" (.string name)
  | _, .computed name => tagged "Expr" (toJson name)
  | _, .item key value byRef spread =>
    .object [("key", toJson key), ("value", toJson value), ("by_ref", .bool byRef), ("spread", .bool spread)]
  | _, .arg name value spread =>
    .object [("name", .ofOption name), ("value", toJson value), ("spread", .bool spread)]
  | _, .arm conditions body => .object [("conditions", toJson conditions), ("body", toJson body)]
  | _, .param decl default =>
    .object [("name", .string decl.name), ("ty", optTypeJson decl.type), ("default", toJson default),
      ("by_ref", .bool decl.byRef), ("variadic", .bool decl.variadic), ("promoted", modifiersJson decl.promoted),
      ("attributes", .ofStrings decl.attributes)]
  -- Statements
  | _, .namespaceDecl name body braced span =>
    record "Namespace" [("name", .ofOption name), ("stmts", toJson body), ("braced", .bool braced),
      ("span", spanJson span)]
  | _, .useDecl kind items =>
    record "Use" [("kind", tagOf importTags kind), ("items", .array (items.map importJson))]
  | _, .declare directives => tagged "Declare" (toJson directives)
  | _, .declareBlock directives body =>
    record "DeclareBlock" [("directives", toJson directives), ("body", toJson body)]
  | _, .constDecl items => tagged "Const" (toJson items)
  | _, .classLike decl members =>
    let (tag, fields) := decl.toJson (toJson members)
    tagged tag fields
  | _, .function decl params body =>
    record "Function" ([("name", .string decl.name), ("by_ref", .bool decl.byRef), ("params", toJson params),
      ("return_type", optTypeJson decl.returnType), ("body", toJson body)] ++ leadFields decl.doc decl.attributes ++
      [("span", spanJson decl.span)])
  | _, .exprStmt value => tagged "Expr" (toJson value)
  | _, .echo values => tagged "Echo" (toJson values)
  | _, .returnStmt value => tagged "Return" (toJson value)
  | _, .ifStmt cond yes elseIfs no =>
    record "If" [("cond", toJson cond), ("then", toJson yes), ("elseifs", toJson elseIfs), ("otherwise", toJson no)]
  | _, .whileStmt cond body => record "While" [("cond", toJson cond), ("body", toJson body)]
  | _, .doWhile body cond => record "DoWhile" [("body", toJson body), ("cond", toJson cond)]
  | _, .forStmt init cond step body =>
    record "For" [("init", toJson init), ("cond", toJson cond), ("step", toJson step), ("body", toJson body)]
  | _, .foreach subject key value byRef body =>
    record "Foreach" [("subject", toJson subject), ("key", toJson key), ("value", toJson value),
      ("by_ref", .bool byRef), ("body", toJson body)]
  | _, .switchStmt subject cases => record "Switch" [("subject", toJson subject), ("cases", toJson cases)]
  | _, .breakStmt level => tagged "Break" (toJson level)
  | _, .continueStmt level => tagged "Continue" (toJson level)
  | _, .throwStmt value => tagged "Throw" (toJson value)
  | _, .tryStmt body catches last =>
    record "Try" [("body", toJson body), ("catches", toJson catches), ("finally", toJson last)]
  | _, .block body => tagged "Block" (toJson body)
  | _, .global names => tagged "Global" (.ofStrings names)
  | _, .staticVars vars => tagged "Static" (toJson vars)
  | _, .unset values => tagged "Unset" (toJson values)
  | _, .goto target => tagged "Goto" (.string target)
  | _, .label name => tagged "Label" (.string name)
  | _, .inlineHtml text => tagged "InlineHtml" (.string text)
  | _, .comment text => tagged "Comment" (.string text)
  | _, .nop => .string "Nop"
  -- Parts of statements
  | _, .directive name value => .object [("name", .string name), ("value", toJson value)]
  | _, .definition name value => .object [("name", .string name), ("value", toJson value)]
  | _, .varItem name default => .object [("name", .string name), ("default", toJson default)]
  | _, .elseIf cond body => .object [("cond", toJson cond), ("body", toJson body)]
  | _, .switchCase test body => .object [("test", toJson test), ("body", toJson body)]
  | _, .catchClause types var body =>
    .object [("types", .ofStrings types), ("var", .ofOption var), ("body", toJson body)]
  -- Members
  | _, .traitUse traits adaptations =>
    record "TraitUse" [("traits", .ofStrings traits), ("adaptations", .array (adaptations.map adaptationJson))]
  | _, .classConst decl items =>
    record "Const" ([("modifiers", modifiersJson decl.modifiers), ("items", toJson items)] ++
      leadFields decl.doc decl.attributes)
  | _, .property decl items =>
    record "Property" ([("modifiers", modifiersJson decl.modifiers), ("ty", optTypeJson decl.type),
      ("props", toJson items)] ++ leadFields decl.doc decl.attributes ++ [("span", spanJson decl.span)])
  | _, .method decl params body =>
    record "Method" ([("name", .string decl.name), ("modifiers", modifiersJson decl.modifiers),
      ("by_ref", .bool decl.byRef), ("params", toJson params), ("return_type", optTypeJson decl.returnType),
      ("body", toJson body)] ++ leadFields decl.doc decl.attributes ++ [("span", spanJson decl.span)])
  | _, .enumCase decl value =>
    record "Case" ([("name", .string decl.name), ("value", toJson value)] ++ leadFields decl.doc decl.attributes)
  | _, .memberComment text => tagged "Comment" (.string text)

/-- A file as JSON. -/
def File.toJson (f : File) : Json := .object [("stmts", f.stmts.toJson), ("span", spanJson f.span)]

end Codewright.Php
