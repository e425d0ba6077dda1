import Codewright.Php.Grammar.Operators

/-!
# Reading statements

Control structures are read in braces and in their alternative form with a colon and an end keyword; both give the
same tree. `else if` is an `else` whose body is another `if`.

* `declaration` – classes, interfaces, traits, enums and functions, with the doc comment and attributes in front;
* `body` – the body of a control structure in any of its forms;
* `statement` – all statements.
-/

namespace Codewright.Php

open Text Source

/-! ## Declarations -/

namespace Parse

/-- Reads the modifiers of a class. -/
def classModifiers : Parse Modifiers := do
  let m ← refine (fun m => do
    match nextModifier? [.abstract, .final, .readonly] (← get) with
    | some flag =>
      if m.includes (.single flag) then failModifier "repeated class modifier"
      else
        let _ ← advance
        return some (m.union (.single flag))
    | none => return none) Modifiers.none
  if m.isAbstract && m.isFinal then failModifier "a class cannot be both abstract and final"
  else return m

/-- Reads the new name of an import, if there is one. -/
def importRename : Parse (Option String) := afterKeyword "as" (expectIdent "alias")

/-- Reads an imported name, or a group of names with a common start. -/
def importItems : Parse (List Import) := do
  let start ← expectIdent "imported name"
  let s ← get
  if s.at_ .backslash && s.hasAt 1 .openBrace then
    let _ ← advance
    enclosedBy .openBrace .closeBrace <| commaListUntil .closeBrace do
      let name ← expectIdent "imported name"
      return ⟨start ++ "\\" ++ name, ← importRename⟩
  else return [⟨start, ← importRename⟩]

/-- Reads what an import brings in. -/
def importKind : Parse ImportKind := do
  if ← tryKeyword "function" then return .function
  else if ← tryKeyword "const" then return .const
  else return .normal

/-- Reads an import. -/
def useDecl : Parse Stmt := do
  let _ ← expectKeyword "use"
  let kind ← importKind
  let items ← commaList importItems
  expectSemicolon
  return .useDecl kind items.flatten

end Parse

namespace Grammar

open Parse

variable (g : Grammar)

/-- Reads a class-like declaration, given a reader of its name and what is special about it. -/
def classLike (doc : Option String) (attributes : List String) (head : Parse (String × ClassKind)) : Parse Stmt := do
  let start := (← get).peek.span.start
  let (name, kind) ← head
  let members ← g.members
  return .classLike ⟨kind, name, doc, attributes, (← get).spanFrom start⟩ (.ofList members)

/-- Reads the head of a class. -/
def classHead : Parse (String × ClassKind) := do
  let modifiers ← classModifiers
  let _ ← expectKeyword "class"
  let name ← expectIdent "class name"
  let parent ← Parse.parent
  return (name, .cls modifiers parent (← Parse.interfaces "implements"))

/-- Reads the head of an interface. -/
def interfaceHead : Parse (String × ClassKind) := do
  let _ ← expectKeyword "interface"
  let name ← expectIdent "interface name"
  return (name, .iface (← Parse.interfaces "extends"))

/-- Reads the head of a trait. -/
def traitHead : Parse (String × ClassKind) := do
  let _ ← expectKeyword "trait"
  return (← expectIdent "trait name", .trait)

/-- Reads the head of an enum. -/
def enumHead : Parse (String × ClassKind) := do
  let _ ← expectKeyword "enum"
  let name ← expectIdent "enum name"
  let backing ← returnType
  return (name, .enum backing (← Parse.interfaces "implements"))

/-- Reads the declaration of a named function. -/
def function (doc : Option String) (attributes : List String) : Parse Stmt := do
  let start := (← get).peek.span.start
  let _ ← expectKeyword "function"
  let byRef ← tryToken .amp
  let name ← expectIdent "function name"
  let params ← g.params
  let returnType ← Parse.returnType
  let body ← g.block
  return .function ⟨name, byRef, returnType, doc, attributes, (← get).spanFrom start⟩ (.ofList params) (.ofList body)

/-- Reads a declaration behind its doc comment and attributes. -/
def declarationOf (doc : Option String) (attributes : List String) : Parse Stmt := do
  let s ← get
  if s.atClass then g.classLike doc attributes classHead
  else if s.atKeyword "interface" then g.classLike doc attributes interfaceHead
  else if s.atKeyword "trait" then g.classLike doc attributes traitHead
  else if s.atKeyword "enum" then g.classLike doc attributes enumHead
  else if s.atFunction then g.function doc attributes
  else failUnsupported "attributes outside declarations"

/-- Reads a declaration with the doc comment and the attributes in front of it. -/
def declaration : Parse Stmt := do
  let before ← takeDoc
  let attributes ← Parse.attributes
  let doc ← match before with
    | some doc => pure (some doc)
    | none => takeDoc
  g.declarationOf doc attributes

/-! ## Control structures -/

/-- Reads the body of a control structure: statements in braces, statements between a colon and the end keyword, or
one statement. -/
def body (endWord : String) : Parse (List Stmt) := do
  if (← get).at_ .openBrace then g.block
  else if ← tryToken .colon then
    let stmts ← g.statementsUntil [endWord]
    let _ ← expectKeyword endWord
    expectSemicolon
    return stmts
  else
    let comments ← leadingComments
    return comments ++ [← g.stmt]

/-- Reads an `if` in its alternative form, behind the colon. -/
def alternativeIf (cond : Expr) : Parse Stmt := do
  let stops := ["elseif", "else", "endif"]
  let yes ← g.statementsUntil stops
  let elseIfs ← behind (tryKeyword "elseif") do
    let cond ← g.parenthesized
    let _ ← expect .colon
    return .elseIf cond (.ofList (← g.statementsUntil stops))
  let no ← afterKeyword "else" do
    let _ ← expect .colon
    g.statementsUntil ["endif"]
  let _ ← expectKeyword "endif"
  expectSemicolon
  return .ifStmt cond (.ofList yes) (.ofList elseIfs) (.ofOption (no.map .ofList))

/-- Reads an `if`. -/
def ifStmt : Parse Stmt := do
  let _ ← expectKeyword "if"
  let cond ← g.parenthesized
  if ← tryToken .colon then g.alternativeIf cond
  else
    let yes ← g.body "endif"
    let elseIfs ← behind (tryKeyword "elseif") do
      let cond ← g.parenthesized
      return .elseIf cond (.ofList (← g.body "endif"))
    let no ← afterKeyword "else" (g.body "endif")
    return .ifStmt cond (.ofList yes) (.ofList elseIfs) (.ofOption (no.map .ofList))

/-- Reads a `while`. -/
def whileStmt : Parse Stmt := do
  let _ ← expectKeyword "while"
  let cond ← g.parenthesized
  return .whileStmt cond (.ofList (← g.body "endwhile"))

/-- Reads a `do` with its condition. -/
def doWhile : Parse Stmt := do
  let _ ← expectKeyword "do"
  if (← get).at_ .colon then failExpected "statement"
  else
    let body ← g.body "while"
    let _ ← expectKeyword "while"
    let cond ← g.parenthesized
    expectSemicolon
    return .doWhile (.ofList body) cond

/-- Reads the expressions of a `for` up to a token of the kind `close`, if there are any. -/
def forPart (close : TokenKind) : Parse (List Expr) := do
  if (← get).at_ close then return [] else g.exprList

/-- Reads a `for`. -/
def forStmt : Parse Stmt := do
  let _ ← expectKeyword "for"
  let _ ← expect .openParen
  let init ← g.forPart .semicolon
  let _ ← expect .semicolon
  let cond ← g.forPart .semicolon
  let _ ← expect .semicolon
  let step ← g.forPart .closeParen
  let _ ← expect .closeParen
  return .forStmt (.ofList init) (.ofList cond) (.ofList step) (.ofList (← g.body "endfor"))

/-- Reads a `foreach`. -/
def foreachStmt : Parse Stmt := do
  let _ ← expectKeyword "foreach"
  let _ ← expect .openParen
  let subject ← g.anyExpr
  let _ ← expectKeyword "as"
  let firstByRef ← tryToken .amp
  let first ← g.anyExpr
  let (key, value, byRef) ←
    if !firstByRef then do
      if ← tryToken .fatArrow then do
        let byRef ← tryToken .amp
        pure (Node.present first, ← g.anyExpr, byRef)
      else pure (.absent, first, false)
    else pure (.absent, first, true)
  let _ ← expect .closeParen
  return .foreach subject key value byRef (.ofList (← g.body "endforeach"))

/-- Reads what a case of a `switch` is chosen by: the value behind `case`, or none behind `default`. -/
def caseTest : Parse (Option Expr) := do
  if ← tryKeyword "case" then return some (← g.anyExpr)
  else if ← tryKeyword "default" then return none
  else failExpected "'case', 'default' or '\x7d'"

/-- Reads the label of a case of a `switch`, and the statements behind it. -/
def switchCase : Parse (Node .switchCase) := do
  let test ← g.caseTest
  if !(← tryToken .colon) then
    let _ ← expect .semicolon
  return .switchCase (.ofOption test) (.ofList (← g.statementsUntil ["case", "default", "endswitch"]))

/-- Reads the end of a `switch`, if it comes. -/
def tryEndSwitch (alternative : Bool) : Parse Bool := do
  if alternative then
    if ← tryKeyword "endswitch" then
      expectSemicolon
      return true
    else return false
  else tryToken .closeBrace

/-- Reads a `switch`. -/
def switchStmt : Parse Stmt := do
  let _ ← expectKeyword "switch"
  let subject ← g.parenthesized
  let alternative ← tryToken .colon
  if !alternative then
    let _ ← expect .openBrace
  let cases ← collect do
    skipAll fillers
    if ← tryEndSwitch alternative then return ([], false)
    else return ([← g.switchCase], true)
  return .switchStmt subject (.ofList cases)

/-- Reads a `catch` behind its keyword. -/
def catchClause : Parse (Node .catchClause) := do
  let _ ← expect .openParen
  let first ← expectIdent "exception class"
  let others ← behind (tryToken .pipe) (expectIdent "exception class")
  let var ← if (← get).at_ .variable then pure (some (← advance).text) else pure none
  let _ ← expect .closeParen
  return .catchClause (first :: others) var (.ofList (← g.block))

/-- Reads a `try`. -/
def tryStmt : Parse Stmt := do
  let _ ← expectKeyword "try"
  let body ← g.block
  let catches ← behind (tryKeyword "catch") g.catchClause
  let last ← afterKeyword "finally" g.block
  if catches.isEmpty && last.isNone then failExpected "'catch' or 'finally'"
  else return .tryStmt (.ofList body) (.ofList catches) (.ofOption (last.map .ofList))

/-- Reads a `declare`. -/
def declareStmt : Parse Stmt := do
  let _ ← expectKeyword "declare"
  let directives ← enclosedBy .openParen .closeParen <| commaList do
    let name ← expectIdent "directive name"
    let _ ← expect .assign
    return Node.directive name (← g.anyExpr)
  let s ← get
  if s.at_ .openBrace || s.at_ .colon then
    return .declareBlock (.ofList directives) (.ofList (← g.body "enddeclare"))
  else
    expectSemicolon
    return .declare (.ofList directives)

/-! ## Simple statements -/

/-- Reads the end of a statement and gives the statement. -/
def ended (s : Stmt) : Parse Stmt := do
  expectSemicolon
  return s

/-- Reads an expression, unless the statement ends here. -/
def optionalValue : Parse (Node (.opt .expr)) := do
  if (← get).kind.endsStatement then return .absent else return .present (← g.anyExpr)

/-- Reads an expression as a statement. -/
def exprStmt : Parse Stmt := do ended (.exprStmt (← g.anyExpr))

/-- A label stands here. -/
def atLabel (s : Stream) : Bool :=
  s.at_ .ident && !s.peek.text.toList.contains '\\' && s.hasAt 1 .colon && !s.atAnyKeyword ["default", "else", "case"]

/-- Reads a statement that begins with the identifier `word`, given in lower case. -/
def wordStmt (word : String) : Parse Stmt := do
  let s ← get
  match word with
  | "use" => useDecl
  | "const" =>
    let _ ← advance
    ended (.constDecl (.ofList (← g.definitions)))
  | "declare" => g.declareStmt
  | "if" => g.ifStmt
  | "while" => g.whileStmt
  | "do" => g.doWhile
  | "for" => g.forStmt
  | "foreach" => g.foreachStmt
  | "switch" => g.switchStmt
  | "break" =>
    let _ ← advance
    ended (.breakStmt (← g.optionalValue))
  | "continue" =>
    let _ ← advance
    ended (.continueStmt (← g.optionalValue))
  | "return" =>
    let _ ← advance
    ended (.returnStmt (← g.optionalValue))
  | "echo" =>
    let _ ← advance
    ended (.echo (.ofList (← g.exprList)))
  | "throw" =>
    let _ ← advance
    ended (.throwStmt (← g.anyExpr))
  | "try" => g.tryStmt
  | "global" =>
    let _ ← advance
    ended (.global (← commaList expectVariable))
  | "__halt_compiler" => failUnsupported "__halt_compiler"
  | _ =>
    if word == "namespace" && s.atNamespace then failExpected "statement"
    else if word == "static" && s.hasAt 1 .variable then
      let _ ← advance
      ended (.staticVars (.ofList (← g.varItems)))
    else if word == "unset" && s.hasAt 1 .openParen then
      let _ ← advance
      ended (.unset (.ofList (← enclosedBy .openParen .closeParen (commaListUntil .closeParen g.anyExpr))))
    else if word == "goto" && s.hasAt 1 .ident then
      let _ ← advance
      ended (.goto (← advance).text)
    else g.exprStmt

/-- Reads a statement. -/
def statement : Parse Stmt := do
  let s ← get
  if s.atDeclaration then g.declaration
  else match s.kind with
    | .inlineHtml => return .inlineHtml (← advance).text
    | .openTag | .closeTag | .semicolon =>
      let _ ← advance
      return .nop
    | .openTagEcho =>
      let _ ← advance
      ended (.echo (.ofList (← g.exprList)))
    | .openBrace => return .block (.ofList (← g.block))
    | .ident =>
      if atLabel s then
        let name := (← advance).text
        let _ ← advance
        return .label name
      else g.wordStmt (asciiLower s.peek.text)
    | _ => g.exprStmt

/-! ## Namespaces -/

/-- Reads statements at file level up to the end or to a `namespace`; a closing brace ends them too. -/
def namespaceBody : Parse (List Stmt) :=
  collect do
    skipAll fillers
    let comments ← leadingComments
    let s ← get
    if s.atEnd || s.atNamespace || s.at_ .closeBrace then return (comments, false)
    else return (comments ++ [← g.stmt], true)

/-- Reads a namespace with its statements: those in its braces, or all up to the next namespace. -/
def namespaceDecl : Parse Stmt := do
  let start := (← get).peek.span.start
  let _ ← expectKeyword "namespace"
  let name ← if (← get).at_ .ident then pure (some (← advance).text) else pure none
  if (← get).at_ .openBrace then
    let stmts ← enclosedBy .openBrace .closeBrace g.namespaceBody
    return .namespaceDecl name (.ofList stmts) true ((← get).spanFrom start)
  else if name.isNone then failExpected "namespace name or '\x7b'"
  else
    expectSemicolon
    let stmts ← g.namespaceBody
    return .namespaceDecl name (.ofList stmts) false ((← get).spanFrom start)

/-- Reads all statements of a file. -/
def fileBody : Parse (List Stmt) :=
  collect do
    skipAll fillers
    let comments ← leadingComments
    let s ← get
    if s.atEnd then return (comments, false)
    else if s.atNamespace then return (comments ++ [← g.namespaceDecl], true)
    else return (comments ++ [← g.stmt], true)

end Grammar

end Codewright.Php
