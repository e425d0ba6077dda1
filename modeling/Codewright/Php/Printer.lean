import Codewright.Php.Operator
import Codewright.Php.Printer.Grouping
import Codewright.Text.Lines
import Codewright.Text.Search
import Codewright.Text.Space

/-!
# Printing PHP

The layout is fixed: the braces of declarations stand on lines of their own, those of control structures on the line
of the head, and each statement has a line of its own. Parentheses are printed where the tree has them and nowhere
else.

* `TypeHint.text`, `Literal.text` – the text of a leaf;
* `Node.doc` – the document of a tree at a level of indentation; of a list, the documents of its entries;
* `File.print`, `Block.print`, `Expr.print` – the text of a whole source, of statements and of an expression.
-/

namespace Codewright.Php

open Text Source

/-! ## Leaves -/

mutual

/-- The text of a type declaration. -/
def TypeHint.text : TypeHint → String
  | .named name => name
  | .nullable inner => "?" ++ inner.text
  | .union parts => unionText parts
  | .intersection parts => intersectionText parts

/-- Alternatives with bars between them; an intersection among them stands in parentheses. -/
def unionText : List TypeHint → String
  | [] => ""
  | [t] => unionPartText t
  | t :: ts => unionPartText t ++ "|" ++ unionText ts

/-- One alternative of a union. -/
def unionPartText : TypeHint → String
  | .intersection parts => "(" ++ intersectionText parts ++ ")"
  | .named name => name
  | .nullable inner => "?" ++ inner.text
  | .union parts => unionText parts

/-- The parts of an intersection with ampersands between them. -/
def intersectionText : List TypeHint → String
  | [] => ""
  | [t] => t.text
  | t :: ts => t.text ++ "&" ++ intersectionText ts

end

mutual

/-- A value of the type may be null. -/
def TypeHint.isNullable : TypeHint → Bool
  | .nullable _ => true
  | .named name => sameIgnoringCase name "null" || sameIgnoringCase name "mixed"
  | .union parts => anyNullable parts
  | .intersection _ => false

/-- A value of one of the types may be null. -/
def anyNullable : List TypeHint → Bool
  | [] => false
  | t :: ts => t.isNullable || anyNullable ts

end

/-- The text of a literal. -/
def Literal.text : Literal → String
  | .null => "null"
  | .bool true => "true"
  | .bool false => "false"
  | .int text | .float text | .string text => text

/-- Names with commas between them. -/
def namesText (names : List Name) : String := String.intercalate ", " names

/-- A word with a space behind it, if it is wanted. -/
def wordIf (wanted : Bool) (word : String) : String := if wanted then word ++ " " else ""

/-- A list of names behind a keyword, if there are any. -/
def clauseText (keyword : String) (names : List Name) : String :=
  if names.isEmpty then "" else " " ++ keyword ++ " " ++ namesText names

/-- A type behind a colon, if there is one. -/
def returnTypeText : Option TypeHint → String
  | none => ""
  | some t => ": " ++ t.text

/-- A type with a space behind it, if there is one. -/
def typeText : Option TypeHint → String
  | none => ""
  | some t => t.text ++ " "

/-- The modifiers of a property or a promoted parameter. -/
def Modifiers.propertyText (m : Modifiers) : String :=
  m.visibilityText ++ wordIf m.isStatic "static" ++ wordIf m.isReadonly "readonly"

/-- An import with its new name, if it has one. -/
def Import.text (i : Import) : String :=
  match i.rename with
  | none => i.name
  | some new => i.name ++ " as " ++ new

/-- The keyword between `use` and the imported names. -/
def ImportKind.text : ImportKind → String
  | .normal => ""
  | .function => "function "
  | .const => "const "

/-- A rule that takes over the methods of a trait. -/
def Adaptation.text : Adaptation → String
  | .precedence traitName method insteadOf =>
    traitName ++ "::" ++ method ++ " insteadof " ++ namesText insteadOf ++ ";"
  | .rename traitName method visibility newName =>
    (match traitName with
      | none => ""
      | some t => t ++ "::") ++
      method ++ " as" ++
      (match visibility with
        | none => ""
        | some v => " " ++ v.keyword) ++
      (match newName with
        | none => ""
        | some n => " " ++ n) ++
      ";"

/-- The clauses behind the name of a class. -/
def parentText (parent : Option Name) (interfaces : List Name) : String :=
  (match parent with
    | none => ""
    | some p => " extends " ++ p) ++
    clauseText "implements" interfaces

/-- The head of a class-like declaration. -/
def ClassDecl.text (d : ClassDecl) : String :=
  match d.kind with
  | .cls m parent interfaces =>
    wordIf m.isAbstract "abstract" ++ wordIf m.isFinal "final" ++ wordIf m.isReadonly "readonly" ++
      "class " ++ d.name ++ parentText parent interfaces
  | .iface parents => "interface " ++ d.name ++ clauseText "extends" parents
  | .trait => "trait " ++ d.name
  | .enum backing interfaces => "enum " ++ d.name ++ returnTypeText backing ++ clauseText "implements" interfaces

/-- The words of an anonymous class in front of its arguments, and those behind them. -/
def ClassDecl.anonymousText (d : ClassDecl) : String × String :=
  match d.kind with
  | .cls m parent interfaces => (wordIf m.isReadonly "readonly" ++ "class", parentText parent interfaces)
  | _ => ("class", "")

/-! ## Comments -/

/-- A comment, each line at the level of indentation; the lines that go on with an asterisk stay one column to the
right. -/
def commentDoc (level : Nat) (text : String) : Doc :=
  ((lines text.toList).zipIdx.map fun (raw, i) =>
    let l := trim raw
    if l.isEmpty then Doc.blankLine
    else if 0 < i && l.head? == some '*' then Doc.line level (.text " " :: [.text (String.ofList l)])
    else Doc.line level [.text (String.ofList l)]).flatten

/-- The doc comment and the attributes in front of a declaration. -/
def leadDoc (level : Nat) (doc : Option String) (attributes : List String) : Doc :=
  (match doc with
    | none => []
    | some text => commentDoc level text) ++
    (attributes.map fun a => Doc.line level [.text a]).flatten

/-! ## Trees -/

/-- What printing a tree of a category gives. -/
@[reducible] def Printed : Category → Type
  | .list c => List (Printed c)
  | .opt c => Option (Printed c)
  | _ => Doc

/-- A document in braces behind a head, the braces at the given level. -/
def braced (level : Nat) (head : Doc) (body : Doc) : Doc :=
  Doc.line level (head ++ [.text " \x7b"]) ++ body ++ Doc.line level [.text "\x7d"]

/-- A body in braces on lines of their own. -/
def bracedBelow (level : Nat) (body : Doc) : Doc :=
  Doc.line level [.text "\x7b"] ++ body ++ Doc.line level [.text "\x7d"]

/-- A document with `" = "` in front, if there is one. -/
def initDoc : Option Doc → Doc
  | none => []
  | some d => .text " = " :: d

/-- A keyword with an operand behind a space, if there is one. -/
def jumpDoc (level : Nat) (keyword : String) : Option Doc → Doc
  | none => Doc.line level [.text (keyword ++ ";")]
  | some d => Doc.line level (.text (keyword ++ " ") :: d ++ [.text ";"])

/-- A document whose text begins with `start`. -/
def Doc.startsWith (start : String) (d : Doc) : Bool := Text.startsWith start (Doc.render "" d)

namespace Node

/-- The expression is a variable. -/
def isVariable : Expr → Bool
  | .variable _ => true
  | _ => false

/-- The expression is a variable, perhaps with a computed name. -/
def isVariableLike : Expr → Bool
  | .variable _ | .variableVariable _ => true
  | _ => false

/-- A printed tree at a level of indentation. -/
def doc : {c : Category} → Nat → Node c → Printed c
  | _, _, .nil => []
  | _, n, .cons head tail => doc n head :: doc n tail
  | _, _, .absent => none
  | _, n, .present value => some (doc n value)
  -- Expressions
  | _, _, .variable name => ([.text ("$" ++ name)] : Doc)
  | _, n, .variableVariable name =>
    if name.isVariableLike then .text "$" :: doc n name else .text "$\x7b" :: doc n name ++ [.text "\x7d"]
  | _, _, .literal value => ([.text value.text] : Doc)
  | _, n, .array items short =>
    let inner := Doc.commas (doc n items)
    if short then .text "[" :: inner ++ [.text "]"] else .text "array(" :: inner ++ [.text ")"]
  | _, _, .nameRef name => ([.text name] : Doc)
  | _, _, .constantRef name => ([.text name] : Doc)
  | _, n, .classConstant cls name => doc n cls ++ ([.text ("::" ++ name)] : Doc)
  | _, n, .staticProperty cls name => doc n cls ++ ([.text ("::$" ++ name)] : Doc)
  | _, n, .propertyFetch object name nullsafe => doc n object ++ (.text (arrow nullsafe) :: doc n name : Doc)
  | _, n, .methodCall object name args nullsafe =>
    doc n object ++ (.text (arrow nullsafe) :: doc n name ++ .text "(" :: Doc.commas (doc n args) ++
      [.text ")"] : Doc)
  | _, n, .staticCall cls name args =>
    doc n cls ++ (.text "::" :: doc n name ++ .text "(" :: Doc.commas (doc n args) ++ [.text ")"] : Doc)
  | _, n, .call callee args => doc n callee ++ (.text "(" :: Doc.commas (doc n args) ++ [.text ")"] : Doc)
  | _, n, .new cls args =>
    (.text "new " :: doc n cls ++ .text "(" :: Doc.commas (doc n args) ++ [.text ")"] : Doc)
  | _, n, .anonymousClass args decl members =>
    let printedArgs := doc n args
    (.text ("new " ++ decl.anonymousText.1) ::
      (if printedArgs.isEmpty then [] else .text "(" :: Doc.commas printedArgs ++ [.text ")"]) ++
      .text (decl.anonymousText.2 ++ " \x7b\n") :: printedMembers members.toList (doc (n + 1) members) ++
      [.indent n, .text "\x7d"] : Doc)
  | _, n, .subscript value index =>
    doc n value ++ (.text "[" :: (doc n index).getD [] ++ [.text "]"] : Doc)
  | _, n, .assign target op value => doc n target ++ (.text (" " ++ op.spelling ++ " ") :: doc n value : Doc)
  | _, n, .assignRef target value => doc n target ++ (.text " = &" :: doc n value : Doc)
  | _, n, .binary op left right => doc n left ++ (.text (" " ++ op.spelling ++ " ") :: doc n right : Doc)
  | _, n, .unary op operand =>
    let inner := doc n operand
    .text (op.spelling ++ if Doc.startsWith op.spelling inner then " " else "") :: inner
  | _, n, .incDec op operand =>
    match op with
    | .preInc => .text "++" :: doc n operand
    | .preDec => .text "--" :: doc n operand
    | .postInc => doc n operand ++ ([.text "++"] : Doc)
    | .postDec => doc n operand ++ ([.text "--"] : Doc)
  | _, n, .cast type operand => (.text ("(" ++ type.word ++ ") ") :: doc n operand : Doc)
  | _, n, .ternary cond yes no =>
    match doc n yes with
    | some d => doc n cond ++ (.text " ? " :: d ++ .text " : " :: doc n no : Doc)
    | none => doc n cond ++ (.text " ?: " :: doc n no : Doc)
  | _, n, .instanceOf operand cls => doc n operand ++ (.text " instanceof " :: doc n cls : Doc)
  | _, n, .isset operands => (.text "isset(" :: Doc.commas (doc n operands) ++ [.text ")"] : Doc)
  | _, n, .emptyCheck operand => (.text "empty(" :: doc n operand ++ [.text ")"] : Doc)
  | _, n, .closure decl params body =>
    (.text (wordIf decl.isStatic "static" ++ "function " ++ (if decl.byRef then "&(" else "(")) ::
      Doc.commas (doc n params) ++
      .text (")" ++
        (if decl.captures.isEmpty then "" else
          " use (" ++ String.intercalate ", " (decl.captures.map fun c =>
            (if c.byRef then "&$" else "$") ++ c.name) ++ ")") ++
        returnTypeText decl.returnType ++ " \x7b\n") ::
      (doc (n + 1) body).flatten ++ [.indent n, .text "\x7d"] : Doc)
  | _, n, .arrowFn decl params body =>
    (.text (wordIf decl.isStatic "static" ++ "fn" ++ (if decl.byRef then "&(" else "(")) ::
      Doc.commas (doc n params) ++ .text (")" ++ returnTypeText decl.returnType ++ " => ") :: doc n body : Doc)
  | _, n, .matchExpr subject arms =>
    (.text "match (" :: doc n subject ++ .text ") \x7b\n" ::
      ((doc (n + 1) arms).map fun d => .indent (n + 1) :: d ++ [.text ",\n"]).flatten ++
      [.indent n, .text "\x7d"] : Doc)
  | _, n, .clone operand => (.text "clone " :: doc n operand : Doc)
  | _, n, .print operand => (.text "print " :: doc n operand : Doc)
  | _, n, .throwExpr operand => (.text "throw " :: doc n operand : Doc)
  | _, n, .yield key value =>
    match doc n key, doc n value with
    | some k, some v => (.text "yield " :: k ++ .text " => " :: v : Doc)
    | some d, none => (.text "yield " :: d : Doc)
    | none, some d => (.text "yield " :: d : Doc)
    | none, none => ([.text "yield"] : Doc)
  | _, n, .yieldFrom operand => (.text "yield from " :: doc n operand : Doc)
  | _, _, .callablePlaceholder => ([.text "..."] : Doc)
  | _, n, .includeExpr kind operand => (.text (kind.keyword ++ " ") :: doc n operand : Doc)
  | _, n, .suppress operand => (.text "@" :: doc n operand : Doc)
  | _, n, .paren inner => (.text "(" :: doc n inner ++ [.text ")"] : Doc)
  -- Parts of expressions
  | _, _, .ident name => ([.text name] : Doc)
  | _, n, .computed name =>
    if name.isVariable then (doc n name : Doc) else (.text "\x7b" :: doc n name ++ [.text "\x7d"] : Doc)
  | _, n, .item key value byRef spread =>
    (match doc n key with
      | some k => k ++ [.text " => "]
      | none => []) ++
      (.text ((if spread then "..." else "") ++ (if byRef then "&" else "")) :: doc n value : Doc)
  | _, n, .arg name value spread =>
    match name, spread with
    | _, true => (.text "..." :: doc n value : Doc)
    | some name, false => (.text (name ++ ": ") :: doc n value : Doc)
    | none, false => (doc n value : Doc)
  | _, n, .arm conditions body =>
    (match doc n conditions with
      | some ds => Doc.commas ds
      | none => [.text "default"]) ++ (.text " => " :: doc n body : Doc)
  | _, n, .param decl default =>
    (.text (String.join (decl.attributes.map (· ++ " ")) ++ decl.promoted.propertyText ++ typeText decl.type ++
      (if decl.byRef then "&" else "") ++ (if decl.variadic then "..." else "") ++ "$" ++ decl.name) ::
      initDoc (doc n default) : Doc)
  -- Statements
  | _, n, .namespaceDecl name body braces _ =>
    let head := match name with
      | some name => "namespace " ++ name
      | none => "namespace"
    if braces then
      braced n [.text head] (printedTopLevel body.toList (doc (n + 1) body))
    else
      let inner := printedTopLevel body.toList (doc n body)
      Doc.line n [.text (head ++ ";")] ++
        if body.toList.all Stmt.isNop then [] else Doc.blankLine ++ inner
  | _, n, .useDecl kind items =>
    Doc.line n [.text ("use " ++ kind.text ++ String.intercalate ", " (items.map Import.text) ++ ";")]
  | _, n, .declare directives =>
    Doc.line n (.text "declare(" :: Doc.commas (doc n directives) ++ [.text ");"])
  | _, n, .declareBlock directives body =>
    braced n (.text "declare(" :: Doc.commas (doc n directives) ++ [.text ")"]) (doc (n + 1) body).flatten
  | _, n, .constDecl items => Doc.line n (.text "const " :: Doc.commas (doc n items) ++ [.text ";"])
  | _, n, .classLike decl members =>
    leadDoc n decl.doc decl.attributes ++ Doc.line n [.text decl.text] ++
      bracedBelow n (printedMembers members.toList (doc (n + 1) members))
  | _, n, .function decl params body =>
    leadDoc n decl.doc decl.attributes ++
      Doc.line n (.text ("function " ++ (if decl.byRef then "&" else "") ++ decl.name ++ "(") ::
        Doc.commas (doc n params) ++ [.text (")" ++ returnTypeText decl.returnType)]) ++
      bracedBelow n (doc (n + 1) body).flatten
  | _, n, .exprStmt value => Doc.line n (doc n value ++ ([.text ";"] : Doc))
  | _, n, .echo values => Doc.line n (.text "echo " :: Doc.commas (doc n values) ++ [.text ";"])
  | _, n, .returnStmt value => jumpDoc n "return" (doc n value)
  | _, n, .ifStmt cond yes elseIfs no =>
    Doc.line n (.text "if (" :: doc n cond ++ [.text ") \x7b"]) ++ (doc (n + 1) yes).flatten ++
      (doc n elseIfs).flatten ++
      (match doc (n + 1) no with
        | some ds => Doc.line n [.text "\x7d else \x7b"] ++ ds.flatten
        | none => []) ++
      Doc.line n [.text "\x7d"]
  | _, n, .whileStmt cond body =>
    braced n (.text "while (" :: doc n cond ++ [.text ")"]) (doc (n + 1) body).flatten
  | _, n, .doWhile body cond =>
    Doc.line n [.text "do \x7b"] ++ (doc (n + 1) body).flatten ++
      Doc.line n (.text "\x7d while (" :: doc n cond ++ [.text ");"])
  | _, n, .forStmt init cond step body =>
    let i := Doc.commas (doc n init)
    let c := Doc.commas (doc n cond)
    let s := Doc.commas (doc n step)
    let head := if (Doc.render "" (i ++ c ++ s)).isEmpty then [.text "for (;;)"]
      else .text "for (" :: i ++ .text "; " :: c ++ .text "; " :: s ++ [.text ")"]
    braced n head (doc (n + 1) body).flatten
  | _, n, .foreach subject key value byRef body =>
    braced n (.text "foreach (" :: doc n subject ++ .text " as " ::
      (match doc n key with
        | some k => k ++ [.text " => "]
        | none => []) ++
      .text (if byRef then "&" else "") :: doc n value ++ [.text ")"]) (doc (n + 1) body).flatten
  | _, n, .switchStmt subject cases =>
    braced n (.text "switch (" :: doc n subject ++ [.text ")"]) (doc (n + 1) cases).flatten
  | _, n, .breakStmt level => jumpDoc n "break" (doc n level)
  | _, n, .continueStmt level => jumpDoc n "continue" (doc n level)
  | _, n, .throwStmt value => Doc.line n (.text "throw " :: doc n value ++ [.text ";"])
  | _, n, .tryStmt body catches last =>
    Doc.line n [.text "try \x7b"] ++ (doc (n + 1) body).flatten ++ (doc n catches).flatten ++
      (match doc (n + 1) last with
        | some ds => Doc.line n [.text "\x7d finally \x7b"] ++ ds.flatten
        | none => []) ++
      Doc.line n [.text "\x7d"]
  | _, n, .block body => bracedBelow n (doc (n + 1) body).flatten
  | _, n, .global names =>
    Doc.line n [.text ("global " ++ String.intercalate ", " (names.map ("$" ++ ·)) ++ ";")]
  | _, n, .staticVars vars => Doc.line n (.text "static " :: Doc.commas (doc n vars) ++ [.text ";"])
  | _, n, .unset values => Doc.line n (.text "unset(" :: Doc.commas (doc n values) ++ [.text ");"])
  | _, n, .goto target => Doc.line n [.text ("goto " ++ target ++ ";")]
  | _, n, .label name => Doc.line n [.text (name ++ ":")]
  | _, _, .inlineHtml text => ([.text ("?>" ++ text ++ "<?php\n")] : Doc)
  | _, n, .comment text => commentDoc n text
  | _, _, .nop => ([] : Doc)
  -- Parts of statements
  | _, n, .directive name value => (.text (name ++ "=") :: doc n value : Doc)
  | _, n, .definition name value => (.text (name ++ " = ") :: doc n value : Doc)
  | _, n, .varItem name default => (.text ("$" ++ name) :: initDoc (doc n default) : Doc)
  | _, n, .elseIf cond body =>
    Doc.line n (.text "\x7d elseif (" :: doc n cond ++ [.text ") \x7b"]) ++ (doc (n + 1) body).flatten
  | _, n, .switchCase test body =>
    (match doc n test with
      | some d => Doc.line n (.text "case " :: d ++ [.text ":"])
      | none => Doc.line n [.text "default:"]) ++ (doc (n + 1) body).flatten
  | _, n, .catchClause types var body =>
    Doc.line n [.text ("\x7d catch (" ++ String.intercalate "|" types ++
      (match var with
        | some v => " $" ++ v
        | none => "") ++ ") \x7b")] ++ (doc (n + 1) body).flatten
  -- Members
  | _, n, .traitUse traits adaptations =>
    if adaptations.isEmpty then Doc.line n [.text ("use " ++ namesText traits ++ ";")]
    else braced n [.text ("use " ++ namesText traits)]
      (adaptations.map fun a => Doc.line (n + 1) [.text a.text]).flatten
  | _, n, .classConst decl items =>
    leadDoc n decl.doc decl.attributes ++
      Doc.line n (.text (wordIf decl.modifiers.isFinal "final" ++ decl.modifiers.visibilityText ++ "const ") ::
        Doc.commas (doc n items) ++ [.text ";"])
  | _, n, .property decl items =>
    let modifiers := decl.modifiers.propertyText
    leadDoc n decl.doc decl.attributes ++
      Doc.line n (.text ((if modifiers.isEmpty then "var " else modifiers) ++ typeText decl.type) ::
        Doc.commas (doc n items) ++ [.text ";"])
  | _, n, .method decl params body =>
    let m := decl.modifiers
    let head : Doc :=
      .text (wordIf m.isAbstract "abstract" ++ wordIf m.isFinal "final" ++ m.visibilityText ++
        wordIf m.isStatic "static" ++ "function " ++ (if decl.byRef then "&" else "") ++ decl.name ++ "(") ::
      Doc.commas (doc n params) ++ [.text (")" ++ returnTypeText decl.returnType)]
    leadDoc n decl.doc decl.attributes ++
      match doc (n + 1) body with
      | some ds => Doc.line n head ++ bracedBelow n ds.flatten
      | none => Doc.line n (head ++ [.text ";"])
  | _, n, .enumCase decl value =>
    leadDoc n decl.doc decl.attributes ++
      Doc.line n (.text ("case " ++ decl.name) :: initDoc (doc n value) ++ [.text ";"])
  | _, n, .memberComment text => commentDoc n text

end Node

/-! ## Whole texts -/

/-- The usual unit of indentation: four spaces. -/
def usualIndent : String := "    "

/-- The printed document of a source: the opening tag, and the statements below an empty line. -/
def File.doc (f : File) : Doc :=
  .text "<?php\n" ::
    if f.stmts.toList.all Stmt.isNop then []
    else Doc.blankLine ++ printedTopLevel f.stmts.toList (f.stmts.doc 0)

/-- The text of a source with a unit of indentation. -/
def File.print (indent : String) (f : File) : String := f.doc.render indent

/-- The text of statements, without an opening tag. -/
def Block.print (b : Block) : String := Doc.render usualIndent (Node.doc 0 b).flatten

/-- The text of an expression. -/
def Expr.print (e : Expr) : String := Doc.render usualIndent (Node.doc 0 e)

end Codewright.Php
