import Codewright.Php.Leaf

/-!
# The syntax tree of PHP

One family of types, `Node`, holds the trees of every `Category`, so a statement about all trees is one induction.
`Expr`, `Stmt` and `Member` are the main categories; `Block` is a list of statements, `Members` the body of a
class-like declaration. Lists and optional parts are trees as well; `Node.toList` and `Node.toOption` turn them into
ordinary lists and options, `Node.ofList` and `Node.ofOption` back.

Comments between statements and members are entries of the lists in which they stand; a doc comment in front of a
declaration belongs to the declaration.
-/

namespace Codewright.Php

open Source

/-- What a tree is the tree of. -/
inductive Category where
  | expr
  | stmt
  | member
  | memberName
  | item
  | arg
  | arm
  | param
  | directive
  | definition
  | varItem
  | elseIf
  | switchCase
  | catchClause
  | list (of : Category)
  | opt (of : Category)
deriving DecidableEq, Repr

/-- Syntax trees, by category. -/
inductive Node : Category → Type where
  -- Lists and optional parts
  | nil {c : Category} : Node (.list c)
  | cons {c : Category} (head : Node c) (tail : Node (.list c)) : Node (.list c)
  | absent {c : Category} : Node (.opt c)
  | present {c : Category} (value : Node c) : Node (.opt c)
  -- Expressions
  /-- A variable, stored without the dollar sign. -/
  | variable (name : String) : Node .expr
  /-- A variable whose name is computed. -/
  | variableVariable (name : Node .expr) : Node .expr
  | literal (value : Literal) : Node .expr
  | array (items : Node (.list .item)) (short : Bool) : Node .expr
  /-- A name that stands for a class or is called. -/
  | nameRef (name : Name) : Node .expr
  /-- A name that stands for a constant. -/
  | constantRef (name : Name) : Node .expr
  | classConstant (cls : Node .expr) (name : String) : Node .expr
  | staticProperty (cls : Node .expr) (name : String) : Node .expr
  | propertyFetch (object : Node .expr) (name : Node .memberName) (nullsafe : Bool) : Node .expr
  | methodCall (object : Node .expr) (name : Node .memberName) (args : Node (.list .arg)) (nullsafe : Bool) :
      Node .expr
  | staticCall (cls : Node .expr) (name : Node .memberName) (args : Node (.list .arg)) : Node .expr
  | call (callee : Node .expr) (args : Node (.list .arg)) : Node .expr
  | new (cls : Node .expr) (args : Node (.list .arg)) : Node .expr
  | anonymousClass (args : Node (.list .arg)) (decl : ClassDecl) (members : Node (.list .member)) : Node .expr
  | subscript (value : Node .expr) (index : Node (.opt .expr)) : Node .expr
  | assign (target : Node .expr) (op : AssignOp) (value : Node .expr) : Node .expr
  | assignRef (target : Node .expr) (value : Node .expr) : Node .expr
  | binary (op : BinaryOp) (left : Node .expr) (right : Node .expr) : Node .expr
  | unary (op : UnaryOp) (operand : Node .expr) : Node .expr
  | incDec (op : StepOp) (operand : Node .expr) : Node .expr
  | cast (type : CastType) (operand : Node .expr) : Node .expr
  | ternary (cond : Node .expr) (yes : Node (.opt .expr)) (no : Node .expr) : Node .expr
  | instanceOf (operand : Node .expr) (cls : Node .expr) : Node .expr
  | isset (operands : Node (.list .expr)) : Node .expr
  | emptyCheck (operand : Node .expr) : Node .expr
  | closure (decl : ClosureDecl) (params : Node (.list .param)) (body : Node (.list .stmt)) : Node .expr
  | arrowFn (decl : ClosureDecl) (params : Node (.list .param)) (body : Node .expr) : Node .expr
  | matchExpr (subject : Node .expr) (arms : Node (.list .arm)) : Node .expr
  | clone (operand : Node .expr) : Node .expr
  | print (operand : Node .expr) : Node .expr
  | throwExpr (operand : Node .expr) : Node .expr
  | yield (key : Node (.opt .expr)) (value : Node (.opt .expr)) : Node .expr
  | yieldFrom (operand : Node .expr) : Node .expr
  /-- The three dots that make a callable out of a call. -/
  | callablePlaceholder : Node .expr
  | includeExpr (kind : IncludeKind) (operand : Node .expr) : Node .expr
  | suppress (operand : Node .expr) : Node .expr
  | paren (inner : Node .expr) : Node .expr
  -- Parts of expressions
  /-- A member name written out. -/
  | ident (name : String) : Node .memberName
  /-- A member name that is computed. -/
  | computed (name : Node .expr) : Node .memberName
  | item (key : Node (.opt .expr)) (value : Node .expr) (byRef : Bool) (spread : Bool) : Node .item
  | arg (name : Option String) (value : Node .expr) (spread : Bool) : Node .arg
  /-- An arm of a `match`; the default arm has no conditions. -/
  | arm (conditions : Node (.opt (.list .expr))) (body : Node .expr) : Node .arm
  | param (decl : ParamDecl) (default : Node (.opt .expr)) : Node .param
  -- Statements
  | namespaceDecl (name : Option Name) (body : Node (.list .stmt)) (braced : Bool) (span : Span) : Node .stmt
  | useDecl (kind : ImportKind) (items : List Import) : Node .stmt
  | declare (directives : Node (.list .directive)) : Node .stmt
  | declareBlock (directives : Node (.list .directive)) (body : Node (.list .stmt)) : Node .stmt
  | constDecl (items : Node (.list .definition)) : Node .stmt
  | classLike (decl : ClassDecl) (members : Node (.list .member)) : Node .stmt
  | function (decl : FunctionDecl) (params : Node (.list .param)) (body : Node (.list .stmt)) : Node .stmt
  | exprStmt (value : Node .expr) : Node .stmt
  | echo (values : Node (.list .expr)) : Node .stmt
  | returnStmt (value : Node (.opt .expr)) : Node .stmt
  | ifStmt (cond : Node .expr) (yes : Node (.list .stmt)) (elseIfs : Node (.list .elseIf))
      (no : Node (.opt (.list .stmt))) : Node .stmt
  | whileStmt (cond : Node .expr) (body : Node (.list .stmt)) : Node .stmt
  | doWhile (body : Node (.list .stmt)) (cond : Node .expr) : Node .stmt
  | forStmt (init cond step : Node (.list .expr)) (body : Node (.list .stmt)) : Node .stmt
  | foreach (subject : Node .expr) (key : Node (.opt .expr)) (value : Node .expr) (byRef : Bool)
      (body : Node (.list .stmt)) : Node .stmt
  | switchStmt (subject : Node .expr) (cases : Node (.list .switchCase)) : Node .stmt
  | breakStmt (level : Node (.opt .expr)) : Node .stmt
  | continueStmt (level : Node (.opt .expr)) : Node .stmt
  | throwStmt (value : Node .expr) : Node .stmt
  | tryStmt (body : Node (.list .stmt)) (catches : Node (.list .catchClause)) (last : Node (.opt (.list .stmt))) :
      Node .stmt
  | block (body : Node (.list .stmt)) : Node .stmt
  | global (names : List String) : Node .stmt
  | staticVars (vars : Node (.list .varItem)) : Node .stmt
  | unset (values : Node (.list .expr)) : Node .stmt
  | goto (label : String) : Node .stmt
  | label (name : String) : Node .stmt
  | inlineHtml (text : String) : Node .stmt
  /-- A comment that is no doc comment of a declaration, as written. -/
  | comment (text : String) : Node .stmt
  /-- A placeholder that prints nothing. -/
  | nop : Node .stmt
  -- Parts of statements
  /-- A named value of a `declare`. -/
  | directive (name : String) (value : Node .expr) : Node .directive
  /-- A named value of a constant declaration. -/
  | definition (name : String) (value : Node .expr) : Node .definition
  /-- A declared variable, perhaps with an initial value. -/
  | varItem (name : String) (default : Node (.opt .expr)) : Node .varItem
  | elseIf (cond : Node .expr) (body : Node (.list .stmt)) : Node .elseIf
  /-- A case of a `switch`; the default case has no test. -/
  | switchCase (test : Node (.opt .expr)) (body : Node (.list .stmt)) : Node .switchCase
  | catchClause (types : List Name) (var : Option String) (body : Node (.list .stmt)) : Node .catchClause
  -- Members of class-like declarations
  | traitUse (traits : List Name) (adaptations : List Adaptation) : Node .member
  | classConst (decl : ConstDecl) (items : Node (.list .definition)) : Node .member
  | property (decl : PropertyDecl) (items : Node (.list .varItem)) : Node .member
  /-- A method; abstract methods and those of interfaces have no body. -/
  | method (decl : MethodDecl) (params : Node (.list .param)) (body : Node (.opt (.list .stmt))) : Node .member
  | enumCase (decl : CaseDecl) (value : Node (.opt .expr)) : Node .member
  | memberComment (text : String) : Node .member

/-- Expressions. -/
abbrev Expr := Node .expr

/-- Statements. -/
abbrev Stmt := Node .stmt

/-- Lists of statements. -/
abbrev Block := Node (.list .stmt)

/-- Entries in the body of a class-like declaration. -/
abbrev Member := Node .member

/-- The bodies of class-like declarations. -/
abbrev Members := Node (.list .member)

/-- A whole source. -/
structure File where
  stmts : Block
  span : Span

/-- The category of the entries of a list, or of an optional part. -/
abbrev Category.inner : Category → Category
  | .list c => c
  | .opt c => c
  | c => c

namespace Node

/-- The entries of a tree that is a list. -/
def entries : {c : Category} → Node c → List (Node c.inner)
  | _, .nil => []
  | _, .cons head tail => head :: entries tail
  | _, _ => []

/-- A list of trees as an ordinary list. -/
def toList {c : Category} (s : Node (.list c)) : List (Node c) := s.entries

/-- An ordinary list as a list of trees. -/
def ofList {c : Category} : List (Node c) → Node (.list c)
  | [] => .nil
  | x :: xs => .cons x (ofList xs)

/-- An optional part as an ordinary option. -/
def toOption {c : Category} : Node (.opt c) → Option (Node c)
  | .absent => none
  | .present x => some x

/-- An ordinary option as an optional part. -/
def ofOption {c : Category} : Option (Node c) → Node (.opt c)
  | none => .absent
  | some x => .present x

instance {c : Category} : Inhabited (Node (.list c)) := ⟨.nil⟩

@[simp] theorem toList_nil {c : Category} : toList (.nil : Node (.list c)) = [] := rfl

@[simp] theorem toList_cons {c : Category} (x : Node c) (xs : Node (.list c)) :
    toList (.cons x xs) = x :: toList xs := rfl

@[simp] theorem toList_ofList {c : Category} (xs : List (Node c)) : toList (ofList xs) = xs := by
  induction xs with
  | nil => rfl
  | cons x xs ih => simp [ofList, ih]

@[simp] theorem toOption_ofOption {c : Category} (x : Option (Node c)) : toOption (ofOption x) = x := by
  cases x <;> rfl

end Node

end Codewright.Php
