import Codewright.Php.Tree
import Codewright.Text.Classes

/-!
# Declarations of a file

A search of a file enters namespaces and the bodies of class-like declarations, and nothing else: what is declared
inside a function or an `if` is not found.

* `Declaration` – what can be found, with its `kind` and its `label`;
* `Node.declarations` – all declarations of a tree in the order of the source;
* `File.firstClass?`, `File.withFirstClass` – the class that revisions work on, and the file with another body for it;
* `methodIndex?`, `firstMethodIndex?`, `firstMethodBlock?` – places in the body of a class.
-/

namespace Codewright.Php

/-- A declaration that a search finds. -/
inductive Declaration where
  | space (name : Option Name) (body : Block)
  | importing (kind : ImportKind) (items : List Import)
  | classLike (decl : ClassDecl) (members : Members)
  | function (decl : FunctionDecl) (params : Node (.list .param))
  | traitUse (traits : List Name)
  | constant (items : Node (.list .definition))
  | property (decl : PropertyDecl) (items : Node (.list .varItem))
  | method (decl : MethodDecl) (params : Node (.list .param))
  | enumCase (decl : CaseDecl)

/-- The kinds of declarations. -/
inductive Declaration.Kind where
  | space | cls | iface | trait | enum | function | method | property | constant | enumCase | traitUse | importing
deriving DecidableEq, Repr

/-- The kind of a class-like declaration. -/
def ClassKind.kind : ClassKind → Declaration.Kind
  | .cls .. => .cls
  | .iface .. => .iface
  | .trait => .trait
  | .enum .. => .enum

namespace Declaration

/-- The kind of a declaration. -/
def kind : Declaration → Kind
  | .space .. => .space
  | .importing .. => .importing
  | .classLike decl _ => decl.kind.kind
  | .function .. => .function
  | .traitUse .. => .traitUse
  | .constant .. => .constant
  | .property .. => .property
  | .method .. => .method
  | .enumCase .. => .enumCase

end Declaration

/-- The name of a definition or of a declared variable. -/
def Node.itemName : {c : Category} → Node c → String
  | _, .definition name _ => name
  | _, .varItem name _ => name
  | _, _ => ""

/-- The names that a list of definitions or variables declares. -/
def Node.itemNames {c : Category} (items : Node (.list c)) : List String := items.toList.map Node.itemName

/-- What names a declaration: its own name, or the names that it declares, with commas. A namespace without a name
has a dash. -/
def Declaration.label : Declaration → String
  | .space name _ => name.getD "-"
  | .importing _ items => String.intercalate "," (items.map (·.name))
  | .classLike decl _ => decl.name
  | .function decl _ => decl.name
  | .traitUse traits => String.intercalate "," traits
  | .constant items => String.intercalate "," items.itemNames
  | .property _ items => String.intercalate "," items.itemNames
  | .method decl _ => decl.name
  | .enumCase decl => decl.name

namespace Node

/-- The declarations of a tree, in the order of the source. -/
def declarations : {c : Category} → Node c → List Declaration
  | _, .cons head tail => declarations head ++ declarations tail
  | _, .namespaceDecl name body _ _ => .space name body :: declarations body
  | _, .useDecl kind items => [.importing kind items]
  | _, .classLike decl members => .classLike decl members :: declarations members
  | _, .function decl params _ => [.function decl params]
  | _, .traitUse traits _ => [.traitUse traits]
  | _, .classConst _ items => [.constant items]
  | _, .property decl items => [.property decl items]
  | _, .method decl params _ => [.method decl params]
  | _, .enumCase decl _ => [.enumCase decl]
  | _, _ => []

theorem declarations_cons {c : Category} (head : Node c) (tail : Node (.list c)) :
    declarations (.cons head tail) = declarations head ++ declarations tail := rfl

theorem declarations_namespaceDecl (name : Option Name) (body : Block) (braced : Bool) (span : Source.Span) :
    declarations (.namespaceDecl name body braced span) = .space name body :: declarations body := rfl

theorem declarations_classLike (decl : ClassDecl) (members : Members) :
    declarations (.classLike decl members) = .classLike decl members :: declarations members := rfl

/-- The entry is a method. -/
def isMethod : Member → Bool
  | .method .. => true
  | _ => false

/-- The entry is a comment. -/
def isComment : Member → Bool
  | .memberComment _ => true
  | _ => false

/-- The entry is a method with this name, in any case. -/
def isMethodNamed (name : String) : Member → Bool
  | .method decl _ _ => Text.sameIgnoringCase decl.name name
  | _ => false

/-- The first class of a tree. -/
def firstClass? : {c : Category} → Node c → Option (ClassDecl × Members)
  | _, .cons head tail => (firstClass? head).or (firstClass? tail)
  | _, .namespaceDecl _ body _ _ => firstClass? body
  | _, .classLike decl members => if decl.kind.kind = .cls then some (decl, members) else none
  | _, _ => none

/-- The tree with another body for its first class, if it has one. -/
def withFirstClass (members : Members) : {c : Category} → Node c → Option (Node c)
  | _, .cons head tail =>
    match withFirstClass members head with
    | some head => some (.cons head tail)
    | none => (withFirstClass members tail).map (.cons head)
  | _, .namespaceDecl name body braced span =>
    (withFirstClass members body).map fun body => .namespaceDecl name body braced span
  | _, .classLike decl _ => if decl.kind.kind = .cls then some (.classLike decl members) else none
  | _, _ => none

section

variable {c : Category} (head : Node c) (tail : Node (.list c)) (name : Option Name) (body : Block) (braced : Bool)
  (span : Source.Span) (decl : ClassDecl) (old new : Members)

theorem firstClass?_cons : firstClass? (.cons head tail) = (firstClass? head).or (firstClass? tail) := rfl

theorem firstClass?_namespaceDecl : firstClass? (.namespaceDecl name body braced span) = firstClass? body := rfl

theorem firstClass?_classLike :
    firstClass? (.classLike decl old) = if decl.kind.kind = .cls then some (decl, old) else none := rfl

theorem withFirstClass_cons : withFirstClass new (.cons head tail) =
    match withFirstClass new head with
    | some head => some (.cons head tail)
    | none => (withFirstClass new tail).map (.cons head) := rfl

theorem withFirstClass_namespaceDecl : withFirstClass new (.namespaceDecl name body braced span) =
    (withFirstClass new body).map fun body => .namespaceDecl name body braced span := rfl

theorem withFirstClass_classLike : withFirstClass new (.classLike decl old) =
    if decl.kind.kind = .cls then some (.classLike decl new) else none := rfl

end

end Node

namespace File

/-- The declarations of a file. -/
def declarations (f : File) : List Declaration := f.stmts.declarations

/-- The declarations of one kind. -/
def declarationsOf (f : File) (kind : Declaration.Kind) : List Declaration :=
  f.declarations.filter fun d => d.kind = kind

/-- The first class, inside a namespace or not. -/
def firstClass? (f : File) : Option (ClassDecl × Members) := f.stmts.firstClass?

/-- The file with another body for its first class; a file without a class stays as it is. -/
def withFirstClass (f : File) (members : Members) : File :=
  { f with stmts := (Node.withFirstClass members f.stmts).getD f.stmts }

/-- The first namespace of the file itself: none that stands inside another one. -/
def firstNamespace? (f : File) : Option (Option Name) :=
  f.stmts.toList.findSome? fun
    | .namespaceDecl name _ _ _ => some name
    | _ => none

end File

/-! ### Places in a class body -/

/-- Where the method with this name stands, in any case. -/
def methodIndex? (name : String) (members : List Member) : Option Nat :=
  members.findIdx? (Node.isMethodNamed name)

/-- Where the first method stands. -/
def firstMethodIndex? (members : List Member) : Option Nat := members.findIdx? Node.isMethod

/-- Where the comments directly above the first method begin. -/
def firstMethodBlock? (members : List Member) : Option Nat :=
  (firstMethodIndex? members).map fun i => i - ((members.take i).reverse.takeWhile Node.isComment).length

end Codewright.Php
