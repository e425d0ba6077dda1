import Codewright.Php.Descriptor
import Codewright.Php.EditError
import Codewright.Php.Parser
import Codewright.Text.Classes
import Codewright.Text.Lines

/-!
# Making PHP from descriptors

* `literalOf` – the expression of a JSON value; `docBlock` – a doc comment around any text;
* `Descriptor.Method.build`, `Descriptor.Property.build`, `Descriptor.Parameter.build`, `Descriptor.Constant.build` –
  members of classes;
* `Descriptor.Class.build`, `Descriptor.Interface.build`, `Descriptor.Trait.build` – files with one declaration;
* `buildFile` – a file from a descriptor that says itself what it describes.

A descriptor that contradicts itself is an error. A body that cannot be read is replaced by an empty statement, and a
warning says so (`Built.warnings`).
-/

namespace Codewright.Php

open Text Source Json

/-- Something that was made, with the warnings about it. -/
structure Built (α : Type) where
  value : α
  warnings : List Diagnostic := []

/-- The results of several makings together. -/
def Built.all {α : Type} (parts : List (Built α)) : Built (List α) :=
  ⟨parts.map (·.value), parts.flatMap (·.warnings)⟩

/-! ### Literals and comments -/

mutual

/-- The expression of a JSON value: arrays are lists, objects are lists with keys. -/
def literalOf : Json → Expr
  | .null => .literal .null
  | .bool b => .literal (.bool b)
  | .number text => .literal (if text.toList.any fun c => c == '.' || c == 'e' then .float text else .int text)
  | .string s => .literal (.ofText s)
  | .array items => .array (literalItems items) true
  | .object es => .array (literalEntries es) true

/-- The items of a list. -/
def literalItems : List Json → Node (.list .item)
  | [] => .nil
  | v :: vs => .cons (.item .absent (literalOf v) false false) (literalItems vs)

/-- The items of a list with keys. -/
def literalEntries : List (String × Json) → Node (.list .item)
  | [] => .nil
  | (k, v) :: es => .cons (.item (.present (.literal (.ofText k))) (literalOf v) false false) (literalEntries es)

end

/-- The text is one doc comment and nothing else. -/
def isDocBlock (text : List Char) : Bool :=
  match (stripStart? "/**".toList text).bind (stripEnd? "*/".toList) with
  | some inner => (cutAt "*/".toList inner).isNone
  | none => false

/-- A line of a doc comment. The end of a comment is broken up by a backslash. -/
def docLine (line : String) : String :=
  let line := replaceAll "*/" "*\\/" (trimmedEnd line)
  if line.isEmpty then " *\n" else " * " ++ line ++ "\n"

/-- A doc comment around a text; a text that is one already stays as it is. -/
def docBlock (text : String) : String :=
  let text := trimmed text
  if isDocBlock text.toList then text
  else "/**\n" ++ String.join ((linesOf text).map docLine) ++ " */"

/-! ### Names and types -/

/-- An underscore or a letter, and then underscores, letters and numerals. -/
def isIdentifier : List Char → Bool
  | [] => false
  | c :: cs => (c == '_' || isLetter c) && cs.all fun c => c == '_' || isLetterOrNumeral c

/-- Refuses a name that is no identifier. -/
def checkName (what : Described) (name : String) : Except EditError Unit :=
  if isIdentifier name.toList then .ok () else .error (.invalidDescriptor (.invalidName what name))

/-- Refuses a descriptor for a reason, if the reason holds. -/
def refuseIf (fault : Bool) (why : DescriptorFault) : Except EditError Unit :=
  if fault then .error (.invalidDescriptor why) else .ok ()

/-- A name without the dollar sign in front of it. -/
def bareName (name : String) : String :=
  match name.toList with
  | '$' :: rest => String.ofList rest
  | _ => name

/-- The type that a text denotes. -/
def typeOf (text : String) : Except EditError TypeHint :=
  (parseType text).mapError (EditError.invalidType text)

/-- The type that a text denotes, if there is a text. -/
def typeOf? (text : Option String) : Except EditError (Option TypeHint) := text.mapM typeOf

/-! ### Members -/

namespace Descriptor

/-- Makes a parameter. -/
def Parameter.build (p : Parameter) : Except EditError (Node .param) := do
  let name := bareName p.name
  checkName .parameter name
  refuseIf (p.variadic && p.default.isSome) (.variadicWithDefault name)
  let type ← typeOf? p.type
  return .param
    { name, type, byRef := p.byRef, variadic := p.variadic,
      promoted := p.promote.elim .none Visibility.modifiers, attributes := [] }
    (.ofOption (p.default.map literalOf))

/-- The statements of a method body. -/
def bodyOf (method : String) (body : Option String) : Built (List Stmt) :=
  match body.filter fun b => !isBlankText b with
  | none => ⟨[], []⟩
  | some text =>
    match parseSnippet text with
    | .ok stmts => ⟨stmts, []⟩
    | .error e => ⟨[.nop],
        [(Diagnostic.warning ("body of method '" ++ method ++ "' could not be parsed and was left empty")
          .nowhere).withHint e.message]⟩

/-- The modifiers that a method states. -/
def Method.modifiers (m : Method) : Modifiers :=
  { m.visibility.modifiers with isStatic := m.isStatic, isAbstract := m.isAbstract, isFinal := m.isFinal }

/-- Makes the head and the parameters of a method. -/
def Method.buildHead (m : Method) : Except EditError (MethodDecl × Node (.list .param)) := do
  checkName .method m.name
  refuseIf (m.isAbstract && m.isFinal) (.abstractAndFinal .method m.name)
  refuseIf (m.isAbstract && m.body.isSome) (.abstractWithBody m.name)
  let params ← m.parameters.mapM Parameter.build
  let returnType ← typeOf? m.returnType
  return ({ name := m.name, modifiers := m.modifiers, byRef := false, returnType, doc := m.doc.map docBlock,
            attributes := [], span := .nowhere }, .ofList params)

/-- Makes a method; an abstract one has no body. -/
def Method.build (m : Method) : Except EditError (Built Member) := do
  let (decl, params) ← m.buildHead
  if m.isAbstract then return ⟨.method decl params .absent, []⟩
  else
    let body := bodyOf m.name m.body
    return ⟨.method decl params (.present (.ofList body.value)), body.warnings⟩

/-- Makes a method of an interface, which has no body. -/
def Method.buildSignature (m : Method) : Except EditError (Built Member) := do
  let (decl, params) ← { m with body := none : Method }.buildHead
  return ⟨.method decl params .absent,
    if m.body.isSome then
      [.warning ("interface method '" ++ m.name ++ "' cannot have a body; body ignored") .nowhere]
    else []⟩

/-- Makes a property. -/
def Property.build (p : Property) : Except EditError (Built Member) := do
  let name := bareName p.name
  checkName .property name
  refuseIf (p.isReadonly && p.type.isNone) (.readonlyWithoutType name)
  refuseIf (p.isReadonly && p.default.isSome) (.readonlyWithDefault name)
  let type ← typeOf? p.type
  let modifiers := { p.visibility.modifiers with isStatic := p.isStatic, isReadonly := p.isReadonly }
  return ⟨.property { modifiers, type, doc := p.doc.map docBlock, attributes := [], span := .nowhere }
    (.ofList [.varItem name (.ofOption (p.default.map literalOf))]), []⟩

/-- Makes a constant. -/
def Constant.build (c : Constant) : Except EditError (Built Member) := do
  checkName .constant c.name
  return ⟨.classConst { modifiers := c.visibility.modifiers, doc := none, attributes := [] }
    (.ofList [.definition c.name (literalOf c.value)]), []⟩

/-! ### Files -/

/-- The import that a text denotes: a name, perhaps with another one behind `as`. -/
def importOf (text : String) : Stmt :=
  let (name, rename) := match cutAt " as ".toList text.toList with
    | some (name, rest) => (name, some (String.ofList (trim (rest.drop 4))))
    | none => (text.toList, none)
  .useDecl .normal [{ name := String.ofList ((trim name).dropWhile (· == '\\')), rename }]

/-- A namespace without the backslashes at its ends, if anything is left of it. -/
def spaceOf? (space : Option String) : Option Name :=
  space.bind fun s =>
    let name := dropWhileEnd (· == '\\') (s.toList.dropWhile (· == '\\'))
    if name.isEmpty then none else some (String.ofList name)

/-- The file around a declaration: `declare`, the namespace, the imports, the declaration. -/
def Frame.file (frame : Frame) (decl : Stmt) : File :=
  let strict : List Stmt :=
    if frame.strictTypes then [.declare (.ofList [.directive "strict_types" (.literal (.int "1"))])] else []
  let body := frame.imports.map importOf ++ [decl]
  let stmts := match spaceOf? frame.space with
    | some name => strict ++ [.namespaceDecl (some name) (.ofList body) false .nowhere]
    | none => strict ++ body
  ⟨.ofList stmts, .nowhere⟩

/-- The file with a class-like declaration that has these members. -/
def Frame.declare (frame : Frame) (kind : ClassKind) (name : String) (doc : Option String)
    (members : Built (List Member)) : Built File :=
  ⟨frame.file (.classLike ⟨kind, name, doc.map docBlock, [], .nowhere⟩ (.ofList members.value)), members.warnings⟩

/-- The entry that brings traits into a class, if there are any. -/
def traitsMember (traits : List String) : List (Built Member) :=
  if traits.isEmpty then [] else [⟨.traitUse traits [], []⟩]

/-- Makes a file with a class. -/
def Class.build (c : Class) : Except EditError (Built File) := do
  checkName .cls c.name
  refuseIf (c.isAbstract && c.isFinal) (.abstractAndFinal .cls c.name)
  let constants ← c.constants.mapM Constant.build
  let properties ← c.properties.mapM Property.build
  let methods ← c.methods.mapM Method.build
  let modifiers := { Modifiers.none with isAbstract := c.isAbstract, isFinal := c.isFinal }
  return c.frame.declare (.cls modifiers c.parent c.interfaces) c.name c.doc
    (.all (traitsMember c.traits ++ constants ++ properties ++ methods))

/-- Makes a file with an interface. -/
def Interface.build (i : Interface) : Except EditError (Built File) := do
  checkName .iface i.name
  let constants ← i.constants.mapM Constant.build
  let methods ← i.methods.mapM Method.buildSignature
  return i.frame.declare (.iface i.parents) i.name i.doc (.all (constants ++ methods))

/-- Makes a file with a trait. -/
def Trait.build (t : Trait) : Except EditError (Built File) := do
  checkName .trait t.name
  let properties ← t.properties.mapM Property.build
  let methods ← t.methods.mapM Method.build
  return t.frame.declare .trait t.name t.doc (.all (properties ++ methods))

/-- Reads a descriptor. -/
def read {α : Type} (record : Record α) (j : Json) : Except EditError α :=
  (record.decode j).mapError fun why => .invalidDescriptor (.misfit why)

end Descriptor

/-- Makes a file from a descriptor; its `type` says of what, and a class is made if it says nothing. -/
def buildFile (descriptor : Json) : Except EditError (Built File) :=
  match (descriptor.textAt? "type").getD "class" with
  | "class" => do (← Descriptor.read Descriptor.Class.record descriptor).build
  | "interface" => do (← Descriptor.read Descriptor.Interface.record descriptor).build
  | "trait" => do (← Descriptor.read Descriptor.Trait.record descriptor).build
  | other => .error (.unknownCreateType other)

end Codewright.Php
