import Codewright.Php.Declaration
import Codewright.Php.Printer
import Codewright.Php.Exchange.Leaf

/-!
# The summary of a file

A `Summary` lists what a file declares: names, signatures, visibilities and modifiers. `File.summary` makes it from
the declarations of the file, `Summary.fields` writes it as the entries of a JSON object. Of the namespaces only the
first one is named.
-/

namespace Codewright.Php

open Json Exchange

namespace Summary

/-- A parameter. -/
structure Parameter where
  name : String
  type : Option String
  /-- The default value as source text. -/
  default : Option String
  byRef : Bool
  variadic : Bool

/-- A method. -/
structure Method where
  name : String
  modifiers : Modifiers
  returnType : Option String
  parameters : List Parameter

/-- A property. -/
structure Property where
  name : String
  modifiers : Modifiers
  type : Option String
  /-- The initial value as source text. -/
  default : Option String

/-- A class. -/
structure Class where
  name : String
  parent : Option String
  interfaces : List String
  modifiers : Modifiers
  traits : List String
  constants : List String
  methods : List Method
  properties : List Property

/-- An interface. -/
structure Interface where
  name : String
  parents : List String
  methods : List Method

/-- A trait. -/
structure Trait where
  name : String
  methods : List Method
  properties : List Property

/-- An enum. -/
structure Enum where
  name : String
  backing : Option String
  interfaces : List String
  cases : List String
  methods : List Method

/-- A function. -/
structure Function where
  name : String
  returnType : Option String
  parameters : List Parameter

end Summary

/-- What a file declares. -/
structure Summary where
  space : Option String
  imports : List String
  classes : List Summary.Class
  interfaces : List Summary.Interface
  traits : List Summary.Trait
  enums : List Summary.Enum
  functions : List Summary.Function

namespace Summary

/-! ### Reading it off the declarations -/

/-- The summary of one parameter. -/
def Parameter.ofNode : Node .param → Parameter
  | .param decl default =>
    ⟨decl.name, decl.type.map TypeHint.text, default.toOption.map Expr.print, decl.byRef, decl.variadic⟩

/-- The summaries of a list of parameters. -/
def Parameter.ofNodes (params : Node (.list .param)) : List Parameter := params.toList.map Parameter.ofNode

/-- The value that a declared variable starts with, as source text. -/
def initialText : Node .varItem → Option String
  | .varItem _ default => default.toOption.map Expr.print

/-- The methods among some members. -/
def Method.ofMembers (members : List Declaration) : List Method :=
  members.filterMap fun
    | .method decl params => some
        ⟨decl.name, decl.modifiers, decl.returnType.map TypeHint.text, Parameter.ofNodes params⟩
    | _ => none

/-- The properties among some members, one for each name. -/
def Property.ofMembers (members : List Declaration) : List Property :=
  members.flatMap fun
    | .property decl items => items.toList.map fun item =>
        ⟨item.itemName, decl.modifiers, decl.type.map TypeHint.text, initialText item⟩
    | _ => []

/-- The traits that some members bring in. -/
def traitsOf (members : List Declaration) : List String :=
  members.flatMap fun
    | .traitUse traits => traits
    | _ => []

/-- The constants among some members. -/
def constantsOf (members : List Declaration) : List String :=
  members.flatMap fun
    | .constant items => items.itemNames
    | _ => []

/-- The cases among some members. -/
def casesOf (members : List Declaration) : List String :=
  members.filterMap fun
    | .enumCase decl => some decl.name
    | _ => none

/-- An import with what it brings in and its other name. -/
def importText (kind : ImportKind) (i : Import) : String :=
  (match kind with
    | .normal => ""
    | .function => "function "
    | .const => "const ") ++ i.name ++ (i.rename.elim "" (" as " ++ ·))

/-- The classes among some declarations. -/
def classesOf (ds : List Declaration) : List Class :=
  ds.filterMap fun
    | .classLike ⟨.cls modifiers parent interfaces, name, _, _, _⟩ members =>
      let ms := members.declarations
      some ⟨name, parent, interfaces, modifiers, traitsOf ms, constantsOf ms, Method.ofMembers ms,
        Property.ofMembers ms⟩
    | _ => none

/-- The interfaces among some declarations. -/
def interfacesOf (ds : List Declaration) : List Interface :=
  ds.filterMap fun
    | .classLike ⟨.iface parents, name, _, _, _⟩ members =>
      some ⟨name, parents, Method.ofMembers members.declarations⟩
    | _ => none

/-- The traits among some declarations. -/
def traitDeclsOf (ds : List Declaration) : List Trait :=
  ds.filterMap fun
    | .classLike ⟨.trait, name, _, _, _⟩ members =>
      some ⟨name, Method.ofMembers members.declarations, Property.ofMembers members.declarations⟩
    | _ => none

/-- The enums among some declarations. -/
def enumsOf (ds : List Declaration) : List Enum :=
  ds.filterMap fun
    | .classLike ⟨.enum backing interfaces, name, _, _, _⟩ members =>
      some ⟨name, backing.map TypeHint.text, interfaces, casesOf members.declarations,
        Method.ofMembers members.declarations⟩
    | _ => none

/-- The functions among some declarations. -/
def functionsOf (ds : List Declaration) : List Function :=
  ds.filterMap fun
    | .function decl params => some ⟨decl.name, decl.returnType.map TypeHint.text, Parameter.ofNodes params⟩
    | _ => none

/-- The imports among some declarations. -/
def importsOf (ds : List Declaration) : List String :=
  ds.flatMap fun
    | .importing kind items => items.map (importText kind)
    | _ => []

end Summary

/-- The summary of a file. -/
def File.summary (f : File) : Summary :=
  let ds := f.declarations
  ⟨f.firstNamespace?.join, Summary.importsOf ds, Summary.classesOf ds, Summary.interfacesOf ds,
    Summary.traitDeclsOf ds, Summary.enumsOf ds, Summary.functionsOf ds⟩

namespace Summary

/-! ### Writing it as JSON -/

/-- A parameter as JSON. -/
def Parameter.toJson (p : Parameter) : Json :=
  .object [("name", .string p.name), ("type", .ofOption p.type), ("has_default", .bool p.default.isSome),
    ("default", .ofOption p.default), ("by_ref", .bool p.byRef), ("variadic", .bool p.variadic)]

/-- Parameters as JSON. -/
def parametersJson (ps : List Parameter) : Json := .array (ps.map Parameter.toJson)

/-- A method as JSON. -/
def Method.toJson (m : Method) : Json :=
  .object [("name", .string m.name), ("visibility", .string m.modifiers.visibility.keyword),
    ("is_static", .bool m.modifiers.isStatic), ("is_abstract", .bool m.modifiers.isAbstract),
    ("is_final", .bool m.modifiers.isFinal), ("return_type", .ofOption m.returnType),
    ("parameters", parametersJson m.parameters)]

/-- Methods as JSON. -/
def methodsJson (ms : List Method) : Json := .array (ms.map Method.toJson)

/-- A property as JSON. -/
def Property.toJson (p : Property) : Json :=
  .object [("name", .string p.name), ("visibility", .string p.modifiers.visibility.keyword),
    ("is_static", .bool p.modifiers.isStatic), ("is_readonly", .bool p.modifiers.isReadonly),
    ("type", .ofOption p.type), ("default", .ofOption p.default)]

/-- Properties as JSON. -/
def propertiesJson (ps : List Property) : Json := .array (ps.map Property.toJson)

/-- A class as JSON. -/
def Class.toJson (c : Class) : Json :=
  .object [("name", .string c.name), ("extends", .ofOption c.parent), ("implements", .ofStrings c.interfaces),
    ("is_abstract", .bool c.modifiers.isAbstract), ("is_final", .bool c.modifiers.isFinal),
    ("traits", .ofStrings c.traits), ("constants", .ofStrings c.constants), ("methods", methodsJson c.methods),
    ("properties", propertiesJson c.properties)]

/-- An interface as JSON. -/
def Interface.toJson (i : Interface) : Json :=
  .object [("name", .string i.name), ("extends", .ofStrings i.parents), ("methods", methodsJson i.methods)]

/-- A trait as JSON. -/
def Trait.toJson (t : Trait) : Json :=
  .object [("name", .string t.name), ("methods", methodsJson t.methods), ("properties", propertiesJson t.properties)]

/-- An enum as JSON. -/
def Enum.toJson (e : Enum) : Json :=
  .object [("name", .string e.name), ("backing", .ofOption e.backing), ("implements", .ofStrings e.interfaces),
    ("cases", .ofStrings e.cases), ("methods", methodsJson e.methods)]

/-- A function as JSON. -/
def Function.toJson (f : Function) : Json :=
  .object [("name", .string f.name), ("return_type", .ofOption f.returnType),
    ("parameters", parametersJson f.parameters)]

/-- The entries of a summary. -/
def fields (s : Summary) : Entries :=
  [("namespace", .ofOption s.space), ("uses", .ofStrings s.imports), ("classes", .array (s.classes.map Class.toJson)),
    ("interfaces", .array (s.interfaces.map Interface.toJson)), ("traits", .array (s.traits.map Trait.toJson)),
    ("enums", .array (s.enums.map Enum.toJson)), ("functions", .array (s.functions.map Function.toJson))]

end Summary

end Codewright.Php
