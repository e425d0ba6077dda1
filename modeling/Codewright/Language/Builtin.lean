import Codewright.Css.Revision
import Codewright.Language.Basic
import Codewright.Language.Settings
import Codewright.Php.Revision
import Codewright.Script.Revision

/-!
# The languages of the workshop

PHP is made and changed through syntax trees, scripts and stylesheets as text, and JSON documents as values.
-/

namespace Codewright.Language

open Json

/-- Fails with an error of PHP. -/
def phpResult {α : Type} (r : Except Php.EditError α) : Except CraftError α := r.mapError .php

/-- A PHP file from options. -/
def createPhp (unit : String) (options : Json) : Except CraftError Output :=
  match Php.buildFile options with
  | .ok built => .ok ⟨built.value.print unit, built.warnings⟩
  | .error (.unknownCreateType type) => .error (.unknownType "php" type)
  | .error e => .error (.php e)

/-- A PHP source after some operations. All operations are read before the source is. -/
def editPhp (unit source : String) (operations : List Json) : Except CraftError Output := do
  let revisions ← phpResult (Php.Revision.listOfJson operations)
  let built ← phpResult (Php.reviseSource unit source revisions)
  return ⟨built.value, built.warnings⟩

/-- PHP. -/
def php (s : Settings) : Language where
  name := "php"
  extensions := ["php"]
  capabilities := [("analyze", true), ("ast", true), ("create", true), ("edit", true), ("format", true),
    ("validate", true)]
  help := {
    description := "Generate PHP classes, interfaces and traits; edit classes through the syntax tree."
    examples := [.object [
      ("type", .string "class"), ("name", .string "User"), ("namespace", .string "App\\Models"),
      ("properties", .array [.object [
        ("name", .string "name"), ("type", .string "string"), ("visibility", .string "protected")]]),
      ("methods", .array [.object [
        ("name", .string "getName"), ("return_type", .string "string"),
        ("body", .string "return $this->name;")]])]]
    options := [
      ("methods", "list of \x7bname, visibility, static, abstract, final, parameters, return_type, body\x7d"),
      ("name", "declaration name"),
      ("namespace", "namespace for the file"),
      ("properties", "list of \x7bname, visibility, static, readonly, type, default\x7d"),
      ("strict_types", "emit declare(strict_types=1)"),
      ("type", "class (default), interface or trait"),
      ("uses", "imports, optionally `Name as Alias`")] }
  create := createPhp s.unit
  edit := editPhp s.unit
  analyze source := do
    let file ← phpResult ((Php.parse source).mapError .source)
    return .php file.summary
  isValid source := (Php.parse source).isOk

/-- The functions that the two script languages share. -/
def script (style : Script.Style) (extensions : List String) (capabilities : List (String × Bool)) (help : Help) :
    Language where
  name := style.dialect.name
  extensions := extensions
  capabilities := capabilities
  help := help
  create options := do return ⟨← Script.create style options, []⟩
  edit source operations := do return ⟨← editWith (Script.revise style) source operations, []⟩
  analyze source :=
    if Script.stops source then .error .stopped else .ok (.script style.dialect (.ofText style.dialect source))
  isValid := Script.isValid
  verdict := Script.verdict

/-- JavaScript. -/
def javascript (s : Settings) : Language :=
  script ⟨.javascript, s.unit⟩ ["js", "mjs", "cjs", "jsx"]
    [("analyze", true), ("create", true), ("edit", true), ("format", false), ("validate", true)]
    { description := "Generate and edit JavaScript classes, functions and modules."
      examples := [
        .object [
          ("type", .string "class"), ("name", .string "Greeter"),
          ("methods", .array [.object [("name", .string "greet"), ("body", .string "return 'hi';")]])],
        .object [
          ("type", .string "function"), ("name", .string "sum"), ("params", .ofStrings ["a", "b"]),
          ("body", .string "return a + b;")]]
      options := [
        ("default_export", "emit `export default` instead"),
        ("export", "prefix the declaration with `export` (default true)"),
        ("methods", "list of \x7bname, params, body, static, async\x7d"),
        ("name", "class or function name"),
        ("type", "class (default), function or module")] }

/-- TypeScript. -/
def typescript (s : Settings) : Language :=
  script ⟨.typescript, s.unit⟩ ["ts", "tsx", "mts"]
    [("analyze", true), ("create", true), ("edit", true), ("format", false), ("types", true), ("validate", true)]
    { description := "Generate and edit TypeScript interfaces, classes, type aliases, enums and functions."
      examples := [
        .object [
          ("type", .string "interface"), ("name", .string "User"),
          ("properties", .array [.object [
            ("name", .string "id"), ("type", .string "number"), ("readonly", .bool true)]])],
        .object [("type", .string "enum"), ("name", .string "Color"), ("members", .ofStrings ["Red", "Green"])]]
      options := [
        ("definition", "right-hand side of a type alias"),
        ("members", "enum members, names or \x7bname, value\x7d"),
        ("name", "declaration name"),
        ("properties", "interface members \x7bname, type, optional, readonly\x7d"),
        ("type", "interface, class (default), type, enum or function")] }

/-- Stylesheets. -/
def css (s : Settings) : Language where
  name := "css"
  extensions := ["css"]
  capabilities := [("analyze", true), ("create", true), ("edit", true), ("format", false), ("validate", true),
    ("variables", true)]
  help := {
    description := "Generate and edit stylesheets: rules, media queries, imports and custom properties."
    examples := [.object [
      ("variables", .object [("primary", .string "#0055ff")]),
      ("rules", .array [.object [
        ("selector", .string ".button"),
        ("properties", .object [("color", .string "var(--primary)")])]])]]
    options := [
      ("imports", "stylesheets to @import"),
      ("media", "list of \x7bquery, rules\x7d"),
      ("rules", "list of \x7bselector, properties\x7d"),
      ("variables", "custom properties placed on :root")] }
  create options := do return ⟨← Css.create s.unit options, []⟩
  edit source operations := do return ⟨← editWith (Css.editOne s.unit) source operations, []⟩
  analyze source := do return .stylesheet (.ofItems (← Css.itemsOf source))
  isValid source := (Css.parse source.toList).isOk

/-- JSON documents. -/
def json : Language where
  name := "json"
  extensions := ["json"]
  capabilities := [("analyze", true), ("create", true), ("edit", true), ("preserve_key_order", true),
    ("validate", true)]
  help := {
    description := "Generate and edit JSON documents addressed by dot paths."
    examples := [.object [
      ("data", .object [("name", .string "demo"), ("version", .string "1.0.0")]), ("indent", .ofNat 2)]]
    options := [
      ("data", "the document to write (required)"),
      ("indent", "spaces per level, default 4")] }
  create options := do return ⟨← Document.create options, []⟩
  edit source operations := do return ⟨← Document.edit source operations, []⟩
  analyze source := do return .document (.ofValue (← Document.read source))
  isValid source := (Json.parse? source).isSome

/-- All languages. -/
def builtin (s : Settings) : List Language := [php s, javascript s, typescript s, css s, json]

end Codewright.Language
