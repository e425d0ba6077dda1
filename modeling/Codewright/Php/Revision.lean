import Codewright.Php.Declaration
import Codewright.Php.Printer
import Codewright.Php.Synthesis

/-!
# Revisions of a class

A `Revision` changes the first class of a file. Revisions are applied one after the other, each to the file that the
one before left, so one may replace a method that another has added; the first failure ends the whole.

* `Revision.ofJson` – a revision from its JSON form;
* `Revision.onMembers` – what it does to the body of a class;
* `File.revise` – what a revision does to a file; `File.applyAll` – the file that several leave, and how they ended.
-/

namespace Codewright.Php

open Source Json

/-- A change of a class. -/
inductive Revision where
  /-- Adds a method at the end. -/
  | addMethod (method : Descriptor.Method)
  /-- Adds a property above the first method and its comments, or at the end. -/
  | addProperty (property : Descriptor.Property)
  /-- Puts a method in the place of another. -/
  | replaceMethod (name : String) (method : Descriptor.Method)

namespace Revision

/-- The word for a revision. -/
def tag : Revision → String
  | addMethod _ => "add_method"
  | addProperty _ => "add_property"
  | replaceMethod _ _ => "replace_method"

/-! ### Reading -/

/-- The value of a field that an operation needs. -/
def fieldOf (entries : Entries) (operation key : String) : Except EditError Json :=
  match Entries.get? key entries with
  | some v => .ok v
  | none => .error (.invalidOperation (.missingField operation key))

/-- The name of a method. -/
def methodName : Json → Except EditError String
  | .string name => .ok name
  | _ => .error (.invalidOperation .methodNameNotText)

/-- Reads a revision. -/
def ofJson : Json → Except EditError Revision
  | .object entries =>
    match Entries.get? "type" entries with
    | some (.string tag) =>
      match tag with
      | "add_method" => do
        return addMethod (← Descriptor.read Descriptor.Method.record (← fieldOf entries tag "method"))
      | "add_property" => do
        return addProperty (← Descriptor.read Descriptor.Property.record (← fieldOf entries tag "property"))
      | "replace_method" => do
        let name ← methodName (← fieldOf entries tag "method_name")
        return replaceMethod name (← Descriptor.read Descriptor.Method.record (← fieldOf entries tag "method"))
      | other => .error (.unknownOperation other)
    | _ => .error (.invalidOperation .noType)
  | _ => .error (.invalidOperation .notAnObject)

/-- Reads a list of revisions. -/
def listOfJson (operations : List Json) : Except EditError (List Revision) := operations.mapM ofJson

/-! ### Applying -/

/-- What a revision makes of the body of the class with this name. -/
def onMembers (cls : String) (members : List Member) : Revision → Except EditError (Built (List Member))
  | addMethod method => do
    let built ← method.build
    return ⟨members ++ [built.value], built.warnings⟩
  | addProperty property => do
    let built ← property.build
    let place := (firstMethodBlock? members).getD members.length
    return ⟨members.insertIdx place built.value, built.warnings⟩
  | replaceMethod name method =>
    match methodIndex? name members with
    | none => .error (.methodNotFound cls name)
    | some i => do
      let built ← method.build
      return ⟨members.set i built.value, built.warnings⟩

end Revision

namespace File

/-- The file with its first class revised. -/
def revise (f : File) (r : Revision) : Except EditError (Built File) :=
  match f.firstClass? with
  | none => .error .noClass
  | some (decl, members) => do
    let built ← r.onMembers decl.name members.toList
    return ⟨f.withFirstClass (.ofList built.value), built.warnings⟩

/-- The file that revisions leave, one applied after the other up to the first that fails, and how they ended: with the
warnings of all, or with the error. -/
def applyAll (f : File) : List Revision → File × Except EditError (List Diagnostic)
  | [] => (f, .ok [])
  | r :: rs =>
    match f.revise r with
    | .error e => (f, .error e)
    | .ok first =>
      let (last, outcome) := first.value.applyAll rs
      (last, outcome.map (first.warnings ++ ·))

end File

/-- A source after several revisions, written with a unit of indentation. -/
def reviseSource (indent source : String) (revisions : List Revision) : Except EditError (Built String) := do
  let file ← (parse source).mapError .source
  let (last, outcome) := file.applyAll revisions
  let warnings ← outcome
  return ⟨last.print indent, warnings⟩

end Codewright.Php
