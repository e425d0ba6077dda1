import Codewright.Php.Grammar.Parts

/-!
# Reading the bodies of class-like declarations

* `members` – the entries of a body in braces, with the comments between them;
* `member` – a trait use, an enum case, or constants, a method or properties behind their modifiers;
* `memberModifiers` – modifiers in any order, none of them twice, at most one visibility, not both abstract and final.
-/

namespace Codewright.Php

open Source

namespace Parse

/-- Reads a rule that takes over methods of a trait. -/
def adaptation : Parse Adaptation := do
  let first ← expectIdent "method name"
  let (traitName, method) ←
    if ← tryToken .doubleColon then pure (some first, ← expectIdent "method name") else pure (none, first)
  match traitName, (← get).atKeyword "insteadof" with
  | some traitName, true =>
    let _ ← advance
    let insteadOf ← nameList "trait name"
    expectSemicolon
    return .precedence traitName method insteadOf
  | _, _ =>
    let _ ← expectKeyword "as"
    let s ← get
    let visibility := [Visibility.pub, .prot, .priv].find? fun v => s.atKeyword v.keyword
    if visibility.isSome then
      let _ ← advance
    let newName ← if (← get).at_ .ident then pure (some (← advance).text) else pure none
    if visibility.isNone && newName.isNone then failExpected "visibility or alias"
    else
      expectSemicolon
      return .rename traitName method visibility newName

/-- Reads the traits that a declaration uses. -/
def traitUse : Parse Member := do
  let _ ← expectKeyword "use"
  let traits ← nameList "trait name"
  if ← tryToken .openBrace then
    let adaptations ← collect do
      if ← tryToken .closeBrace then return ([], false)
      else if (← get).atEnd then failExpected "'\x7d'"
      else return ([← adaptation], true)
    return .traitUse traits adaptations
  else
    expectSemicolon
    return .traitUse traits []

/-- Reads the modifiers of a member. The old keyword `var` stands for no modifier. -/
def memberModifiers : Parse Modifiers := do
  let m ← refine (fun m => do
    let s ← get
    match nextModifier? Modifier.all s with
    | some flag => return some (← addModifier m flag)
    | none =>
      if s.atKeyword "var" then
        let _ ← advance
        return some m
      else return none) Modifiers.none
  if m.isAbstract && m.isFinal then failModifier "a member cannot be both abstract and final"
  else return m

end Parse

namespace Grammar

open Parse

variable (g : Grammar)

/-- Reads the rest of an enum case behind its keyword. -/
def enumCase (doc : Option String) (attributes : List String) : Parse Member := do
  let name ← expectIdent "case name"
  let value ← g.initialValue
  expectSemicolon
  return .enumCase ⟨name, doc, attributes⟩ (.ofOption value)

/-- Reads the rest of a constant declaration behind its keyword. -/
def classConst (modifiers : Modifiers) (doc : Option String) (attributes : List String) : Parse Member := do
  let items ← g.definitions
  expectSemicolon
  return .classConst ⟨modifiers, doc, attributes⟩ (.ofList items)

/-- Reads the rest of a method behind its keyword. -/
def method (start : Nat) (modifiers : Modifiers) (doc : Option String) (attributes : List String) : Parse Member := do
  let byRef ← tryToken .amp
  let name ← expectIdent "method name"
  let params ← g.params
  let returnType ← Parse.returnType
  let body ←
    if (← get).at_ .openBrace then some <$> g.block
    else do
      expectSemicolon
      pure none
  let span := (← get).spanFrom start
  return .method ⟨name, modifiers, byRef, returnType, doc, attributes, span⟩ (.ofList params)
    (.ofOption (body.map .ofList))

/-- Reads the rest of a property declaration behind its modifiers. -/
def property (start : Nat) (modifiers : Modifiers) (doc : Option String) (attributes : List String) :
    Parse Member := do
  let type ← if (← get).at_ .variable then pure none else some <$> typeHint
  let items ← g.varItems
  if (← get).at_ .openBrace then failUnsupported "property hooks"
  else
    expectSemicolon
    let span := (← get).spanFrom start
    return .property ⟨modifiers, type, doc, attributes, span⟩ (.ofList items)

/-- Reads a member. -/
def member : Parse Member := do
  if (← get).atKeyword "use" then traitUse
  else
    let start := (← get).peek.span.start
    let before ← takeDoc
    let attributes ← Parse.attributes
    let doc ← match before with
      | some doc => pure (some doc)
      | none => takeDoc
    if ← tryKeyword "case" then g.enumCase doc attributes
    else
      let modifiers ← memberModifiers
      if ← tryKeyword "const" then g.classConst modifiers doc attributes
      else if ← tryKeyword "function" then g.method start modifiers doc attributes
      else g.property start modifiers doc attributes

/-- Reads the members of a declaration in braces. -/
def members : Parse (List Member) :=
  enclosedBy .openBrace .closeBrace <| collect do
    let comments ← takeComments
    let s ← get
    let doc ← if s.atKeyword "use" || s.at_ .closeBrace || s.atEnd then takeDoc else pure none
    let entries : List Member := (comments ++ doc.toList).map .memberComment
    if s.at_ .closeBrace then return (entries, false)
    else if s.atEnd then failExpected "'\x7d'"
    else return (entries ++ [← g.member], true)

end Grammar

namespace Parse

/-- Reads a parent behind its keyword, if there is one. -/
def parent : Parse (Option Name) := afterKeyword "extends" (expectIdent "parent class name")

/-- Reads interfaces behind a keyword, if there are any. -/
def interfaces (word : String) : Parse (List Name) := do
  return (← afterKeyword word (nameList "interface name")).getD []

end Parse

end Codewright.Php
