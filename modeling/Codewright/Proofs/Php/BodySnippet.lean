import Codewright.Proofs.Php.CreatedClass

/-!
# Method bodies given as text

The body of a method is read like a file of its own and printed between the braces of the method. A text that cannot be
read is replaced, with a warning. Whatever can be read is taken over, also what is a statement of a file only.

* `bodyOf_warnings_iff`, `bodyOf_warns` – when there is a warning, and what is made then;
* `withBody_reports` – what is reported of a method with a text as its body, and of the class around it if the text is not read;
* `BodyIsInert` – a body changes nothing around it; `not_bodyIsInert` – not every body is like that.
-/

namespace Codewright.Php

open Source

namespace Descriptor

variable {method text : String}

/-- There is no warning just when the text is blank or can be read. -/
theorem bodyOf_warnings_iff (method text : String) :
    (bodyOf method (some text)).warnings = [] ↔
      Text.isBlankText text = true ∨ ∃ stmts, parseSnippet text = .ok stmts := by
  by_cases blank : Text.isBlankText text = true
  · simp [bodyOf, Option.filter, blank]
  · cases read : parseSnippet text <;> simp [bodyOf, Option.filter, blank, read]

/-- A text that is not blank and cannot be read leaves an empty statement, and one warning that names the method. -/
theorem bodyOf_warns (not_blank : Text.isBlankText text = false) {e : SyntaxError} (h : parseSnippet text = .error e) :
    (bodyOf method (some text)).value = [.nop] ∧
      ∃ warning, (bodyOf method (some text)).warnings = [warning] ∧
        warning.message = "body of method '" ++ method ++ "' could not be parsed and was left empty" := by
  have body : bodyOf method (some text) = ⟨[.nop],
      [(Diagnostic.warning ("body of method '" ++ method ++ "' could not be parsed and was left empty")
        .nowhere).withHint e.message]⟩ := by
    simp [bodyOf, Option.filter, not_blank, h]
  rw [body]
  exact ⟨rfl, _, rfl, rfl⟩

/-- The class `X` with just this method. -/
def Class.withMethod (m : Method) : Class := { name := "X", methods := [m] }

/-- The class `X` whose only method has this name and body. -/
def Class.withBody (name text : String) : Class := .withMethod { name, body := some text }

end Descriptor

namespace Summary

/-- The summary of a public method without parameters and types. -/
def Method.plain (name : String) : Method := ⟨name, Visibility.pub.modifiers, none, []⟩

/-- The summary of the class `X` with just this method. -/
def withMethod (m : Method) : Summary := ⟨none, [], [⟨"X", none, [], .none, [], [], [m], []⟩], [], [], [], []⟩

end Summary

/-- Whatever the text of its body, a method leaves its class as it is. -/
def BodyIsInert (name text : String) : Prop :=
  ∀ built, (Descriptor.Class.withBody name text).build = .ok built →
    ∃ f, parse (built.value.print usualIndent) = .ok f ∧ f.summary = .withMethod (.plain name)

namespace Descriptor

/-- A public method without parameters and types, with these statements in its body. -/
def methodWithBody (name : String) (body : List Stmt) : Member :=
  .method { name, modifiers := Visibility.pub.modifiers, byRef := false, returnType := none, doc := none, attributes := [],
            span := .nowhere } .nil (.present (.ofList body))

/-- A file with the class `X` whose only method has this name and these statements in its body. -/
def fileWithBody (name : String) (body : List Stmt) : File :=
  Frame.file {} (.classLike ⟨.cls Modifiers.none none [], "X", none, [], .nowhere⟩ (.ofList [methodWithBody name body]))

/-- The file of a class with one method has the statements of its body, and their warnings. -/
theorem withMethod_build {name : String} (is_name : isIdentifier name.toList = true) (body : Option String) :
    (Class.withMethod { name, body }).build =
      .ok ⟨fileWithBody name (bodyOf name body).value, (bodyOf name body).warnings⟩ := by
  have method : Method.build { name, body } =
      .ok ⟨methodWithBody name (bodyOf name body).value, (bodyOf name body).warnings⟩ := by
    rw [Method.build, Method.buildHead, checkName, if_pos is_name]
    rfl
  have methods : [({ name, body } : Method)].mapM Method.build =
      .ok [⟨methodWithBody name (bodyOf name body).value, (bodyOf name body).warnings⟩] := by
    rw [List.mapM_cons, method]
    rfl
  rw [Class.withMethod, Class.build]
  dsimp only
  rw [methods]
  refine Eq.trans (b := .ok ⟨fileWithBody name (bodyOf name body).value, (bodyOf name body).warnings ++ []⟩) rfl ?_
  rw [List.append_nil]

/-- An empty statement in a body prints nothing. -/
theorem print_fileWithBody_nop (indent name : String) :
    (fileWithBody name [.nop]).print indent = (fileWithBody name []).print indent := rfl

/-- A class with one method and no body for it is read back. -/
theorem summary_withMethod {name : String} (is_name : isIdentifier name.toList = true) :
    ∃ f, parse ((fileWithBody name []).print usualIndent) = .ok f ∧ f.summary = .withMethod (.plain name) := by
  have plain : (Class.withMethod { name }).IsPlain := by
    constructor
    case methods =>
      intro m hm
      obtain rfl := List.mem_singleton.1 hm
      exact ⟨by simp, by simp, rfl, rfl⟩
    case frame => exact ⟨by simp [Class.withMethod], by simp [Class.withMethod]⟩
    case doc => rfl
    all_goals simp [Class.withMethod]
  have built := withMethod_build is_name none
  have no_body : bodyOf name none = ⟨[], []⟩ := rfl
  rw [no_body] at built
  obtain ⟨f, read, summary⟩ := Class.readsBack plain _ built
  exact ⟨f, read, summary⟩

end Descriptor

/-- **What is made of the text of a body.** The class with the method is always made. There is a warning just when the text is not blank
and cannot be read; it is the only one and names the method. Then, and if the text is blank, the printed class is read as the class
with this method, and nothing else. -/
theorem withBody_reports {name : String} (is_name : isIdentifier name.toList = true) (text : String) :
    ∃ built, (Descriptor.Class.withBody name text).build = .ok built ∧
      (built.warnings = [] ↔ Text.isBlankText text = true ∨ ∃ stmts, parseSnippet text = .ok stmts) ∧
      (built.warnings ≠ [] → ∃ warning, built.warnings = [warning] ∧
        warning.message = "body of method '" ++ name ++ "' could not be parsed and was left empty") ∧
      (Text.isBlankText text = true ∨ (∃ e, parseSnippet text = .error e) →
        ∃ f, parse (built.value.print usualIndent) = .ok f ∧ f.summary = .withMethod (.plain name)) := by
  refine ⟨_, Descriptor.withMethod_build is_name (some text), Descriptor.bodyOf_warnings_iff name text, ?_, ?_⟩
  · intro some_warning
    rw [Ne, Descriptor.bodyOf_warnings_iff, not_or] at some_warning
    cases read : parseSnippet text with
    | ok stmts => exact absurd ⟨stmts, read⟩ some_warning.2
    | error e => exact (Descriptor.bodyOf_warns (Bool.not_eq_true _ ▸ some_warning.1) read).2
  · intro unread
    dsimp only
    by_cases blank : Text.isBlankText text = true
    · have no_body : Descriptor.bodyOf name (some text) = ⟨[], []⟩ := by simp [Descriptor.bodyOf, Option.filter, blank]
      rw [no_body]
      exact Descriptor.summary_withMethod is_name
    · obtain ⟨e, read⟩ := unread.resolve_left blank
      rw [(Descriptor.bodyOf_warns (Bool.eq_false_iff.2 blank) read).1, Descriptor.print_fileWithBody_nop]
      exact Descriptor.summary_withMethod is_name

/-- A condition that is not closed. -/
theorem withBody_reports_unclosed :
    ∃ built, (Descriptor.Class.withBody "m" "if (").build = .ok built ∧
      (∃ warning, built.warnings = [warning] ∧ warning.message = "body of method 'm' could not be parsed and was left empty") ∧
      ∃ f, parse (built.value.print usualIndent) = .ok f ∧ f.summary = .withMethod (.plain "m") := by
  have broken : (parseSnippet "if (").toOption.isSome = false ∧ Text.isBlankText "if (" = false := by decide +kernel
  obtain ⟨built, made, no_warning, one_warning, same⟩ :=
    withBody_reports (show isIdentifier "m".toList = true by decide) "if ("
  cases read : parseSnippet "if (" with
  | ok stmts =>
    rw [read] at broken
    cases broken.1
  | error e =>
    rw [read] at no_warning
    have some_warning : built.warnings ≠ [] := by
      rw [Ne, no_warning, broken.2]
      simp
    exact ⟨built, made, one_warning some_warning, same (.inr ⟨e, read⟩)⟩

/-- What is printed for the class cannot be read. -/
def isBrokenByBody (name text : String) : Bool :=
  match (Descriptor.Class.withBody name text).build with
  | .ok built => built.warnings.isEmpty && !(parse (built.value.print usualIndent)).toOption.isSome
  | .error _ => false

theorem not_bodyIsInert_of_isBrokenByBody {name text : String} (h : isBrokenByBody name text = true) :
    ¬BodyIsInert name text := by
  intro inert
  rw [isBrokenByBody] at h
  split at h
  next built made =>
    obtain ⟨f, again, -⟩ := inert built made
    rw [again] at h
    simp [Except.toOption] at h
  next => cases h

/-- A namespace can be read where a body is read, and not where it is printed. -/
theorem not_bodyIsInert : isBrokenByBody "m" "namespace A;" = true ∧ ¬BodyIsInert "m" "namespace A;" := by
  have broken : isBrokenByBody "m" "namespace A;" = true := by decide +kernel
  exact ⟨broken, not_bodyIsInert_of_isBrokenByBody broken⟩

end Codewright.Php
