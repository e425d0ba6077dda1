import Codewright.Php.Declaration
import Codewright.Php.Synthesis
import Mathlib.Data.List.Forall2

/-!
# What is made of descriptors

One lemma for each way to make a member: what is known once it is made, whatever the descriptor.

* `Descriptor.Parameter.exists_of_build`, `Descriptor.Method.exists_of_buildHead`, `Descriptor.Method.exists_of_build`,
  `Descriptor.Property.exists_of_build`;
* `forall₂_of_mapM_eq_ok`, `exists_of_mem_mapM` – a list whose entries are made one by one.
-/

namespace Codewright.Php

/-- Entries that are made one by one correspond one to one. -/
theorem forall₂_of_mapM_eq_ok {ε α β : Type} {f : α → Except ε β} {xs : List α} {ys : List β}
    (made : xs.mapM f = .ok ys) : List.Forall₂ (fun x y => f x = .ok y) xs ys := by
  induction xs generalizing ys with
  | nil =>
    cases made
    exact .nil
  | cons x xs ih =>
    rw [List.mapM_cons] at made
    cases first : f x with
    | error _ =>
      rw [first] at made
      cases made
    | ok y =>
      cases rest : xs.mapM f with
      | error _ =>
        rw [first, rest] at made
        cases made
      | ok ys' =>
        rw [first, rest] at made
        cases made
        exact .cons first (ih rest)

/-- Each of the entries is made of one. -/
theorem exists_of_mem_mapM {ε α β : Type} {f : α → Except ε β} {xs : List α} {ys : List β} (made : xs.mapM f = .ok ys)
    {y : β} (member : y ∈ ys) : ∃ x ∈ xs, f x = .ok y := by
  have pairs := forall₂_of_mapM_eq_ok made
  clear made
  induction pairs with
  | nil => cases member
  | cons first _ ih =>
    rcases List.mem_cons.1 member with rfl | later
    · exact ⟨_, List.mem_cons_self, first⟩
    · obtain ⟨x, among, built⟩ := ih later
      exact ⟨x, List.mem_cons_of_mem _ among, built⟩

namespace Descriptor

theorem Parameter.exists_of_build {p : Parameter} {made : Node .param} (built : p.build = .ok made) :
    ∃ type, typeOf? p.type = .ok type ∧
      made = .param
        { name := bareName p.name, type, byRef := p.byRef, variadic := p.variadic,
          promoted := p.promote.elim .none Visibility.modifiers, attributes := [] }
        (.ofOption (p.default.map literalOf)) := by
  rw [build] at built
  simp only [checkName, refuseIf] at built
  split at built
  · split at built
    · cases built
    · cases type_eq : typeOf? p.type with
      | error _ =>
        rw [type_eq] at built
        cases built
      | ok type =>
        rw [type_eq] at built
        cases built
        exact ⟨type, rfl, rfl⟩
  · cases built

theorem Method.exists_of_buildHead {m : Method} {made : MethodDecl × Node (.list .param)}
    (built : m.buildHead = .ok made) :
    (m.isAbstract && m.isFinal) = false ∧ ∃ returnType params, typeOf? m.returnType = .ok returnType ∧
      m.parameters.mapM Parameter.build = .ok params ∧
      made = ({ name := m.name, modifiers := m.modifiers, byRef := false, returnType, doc := m.doc.map docBlock,
                attributes := [], span := .nowhere }, .ofList params) := by
  rw [buildHead] at built
  simp only [checkName, refuseIf] at built
  split at built
  · split at built
    · cases built
    next consistent =>
      split at built
      · cases built
      · cases params_eq : m.parameters.mapM Parameter.build with
        | error _ =>
          rw [params_eq] at built
          cases built
        | ok params =>
          cases type_eq : typeOf? m.returnType with
          | error _ =>
            rw [params_eq, type_eq] at built
            cases built
          | ok returnType =>
            rw [params_eq, type_eq] at built
            cases built
            exact ⟨by simpa using consistent, returnType, params, rfl, rfl, rfl⟩
  · cases built

/-- A method has a body unless it is abstract. -/
theorem Method.exists_of_build {m : Method} {made : Built Member} (built : m.build = .ok made) :
    ∃ decl params body, m.buildHead = .ok (decl, params) ∧ made.value = .method decl params body ∧
      (body = .absent ∨ body = .present (.ofList (bodyOf m.name m.body).value)) := by
  rw [build] at built
  cases head : m.buildHead with
  | error _ =>
    rw [head] at built
    cases built
  | ok parts =>
    obtain ⟨decl, params⟩ := parts
    rw [head] at built
    simp only [bind, Except.bind] at built
    split at built
    · cases built
      exact ⟨decl, params, .absent, rfl, rfl, .inl rfl⟩
    · cases built
      exact ⟨decl, params, _, rfl, rfl, .inr rfl⟩

theorem Method.isMethod_of_build {m : Method} {made : Built Member} (built : m.build = .ok made) :
    made.value.isMethod = true := by
  obtain ⟨decl, params, body, -, made_eq, -⟩ := exists_of_build built
  rw [made_eq]
  rfl

/-- A property declares one variable, and nothing is warned about. -/
theorem Property.exists_of_build {p : Property} {made : Built Member} (built : p.build = .ok made) :
    ∃ type, typeOf? p.type = .ok type ∧
      made = ⟨.property
        { modifiers := { p.visibility.modifiers with isStatic := p.isStatic, isReadonly := p.isReadonly }, type,
          doc := p.doc.map docBlock, attributes := [], span := .nowhere }
        (.ofList [.varItem (bareName p.name) (.ofOption (p.default.map literalOf))]), []⟩ := by
  rw [build] at built
  simp only [checkName, refuseIf] at built
  split at built
  · split at built
    · cases built
    · split at built
      · cases built
      · cases type_eq : typeOf? p.type with
        | error _ =>
          rw [type_eq] at built
          cases built
        | ok type =>
          rw [type_eq] at built
          cases built
          exact ⟨type, rfl, rfl⟩
  · cases built

theorem Property.not_isMethod_of_build {p : Property} {made : Built Member} (built : p.build = .ok made) :
    made.value.isMethod = false := by
  obtain ⟨type, -, rfl⟩ := exists_of_build built
  rfl

theorem Property.not_isComment_of_build {p : Property} {made : Built Member} (built : p.build = .ok made) :
    made.value.isComment = false := by
  obtain ⟨type, -, rfl⟩ := exists_of_build built
  rfl

end Descriptor

end Codewright.Php
