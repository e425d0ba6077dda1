import Codewright.Proofs.Php.FunctionText

/-!
# Canonical types, alone and in front of parameters

A canonical type is read back from its text. In front of a parameter the ampersand of a type and the ampersand of a
parameter that is passed by reference are told apart by what follows, so the type, the marks and the name of each
parameter are read back as well. Only a type that begins with a word that promotes parameters is read otherwise.

* `ParamDecl.IsTyped` – a parameter whose type, if it has one, is canonical and begins with no such word;
* `canonical_readBack` – the types, and the parameters of functions;
* `not_canonical_readBack` – a type that is the word `public`.
-/

namespace Codewright.Php

open Text Source

/-- The parameter is neither promoted nor attributed, and its type is canonical and read as a type. -/
structure ParamDecl.IsTyped (d : ParamDecl) : Prop where
  name : Lexer.IsIdentifier d.name
  type : ∀ τ ∈ d.type, τ.IsCanonical IsName ∧ τ.OpensWithout Descriptor.Parameter.promotingWords
  promoted : d.promoted = .none
  attributes : d.attributes = []

/-- The descriptor of a parameter without a default value. -/
def ParamDecl.descriptor (d : ParamDecl) : Descriptor.Parameter where
  name := d.name
  type := d.type.map TypeHint.text
  byRef := d.byRef
  variadic := d.variadic

theorem bareName_of_isIdentifier {name : String} (h : Lexer.IsIdentifier name) : bareName name = name := by
  rw [bareName]
  rw [Lexer.IsIdentifier] at h
  split
  · next chars =>
    rw [chars] at h
    cases h.1
  · rfl

namespace ParamDecl.IsTyped

variable {d : ParamDecl}

theorem map_hintOf (h : d.IsTyped) : (d.type.map TypeHint.text).map hintOf = d.type := by
  cases type : d.type with
  | none => rfl
  | some τ =>
    have parsed := parseType_text ((h.type τ type).1.isWritten fun _ => id)
    rw [Option.map_some, Option.map_some, hintOf, parsed]
    rfl

/-- What is made of the descriptor is the parameter. -/
theorem node_descriptor (h : d.IsTyped) (value : Json → Expr) : d.descriptor.node value = .param d .absent := by
  obtain ⟨name, type, byRef, variadic, promoted, attributes⟩ := d
  obtain rfl : promoted = .none := h.promoted
  obtain rfl : attributes = [] := h.attributes
  rw [Descriptor.Parameter.node]
  simp only [descriptor, bareName_of_isIdentifier h.name]
  rw [h.map_hintOf]
  rfl

theorem isPrintable (h : d.IsTyped) : d.descriptor.IsPrintable := by
  refine ⟨⟨fun text ht => ?_, nofun⟩, ?_⟩
  · obtain ⟨τ, type, rfl⟩ := Option.map_eq_some_iff.1 ht
    obtain ⟨canonical, apart⟩ := h.type τ type
    exact ⟨τ, canonical.isWritten fun _ => id, apart, rfl⟩
  · rw [descriptor, bareName_of_isIdentifier h.name]
    exact h.name

end ParamDecl.IsTyped

/-- The parameters of a function without default values. -/
def bareParams (ds : List ParamDecl) : List (Node .param) := ds.map (.param · .absent)

/-- A canonical type is read back from its text. In front of the name of a parameter, and of the marks of a parameter that
is passed by reference or variadic, it is read back with them. -/
theorem canonical_readBack :
    (∀ τ : TypeHint, τ.IsCanonical IsName → parseType τ.text = .ok τ) ∧
      ∀ (name : String) (ds : List ParamDecl), IsName name → (∀ d ∈ ds, d.IsTyped) → ∃ f d,
        parse ((functionFile name (bareParams ds)).print usualIndent) = .ok f ∧ f.declarations = [d] ∧
          d.IsFunction name (bareParams ds) := by
  refine ⟨fun τ h => parseType_text (h.isWritten fun _ => id), fun name ds named h => ?_⟩
  have nodes (value : Json → Expr) : (ds.map ParamDecl.descriptor).map (Descriptor.Parameter.node value) = bareParams ds := by
    rw [List.map_map]
    exact List.map_congr_left fun d hd => (h d hd).node_descriptor value
  have printable : ∀ p ∈ ds.map ParamDecl.descriptor, p.IsPrintable := by
    simp only [List.mem_map, forall_exists_index, and_imp, forall_apply_eq_imp_iff₂]
    exact fun d hd => (h d hd).isPrintable
  obtain ⟨f, d, read, declared, is_function⟩ := Descriptor.exists_parse_functionFile named printable
  rw [nodes] at read is_function
  exact ⟨f, d, read, declared, is_function⟩

/-- A type with an ampersand in it in front of an ampersand, and a type in front of both marks. -/
def markedParams : List ParamDecl :=
  [⟨"x", some (.intersection (["A", "B"].map .named)), true, false, .none, []⟩,
    ⟨"rest", some (.nullable (.named "static")), true, true, .none, []⟩]

theorem canonical_readBack_marks :
    parseType "(A&B)|null" = .ok (.union [.intersection (["A", "B"].map .named), .named "null"]) ∧ ∃ f d,
      parse ((functionFile "f" (bareParams markedParams)).print usualIndent) = .ok f ∧ f.declarations = [d] ∧
        d.IsFunction "f" (bareParams markedParams) := by
  have names : ∀ name ∈ ["A", "B"], IsName name := by decide
  have two : 2 ≤ ["A", "B"].length := by decide
  have union : (TypeHint.union [.intersection (["A", "B"].map .named), .named "null"]).IsCanonical IsName := by
    refine .union (by decide) ?_
    simpa using ⟨TypeHint.IsAlternative.intersection two names, .named (by decide)⟩
  have typed : ∀ d ∈ markedParams, d.IsTyped := by
    rw [markedParams, List.forall_mem_cons, List.forall_mem_singleton]
    constructor
    · refine ⟨Lexer.isIdentifier_spec (by decide), ?_, rfl, rfl⟩
      rintro _ ⟨⟩
      exact ⟨.intersection two names, by decide⟩
    · refine ⟨Lexer.isIdentifier_spec (by decide), ?_, rfl, rfl⟩
      rintro _ ⟨⟩
      exact ⟨.nullable (by decide), nofun⟩
  exact ⟨canonical_readBack.1 _ union, canonical_readBack.2 "f" _ (by decide) typed⟩

/-- A parameter that is passed by reference, with a name for a type. -/
def namedParam (type : Name) : ParamDecl := ⟨"x", some (.named type), true, false, .none, []⟩

/-- A type that is a word that promotes parameters is not read as a type. -/
theorem not_canonical_readBack : (TypeHint.named "public").IsCanonical IsName ∧ ¬∃ f d,
    parse ((functionFile "f" (bareParams [namedParam "public"])).print usualIndent) = .ok f ∧ f.declarations = [d] ∧
      d.IsFunction "f" (bareParams [namedParam "public"]) := by
  refine ⟨.named (by decide), ?_⟩
  rintro ⟨f, _, read, declared, decl, rfl, -⟩
  have untyped : parameterTypes? ((functionFile "f" (bareParams [namedParam "public"])).print usualIndent) =
      some [[none]] := by decide +kernel
  rw [parameterTypes?_of_declarations read declared] at untyped
  exact absurd untyped (by decide)

end Codewright.Php
