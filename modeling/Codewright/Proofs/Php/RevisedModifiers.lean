import Codewright.Proofs.Php.Spans
import Codewright.Proofs.Php.Synthesis
import Codewright.Proofs.Php.Revision

/-!
# Modifiers under revisions

* `Descriptor.Method.isLegal_of_build`, `Descriptor.Property.isLegal_of_build` – what is made of descriptors has modifiers
  that it may have, the statements of method bodies included;
* `Revision.Effect.isLegal`, `Rebodied.isLegal`, `File.Step.isLegal`, `File.Run.isLegal` – a revision, and a list of them,
  keep such modifiers;
* `modifiers_stay_legal` – the modifiers in every tree that comes of a source.
-/

namespace Codewright.Php

/-! ## Descriptors -/

mutual

theorem isLegal_literalOf : ∀ j : Json, (literalOf j).any.IsLegal
  | .null => AnyNode.isLegal_iff.2 ⟨trivial, List.forall_mem_nil _⟩
  | .bool _ => AnyNode.isLegal_iff.2 ⟨trivial, List.forall_mem_nil _⟩
  | .number _ => AnyNode.isLegal_iff.2 ⟨trivial, List.forall_mem_nil _⟩
  | .string _ => AnyNode.isLegal_iff.2 ⟨trivial, List.forall_mem_nil _⟩
  | .array items => AnyNode.isLegal_iff.2 ⟨trivial, List.forall_mem_singleton.2 (isLegal_literalItems items)⟩
  | .object es => AnyNode.isLegal_iff.2 ⟨trivial, List.forall_mem_singleton.2 (isLegal_literalEntries es)⟩

theorem isLegal_literalItems : ∀ vs : List Json, (literalItems vs).any.IsLegal
  | [] => AnyNode.isLegal_iff.2 ⟨trivial, List.forall_mem_nil _⟩
  | v :: vs =>
    AnyNode.isLegal_cons.2 ⟨AnyNode.isLegal_iff.2 ⟨trivial, List.forall_mem_singleton.2 (isLegal_literalOf v)⟩,
      isLegal_literalItems vs⟩

theorem isLegal_literalEntries : ∀ es : List (String × Json), (literalEntries es).any.IsLegal
  | [] => AnyNode.isLegal_iff.2 ⟨trivial, List.forall_mem_nil _⟩
  | (_, v) :: es =>
    AnyNode.isLegal_cons.2 ⟨AnyNode.isLegal_iff.2 ⟨trivial, List.forall_mem_cons.2
      ⟨AnyNode.isLegal_iff.2 ⟨trivial, List.forall_mem_nil _⟩, List.forall_mem_singleton.2 (isLegal_literalOf v)⟩⟩,
      isLegal_literalEntries es⟩

end

theorem isLegal_default (default : Option Json) : ∀ k ∈ (Node.ofOption (default.map literalOf)).optional, k.IsLegal := by
  cases default with
  | none => exact List.forall_mem_nil _
  | some j => exact List.forall_mem_singleton.2 (isLegal_literalOf j)

theorem Visibility.isOfParameter (v : Visibility) : v.modifiers.IsOfParameter := by
  have among (flag : Modifier) (member : flag ∈ [.pub, .prot, .priv, .readonly]) :
      (Modifiers.none.union (.single flag)).IsAmong [.pub, .prot, .priv, .readonly] :=
    (Modifiers.IsAmong.none _).union member
  cases v with
  | pub => exact ⟨among .pub (by decide), by decide⟩
  | prot => exact ⟨among .prot (by decide), by decide⟩
  | priv => exact ⟨among .priv (by decide), by decide⟩

theorem isLegal_of_parse {source : String} {f : File} (h : parse source = .ok f) : f.stmts.any.IsLegal :=
  (formed_of_parse h).legal _ (List.mem_singleton_self _)

namespace Descriptor

/-- The statements of a body come of a source, or there is an empty one. -/
theorem isLegal_bodyOf (method : String) (body : Option String) : ∀ x ∈ (bodyOf method body).value, x.any.IsLegal := by
  unfold bodyOf
  split
  · exact List.forall_mem_nil _
  · split
    · next parsed =>
      obtain ⟨f, read, rfl⟩ := exists_of_map_eq_ok parsed
      have legal := isLegal_of_parse read
      rw [← Node.ofList_toList f.stmts, AnyNode.isLegal_ofList] at legal
      exact fun x member => legal x (List.mem_of_mem_filter member)
    · exact List.forall_mem_singleton.2 (AnyNode.isLegal_iff.2 ⟨trivial, List.forall_mem_nil _⟩)

theorem Parameter.isLegal_of_build {p : Parameter} {made : Node .param} (built : p.build = .ok made) : made.any.IsLegal := by
  obtain ⟨type, -, rfl⟩ := exists_of_build built
  refine AnyNode.isLegal_iff.2 ⟨?_, isLegal_default p.default⟩
  show Modifiers.IsOfParameter _
  cases p.promote with
  | none => exact ⟨.none _, Nat.zero_le _⟩
  | some v => exact v.isOfParameter

theorem Method.isLegal_of_build {m : Method} {made : Built Member} (built : m.build = .ok made) : made.value.any.IsLegal := by
  obtain ⟨decl, params, body, head, value, body_eq⟩ := exists_of_build built
  obtain ⟨consistent, returnType, entries, -, params_eq, head_eq⟩ := exists_of_buildHead head
  cases head_eq
  rw [value]
  have modifiers : m.modifiers.IsOfMember := by
    refine ⟨m.visibility.isOfParameter.visibility, fun ⟨isAbstract, isFinal⟩ => ?_⟩
    rw [show m.isAbstract = true from isAbstract, show m.isFinal = true from isFinal] at consistent
    cases consistent
  have params : (Node.ofList entries).any.IsLegal := by
    refine AnyNode.isLegal_ofList.2 fun x member => ?_
    obtain ⟨p, -, built⟩ := exists_of_mem_mapM params_eq member
    exact Parameter.isLegal_of_build built
  refine AnyNode.isLegal_iff.2 ⟨modifiers, List.forall_mem_cons.2 ⟨params, ?_⟩⟩
  rcases body_eq with rfl | rfl
  · exact List.forall_mem_nil _
  · exact List.forall_mem_singleton.2 (AnyNode.isLegal_ofList.2 (isLegal_bodyOf m.name m.body))

theorem Property.isLegal_of_build {p : Property} {made : Built Member} (built : p.build = .ok made) :
    made.value.any.IsLegal := by
  obtain ⟨type, -, rfl⟩ := exists_of_build built
  have not_abstract : p.visibility.modifiers.isAbstract = false := by cases p.visibility <;> rfl
  refine AnyNode.isLegal_iff.2 ⟨⟨p.visibility.isOfParameter.visibility, fun ⟨isAbstract, _⟩ => ?_⟩,
    List.forall_mem_singleton.2 (AnyNode.isLegal_ofList.2 (List.forall_mem_singleton.2
      (AnyNode.isLegal_iff.2 ⟨trivial, isLegal_default p.default⟩)))⟩
  exact absurd (not_abstract.symm.trans isAbstract) nofun

end Descriptor

/-! ## Revisions -/

/-- A revision of a body puts a member in that is made of a descriptor, and leaves the others or takes one away. -/
theorem Revision.Effect.isLegal {cls : String} {members new : List Member} {r : Revision} {warnings : List Source.Diagnostic}
    (effect : r.Effect cls members (.ok (new, warnings))) (h : ∀ m ∈ members, m.any.IsLegal) : ∀ m ∈ new, m.any.IsLegal := by
  cases effect with
  | methodAdded build =>
    exact List.forall_mem_append.2 ⟨h, List.forall_mem_singleton.2 (Descriptor.Method.isLegal_of_build build)⟩
  | propertyAbove build place =>
    rw [place.split, List.append_assoc] at h
    obtain ⟨above, below⟩ := List.forall_mem_append.1 h
    exact List.forall_mem_append.2 ⟨above, List.forall_mem_cons.2 ⟨Descriptor.Property.isLegal_of_build build, below⟩⟩
  | propertyAtEnd build _ =>
    exact List.forall_mem_append.2 ⟨h, List.forall_mem_singleton.2 (Descriptor.Property.isLegal_of_build build)⟩
  | methodReplaced split _ _ build =>
    rw [split] at h
    obtain ⟨above, below⟩ := List.forall_mem_append.1 h
    exact List.forall_mem_append.2 ⟨above,
      List.forall_mem_cons.2 ⟨Descriptor.Method.isLegal_of_build build, (List.forall_mem_cons.1 below).2⟩⟩

/-- The body of the first class is legal where the tree is, and the tree with another body is legal where the body is. -/
theorem Rebodied.isLegal {decl : ClassDecl} {old new : Members} {c : Category} {s t : Node c} (h : Rebodied decl old new s t)
    (legal : s.any.IsLegal) : old.any.IsLegal ∧ (new.any.IsLegal → t.any.IsLegal) := by
  induction h with
  | here _ =>
    obtain ⟨top, below⟩ := AnyNode.isLegal_iff.1 legal
    exact ⟨below _ List.mem_cons_self, fun body => AnyNode.isLegal_iff.2 ⟨top, List.forall_mem_singleton.2 body⟩⟩
  | inside _ ih =>
    obtain ⟨old, rest⟩ := ih ((AnyNode.isLegal_iff.1 legal).2 _ List.mem_cons_self)
    exact ⟨old, fun body => AnyNode.isLegal_iff.2 ⟨trivial, List.forall_mem_singleton.2 (rest body)⟩⟩
  | head _ ih =>
    obtain ⟨first, others⟩ := AnyNode.isLegal_cons.1 legal
    obtain ⟨old, rest⟩ := ih first
    exact ⟨old, fun body => AnyNode.isLegal_cons.2 ⟨rest body, others⟩⟩
  | tail _ _ ih =>
    obtain ⟨first, others⟩ := AnyNode.isLegal_cons.1 legal
    obtain ⟨old, rest⟩ := ih others
    exact ⟨old, fun body => AnyNode.isLegal_cons.2 ⟨first, rest body⟩⟩

namespace File

variable {f g : File}

/-- One revision. -/
theorem Step.isLegal {r : Revision} {outcome : Except EditError (List Source.Diagnostic)} (step : Step f r (g, outcome))
    (legal : f.stmts.any.IsLegal) : g.stmts.any.IsLegal := by
  cases step with
  | noClass => exact legal
  | fails => exact legal
  | @revised decl members _ _ _ _ effect rebodied =>
    obtain ⟨old, rest⟩ := rebodied.isLegal legal
    rw [← Node.ofList_toList members, AnyNode.isLegal_ofList] at old
    exact rest (AnyNode.isLegal_ofList.2 (effect.isLegal old))

/-- A list of revisions, whether or not one of them fails. -/
theorem Run.isLegal {rs : List Revision} {outcome : Except EditError (List Source.Diagnostic)} (run : Run f rs (g, outcome))
    (legal : f.stmts.any.IsLegal) : g.stmts.any.IsLegal := by
  generalize last_eq : (g, outcome) = last at run
  induction run generalizing g outcome with
  | done f =>
    cases last_eq
    exact legal
  | stopped step =>
    cases last_eq
    exact step.isLegal legal
  | continued step _ ih =>
    cases last_eq
    exact ih (step.isLegal legal) rfl

end File

/-- **Modifiers stay legal.** In every tree that comes of a source by revisions, at every depth, the modifiers of a member
state at most one visibility and are not both `abstract` and `final`; those of a class are among `abstract`, `final` and
`readonly`, the first two not both; and those of a promoted parameter are at most one visibility and `readonly`. So the
visibility of a tree is the one that it states, and `public` if it states none. -/
theorem modifiers_stay_legal {source : String} {f : File} (h : parse source = .ok f) (revisions : List Revision)
    {c : Category} {n : Node c} (stands : n.any.StandsIn (f.applyAll revisions).1.stmts.any) :
    n.HasLegalModifiers ∧
      ∀ m, n.modifiers? = some m → m.stated = [m.visibility] ∨ m.stated = [] ∧ m.visibility = .pub := by
  have run : File.Run f revisions ((f.applyAll revisions).1, (f.applyAll revisions).2) := File.run_iff.2 rfl
  have legal : n.HasLegalModifiers := run.isLegal (isLegal_of_parse h) n.any stands
  exact ⟨legal, fun m found => legal.visibility_eq found⟩

/-- A static property, and a final method whose body holds another class. -/
def nestedAdditions : List Revision :=
  [.addProperty { name := "a", visibility := .priv, isStatic := true },
    .addMethod { name := "b", isFinal := true, body := some "return new class { abstract protected function c(); };" }]

/-- Both are added to a final class with a promoted parameter. -/
theorem modifiers_stay_legal_promoted :
    ∃ f last, parse "<?php final class A { function __construct(protected readonly int $x) {} }" = .ok f ∧
      f.applyAll nestedAdditions = (last, .ok []) ∧
      ∀ {c : Category} {n : Node c}, n.any.StandsIn last.stmts.any → n.HasLegalModifiers := by
  have applied : ((parse "<?php final class A { function __construct(protected readonly int $x) {} }").toOption.bind
      fun f => (f.applyAll nestedAdditions).2.toOption).map List.length = some 0 := by
    decide +kernel
  cases read : parse "<?php final class A { function __construct(protected readonly int $x) {} }" with
  | error _ =>
    rw [read] at applied
    cases applied
  | ok f =>
    cases run : f.applyAll nestedAdditions with
    | mk last outcome =>
      rw [read] at applied
      change ((f.applyAll nestedAdditions).2.toOption).map List.length = some 0 at applied
      rw [run] at applied
      cases outcome with
      | error _ => cases applied
      | ok warnings =>
        obtain rfl : warnings = [] := List.length_eq_zero_iff.1 (Option.some.inj applied)
        have last_eq : last = (f.applyAll nestedAdditions).1 := by rw [run]
        refine ⟨f, last, rfl, run, fun {c n} stands => ?_⟩
        rw [last_eq] at stands
        exact (modifiers_stay_legal read nestedAdditions stands).1

end Codewright.Php
