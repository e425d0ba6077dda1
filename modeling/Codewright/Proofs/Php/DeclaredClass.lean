import Codewright.Proofs.Php.CreatedClass
import Codewright.Proofs.Php.PlainStatements

/-!
# Files that declare the class of a descriptor

Of the names in the descriptor of a class only the one of the class itself is checked. Those of its parent, its interfaces and its
traits are printed as they stand, and so are those of the frame without the backslashes in front of them.

* `Summary.Class.HasNames` – the names that a summary lists with a class are names: `hasNames_of_parse`, whatever source is read;
* `Descriptor.Class.IsDeclared` – if a file is made, it declares the class and no other one;
* `Descriptor.Class.isDeclared_exact` – so it is only if what the class builds on has names, and in a frame of names that is enough;
  `Descriptor.Class.not_isDeclared_of_isBare`: not always.
-/

namespace Codewright.Php

open Text Source

/-! ## Names in summaries -/

/-- The class and what it builds on have names. -/
structure Summary.Class.HasNames (c : Summary.Class) : Prop where
  name : IsName c.name
  parent : ∀ p ∈ c.parent, IsName p
  interfaces : ∀ i ∈ c.interfaces, IsName i
  traits : ∀ t ∈ c.traits, IsName t

/-- A class-like declaration is plain, and traits that are brought in have names. -/
def Declaration.IsPlain : Declaration → Prop
  | .classLike decl members => decl.IsPlain ∧ members.IsPlain
  | .traitUse traits => ∀ t ∈ traits, IsName t
  | _ => True

/-- The declarations of a plain tree are plain. -/
theorem Node.IsPlain.declarations {c : Category} {x : Node c} (h : x.IsPlain) : ∀ d ∈ x.declarations, d.IsPlain := by
  fun_induction Node.declarations x with
  | case1 _ head tail ihHead ihTail => exact List.forall_mem_append.2 ⟨ihHead h.1, ihTail h.2⟩
  | case2 name body _ _ ih => exact List.forall_mem_cons.2 ⟨trivial, ih h.2⟩
  | case4 decl members ih => exact List.forall_mem_cons.2 ⟨h, ih h.2⟩
  | case6 traits => exact List.forall_mem_singleton.2 h.1
  | case3 | case5 | case7 | case8 | case9 | case10 => exact List.forall_mem_singleton.2 trivial
  | case11 => exact List.forall_mem_nil _

namespace Summary

variable {ds : List Declaration} (h : ∀ d ∈ ds, d.IsPlain)

include h

theorem isName_of_mem_traitsOf : ∀ t ∈ traitsOf ds, IsName t := by
  intro t member
  obtain ⟨d, inside, here⟩ := List.mem_flatMap.1 member
  cases d with
  | traitUse traits => exact h _ inside t here
  | _ => cases here

theorem hasNames_of_mem_classesOf : ∀ c ∈ classesOf ds, c.HasNames := by
  intro c member
  obtain ⟨d, inside, here⟩ := List.mem_filterMap.1 member
  have plain := h d inside
  cases d with
  | classLike decl members =>
    obtain ⟨kind, name, doc, attributes, span⟩ := decl
    cases kind with
    | cls modifiers parent interfaces =>
      cases here
      obtain ⟨head, body⟩ := plain
      exact ⟨head.name, head.kind.1, head.kind.2, isName_of_mem_traitsOf body.declarations⟩
    | _ => cases here
  | _ => cases here

end Summary

/-- What is read of a source has classes with names. -/
theorem hasNames_of_parse {source : String} {f : File} (h : parse source = .ok f) : ∀ c ∈ f.summary.classes, c.HasNames :=
  Summary.hasNames_of_mem_classesOf (isPlain_parse h).declarations

/-! ## Declared classes -/

namespace Descriptor.Class

/-- A class without members and without a doc comment. -/
structure IsBare (c : Class) : Prop where
  constants : c.constants = []
  properties : c.properties = []
  methods : c.methods = []
  doc : c.doc = none

/-- What the class builds on has names. -/
structure BuildsOnNames (c : Class) : Prop where
  parent : ∀ p ∈ c.parent, IsName p
  interfaces : ∀ i ∈ c.interfaces, IsName i
  traits : ∀ t ∈ c.traits, IsName t

/-- The source declares the class, and no other one. -/
def IsDeclaredBy (c : Class) (source : String) : Prop :=
  ∃ f d, parse source = .ok f ∧ f.summary.classes = [d] ∧
    d.name = c.name ∧ d.parent = c.parent ∧ d.interfaces = c.interfaces ∧ d.traits = c.traits

/-- The printed file declares the class, and no other one, if a file is made at all. -/
def IsDeclared (c : Class) : Prop := ∀ made, c.build = .ok made → c.IsDeclaredBy (made.value.print usualIndent)

variable {c : Class}

/-- A source that declares the class is read, so what it builds on has names. -/
theorem IsDeclaredBy.buildsOnNames {source : String} (h : c.IsDeclaredBy source) : c.BuildsOnNames := by
  obtain ⟨f, d, read, only, -, parent, interfaces, traits⟩ := h
  have names := hasNames_of_parse read d (only ▸ List.mem_singleton_self d)
  exact ⟨parent ▸ names.parent, interfaces ▸ names.interfaces, traits ▸ names.traits⟩

/-- Of a bare class the name and the modifiers are checked, and nothing else. -/
theorem IsBare.build_eq_ok_iff (bare : c.IsBare) {made : Built File} : c.build = .ok made ↔
    isIdentifier c.name.toList = true ∧ (c.isAbstract && c.isFinal) = false ∧ made = ⟨c.frame.file c.node, []⟩ := by
  obtain ⟨constants, properties, methods, doc⟩ := bare
  have members := c.all_entries
  rw [constants, properties, methods] at members
  have file : c.frame.declare (.cls c.modifiers c.parent c.interfaces) c.name c.doc
      (.all (traitsMember c.traits ++ [] ++ [] ++ [])) = ⟨c.frame.file c.node, []⟩ := by
    rw [Frame.declare, doc]
    exact congrArg (fun members : Built (List Member) =>
      (⟨c.frame.file (.classLike c.decl (.ofList members.value)), members.warnings⟩ : Built File)) members
  rw [build, constants, properties, methods, ← file]
  simp only [checkName, refuseIf]
  cases isIdentifier c.name.toList with
  | false =>
    constructor
    · intro refused
      cases refused
    · rintro ⟨checked, -⟩
      cases checked
  | true =>
    cases c.isAbstract && c.isFinal with
    | false =>
      constructor
      · intro built
        cases built
        exact ⟨rfl, rfl, rfl⟩
      · rintro ⟨-, -, rfl⟩
        rfl
    | true =>
      constructor
      · intro refused
        cases refused
      · rintro ⟨-, consistent, -⟩
        cases consistent

/-- A file is made of every bare class with an identifier for its name that is not both abstract and final. -/
theorem IsBare.isOk_build_iff (bare : c.IsBare) :
    c.build.isOk = true ↔ isIdentifier c.name.toList = true ∧ (c.isAbstract && c.isFinal) = false := by
  constructor
  · intro made
    cases built : c.build with
    | error _ =>
      rw [built] at made
      cases made
    | ok file =>
      obtain ⟨is_identifier, consistent, -⟩ := bare.build_eq_ok_iff.1 built
      exact ⟨is_identifier, consistent⟩
  · rintro ⟨is_identifier, consistent⟩
    rw [bare.build_eq_ok_iff.2 ⟨is_identifier, consistent, rfl⟩]
    rfl

theorem IsBare.entries_isPrintable (bare : c.IsBare) (names : c.BuildsOnNames) : ∀ e ∈ c.entries, e.IsPrintable := by
  intro e he
  rw [entries, bare.constants, bare.properties, bare.methods] at he
  simp only [List.map_nil, List.append_nil] at he
  split at he
  · cases he
  next some_trait =>
    rw [List.mem_singleton] at he
    subst he
    exact ⟨by simpa using some_trait, names.traits⟩

/-- A bare class in a frame of names is declared, if what it builds on has names. -/
theorem IsBare.isDeclared (bare : c.IsBare) (frame : c.frame.IsPrintable) (names : c.BuildsOnNames) : c.IsDeclared := by
  intro made built
  obtain ⟨is_identifier, consistent, rfl⟩ := bare.build_eq_ok_iff.1 built
  have printable : c.IsPrintable :=
    ⟨is_identifier, consistent, names.parent, names.interfaces, bare.entries_isPrintable names⟩
  obtain ⟨xs, span, read, shows⟩ := exists_parse_file frame printable
  refine ⟨_, c.summary, read, ?_, rfl, rfl, rfl, rfl⟩
  rw [File.summary, File.declarations, Node.declarations_ofList, shows.classes, c.flatMap_classes]

/-- A class of which a file is made builds on names, if it is declared. -/
theorem IsDeclared.buildsOnNames (declared : c.IsDeclared) (made : c.build.isOk = true) : c.BuildsOnNames := by
  cases built : c.build with
  | error _ =>
    rw [built] at made
    cases made
  | ok file => exact (declared file built).buildsOnNames

/-- **Which bare classes are declared.** A file is made whatever the class builds on and whatever its frame is. It declares the class
only if what the class builds on has names, and in a frame of names that is enough. -/
theorem isDeclared_exact {c : Class} (bare : c.IsBare) :
    (c.build.isOk = true ↔ isIdentifier c.name.toList = true ∧ (c.isAbstract && c.isFinal) = false) ∧
      (c.build.isOk = true → c.IsDeclared → c.BuildsOnNames) ∧
      (c.frame.IsPrintable → c.BuildsOnNames → c.IsDeclared) := by
  refine ⟨bare.isOk_build_iff, fun made declared => ?_, fun frame names => ?_⟩
  · exact declared.buildsOnNames made
  · exact bare.isDeclared frame names

/-- A bare class in a namespace that begins and ends with backslashes. -/
def session : Class where
  name := "Session"
  frame := { space := some "\\App\\", imports := [" \\Psr\\Log as Log"] }
  parent := some "Base"
  interfaces := ["Countable", "\\Stringable"]
  isFinal := true
  traits := ["Shared"]

theorem isDeclared_session : session.IsBare ∧ session.build.isOk = true ∧ session.frame.IsPrintable ∧
    session.BuildsOnNames ∧ session.IsDeclared := by
  have bare : session.IsBare := ⟨rfl, rfl, rfl, rfl⟩
  have frame : session.frame.IsPrintable := by
    have space : spaceOf? session.frame.space = some "App" := by decide +kernel
    have log : imported " \\Psr\\Log as Log" = ⟨"Psr\\Log", some "Log"⟩ := by decide +kernel
    refine ⟨?_, ?_⟩
    · rw [space]
      decide
    · refine List.forall_mem_singleton.2 ?_
      rw [log]
      exact ⟨⟨by decide, by decide⟩, by decide⟩
  have names : session.BuildsOnNames := ⟨by decide, by decide, by decide⟩
  obtain ⟨made, -, declared⟩ := isDeclared_exact bare
  exact ⟨bare, made.2 ⟨by decide +kernel, rfl⟩, frame, names, declared frame names⟩

/-- A file is made, but it cannot be read, or it has other classes. -/
def isBroken (c : Class) : Bool :=
  match c.build with
  | .ok made => (parse (made.value.print usualIndent)).toOption.map (fun f => f.summary.classes.length) != some 1
  | .error _ => false

theorem not_isDeclared_of_isBroken (h : c.isBroken = true) : ¬c.IsDeclared := by
  intro declared
  rw [isBroken] at h
  split at h
  next made built =>
    obtain ⟨f, d, read, only, -⟩ := declared made built
    rw [read] at h
    simp [Except.toOption, only] at h
  next => cases h

/-- The class `X` that builds on these. -/
def heir (parent : Option String) (interfaces traits : List String) : Class := { name := "X", parent, interfaces, traits }

/-- Not every bare class is declared: each of the other texts may be no name, or end what it stands in and declare a
second class. -/
theorem not_isDeclared_of_isBare :
    ((heir (some "") [] []).IsBare ∧ ¬(heir (some "") [] []).IsDeclared) ∧
      ((heir (some "A \x7b\x7d class B") [] []).IsBare ∧ ¬(heir (some "A \x7b\x7d class B") [] []).IsDeclared) ∧
      ((heir none ["A \x7b\x7d class B"] []).IsBare ∧ ¬(heir none ["A \x7b\x7d class B"] []).IsDeclared) ∧
      ((heir none [] ["A; \x7d class B \x7b use C"]).IsBare ∧
        ¬(heir none [] ["A; \x7d class B \x7b use C"]).IsDeclared) ∧
      ((framed { imports := ["A; class B \x7b\x7d use C"] }).IsBare ∧
        ¬(framed { imports := ["A; class B \x7b\x7d use C"] }).IsDeclared) ∧
      ((framed { space := some "A; class B \x7b\x7d const C = 1" }).IsBare ∧
        ¬(framed { space := some "A; class B \x7b\x7d const C = 1" }).IsDeclared) := by
  refine ⟨⟨?_, ?_⟩, ⟨?_, ?_⟩, ⟨?_, ?_⟩, ⟨?_, ?_⟩, ⟨?_, ?_⟩, ?_, ?_⟩
  all_goals first
    | exact ⟨rfl, rfl, rfl, rfl⟩
    | exact not_isDeclared_of_isBroken (by decide +kernel)

end Descriptor.Class

end Codewright.Php
