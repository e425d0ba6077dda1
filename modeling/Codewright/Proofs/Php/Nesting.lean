import Codewright.Php.Tree
import Mathlib.Data.Nat.Notation

/-!
# Trees inside trees

* `AnyNode` – a tree of any category; `Node.parts` – the trees directly below one, in the order of the source;
* `AnyNode.StandsIn` – a tree stands in another one, at any depth;
* `AnyNode.Everywhere` – a property of all trees that stand in one; `everywhere_iff`: at the top and below each part.
* `Modifiers.IsOfMember`, `Modifiers.IsOfClass`, `Modifiers.IsOfParameter` – the sets that a member, a class and a promoted
  parameter may have;
* `Node.HasLegalModifiers` – the modifiers of a tree are such a set;
* `Modifiers.visibility_eq` – in such a set the visibility is the one that is stated;
* `IsAmong.union`, `length_stated_union` – one more modifier.

Namespaces, class-like declarations, functions, methods and properties know where in the source they stand.

* `Node.span?` – where a tree stands; `AnyNode.HasSpan` – where a tree or one of those in it stands;
* `AnyNode.Before` – one tree ends before another one begins;
* `AnyNode.IsNested` – a tree stands around its parts, and these one behind the other;
* `Formed B lo hi ns` – the trees stand one behind the other between two bytes, and everywhere in them spans are nested and
  modifiers legal; `Formed.append`, `Formed.node`, `Formed.spanned` – one rule for each way to put trees together.
-/

namespace Codewright.Php

/-- A tree of any category. -/
structure AnyNode where
  {category : Category}
  node : Node category

namespace Node

/-- A tree, whatever its category. -/
abbrev any {c : Category} (n : Node c) : AnyNode := ⟨n⟩

/-- What an optional part holds. -/
def optional {c : Category} (x : Node (.opt c)) : List AnyNode := x.toOption.toList.map any

/-- The trees directly below a tree, in the order of the source. The entries of a list stand below the list, and what an
optional part holds stands below the tree that has the part. -/
def parts : {c : Category} → Node c → List AnyNode
  | _, .cons head tail => head.any :: tail.toList.map any
  | _, .present value => [value.any]
  -- Expressions
  | _, .variableVariable name => [name.any]
  | _, .array items _ => [items.any]
  | _, .classConstant cls _ => [cls.any]
  | _, .staticProperty cls _ => [cls.any]
  | _, .propertyFetch object name _ => [object.any, name.any]
  | _, .methodCall object name args _ => [object.any, name.any, args.any]
  | _, .staticCall cls name args => [cls.any, name.any, args.any]
  | _, .call callee args => [callee.any, args.any]
  | _, .new cls args => [cls.any, args.any]
  | _, .anonymousClass args _ members => [args.any, members.any]
  | _, .subscript value index => value.any :: index.optional
  | _, .assign target _ value => [target.any, value.any]
  | _, .assignRef target value => [target.any, value.any]
  | _, .binary _ left right => [left.any, right.any]
  | _, .unary _ operand => [operand.any]
  | _, .incDec _ operand => [operand.any]
  | _, .cast _ operand => [operand.any]
  | _, .ternary cond yes no => [cond.any] ++ yes.optional ++ [no.any]
  | _, .instanceOf operand cls => [operand.any, cls.any]
  | _, .isset operands => [operands.any]
  | _, .emptyCheck operand => [operand.any]
  | _, .closure _ params body => [params.any, body.any]
  | _, .arrowFn _ params body => [params.any, body.any]
  | _, .matchExpr subject arms => [subject.any, arms.any]
  | _, .clone operand => [operand.any]
  | _, .print operand => [operand.any]
  | _, .throwExpr operand => [operand.any]
  | _, .yield key value => key.optional ++ value.optional
  | _, .yieldFrom operand => [operand.any]
  | _, .includeExpr _ operand => [operand.any]
  | _, .suppress operand => [operand.any]
  | _, .paren inner => [inner.any]
  -- Parts of expressions
  | _, .computed name => [name.any]
  | _, .item key value _ _ => key.optional ++ [value.any]
  | _, .arg _ value _ => [value.any]
  | _, .arm conditions body => conditions.optional ++ [body.any]
  | _, .param _ default => default.optional
  -- Statements
  | _, .namespaceDecl _ body _ _ => [body.any]
  | _, .declare directives => [directives.any]
  | _, .declareBlock directives body => [directives.any, body.any]
  | _, .constDecl items => [items.any]
  | _, .classLike _ members => [members.any]
  | _, .function _ params body => [params.any, body.any]
  | _, .exprStmt value => [value.any]
  | _, .echo values => [values.any]
  | _, .returnStmt value => value.optional
  | _, .ifStmt cond yes elseIfs no => [cond.any, yes.any, elseIfs.any] ++ no.optional
  | _, .whileStmt cond body => [cond.any, body.any]
  | _, .doWhile body cond => [body.any, cond.any]
  | _, .forStmt init cond step body => [init.any, cond.any, step.any, body.any]
  | _, .foreach subject key value _ body => [subject.any] ++ key.optional ++ [value.any] ++ [body.any]
  | _, .switchStmt subject cases => [subject.any, cases.any]
  | _, .breakStmt level => level.optional
  | _, .continueStmt level => level.optional
  | _, .throwStmt value => [value.any]
  | _, .tryStmt body catches last => [body.any, catches.any] ++ last.optional
  | _, .block body => [body.any]
  | _, .staticVars vars => [vars.any]
  | _, .unset values => [values.any]
  -- Parts of statements
  | _, .directive _ value => [value.any]
  | _, .definition _ value => [value.any]
  | _, .varItem _ default => default.optional
  | _, .elseIf cond body => [cond.any, body.any]
  | _, .switchCase test body => test.optional ++ [body.any]
  | _, .catchClause _ _ body => [body.any]
  -- Members
  | _, .classConst _ items => [items.any]
  | _, .property _ items => [items.any]
  | _, .method _ params body => params.any :: body.optional
  | _, .enumCase _ value => value.optional
  | _, _ => []

theorem parts_list {c : Category} (xs : Node (.list c)) : xs.parts = xs.toList.map any := by
  cases xs <;> rfl

theorem parts_ofList {c : Category} (xs : List (Node c)) : (ofList xs).parts = xs.map any := by
  rw [parts_list, toList_ofList]

end Node

namespace AnyNode

/-- The trees directly below a tree. -/
def parts (n : AnyNode) : List AnyNode := n.node.parts

/-- A tree stands in another one: it is that tree, or stands in one of its parts. -/
inductive StandsIn (m : AnyNode) : AnyNode → Prop where
  | self : StandsIn m m
  | inside {n k : AnyNode} (part : k ∈ n.parts) (h : StandsIn m k) : StandsIn m n

theorem standsIn_iff {m n : AnyNode} : m.StandsIn n ↔ m = n ∨ ∃ k ∈ n.parts, m.StandsIn k := by
  constructor
  · intro h
    cases h with
    | self => exact .inl rfl
    | inside part h => exact .inr ⟨_, part, h⟩
  · rintro (rfl | ⟨k, part, h⟩)
    · exact .self
    · exact .inside part h

/-- All trees that stand in a tree have the property. -/
def Everywhere (P : AnyNode → Prop) (n : AnyNode) : Prop := ∀ m : AnyNode, m.StandsIn n → P m

variable {P : AnyNode → Prop}

theorem everywhere_iff {n : AnyNode} : n.Everywhere P ↔ P n ∧ ∀ k ∈ n.parts, k.Everywhere P := by
  constructor
  · intro h
    exact ⟨h n .self, fun k part m stands => h m (.inside part stands)⟩
  · rintro ⟨top, below⟩ m stands
    cases stands with
    | self => exact top
    | inside part stands => exact below _ part m stands

end AnyNode

end Codewright.Php

namespace Codewright.Php

namespace Modifiers

/-- The visibilities that are stated. -/
def stated (m : Modifiers) : List Visibility :=
  (if m.isPublic then [.pub] else []) ++ (if m.isProtected then [.prot] else []) ++ if m.isPrivate then [.priv] else []

/-- Every modifier of the set is one of the list. -/
def IsAmong (m : Modifiers) (flags : List Modifier) : Prop := ∀ flag, m.includes (.single flag) = true → flag ∈ flags

/-- What a member may have: at most one visibility, and not both `abstract` and `final`. -/
structure IsOfMember (m : Modifiers) : Prop where
  visibility : m.stated.length ≤ 1
  consistent : ¬(m.isAbstract = true ∧ m.isFinal = true)

/-- What a class may have: `abstract`, `final` and `readonly`, the first two not both. -/
structure IsOfClass (m : Modifiers) : Prop where
  among : m.IsAmong [.abstract, .final, .readonly]
  consistent : ¬(m.isAbstract = true ∧ m.isFinal = true)

/-- What a parameter may have: at most one visibility, and `readonly`. -/
structure IsOfParameter (m : Modifiers) : Prop where
  among : m.IsAmong [.pub, .prot, .priv, .readonly]
  visibility : m.stated.length ≤ 1

theorem includes_union_single {m : Modifiers} {flag flag' : Modifier} :
    (m.union (.single flag)).includes (.single flag') = true ↔ m.includes (.single flag') = true ∨ flag' = flag := by
  cases flag <;> cases flag' <;> simp [union, zip, single, none, includes, diff]

/-- The visibility of a set is the one that is stated, and `public` only if none is. -/
theorem visibility_eq {m : Modifiers} (h : m.stated.length ≤ 1) :
    m.stated = [m.visibility] ∨ m.stated = [] ∧ m.visibility = .pub := by
  obtain ⟨a, b, c, d, e, f, g⟩ := m
  cases a <;> cases b <;> cases c <;> simp_all [stated, visibility]

/-- A visibility is added only where none is stated yet. -/
theorem length_stated_union {m : Modifiers} (h : m.stated.length ≤ 1) {flag : Modifier}
    (first : flag.isVisibility = true → m.hasVisibility = false) : (m.union (.single flag)).stated.length ≤ 1 := by
  obtain ⟨a, b, c, d, e, f, g⟩ := m
  cases flag <;> cases a <;> cases b <;> cases c <;>
    simp_all [stated, hasVisibility, Modifier.isVisibility, union, zip, single, none]

/-- A class states no visibility. -/
theorem IsOfClass.length_stated {m : Modifiers} (h : m.IsOfClass) : m.stated.length ≤ 1 := by
  have pub : m.isPublic = false := by simpa [includes, diff, zip, single, none] using h.among .pub
  have prot : m.isProtected = false := by simpa [includes, diff, zip, single, none] using h.among .prot
  have priv : m.isPrivate = false := by simpa [includes, diff, zip, single, none] using h.among .priv
  simp [stated, pub, prot, priv]

namespace IsAmong

variable {m : Modifiers} {flags : List Modifier}

theorem none (flags : List Modifier) : Modifiers.none.IsAmong flags := by
  intro flag here
  have nothing : Modifiers.none.includes (.single flag) = false := by cases flag <;> rfl
  rw [nothing] at here
  cases here

theorem union (h : m.IsAmong flags) {flag : Modifier} (member : flag ∈ flags) : (m.union (.single flag)).IsAmong flags := by
  intro flag' here
  rcases includes_union_single.1 here with here | rfl
  · exact h flag' here
  · exact member

end IsAmong

end Modifiers

/-- The modifiers of a class are such as a class may have. -/
def ClassKind.HasLegalModifiers : ClassKind → Prop
  | .cls modifiers _ _ => modifiers.IsOfClass
  | _ => True

/-- The modifiers of a class; other declarations have none. -/
def ClassKind.modifiers? : ClassKind → Option Modifiers
  | .cls modifiers _ _ => some modifiers
  | _ => none

/-- The modifiers of the tree itself are such as it may have. -/
def Node.HasLegalModifiers : {c : Category} → Node c → Prop
  | _, .classLike decl _ => decl.kind.HasLegalModifiers
  | _, .anonymousClass _ decl _ => decl.kind.HasLegalModifiers
  | _, .classConst decl _ => decl.modifiers.IsOfMember
  | _, .property decl _ => decl.modifiers.IsOfMember
  | _, .method decl _ _ => decl.modifiers.IsOfMember
  | _, .param decl _ => decl.promoted.IsOfParameter
  | _, _ => True

/-- The modifiers of a tree, if it is one that has any. -/
def Node.modifiers? : {c : Category} → Node c → Option Modifiers
  | _, .classLike decl _ => decl.kind.modifiers?
  | _, .anonymousClass _ decl _ => decl.kind.modifiers?
  | _, .classConst decl _ => some decl.modifiers
  | _, .property decl _ => some decl.modifiers
  | _, .method decl _ _ => some decl.modifiers
  | _, .param decl _ => some decl.promoted
  | _, _ => none

namespace AnyNode

/-- The modifiers of all trees that stand in a tree are such as they may have. -/
abbrev IsLegal (n : AnyNode) : Prop := n.Everywhere fun m => m.node.HasLegalModifiers

theorem isLegal_iff {n : AnyNode} : n.IsLegal ↔ n.node.HasLegalModifiers ∧ ∀ k ∈ n.parts, k.IsLegal := everywhere_iff

theorem isLegal_cons {c : Category} {x : Node c} {xs : Node (.list c)} :
    (Node.cons x xs).any.IsLegal ↔ x.any.IsLegal ∧ xs.any.IsLegal := by
  have legal (s : Node (.list c)) : s.any.IsLegal ↔ ∀ y ∈ s.toList.map Node.any, y.IsLegal := by
    rw [isLegal_iff, parts, Node.parts_list]
    exact and_iff_right (by cases s <;> trivial)
  rw [legal, legal, Node.toList_cons, List.map_cons, List.forall_mem_cons]

theorem isLegal_ofList {c : Category} {xs : List (Node c)} :
    (Node.ofList xs).any.IsLegal ↔ ∀ x ∈ xs, x.any.IsLegal := by
  induction xs with
  | nil => exact iff_of_true (isLegal_iff.2 ⟨trivial, List.forall_mem_nil _⟩) (List.forall_mem_nil _)
  | cons x xs ih => rw [Node.ofList, isLegal_cons, ih, List.forall_mem_cons]

end AnyNode

/-- The visibility of a tree is never chosen between two that are stated. -/
theorem Node.HasLegalModifiers.visibility_eq {c : Category} {n : Node c} (h : n.HasLegalModifiers) {m : Modifiers}
    (found : n.modifiers? = some m) : m.stated = [m.visibility] ∨ m.stated = [] ∧ m.visibility = .pub := by
  apply Modifiers.visibility_eq
  have ofClass {kind : ClassKind} (h : kind.HasLegalModifiers) (found : kind.modifiers? = some m) : m.stated.length ≤ 1 := by
    cases kind with
    | cls =>
      cases found
      exact Modifiers.IsOfClass.length_stated h
    | _ => cases found
  cases n with
  | classLike decl => exact ofClass h found
  | anonymousClass _ decl => exact ofClass h found
  | classConst =>
    cases found
    exact Modifiers.IsOfMember.visibility h
  | property =>
    cases found
    exact Modifiers.IsOfMember.visibility h
  | method =>
    cases found
    exact Modifiers.IsOfMember.visibility h
  | param =>
    cases found
    exact Modifiers.IsOfParameter.visibility h
  | _ => cases found

end Codewright.Php

/-! ## Spans inside spans -/

namespace Codewright.Php

open Source

/-- Where the tree stands in the source, if it is one that knows. -/
def Node.span? : {c : Category} → Node c → Option Span
  | _, .namespaceDecl _ _ _ span => some span
  | _, .classLike decl _ => some decl.span
  | _, .function decl _ _ => some decl.span
  | _, .method decl _ _ => some decl.span
  | _, .property decl _ => some decl.span
  | _, .anonymousClass _ decl _ => some decl.span
  | _, _ => none

namespace AnyNode

/-- Where the tree stands in the source, if it is one that knows. -/
def span? (n : AnyNode) : Option Span := n.node.span?

/-- A tree with the span stands in the tree. -/
def HasSpan (n : AnyNode) (span : Span) : Prop := ∃ m : AnyNode, m.StandsIn n ∧ m.span? = some span

/-- What stands in one tree ends before anything in the other begins. -/
def Before (n k : AnyNode) : Prop := ∀ a b, n.HasSpan a → k.HasSpan b → a.stop ≤ b.start

/-- The tree begins at a byte of the kind `B` and ends at a later one, around its parts, and these stand one behind the other. -/
structure IsNested (B : ℕ → Prop) (n : AnyNode) : Prop where
  ends : ∀ span, n.span? = some span → span.start < span.stop ∧ B span.start ∧ B span.stop
  around : ∀ span, n.span? = some span → ∀ k ∈ n.parts, ∀ below, k.HasSpan below →
    span.start ≤ below.start ∧ below.stop ≤ span.stop
  ordered : n.parts.Pairwise Before

theorem hasSpan_iff {n : AnyNode} {span : Span} :
    n.HasSpan span ↔ n.span? = some span ∨ ∃ k ∈ n.parts, k.HasSpan span := by
  constructor
  · rintro ⟨m, stands, found⟩
    rcases standsIn_iff.1 stands with rfl | ⟨k, part, stands⟩
    · exact .inl found
    · exact .inr ⟨k, part, m, stands, found⟩
  · rintro (found | ⟨k, part, m, stands, found⟩)
    · exact ⟨n, .self, found⟩
    · exact ⟨m, .inside part stands, found⟩

end AnyNode

/-- The trees stand one behind the other between the bytes `lo` and `hi`; in each of them spans are nested and modifiers
legal. -/
structure Formed (B : ℕ → Prop) (lo hi : ℕ) (ns : List AnyNode) : Prop where
  within : ∀ n ∈ ns, ∀ span, n.HasSpan span → lo ≤ span.start ∧ span.stop ≤ hi
  ordered : ns.Pairwise AnyNode.Before
  nested : ∀ n ∈ ns, n.Everywhere (AnyNode.IsNested B)
  legal : ∀ n ∈ ns, n.IsLegal

namespace Formed

variable {B : ℕ → Prop} {lo lo' mid mid' hi hi' : ℕ} {ns ms : List AnyNode} {c : Category} {x : Node c}

theorem nil : Formed B lo hi [] :=
  ⟨List.forall_mem_nil _, .nil, List.forall_mem_nil _, List.forall_mem_nil _⟩

theorem widen (h : Formed B lo hi ns) (le : lo' ≤ lo) (le' : hi ≤ hi') : Formed B lo' hi' ns := by
  refine ⟨fun n member span has => ?_, h.ordered, h.nested, h.legal⟩
  obtain ⟨before, behind⟩ := h.within n member span has
  exact ⟨Nat.le_trans le before, Nat.le_trans behind le'⟩

/-- Trees behind other ones. -/
theorem append (h : Formed B lo mid ns) (h' : Formed B mid' hi ms) (le : mid ≤ mid') (first : lo ≤ mid') (last : mid ≤ hi) :
    Formed B lo hi (ns ++ ms) := by
  have front := h.widen (Nat.le_refl lo) last
  have back := h'.widen first (Nat.le_refl hi)
  refine ⟨List.forall_mem_append.2 ⟨front.within, back.within⟩, ?_, List.forall_mem_append.2 ⟨h.nested, h'.nested⟩,
    List.forall_mem_append.2 ⟨h.legal, h'.legal⟩⟩
  refine List.pairwise_append.2 ⟨h.ordered, h'.ordered, fun n member k member' a b has has' => ?_⟩
  exact Nat.le_trans (Nat.le_trans (h.within n member a has).2 le) (h'.within k member' b has').1

/-- A tree around its parts that does not know where it stands. -/
theorem node (h : Formed B lo hi x.parts) (no_span : x.span? = none) (legal : x.HasLegalModifiers) :
    Formed B lo hi [x.any] := by
  have none_here : x.any.span? = none := no_span
  refine ⟨List.forall_mem_singleton.2 fun span has => ?_, List.pairwise_singleton _ _,
    List.forall_mem_singleton.2 (AnyNode.everywhere_iff.2 ⟨⟨?_, ?_, h.ordered⟩, h.nested⟩),
    List.forall_mem_singleton.2 (AnyNode.everywhere_iff.2 ⟨legal, h.legal⟩)⟩
  · rcases AnyNode.hasSpan_iff.1 has with here | ⟨k, part, has⟩
    · rw [none_here] at here
      cases here
    · exact h.within k part span has
  · intro span here
    rw [none_here] at here
    cases here
  · intro span here
    rw [none_here] at here
    cases here

/-- A tree around its parts that stands between the two bytes. -/
theorem spanned (h : Formed B lo hi x.parts) (span : x.span? = some ⟨lo, hi⟩) (lt : lo < hi) (first : B lo) (last : B hi)
    (legal : x.HasLegalModifiers) : Formed B lo hi [x.any] := by
  have here (span' : Span) (found : x.any.span? = some span') : span' = ⟨lo, hi⟩ :=
    (Option.some.inj (span.symm.trans found)).symm
  refine ⟨List.forall_mem_singleton.2 fun span' has => ?_, List.pairwise_singleton _ _,
    List.forall_mem_singleton.2 (AnyNode.everywhere_iff.2 ⟨⟨?_, ?_, h.ordered⟩, h.nested⟩),
    List.forall_mem_singleton.2 (AnyNode.everywhere_iff.2 ⟨legal, h.legal⟩)⟩
  · rcases AnyNode.hasSpan_iff.1 has with found | ⟨k, part, has⟩
    · rw [here span' found]
      exact ⟨Nat.le_refl lo, Nat.le_refl hi⟩
    · exact h.within k part span' has
  · intro span' found
    rw [here span' found]
    exact ⟨lt, first, last⟩
  · intro span' found k part below has
    rw [here span' found]
    exact h.within k part below has

/-- What stands directly below the trees. -/
theorem below (h : Formed B lo hi ns) : Formed B lo hi (ns.flatMap AnyNode.parts) := by
  have up {n k : AnyNode} (part : k ∈ n.parts) {span : Span} (has : k.HasSpan span) : n.HasSpan span :=
    AnyNode.hasSpan_iff.2 (.inr ⟨k, part, has⟩)
  refine ⟨fun k member span has => ?_, ?_, fun k member => ?_, fun k member => ?_⟩
  · obtain ⟨n, member, part⟩ := List.mem_flatMap.1 member
    exact h.within n member span (up part has)
  · refine List.pairwise_flatMap.2 ⟨fun n member => ?_, h.ordered.imp fun before k part k' part' a b has has' => ?_⟩
    · exact (h.nested n member n .self).ordered
    · exact before a b (up part has) (up part' has')
  · obtain ⟨n, member, part⟩ := List.mem_flatMap.1 member
    exact (AnyNode.everywhere_iff.1 (h.nested n member)).2 k part
  · obtain ⟨n, member, part⟩ := List.mem_flatMap.1 member
    exact (AnyNode.everywhere_iff.1 (h.legal n member)).2 k part

theorem parts (h : Formed B lo hi [x.any]) : Formed B lo hi x.parts := by
  have below := h.below
  rw [List.flatMap_singleton] at below
  exact below

theorem list {xs : List (Node c)} (h : Formed B lo hi (xs.map Node.any)) : Formed B lo hi [(Node.ofList xs).any] := by
  refine node ?_ ?_ ?_
  · rw [Node.parts_ofList]
    exact h
  · cases xs <;> rfl
  · cases xs <;> trivial

theorem entries {xs : List (Node c)} (h : Formed B lo hi [(Node.ofList xs).any]) : Formed B lo hi (xs.map Node.any) := by
  rw [← Node.parts_ofList]
  exact h.parts

end Formed

end Codewright.Php
