import Codewright.Php.Parser
import Codewright.Proofs.Php.Nesting
import Codewright.Proofs.Php.Progress
import Codewright.Proofs.Php.Reading

/-!
# Readers that put trees together

A declaration knows the byte at which its first token begins and the one at which its last token ends. Between the two
the parts of the tree are read one behind the other, so their spans follow one another inside its own.

* `Stream.IsOrdered B s` – the unread tokens stand one behind the other, behind what was read;
* `Stream.Leads s s'` – what is known of a stream and one that a reader leaves;
* `Forms B s lo reached before p made` – trees `before` were put together from the byte `lo` on, and the last token read
  ends behind `reached`; the reader `p` puts together `made x` if it gives `x`;
* `Builds B s p made` – the reader starts afresh; `Skips B s p` – it makes no tree;
* `Forms.bind`, `Forms.skip`, `Forms.node`, `Forms.spanned`, `Builds.collect`, … – one rule for each way to build readers.
-/

namespace Codewright.Php

open Source

namespace Stream

/-- Where the unread tokens stand, and the one at the end. -/
def spans (s : Stream) : List Span := s.tokens.map Token.span ++ [s.eof.span]

/-- Where the next token begins. -/
def front (s : Stream) : ℕ := s.peek.span.start

/-- The unread tokens stand one behind the other, behind what was read, and begin and end at bytes of the kind `B`. Only the
mark of the end is empty. -/
structure IsOrdered (B : ℕ → Prop) (s : Stream) : Prop where
  chain : s.spans.Pairwise fun a b => a.stop ≤ b.start
  each : ∀ a ∈ s.spans, s.lastEnd ≤ a.start ∧ a.start ≤ a.stop ∧ B a.start ∧ B a.stop
  solid : ∀ t ∈ s.tokens, t.isEof = false → t.span.start < t.span.stop
  last : B s.lastEnd
  eof : s.eof.kind = .eof

/-- What a reader that leaves `s'` of `s` may have done: it has read tokens, and none that it has not. -/
structure Leads (s s' : Stream) : Prop where
  unread : s'.unread ≤ s.unread
  front : s.front ≤ s'.front
  lastEnd : s.lastEnd ≤ s'.lastEnd
  moved : s'.unread < s.unread → s.front < s'.lastEnd

variable {B : ℕ → Prop} {s s' s₂ : Stream}

theorem front_mem (s : Stream) : ∃ a ∈ s.spans, a.start = s.front := by
  obtain ⟨tokens, eof, lastEnd, pending, unread, unread_eq⟩ := s
  cases tokens with
  | nil => exact ⟨eof.span, List.mem_singleton_self _, rfl⟩
  | cons t ts => exact ⟨t.span, List.mem_cons_self, rfl⟩

theorem IsOrdered.front (h : s.IsOrdered B) : s.lastEnd ≤ s.front ∧ B s.front := by
  obtain ⟨a, member, start⟩ := s.front_mem
  obtain ⟨behind, -, first, -⟩ := h.each a member
  rw [← start]
  exact ⟨behind, first⟩

namespace Leads

theorem refl (s : Stream) : s.Leads s := ⟨le_refl _, le_refl _, le_refl _, fun less => absurd less (lt_irrefl _)⟩

theorem trans (h : s.Leads s') (h' : s'.Leads s₂) : s.Leads s₂ := by
  refine ⟨h'.unread.trans h.unread, h.front.trans h'.front, h.lastEnd.trans h'.lastEnd, fun less => ?_⟩
  by_cases moved : s'.unread < s.unread
  · exact (h.moved moved).trans_le h'.lastEnd
  · exact h.front.trans_lt (h'.moved (lt_of_lt_of_le less (not_lt.1 moved)))

end Leads

/-- A stream with other comments at its tokens. -/
theorem IsOrdered.same (h : s.IsOrdered B) (spans : s'.spans = s.spans) (lastEnd : s'.lastEnd = s.lastEnd)
    (eof : s'.eof = s.eof) (solid : ∀ t ∈ s'.tokens, t.isEof = false → t.span.start < t.span.stop) : s'.IsOrdered B := by
  refine ⟨?_, ?_, solid, ?_, ?_⟩
  · rw [spans]
    exact h.chain
  · rw [spans, lastEnd]
    exact h.each
  · rw [lastEnd]
    exact h.last
  · rw [eof]
    exact h.eof

theorem Leads.same (spans : s'.spans = s.spans) (lastEnd : s'.lastEnd = s.lastEnd) (unread : s'.unread = s.unread) :
    s.Leads s' := by
  have front : s'.front = s.front := by
    have heads : s'.spans.head? = s.spans.head? := by rw [spans]
    have head (s : Stream) : s.spans.head? = some s.peek.span := by
      obtain ⟨tokens, eof, lastEnd, pending, unread, unread_eq⟩ := s
      cases tokens <;> rfl
    rw [head, head, Option.some_inj] at heads
    rw [Stream.front, Stream.front, heads]
  exact ⟨unread.le, front.ge, lastEnd.ge, fun less => absurd less (by rw [unread]; exact lt_irrefl _)⟩

/-- Where a reader begins: behind the byte `lo`, and behind a token that ends behind `reached`. -/
structure Stands (B : ℕ → Prop) (lo reached : ℕ) (s : Stream) : Prop where
  ordered : s.IsOrdered B
  first : B lo
  front : lo ≤ s.front
  reached : reached ≤ s.lastEnd

theorem Stands.leads {lo reached : ℕ} (h : s.Stands B lo reached) (ordered : s'.IsOrdered B) (leads : s.Leads s') :
    s'.Stands B lo reached :=
  ⟨ordered, h.first, h.front.trans leads.front, h.reached.trans leads.lastEnd⟩

theorem IsOrdered.stands (h : s.IsOrdered B) : s.Stands B s.front 0 := ⟨h, h.front.2, le_refl _, Nat.zero_le _⟩

end Stream

variable {α β : Type}

/-- Trees `before` stand between the byte `lo` and the last token that was read, which ends behind `reached`. If the
reader gives `x`, then `made x` stands between `lo` and the last token that it has read. -/
def Forms (B : ℕ → Prop) (s : Stream) (lo reached : ℕ) (before : List AnyNode) (p : Parse α) (made : α → List AnyNode) :
    Prop :=
  s.Stands B lo reached → Formed B lo s.lastEnd before →
    Yields s p fun x s' => s'.IsOrdered B ∧ s.Leads s' ∧ Formed B lo s'.lastEnd (made x)

/-- The reader puts together `made x` of what it reads. -/
abbrev Builds (B : ℕ → Prop) (s : Stream) (p : Parse α) (made : α → List AnyNode) : Prop := Forms B s s.front 0 [] p made

/-- The reader makes no tree. -/
abbrev Skips (B : ℕ → Prop) (s : Stream) (p : Parse α) : Prop := Builds B s p fun _ => []

/-- A tree. -/
def one {c : Category} (x : Node c) : List AnyNode := [x.any]

/-- A list of trees. -/
def listed {c : Category} (xs : List (Node c)) : List AnyNode := [(Node.ofList xs).any]

/-- A tree, if there is one. -/
def oneIfAny {c : Category} (x : Option (Node c)) : List AnyNode := (Node.ofOption x).optional

/-- A list of trees, if there is one. -/
def listedIfAny {c : Category} (xs : Option (List (Node c))) : List AnyNode :=
  (Node.ofOption (xs.map Node.ofList)).optional

variable {B : ℕ → Prop} {s : Stream} {lo reached : ℕ} {before : List AnyNode} {p : Parse α} {f : α → Parse β}
  {m m' : α → List AnyNode} {made : β → List AnyNode} {c : Category}

namespace Forms

theorem pure {x : α} (same : m x = before) : Forms B s lo reached before (pure x) m := by
  intro stands formed
  refine .pure ⟨stands.ordered, .refl s, ?_⟩
  rw [same]
  exact formed

/-- A tree is put around what was read. -/
theorem around (x : Node c) (parts : x.parts = before) (no_span : x.span? = none) (legal : x.HasLegalModifiers)
    (h : Forms B s lo reached (one x) p m) : Forms B s lo reached before p m := by
  intro stands formed
  rw [← parts] at formed
  exact h stands (formed.node no_span legal)

theorem node {x : Node c} (parts : x.parts = before) (no_span : x.span? = none) (legal : x.HasLegalModifiers) :
    Forms B s lo reached before (Pure.pure x) one :=
  .around x parts no_span legal (.pure rfl)

/-- Trees without spans may stand anywhere. -/
theorem add (ns : List AnyNode) (free : ∀ {lo hi}, Formed B lo hi ns) (h : Forms B s lo reached (before ++ ns) p m) :
    Forms B s lo reached before p m := by
  intro stands formed
  have behind : Formed B (max lo s.lastEnd) s.lastEnd ns := free
  exact h stands (formed.append behind (le_max_right _ _) (le_max_left _ _) (le_refl _))

/-- A tree around what was read, which stands where all this was read. -/
theorem spanned {x : Node c} (parts : x.parts = before) (span : x.span? = some (s.spanFrom lo)) (legal : x.HasLegalModifiers) :
    Forms B s lo (lo + 1) before (Pure.pure x) one := by
  intro stands formed
  rw [← parts] at formed
  have lt : lo < s.lastEnd := stands.reached
  rw [Stream.spanFrom, max_eq_left lt.le] at span
  exact .pure ⟨stands.ordered, .refl s, formed.spanned span lt stands.first stands.ordered.last legal⟩

theorem failWith (cause : SyntaxError.Cause) : Forms B s lo reached before (Parse.failWith cause) m :=
  fun _ _ => .failWith cause

theorem failExpected (expected : String) : Forms B s lo reached before (Parse.failExpected expected) m :=
  fun _ _ => .failExpected expected

theorem get_bind {f : Stream → Parse α} (h : Forms B s lo reached before (f s) m) :
    Forms B s lo reached before (get >>= f) m := h

theorem pure_bind {x : α} (h : Forms B s lo reached before (f x) made) :
    Forms B s lo reached before (Pure.pure x >>= f) made := h

theorem ite {b : Prop} [Decidable b] {q : Parse α} (h : Forms B s lo reached before p m)
    (h' : Forms B s lo reached before q m) : Forms B s lo reached before (if b then p else q) m := by
  split
  · exact h
  · exact h'

theorem mono (h : Forms B s lo reached before p m) (imp : ∀ x lo hi, Formed B lo hi (m x) → Formed B lo hi (m' x)) :
    Forms B s lo reached before p m' :=
  fun stands formed => (h stands formed).mono fun x _ ⟨ordered, leads, new⟩ => ⟨ordered, leads, imp x _ _ new⟩

theorem map {F : α → β} (h : Forms B s lo reached before p fun x => made (F x)) :
    Forms B s lo reached before (F <$> p) made := by
  intro stands formed y s' read
  change (p s).bind (fun r => .ok (F r.1, r.2)) = _ at read
  cases result : p s with
  | error _ =>
    rw [result] at read
    cases read
  | ok r =>
    rw [result] at read
    cases read
    exact h stands formed r.1 r.2 result

/-- The first reader goes on with the trees before it. -/
theorem andThen (hp : Forms B s lo reached before p m) (hf : ∀ {s'} x, Forms B s' lo reached (m x) (f x) made) :
    Forms B s lo reached before (p >>= f) made := by
  intro stands formed
  refine .bind ((hp stands formed).mono fun x s₁ ⟨ordered, leads, new⟩ => ?_)
  exact (hf x (stands.leads ordered leads) new).mono fun _ _ ⟨last, leads', all⟩ => ⟨last, leads.trans leads', all⟩

/-- What a reader puts together stands behind the trees before it, whatever was read. -/
theorem of_builds (hp : Builds B s p m) : Forms B s lo reached before p fun x => before ++ m x := by
  intro stands formed
  refine (hp stands.ordered.stands .nil).mono fun x s₁ ⟨ordered, leads, new⟩ => ⟨ordered, leads, ?_⟩
  exact formed.append new stands.ordered.front.1 stands.front leads.lastEnd

/-- The first reader puts trees together behind those before it. -/
theorem bind (hp : Builds B s p m) (hf : ∀ {s'} x, Forms B s' lo reached (before ++ m x) (f x) made) :
    Forms B s lo reached before (p >>= f) made :=
  (of_builds hp).andThen hf

/-- The first reader makes no tree. -/
theorem skip (hp : Skips B s p) (hf : ∀ {s'} x, Forms B s' lo reached before (f x) made) :
    Forms B s lo reached before (p >>= f) made := by
  refine bind hp fun x => ?_
  rw [List.append_nil]
  exact hf x

/-- The first reader makes no tree, and what it gives is known. -/
theorem skip_gives {V : α → Prop} (hp : Skips B s p) (gives : Gives p V)
    (hf : ∀ {s'} x, V x → Forms B s' lo reached before (f x) made) : Forms B s lo reached before (p >>= f) made := by
  intro stands formed
  refine .bind fun x s₁ read => ?_
  obtain ⟨ordered, leads, -⟩ := hp stands.ordered.stands .nil x s₁ read
  have rest := hf x (gives s x s₁ read) (stands.leads ordered leads) (formed.widen (le_refl _) leads.lastEnd)
  exact rest.mono fun _ _ ⟨last, leads', all⟩ => ⟨last, leads.trans leads', all⟩

/-- The first reader reads a token, so that what was read ends behind the byte at which all began. -/
theorem start_gives {V : α → Prop} (hp : Builds B s p m) (consumes : Consumes 1 p) (gives : Gives p V)
    (hf : ∀ {s'} x, V x → Forms B s' lo (lo + 1) (before ++ m x) (f x) made) : Forms B s lo reached before (p >>= f) made := by
  intro stands formed
  refine .bind fun x s₁ read => ?_
  have run := consumes s stands.ordered.eof
  rw [read] at run
  obtain ⟨-, -, fewer⟩ := run
  obtain ⟨ordered, leads, new⟩ := of_builds hp stands formed x s₁ read
  have behind : lo < s₁.lastEnd := stands.front.trans_lt (leads.moved (Nat.lt_of_succ_le fewer))
  have rest := hf x (gives s x s₁ read) ⟨ordered, stands.first, stands.front.trans leads.front, behind⟩ new
  exact rest.mono fun _ _ ⟨last, leads', all⟩ => ⟨last, leads.trans leads', all⟩

theorem start (hp : Builds B s p m) (consumes : Consumes 1 p)
    (hf : ∀ {s'} x, Forms B s' lo (lo + 1) (before ++ m x) (f x) made) : Forms B s lo reached before (p >>= f) made :=
  start_gives hp consumes (V := fun _ => True) (fun _ _ _ _ => trivial) fun x _ => hf x

theorem skip_start (hp : Skips B s p) (consumes : Consumes 1 p)
    (hf : ∀ {s'} x, Forms B s' lo (lo + 1) before (f x) made) : Forms B s lo reached before (p >>= f) made := by
  refine start hp consumes fun x => ?_
  rw [List.append_nil]
  exact hf x

theorem listed {p : Parse (List (Node c))} (hp : Forms B s lo reached before p fun xs => xs.flatMap one) :
    Forms B s lo reached before p listed := by
  refine hp.mono fun xs lo hi h => Formed.list ?_
  rw [List.map_eq_flatMap]
  exact h

/-- A value that is replaced as long as there is another one. -/
theorem refine {step : α → Parse (Option α)}
    (h : ∀ {s} x, Forms B s lo reached (m x) (step x) fun r => m (r.getD x)) {x : α} :
    Forms B s lo reached (m x) (Parse.refine step x) m := by
  have rounds (n : ℕ) : ∀ {s} x, Forms B s lo reached (m x) (Parse.refineUpTo step n x) m := by
    induction n with
    | zero => exact fun _ => .failWith _
    | succ n ih =>
      intro s x
      refine andThen (h x) fun r => ?_
      cases r with
      | none => exact .pure rfl
      | some y => exact ih y
  exact .get_bind (rounds (s.unread + 1) x)

end Forms

namespace Builds

/-- A reader that starts afresh, wherever that is. -/
theorem forms (hp : Builds B s p m) : Forms B s lo reached [] p m := .of_builds hp

/-- Nothing is made of what the reader gives. -/
theorem silent (hp : Builds B s p m) : Skips B s p := hp.mono fun _ _ _ _ => .nil

theorem listed {p : Parse (List (Node c))} (hp : Builds B s p fun xs => xs.flatMap one) : Builds B s p listed :=
  Forms.listed hp

/-! ### Loops -/

theorem collect {step : Parse (List α × Bool)} (h : ∀ {s}, Builds B s step fun r => r.1.flatMap m) :
    Builds B s (Parse.collect step) fun xs => xs.flatMap m := by
  have rounds (n : ℕ) : ∀ {s}, Builds B s (Parse.collectUpTo step n) fun xs => xs.flatMap m := by
    induction n with
    | zero => exact .failWith _
    | succ n ih =>
      refine .andThen h fun r => .ite ?more (.pure rfl)
      exact .bind ih fun ys => .pure List.flatMap_append
  exact .get_bind (rounds (s.unread + 1))

section

variable (hp : ∀ {s}, Builds B s p m)

include hp

theorem behind {separator : Parse Bool} (hs : ∀ {s}, Skips B s separator) :
    Builds B s (Parse.behind separator p) fun xs => xs.flatMap m :=
  collect <| .skip hs fun _ => .ite (.bind hp fun _ => .pure (List.flatMap_singleton _ _)) (.pure rfl)

end

end Builds

namespace Skips

/-! ### Single tokens -/

theorem advance : Skips B s Parse.advance := by
  intro stands _ t s' read
  have ordered := stands.ordered
  obtain ⟨tokens, eof, lastEnd, pending, unread, unread_eq⟩ := s
  cases tokens with
  | nil =>
    cases read
    exact ⟨ordered, .refl _, .nil⟩
  | cons u rest =>
    have solid := List.forall_mem_cons.1 ordered.solid
    rw [Parse.advance] at read
    dsimp only at read
    split at read
    · cases read
      exact ⟨ordered.same rfl rfl rfl (List.forall_mem_cons.2 solid), .same rfl rfl rfl, .nil⟩
    · next not_eof =>
      cases read
      obtain ⟨chain, each, -, -, closed⟩ := ordered
      obtain ⟨behind, forward, first, stop⟩ := each u.span List.mem_cons_self
      have later := List.pairwise_cons.1 chain
      have solid_here := solid.1 (Bool.eq_false_iff.2 not_eof)
      refine ⟨⟨later.2, fun a member => ?_, solid.2, stop, closed⟩,
        ⟨Nat.sub_le _ _, ?_, behind.trans forward, fun _ => solid_here⟩, .nil⟩
      · exact ⟨later.1 a member, (each a (List.mem_cons_of_mem _ member)).2⟩
      · obtain ⟨a, member, start⟩ := Stream.front_mem ⟨rest, eof, u.span.stop, pending ++ u.allComments, unread - 1, _⟩
        rw [← start]
        exact forward.trans (later.1 a member)

theorem takeDoc : Skips B s Parse.takeDoc := by
  intro stands _ d s' read
  have ordered := stands.ordered
  obtain ⟨tokens, eof, lastEnd, pending, unread, unread_eq⟩ := s
  cases tokens with
  | nil =>
    cases read
    exact ⟨ordered, .refl _, .nil⟩
  | cons u rest =>
    have solid := List.forall_mem_cons.1 ordered.solid
    cases read
    exact ⟨ordered.same rfl rfl rfl (List.forall_mem_cons.2 solid), .same rfl rfl rfl, .nil⟩

theorem takeComments : Skips B s Parse.takeComments := by
  intro stands _ texts s' read
  have ordered := stands.ordered
  obtain ⟨tokens, eof, lastEnd, pending, unread, unread_eq⟩ := s
  cases tokens with
  | nil =>
    cases read
    exact ⟨ordered.same rfl rfl rfl ordered.solid, .same rfl rfl rfl, .nil⟩
  | cons u rest =>
    have solid := List.forall_mem_cons.1 ordered.solid
    cases read
    exact ⟨ordered.same rfl rfl rfl (List.forall_mem_cons.2 solid), .same rfl rfl rfl, .nil⟩

theorem expect (k : TokenKind) : Skips B s (Parse.expect k) := .get_bind (.ite advance (.failExpected _))

theorem expectKeyword (word : String) : Skips B s (Parse.expectKeyword word) := .get_bind (.ite advance (.failExpected _))

theorem expectIdent (what : String) : Skips B s (Parse.expectIdent what) :=
  .get_bind (.ite (.skip advance fun _ => .pure rfl) (.failExpected _))

theorem expectVariable : Skips B s Parse.expectVariable :=
  .get_bind (.ite (.skip advance fun _ => .pure rfl) (.failExpected _))

theorem tryToken (k : TokenKind) : Skips B s (Parse.tryToken k) :=
  .get_bind (.ite (.skip advance fun _ => .pure rfl) (.pure rfl))

theorem tryKeyword (word : String) : Skips B s (Parse.tryKeyword word) :=
  .get_bind (.ite (.skip advance fun _ => .pure rfl) (.pure rfl))

theorem expectSemicolon : Skips B s Parse.expectSemicolon :=
  .skip (tryToken _) fun _ => .ite (.pure rfl) (.get_bind (.ite (.pure rfl) (.failExpected _)))

end Skips

namespace Builds

section

variable (hp : ∀ {s}, Builds B s p m)

include hp

theorem commaList : Builds B s (Parse.commaList p) fun xs => xs.flatMap m :=
  .andThen hp fun _ => .bind (behind hp (Skips.tryToken _)) fun _ => .pure List.flatMap_cons

theorem commaListUntil (close : TokenKind) : Builds B s (Parse.commaListUntil close p) fun xs => xs.flatMap m :=
  collect <| .get_bind <| .ite (.pure rfl) <| .andThen hp fun _ => .skip (Skips.tryToken _) fun _ =>
    .pure (List.flatMap_singleton _ _)

theorem enclosedBy (opening closing : TokenKind) : Builds B s (Parse.enclosedBy opening closing p) m :=
  .skip (Skips.expect _) fun _ => .bind hp fun _ => .skip (Skips.expect _) fun _ => .pure rfl

variable {m' : Option α → List AnyNode} (none_ : m' none = []) (some_ : ∀ x, m' (some x) = m x)

include none_ some_

theorem afterKeyword (word : String) : Builds B s (Parse.afterKeyword word p) m' :=
  .skip (Skips.tryKeyword word) fun _ => .ite (.bind hp fun _ => .pure (some_ _)) (.pure none_)

theorem afterToken (k : TokenKind) : Builds B s (Parse.afterToken k p) m' :=
  .skip (Skips.tryToken k) fun _ => .ite (.bind hp fun _ => .pure (some_ _)) (.pure none_)

end

end Builds

namespace Skips

theorem collect {step : Parse (List α × Bool)} (h : ∀ {s}, Skips B s step) : Skips B s (Parse.collect step) := by
  have round {s : Stream} : Builds B s step fun r => r.1.flatMap fun _ => [] :=
    h.mono fun r _ _ _ => by
      rw [List.flatMap_eq_nil_iff.2 fun _ _ => rfl]
      exact .nil
  exact (Builds.collect round).silent

theorem skipAll (kinds : List TokenKind) : Skips B s (Parse.skipAll kinds) :=
  .skip (collect (.get_bind (.ite (.skip advance fun _ => .pure rfl) (.pure rfl)))) fun _ => .pure rfl

theorem refine {step : α → Parse (Option α)} (h : ∀ {s} x, Skips B s (step x)) (x : α) : Skips B s (Parse.refine step x) :=
  Forms.refine (m := fun _ => []) fun y => (h y).forms

section

variable (hp : ∀ {s}, Skips B s p)

include hp

theorem behind {separator : Parse Bool} (hs : ∀ {s}, Skips B s separator) : Skips B s (Parse.behind separator p) :=
  (Builds.behind hp hs).silent

theorem commaList : Skips B s (Parse.commaList p) := (Builds.commaList hp).silent

theorem commaListUntil (close : TokenKind) : Skips B s (Parse.commaListUntil close p) := (Builds.commaListUntil hp close).silent

theorem afterKeyword (word : String) : Skips B s (Parse.afterKeyword word p) :=
  Builds.afterKeyword hp rfl (fun _ => rfl) word

theorem afterToken (k : TokenKind) : Skips B s (Parse.afterToken k p) := Builds.afterToken hp rfl (fun _ => rfl) k

end

/-! ### Leaves -/

theorem typeAtomUpTo (n : ℕ) : ∀ {s}, Skips B s (Parse.typeAtomUpTo n) := by
  induction n with
  | zero => exact .failWith _
  | succ n ih =>
    refine .skip (tryToken _) fun _ => .ite ?group (.skip (expectIdent _) fun _ => .pure rfl)
    case group =>
      exact .skip ih fun _ => .skip (behind ih (tryToken _)) fun _ => .skip (expect _) fun _ => .pure rfl

theorem typeAtom : Skips B s Parse.typeAtom := .get_bind (typeAtomUpTo (s.unread + 1))

theorem tryIntersection : Skips B s Parse.tryIntersection := .get_bind (.ite (tryToken _) (.pure rfl))

theorem typeHint : Skips B s Parse.typeHint := by
  refine .skip (tryToken _) fun _ => .ite (.skip typeAtom fun _ => .pure rfl) ?_
  refine .skip typeAtom fun _ => .skip (behind typeAtom (tryToken _)) fun _ => .ite ?_ (.pure rfl)
  exact .skip (behind typeAtom tryIntersection) fun _ => .ite (.pure rfl) (.pure rfl)

theorem returnType : Skips B s Parse.returnType := afterToken typeHint _

theorem nameList (what : String) : Skips B s (Parse.nameList what) := commaList (expectIdent what)

theorem attributes : Skips B s Parse.attributes :=
  collect (.get_bind (.ite (.skip advance fun _ => .pure rfl) (.pure rfl)))

theorem failModifier (reason : String) : Skips B s (Parse.failModifier (α := α) reason) := .get_bind (.failWith _)

theorem addModifier (flags : Modifiers) (flag : Modifier) : Skips B s (Parse.addModifier flags flag) :=
  .ite (failModifier _) <| .ite (failModifier _) <| .skip advance fun _ => .pure rfl

theorem memberModifiers : Skips B s Parse.memberModifiers := by
  refine .skip (refine (fun m => .get_bind ?_) _) fun _ => .ite (failModifier _).forms (.pure rfl)
  split
  · exact .skip (addModifier _ _) fun _ => .pure rfl
  · exact .ite (.skip advance fun _ => .pure rfl) (.pure rfl)

theorem classModifiers : Skips B s Parse.classModifiers := by
  refine .skip (refine (fun m => .get_bind ?_) _) fun _ => .ite (failModifier _).forms (.pure rfl)
  split
  · exact .ite (failModifier _) (.skip advance fun _ => .pure rfl)
  · exact .pure rfl

theorem parent : Skips B s Parse.parent := afterKeyword (expectIdent _) _

theorem interfaces (word : String) : Skips B s (Parse.interfaces word) :=
  .skip (afterKeyword (nameList _) word) fun _ => .pure rfl

theorem importRename : Skips B s Parse.importRename := afterKeyword (expectIdent _) _

theorem importItems : Skips B s Parse.importItems := by
  refine .skip (expectIdent _) fun _ => .get_bind (.ite ?group ?single)
  case group =>
    refine .skip advance fun _ => Builds.forms (Builds.enclosedBy (commaListUntil ?_ _) _ _)
    exact .skip (expectIdent _) fun _ => .skip importRename fun _ => .pure rfl
  case single => exact .skip importRename fun _ => .pure rfl

theorem importKind : Skips B s Parse.importKind :=
  .skip (tryKeyword _) fun _ => .ite (.pure rfl) <| .skip (tryKeyword _) fun _ => .ite (.pure rfl) (.pure rfl)

theorem captures : Skips B s Grammar.captures := by
  refine .skip (tryKeyword _) fun _ => .ite (Builds.forms (Builds.enclosedBy (commaListUntil ?_ _) _ _)) (.pure rfl)
  exact .skip (tryToken _) fun _ => .skip expectVariable fun _ => .pure rfl

theorem adaptation : Skips B s Parse.adaptation := by
  have last (traitName : Option Name) (method : String) (visibility : Option Visibility) (newName : Option String)
      {s : Stream} {lo reached : ℕ} : Forms B s lo reached [] (if visibility.isNone && newName.isNone then Parse.failExpected "visibility or alias"
        else do
          Parse.expectSemicolon
          return Adaptation.rename traitName method visibility newName) fun _ => [] :=
    .ite (.failExpected _) (.skip expectSemicolon fun _ => .pure rfl)
  refine .skip (expectIdent _) fun first => .skip (tryToken _) fun _ =>
    .ite (.skip (expectIdent _) fun method => .pure_bind <| .get_bind ?_) <| .pure_bind <| .get_bind ?_
  · split
    · exact .skip advance fun _ => .skip (nameList _) fun _ => .skip expectSemicolon fun _ => .pure rfl
    · refine .skip (expectKeyword _) fun _ => .get_bind (.ite (.skip advance fun _ => ?_) ?_)
      all_goals
        refine .get_bind (.ite (.skip advance fun _ => .pure_bind ?_) (.pure_bind ?_))
        all_goals exact last _ _ _ _
  · split
    · next same _ => cases same
    · refine .skip (expectKeyword _) fun _ => .get_bind (.ite (.skip advance fun _ => ?_) ?_)
      all_goals
        refine .get_bind (.ite (.skip advance fun _ => .pure_bind ?_) (.pure_bind ?_))
        all_goals exact last _ _ _ _

end Skips

/-! ## Modifiers -/

namespace Parse

theorem nextModifier?_mem {flags : List Modifier} {s : Stream} {flag : Modifier} (h : nextModifier? flags s = some flag) :
    flag ∈ flags :=
  List.mem_of_find?_eq_some h

/-- A modifier is added, and a visibility only if there is none. -/
theorem addModifier_yields (flags : Modifiers) (flag : Modifier) :
    Yields s (addModifier flags flag) fun all _ =>
      all = flags.union (.single flag) ∧ (flag.isVisibility = true → flags.hasVisibility = false) := by
  refine .ite (fun _ => .failWith _) fun _ => .ite (fun _ => .failWith _) fun first => ?_
  refine .bind_any fun _ _ => .pure ⟨rfl, fun visibility => ?_⟩
  simpa [visibility] using first

theorem memberModifiers_gives : Gives memberModifiers Modifiers.IsOfMember := by
  intro s
  refine .bind (.mono (Yields.refine (I := fun flags _ => flags.stated.length ≤ 1)
    (Q := fun flags _ => flags.stated.length ≤ 1) (Nat.zero_le _) ?round) ?consistent)
  case round =>
    intro flags s once
    refine .get_bind ?_
    split
    · refine .bind ((addModifier_yields _ _).mono fun all s' ⟨same, first⟩ => .pure ?_)
      show all.stated.length ≤ 1
      rw [same]
      exact Modifiers.length_stated_union once first
    · exact .ite (fun _ => .bind_any fun _ _ => .pure once) fun _ => .pure once
  case consistent =>
    intro flags s' once
    refine .ite (fun _ => .failWith _) fun consistent => .pure ⟨once, ?_⟩
    simpa using consistent

theorem classModifiers_gives : Gives classModifiers Modifiers.IsOfClass := by
  intro s
  refine .bind (.mono (Yields.refine (I := fun flags _ => flags.IsAmong [.abstract, .final, .readonly])
    (Q := fun flags _ => flags.IsAmong [.abstract, .final, .readonly]) (.none _) ?round) ?consistent)
  case round =>
    intro flags s among
    refine .get_bind ?_
    split
    · next flag found =>
      exact .ite (fun _ => .failWith _) fun _ => .bind_any fun _ _ => .pure (among.union (nextModifier?_mem found))
    · exact .pure among
  case consistent =>
    intro flags s' among
    refine .ite (fun _ => .failWith _) fun consistent => .pure ⟨among, ?_⟩
    simpa using consistent

/-- The modifiers of a parameter, in the loop that reads them. -/
theorem promoted_gives : Gives (refine (fun flags => do
    match nextModifier? [.pub, .prot, .priv, .readonly] (← get) with
    | some flag => return some (← addModifier flags flag)
    | none => return none) Modifiers.none) Modifiers.IsOfParameter := by
  intro s
  refine Yields.refine (I := fun (flags : Modifiers) _ => flags.IsOfParameter)
    (Q := fun (flags : Modifiers) _ => flags.IsOfParameter)
    ⟨.none _, Nat.zero_le _⟩ ?_
  intro flags s promoted
  refine .get_bind ?_
  split
  · next flag found =>
    refine .bind ((addModifier_yields _ _).mono fun all s' ⟨same, first⟩ => .pure ?_)
    show all.IsOfParameter
    rw [same]
    exact ⟨promoted.among.union (nextModifier?_mem found), Modifiers.length_stated_union promoted.visibility first⟩
  · exact .pure promoted

end Parse

end Codewright.Php
