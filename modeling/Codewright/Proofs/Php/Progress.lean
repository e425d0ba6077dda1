import Mathlib.Data.List.Infix
import Codewright.Php.Grammar.Members

/-!
# How readers move

A reader moves forward in its stream. Where it fails, it complains about a token that is there. It fails for want of depth
only if there are more tokens than it has depth for.

* `RunsFrom s depth p least` – this holds of the reader `p` on the stream `s`; `least` says how many tokens it reads at least;
  `Runs depth p least`: on every stream;
* `Safe depth p`, `Consumes depth p` – the reader runs, and reads at least no token, or at least one;
* `Runs.start`, `Runs.next` – a first reader that reads a token leaves a reader behind it with one token less to have depth for;
* `Runs.collect`, `Runs.refine` – loops never run out of rounds, since every round but the last reads a token.
-/

namespace Codewright.Php

open Source

namespace Stream

/-- The unread tokens, without the comments in front of them. -/
def bares (s : Stream) : List Token := s.tokens.map Token.bare

theorem length_bares (s : Stream) : s.bares.length = s.unread := by
  simp [bares, s.unread_eq]

variable {s : Stream} {k : TokenKind}

theorem kind_ne_eof_of_at (h : s.at_ k = true) (ne : k ≠ .eof) : s.kind ≠ .eof := by
  have same : s.kind = k := by simpa [at_] using h
  rw [same]
  exact ne

theorem kind_ne_eof_of_atKeyword {word : String} (h : s.atKeyword word = true) : s.kind ≠ .eof := by
  unfold atKeyword Token.isKeyword at h
  have ident : s.kind = .ident := by
    simp only [Bool.and_eq_true, beq_iff_eq] at h
    exact h.1
  rw [ident]
  exact nofun

end Stream

/-- The error is at an unread token, or at the end. -/
def SyntaxError.IsAt (e : SyntaxError) (s : Stream) : Prop :=
  ∃ t ∈ s.eof.bare :: s.bares, e.span = t.span ∧ e.pos = t.pos

theorem SyntaxError.isAt_peek (cause : SyntaxError.Cause) (s : Stream) :
    SyntaxError.IsAt ⟨cause, s.peek.span, s.peek.pos⟩ s := by
  refine ⟨s.peek.bare, ?_, rfl, rfl⟩
  unfold Stream.bares Stream.peek Stream.peekAt
  cases s.tokens with
  | nil => exact List.mem_cons_self
  | cons t ts => exact List.mem_cons_of_mem _ List.mem_cons_self

theorem SyntaxError.IsAt.of_suffix {e : SyntaxError} {s s' : Stream} (h : e.IsAt s') (eof : s'.eof = s.eof)
    (back : s'.bares <:+ s.bares) : e.IsAt s := by
  obtain ⟨t, ht, place⟩ := h
  refine ⟨t, ?_, place⟩
  rw [eof] at ht
  rcases List.mem_cons.1 ht with last | unread
  · exact last ▸ List.mem_cons_self
  · exact List.mem_cons_of_mem _ (back.subset unread)

/-! ## Readers that run -/

variable {α β : Type}

/-- A result that is right for a reader that was in front of `s`: it has moved forward, by so many tokens at least, or it
complains about a token that is there, and not about the depth while fewer than `depth` tokens are unread. -/
def Stream.Allows (s : Stream) (depth : Nat) (least : α → Nat) : Except SyntaxError (α × Stream) → Prop
  | .ok (x, s') => s'.eof = s.eof ∧ s'.bares <:+ s.bares ∧ s'.unread + least x ≤ s.unread
  | .error e => e.IsAt s ∧ (s.unread < depth → e.cause ≠ .tooDeep)

/-- The reader runs from the stream `s`: its result is right. -/
def RunsFrom (s : Stream) (depth : Nat) (p : Parse α) (least : α → Nat) : Prop :=
  s.eof.kind = .eof → s.Allows depth least (p s)

/-- The reader runs from every stream. -/
def Runs (depth : Nat) (p : Parse α) (least : α → Nat) : Prop := ∀ s, RunsFrom s depth p least

/-- The reader runs, and may read no token. -/
abbrev Safe (depth : Nat) (p : Parse α) : Prop := Runs depth p fun _ => 0

/-- The reader runs, and reads a token. -/
abbrev Consumes (depth : Nat) (p : Parse α) : Prop := Runs depth p fun _ => 1

namespace RunsFrom

variable {s : Stream} {d : Nat} {p : Parse α} {f : α → Parse β} {least : α → Nat} {least' : β → Nat}

theorem pure {x : α} (none : least x = 0) : RunsFrom s d (pure x) least := by
  intro _
  refine ⟨rfl, List.suffix_refl _, ?_⟩
  rw [none]
  exact le_refl _

theorem failWith {cause : SyntaxError.Cause} (h : cause ≠ .tooDeep) : RunsFrom s d (Parse.failWith cause) least := by
  intro _
  exact ⟨SyntaxError.isAt_peek cause s, fun _ => h⟩

theorem failExpected (expected : String) : RunsFrom s d (Parse.failExpected expected) least := by
  intro _
  refine ⟨SyntaxError.isAt_peek _ s, ?_⟩
  intro _
  show (if s.peek.isEof then SyntaxError.Cause.unexpectedEnd expected else _) ≠ _
  split
  · exact nofun
  · exact nofun

/-- The second reader has depth for what the first one leaves. -/
theorem bind (hp : RunsFrom s d p least)
    (hf : ∀ x s₁, RunsFrom s₁ (d - least x) (f x) fun y => least' y - least x) : RunsFrom s d (p >>= f) least' := by
  intro closed
  have first := hp closed
  show s.Allows d least' ((p s).bind fun r => f r.1 r.2)
  cases result : p s with
  | error e =>
    rw [result] at first
    exact first
  | ok r =>
    obtain ⟨x, s₁⟩ := r
    rw [result] at first
    obtain ⟨eof, back, fewer⟩ := first
    have second := hf x s₁ (eof ▸ closed)
    show s.Allows d least' (f x s₁)
    cases result' : f x s₁ with
    | error e =>
      rw [result'] at second
      obtain ⟨place, deep⟩ := second
      refine ⟨place.of_suffix eof back, ?_⟩
      intro shallow
      apply deep
      omega
    | ok r' =>
      obtain ⟨y, s'⟩ := r'
      rw [result'] at second
      obtain ⟨eof', back', fewer'⟩ := second
      refine ⟨eof'.trans eof, back'.trans back, ?_⟩
      dsimp only at fewer fewer' ⊢
      omega

theorem mono {d' : Nat} {least₁ : α → Nat} (hp : RunsFrom s d p least) (depth : d' ≤ d)
    (fewer : ∀ x, least₁ x ≤ least x) : RunsFrom s d' p least₁ := by
  intro closed
  have run := hp closed
  cases result : p s with
  | error e =>
    rw [result] at run
    obtain ⟨place, deep⟩ := run
    exact ⟨place, fun shallow => deep (lt_of_lt_of_le shallow depth)⟩
  | ok r =>
    rw [result] at run
    obtain ⟨eof, back, less⟩ := run
    exact ⟨eof, back, le_trans (Nat.add_le_add_left (fewer r.1) _) less⟩

/-- At less depth, for the same tokens. -/
theorem shallower {d' : Nat} (hp : RunsFrom s d p least) (depth : d' ≤ d) : RunsFrom s d' p least :=
  hp.mono depth fun _ => le_refl _

/-- A depth above the number of unread tokens is as good as any. -/
theorem of_unread_lt {d' : Nat} (hp : RunsFrom s d' p least) (enough : s.unread < d') : RunsFrom s d p least := by
  intro closed
  have run := hp closed
  cases result : p s with
  | error e =>
    rw [result] at run
    obtain ⟨place, deep⟩ := run
    exact ⟨place, fun _ => deep enough⟩
  | ok r =>
    rw [result] at run
    exact run

theorem ite {c : Prop} [Decidable c] {q : Parse α} (h : c → RunsFrom s d p least) (h' : ¬c → RunsFrom s d q least) :
    RunsFrom s d (if c then p else q) least := by
  by_cases hc : c
  · rw [if_pos hc]
    exact h hc
  · rw [if_neg hc]
    exact h' hc

theorem get_bind {f : Stream → Parse β} (h : RunsFrom s d (f s) least') : RunsFrom s d (get >>= f) least' := h

theorem start (hp : RunsFrom s (d + 1) p fun _ => 1) (hf : ∀ x, Safe d (f x)) :
    RunsFrom s (d + 1) (p >>= f) fun _ => 1 := by
  apply hp.bind
  intro x s₁
  exact hf x s₁

theorem next (hp : RunsFrom s d p least) (hf : ∀ x, Runs d (f x) least') : RunsFrom s d (p >>= f) least' := by
  apply (hp.mono (le_refl d) fun x => Nat.zero_le _).bind
  intro x s₁
  exact hf x s₁

/-- A token other than the last is read and left behind. -/
theorem advance (h : s.kind ≠ .eof) : RunsFrom s d Parse.advance fun _ => 1 := by
  intro closed
  obtain ⟨tokens, eof, lastEnd, pending, unread, unread_eq⟩ := s
  cases tokens with
  | nil => exact absurd closed h
  | cons t ts =>
    have not_eof : t.isEof = false := by
      have other : t.kind ≠ .eof := h
      simp [Token.isEof, other]
    simp only [Parse.advance, not_eof, Bool.false_eq_true, if_false]
    refine ⟨rfl, List.suffix_cons _ _, ?_⟩
    have more : unread = ts.length + 1 := unread_eq
    show unread - 1 + 1 ≤ unread
    omega

/-- A token is read, and what follows has one less to have depth for. -/
theorem advance_bind {f : Token → Parse β} (h : s.kind ≠ .eof) (hf : ∀ t, Runs d (f t) fun y => least' y - 1) :
    RunsFrom s (d + 1) (Parse.advance >>= f) least' := by
  apply (advance h).bind
  intro t s₁
  exact hf t s₁

theorem advance_start {f : Token → Parse β} (h : s.kind ≠ .eof) (hf : ∀ t, Safe d (f t)) :
    RunsFrom s (d + 1) (Parse.advance >>= f) fun _ => 1 :=
  advance_bind h hf

end RunsFrom

namespace Runs

variable {d : Nat} {p : Parse α} {f : α → Parse β} {least : α → Nat} {least' : β → Nat}

theorem pure {x : α} (none : least x = 0) : Runs d (pure x) least := fun _ => .pure none

theorem failWith {cause : SyntaxError.Cause} (h : cause ≠ .tooDeep) : Runs d (Parse.failWith cause) least :=
  fun _ => .failWith h

/-- Without any depth a reader may complain about the depth. -/
theorem failWith_tooDeep : Runs 0 (Parse.failWith .tooDeep) least := by
  intro s _
  exact ⟨SyntaxError.isAt_peek _ s, fun shallow => absurd shallow (Nat.not_lt_zero _)⟩

theorem failExpected (expected : String) : Runs d (Parse.failExpected expected) least := fun _ => .failExpected _

theorem bind (hp : Runs d p least) (hf : ∀ x, Runs (d - least x) (f x) fun y => least' y - least x) :
    Runs d (p >>= f) least' :=
  fun s => (hp s).bind hf

theorem start (hp : Consumes (d + 1) p) (hf : ∀ x, Safe d (f x)) : Consumes (d + 1) (p >>= f) :=
  fun s => (hp s).start hf

theorem next (hp : Runs d p least) (hf : ∀ x, Runs d (f x) least') : Runs d (p >>= f) least' :=
  fun s => (hp s).next hf

theorem pure_bind {x : α} (h : Runs d (f x) least') : Runs d (Pure.pure x >>= f) least' := h

theorem get_bind {f : Stream → Parse β} (h : ∀ s, RunsFrom s d (f s) least') : Runs d (get >>= f) least' :=
  fun s => .get_bind (h s)

/-- Whatever is learned from looking at the stream. -/
theorem look {f : Stream → Parse β} (h : ∀ s, Runs d (f s) least') : Runs d (get >>= f) least' :=
  fun s => .get_bind (h s s)

theorem ite {c : Prop} [Decidable c] {q : Parse α} (h : Runs d p least) (h' : Runs d q least) :
    Runs d (if c then p else q) least :=
  fun s => .ite (fun _ => h s) fun _ => h' s

theorem mono {d' : Nat} {least₁ : α → Nat} (hp : Runs d p least) (depth : d' ≤ d) (fewer : ∀ x, least₁ x ≤ least x) :
    Runs d' p least₁ :=
  fun s => (hp s).mono depth fewer

theorem shallower {d' : Nat} (hp : Runs d p least) (depth : d' ≤ d) : Runs d' p least :=
  hp.mono depth fun _ => le_refl _

/-- The first reader may have less depth than the token that it reads gives to the second. -/
theorem start_of_le {e : Nat} (le : e ≤ d + 1) (hp : Consumes e p) (hf : ∀ x, Safe d (f x)) : Consumes e (p >>= f) := by
  apply hp.bind
  intro x
  refine Runs.shallower (hf x) ?_
  omega

theorem safe (hp : Runs d p least) : Safe d p := hp.mono (le_refl d) fun _ => Nat.zero_le _

/-- Behind a token that has been read. -/
theorem later (hp : Runs (d + 1) p least) : Safe d p := hp.safe.shallower (Nat.le_succ d)

theorem map {F : α → β} (hp : Runs d p least) : Safe d (F <$> p) := by
  have run : Safe d (p >>= fun x => Pure.pure (F x)) := by
    apply hp.safe.next
    intro x
    exact .pure rfl
  exact run

/-! ### Single tokens -/

theorem advance : Safe d Parse.advance := by
  intro s closed
  obtain ⟨tokens, eof, lastEnd, pending, unread, unread_eq⟩ := s
  cases tokens with
  | nil => exact ⟨rfl, List.suffix_refl _, le_refl _⟩
  | cons t ts =>
    by_cases last : t.isEof = true
    · simp only [Parse.advance, last, if_true]
      exact ⟨rfl, List.suffix_refl _, le_refl _⟩
    · simp only [Parse.advance, last, Bool.false_eq_true, if_false]
      exact ⟨rfl, List.suffix_cons _ _, Nat.sub_le _ _⟩

theorem takeDoc : Safe d Parse.takeDoc := by
  intro s _
  obtain ⟨tokens, eof, lastEnd, pending, unread, unread_eq⟩ := s
  cases tokens with
  | nil => exact ⟨rfl, List.suffix_refl _, le_refl _⟩
  | cons t ts => exact ⟨rfl, List.suffix_refl _, le_refl _⟩

theorem takeComments : Safe d Parse.takeComments := by
  intro s _
  obtain ⟨tokens, eof, lastEnd, pending, unread, unread_eq⟩ := s
  cases tokens with
  | nil => exact ⟨rfl, List.suffix_refl _, le_refl _⟩
  | cons t ts => exact ⟨rfl, List.suffix_refl _, le_refl _⟩

theorem expect (k : TokenKind) (ne : k ≠ .eof) : Consumes d (Parse.expect k) := by
  refine .get_bind fun s => .ite (fun here => ?_) fun _ => .failExpected _
  exact .advance (Stream.kind_ne_eof_of_at here ne)

theorem expectKeyword (word : String) : Consumes d (Parse.expectKeyword word) := by
  refine .get_bind fun s => .ite (fun here => ?_) fun _ => .failExpected _
  exact .advance (Stream.kind_ne_eof_of_atKeyword here)

/-- Reads a token of the kind and goes on with what is known of it. -/
theorem advance_map {s : Stream} {F : Token → α} (h : s.kind ≠ .eof) :
    RunsFrom s d (do return F (← Parse.advance)) fun _ => 1 := by
  apply (RunsFrom.advance h).bind
  intro t s₁
  exact .pure rfl

theorem expectIdent (what : String) : Consumes d (Parse.expectIdent what) := by
  refine .get_bind fun s => .ite (fun here => ?_) fun _ => .failExpected _
  exact advance_map (Stream.kind_ne_eof_of_at here nofun)

theorem expectVariable : Consumes d Parse.expectVariable := by
  refine .get_bind fun s => .ite (fun here => ?_) fun _ => .failExpected _
  exact advance_map (Stream.kind_ne_eof_of_at here nofun)

theorem tryToken (k : TokenKind) (ne : k ≠ .eof) : Runs d (Parse.tryToken k) Bool.toNat := by
  refine .get_bind fun s => .ite (fun here => ?_) fun _ => .pure rfl
  apply (RunsFrom.advance (Stream.kind_ne_eof_of_at here ne)).bind
  intro t s₁
  exact .pure rfl

theorem tryKeyword (word : String) : Runs d (Parse.tryKeyword word) Bool.toNat := by
  refine .get_bind fun s => .ite (fun here => ?_) fun _ => .pure rfl
  apply (RunsFrom.advance (Stream.kind_ne_eof_of_atKeyword here)).bind
  intro t s₁
  exact .pure rfl

theorem expectSemicolon : Safe d Parse.expectSemicolon := by
  refine .next (tryToken _ nofun) fun _ => .ite (.pure rfl) ?_
  exact .look fun _ => .ite (.pure rfl) (.failExpected _)

/-- Either the separator has been read, and there is one token less to have depth for, or nothing has been read. -/
theorem choice {sep : Parse Bool} {q r : Parse β} (hs : Runs (d + 1) sep Bool.toNat) (hq : Safe d q)
    (hr : Consumes (d + 1) r) : Consumes (d + 1) (sep >>= fun b => if b then q else r) := by
  apply hs.bind
  intro b
  cases b with
  | true => exact hq
  | false => exact hr

/-! ### Loops -/

theorem collectUpTo {step : Parse (List α × Bool)} (h : Runs d step fun r => r.2.toNat) (n : Nat) :
    Safe (min d n) (Parse.collectUpTo step n) := by
  induction n with
  | zero => exact failWith_tooDeep.shallower (Nat.min_le_right _ _)
  | succ n ih =>
    apply (h.shallower (Nat.min_le_left _ _)).bind
    rintro ⟨xs, more⟩
    cases more with
    | false => exact .pure rfl
    | true =>
      refine .next (ih.shallower ?_) fun _ => .pure rfl
      show min d (n + 1) - 1 ≤ min d n
      omega

/-- A loop has a round for every unread token, and one more. -/
theorem collect {step : Parse (List α × Bool)} (h : Runs d step fun r => r.2.toNat) : Safe d (Parse.collect step) := by
  refine .get_bind fun s => ?_
  by_cases shallow : s.unread < d
  · refine .of_unread_lt (collectUpTo h (s.unread + 1) s) ?_
    omega
  · refine (collectUpTo h (s.unread + 1) s).mono ?_ fun _ => le_refl _
    omega

theorem refineUpTo {step : α → Parse (Option α)} (h : ∀ x, Runs d (step x) fun r => r.isSome.toNat) (n : Nat) (x : α) :
    Safe (min d n) (Parse.refineUpTo step n x) := by
  induction n generalizing x with
  | zero => exact failWith_tooDeep.shallower (Nat.min_le_right _ _)
  | succ n ih =>
    apply ((h x).shallower (Nat.min_le_left _ _)).bind
    intro r
    cases r with
    | none => exact .pure rfl
    | some y =>
      refine (ih y).shallower ?_
      show min d (n + 1) - 1 ≤ min d n
      omega

theorem refine {step : α → Parse (Option α)} (h : ∀ x, Runs d (step x) fun r => r.isSome.toNat) (x : α) :
    Safe d (Parse.refine step x) := by
  refine .get_bind fun s => ?_
  by_cases shallow : s.unread < d
  · refine .of_unread_lt (refineUpTo h (s.unread + 1) x s) ?_
    omega
  · refine (refineUpTo h (s.unread + 1) x s).mono ?_ fun _ => le_refl _
    omega

theorem skipAll {kinds : List TokenKind} (ne : kinds.contains .eof = false) : Safe d (Parse.skipAll kinds) := by
  refine .next (.collect (.get_bind fun s => .ite (fun here => ?_) fun _ => .pure rfl)) fun _ => .pure rfl
  have other : s.kind ≠ .eof := by
    intro eof
    rw [eof, ne] at here
    cases here
  apply (RunsFrom.advance other).bind
  intro t s₁
  exact .pure rfl

section

variable (hp : Runs d p least)

include hp

theorem behind {separator : Parse Bool} (hs : Runs d separator Bool.toNat) : Safe d (Parse.behind separator p) := by
  refine .collect (hs.bind ?_)
  intro b
  cases b with
  | false => exact .pure rfl
  | true => exact .next (hp.shallower (Nat.sub_le _ _)) fun _ => .pure rfl

theorem commaListUntil (close : TokenKind) : Safe d (Parse.commaListUntil close p) := by
  refine .collect (.look fun _ => .ite (.pure rfl) (.next hp fun x => ?_))
  apply (Runs.tryToken .comma nofun).bind
  intro b
  exact .pure (Nat.sub_self _)

theorem afterKeyword (word : String) : Safe d (Parse.afterKeyword word p) :=
  .next (tryKeyword word) fun _ => .ite (.next hp fun _ => .pure rfl) (.pure rfl)

theorem afterToken (k : TokenKind) (ne : k ≠ .eof) : Safe d (Parse.afterToken k p) :=
  .next (tryToken k ne) fun _ => .ite (.next hp fun _ => .pure rfl) (.pure rfl)

/-- The opening token is read before the reader between the tokens starts. -/
theorem enclosedBy (opening closing : TokenKind) (ne : opening ≠ .eof) (ne' : closing ≠ .eof) :
    Consumes (d + 1) (Parse.enclosedBy opening closing p) := by
  refine .start (expect _ ne) fun _ => .next hp fun x => ?_
  exact .next (expect _ ne') fun _ => .pure rfl

end

/-- The first item reads a token. -/
theorem commaList (hp : Consumes d p) : Consumes d (Parse.commaList p) := by
  apply hp.bind
  intro x
  refine .next ((hp.behind (tryToken .comma nofun)).shallower (Nat.sub_le _ _)) fun xs => ?_
  exact .pure rfl

end Runs

end Codewright.Php
