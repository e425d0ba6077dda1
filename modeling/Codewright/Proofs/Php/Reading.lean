import Mathlib.Logic.Relation
import Codewright.Php.Grammar.Stream
import Codewright.Proofs.Php.Spelling

/-!
# What readers do

Three ways to speak of a reader on a stream, each with a rule for every way to build readers.

* `Reads p fs x rest` – in front of the tokens `fs ++ rest` the reader succeeds: it gives `x` and leaves `rest`;
* `Fails p fs` – in front of the tokens `fs` the reader fails;
* `Yields s p Q` – if the reader succeeds from `s`, the value and the stream it leaves satisfy `Q`; `Gives p Q` – the
  values do, wherever it starts;
* `Parse.Round` – one round of `refine`; `refine_of_rounds`, `Yields.refine`: what its rounds together do.
-/

namespace Codewright.Php

open Source

variable {α β : Type}

/-- The face of an identifier with this text, in any spelling of its letters. -/
def Face.isKeyword (f : Face) (word : String) : Bool := f.1 == .ident && Text.asciiLower f.2 == word

namespace Stream

/-- The faces of the unread tokens. -/
def faces (s : Stream) : List Face := s.tokens.map Token.face

theorem length_faces (s : Stream) : s.faces.length = s.unread := by
  simp [faces, s.unread_eq]

variable {s : Stream} {f : Face} {fs : List Face}

theorem face_peek (h : s.faces = f :: fs) : s.peek.face = f := by
  obtain ⟨t, ts, tokens, rfl, -⟩ := List.map_eq_cons_iff.1 h
  simp [peek, peekAt, tokens]

theorem kind_eq (h : s.faces = f :: fs) : s.kind = f.1 := by
  rw [← face_peek h]
  rfl

theorem at_eq (h : s.faces = f :: fs) (k : TokenKind) : s.at_ k = (f.1 == k) := by
  rw [at_, kind_eq h]

theorem atKeyword_eq (h : s.faces = f :: fs) (word : String) : s.atKeyword word = f.isKeyword word := by
  rw [← face_peek h]
  rfl

/-- The token behind the next one. -/
theorem face_peekAt_one {f' : Face} (h : s.faces = f :: f' :: fs) : (s.peekAt 1).face = f' := by
  obtain ⟨t, ts, tokens, -, left⟩ := List.map_eq_cons_iff.1 h
  obtain ⟨u, us, rfl, rfl, -⟩ := List.map_eq_cons_iff.1 left
  simp [peekAt, tokens]

theorem hasAt_one_eq {f' : Face} (h : s.faces = f :: f' :: fs) (k : TokenKind) : s.hasAt 1 k = (f'.1 == k) := by
  rw [← face_peekAt_one h]
  rfl

theorem keywordAt_one_eq {f' : Face} (h : s.faces = f :: f' :: fs) (word : String) :
    s.keywordAt 1 word = f'.isKeyword word := by
  rw [← face_peekAt_one h]
  rfl

end Stream

/-- Looking at the stream leaves it as it is. -/
theorem Parse.get_bind_apply (f : Stream → Parse α) (s : Stream) : (get >>= f : Parse α) s = f s s := rfl

/-- A token other than the last is read and left behind. -/
theorem Parse.advance_eq {s : Stream} {k : TokenKind} {text : String} {fs : List Face} (more : k ≠ .eof)
    (h : s.faces = (k, text) :: fs) : ∃ t s', Parse.advance s = .ok (t, s') ∧ t.text = text ∧ s'.faces = fs := by
  obtain ⟨tokens, eof, lastEnd, pending, unread, unread_eq⟩ := s
  obtain ⟨t, ts, rfl, face, left⟩ := List.map_eq_cons_iff.1 h
  have not_eof : t.isEof = false := by
    have : t.kind = k := congrArg Prod.fst face
    simp [Token.isEof, this, more]
  have same : t.bare.text = text := congrArg Prod.snd face
  refine ⟨t.bare, ⟨ts, eof, t.span.stop, pending ++ t.allComments, unread - 1, by simp [unread_eq]⟩, ?_, same, left⟩
  simp only [Parse.advance, not_eof, Bool.false_eq_true, if_false]

/-! ## Readers that succeed -/

/-- In front of the tokens `fs ++ rest`, the reader reads `fs` and gives `x`. -/
def Reads (p : Parse α) (fs : List Face) (x : α) (rest : List Face) : Prop :=
  ∀ s, s.faces = fs ++ rest → ∃ s', p s = .ok (x, s') ∧ s'.faces = rest

namespace Reads

variable {p : Parse α} {f : α → Parse β} {fs gs rest : List Face} {x : α} {y : β}

theorem pure (x : α) (rest : List Face) : Reads (pure x) [] x rest := by
  intro s hs
  exact ⟨s, rfl, hs⟩

theorem bind (hp : Reads p fs x (gs ++ rest)) (hf : Reads (f x) gs y rest) : Reads (p >>= f) (fs ++ gs) y rest := by
  intro s hs
  rw [List.append_assoc] at hs
  obtain ⟨s₁, read, left⟩ := hp s hs
  obtain ⟨s₂, read', left'⟩ := hf s₁ left
  refine ⟨s₂, ?_, left'⟩
  change (p s).bind (fun r => f r.1 r.2) = _
  rw [read]
  exact read'

/-- The second reader reads nothing. -/
theorem bind_nil (hp : Reads p fs x rest) (hf : Reads (f x) [] y rest) : Reads (p >>= f) fs y rest := by
  have both : Reads (p >>= f) (fs ++ []) y rest := bind hp hf
  rwa [List.append_nil] at both

theorem map (hp : Reads p fs x rest) (g : α → β) : Reads (p >>= fun x => Pure.pure (g x)) fs (g x) rest :=
  bind_nil (f := fun x => Pure.pure (g x)) hp (Reads.pure (g x) rest)

theorem get_bind {f : Stream → Parse α} (h : ∀ s, s.faces = fs ++ rest → Reads (f s) fs x rest) :
    Reads (get >>= f) fs x rest := by
  intro s hs
  exact h s hs s hs

/-- Reading a token other than the last. -/
theorem advance_bind {g : Token → Parse α} {k : TokenKind} {text : String} (more : k ≠ .eof)
    (h : ∀ t : Token, t.text = text → Reads (g t) fs x rest) :
    Reads (Parse.advance >>= g) ((k, text) :: fs) x rest := by
  intro s hs
  obtain ⟨t, s₁, advanced, same, left⟩ := Parse.advance_eq more hs
  obtain ⟨s', read, left'⟩ := h t same s₁ left
  refine ⟨s', ?_, left'⟩
  change (Parse.advance s).bind (fun r => g r.1 r.2) = _
  rw [advanced]
  exact read

theorem expect_bind {g : Token → Parse α} {k : TokenKind} {text : String} (more : k ≠ .eof)
    (h : ∀ t : Token, t.text = text → Reads (g t) fs x rest) :
    Reads (Parse.expect k >>= g) ((k, text) :: fs) x rest := by
  intro s hs
  have here : s.at_ k = true := by simp [Stream.at_eq hs]
  have same : Parse.expect k s = Parse.advance s := by
    change (if s.at_ k then Parse.advance else Parse.failExpected k.name) s = _
    rw [if_pos here]
  obtain ⟨s', read, left⟩ := advance_bind more h s hs
  refine ⟨s', ?_, left⟩
  change (Parse.expect k s).bind (fun r => g r.1 r.2) = _
  rw [same]
  exact read

/-- The token at the end stays. -/
theorem expect_eof_bind {g : Token → Parse α} {text : String}
    (h : ∀ t, Reads (g t) [] x ((.eof, text) :: rest)) :
    Reads (Parse.expect .eof >>= g) [] x ((.eof, text) :: rest) := by
  intro s hs
  have here : s.at_ .eof = true := by simp [Stream.at_eq hs]
  have same : Parse.expect .eof s = Parse.advance s := by
    change (if s.at_ .eof then Parse.advance else Parse.failExpected _) s = _
    rw [if_pos here]
  obtain ⟨tokens, eof, lastEnd, pending, unread, unread_eq⟩ := s
  obtain ⟨t, ts, rfl, face, left⟩ := List.map_eq_cons_iff.1 hs
  have is_eof : t.isEof = true := by
    have : t.kind = .eof := congrArg Prod.fst face
    simp [Token.isEof, this]
  obtain ⟨s₁, read, left'⟩ :=
    h t.bare ⟨t.bare :: ts, eof, lastEnd, pending ++ t.allComments, unread, by simp [unread_eq]⟩
    (by simpa [Stream.faces, Token.bare, Token.face] using hs)
  refine ⟨s₁, ?_, left'⟩
  change (Parse.expect .eof _).bind (fun r => g r.1 r.2) = _
  rw [same]
  simp only [Parse.advance, is_eof, if_true]
  exact read

theorem tryToken_bind_of_ne {g : Bool → Parse α} {f : Face} {k : TokenKind} (other : f.1 ≠ k)
    (h : Reads (g false) [] x (f :: rest)) : Reads (Parse.tryToken k >>= g) [] x (f :: rest) := by
  intro s hs
  have not_here : s.at_ k = false := by simp [Stream.at_eq hs, other]
  have same : Parse.tryToken k s = .ok (false, s) := by
    rw [Parse.tryToken, Parse.get_bind_apply, not_here]
    rfl
  obtain ⟨s', read, left⟩ := h s hs
  refine ⟨s', ?_, left⟩
  change (Parse.tryToken k s).bind (fun r => g r.1 r.2) = _
  rw [same]
  exact read

theorem collectUpTo_stop {step : Parse (List α × Bool)} {xs : List α} (h : Reads step fs (xs, false) rest) (n : Nat) :
    Reads (Parse.collectUpTo step (n + 1)) fs xs rest :=
  bind_nil (f := fun r : List α × Bool =>
    if r.2 then do return r.1 ++ (← Parse.collectUpTo step n) else Pure.pure r.1) h (Reads.pure xs rest)

theorem collectUpTo_more {step : Parse (List α × Bool)} {xs ys : List α} {n : Nat}
    (h : Reads step fs (xs, true) (gs ++ rest)) (tail : Reads (Parse.collectUpTo step n) gs ys rest) :
    Reads (Parse.collectUpTo step (n + 1)) (fs ++ gs) (xs ++ ys) rest :=
  bind (f := fun r : List α × Bool =>
    if r.2 then do return r.1 ++ (← Parse.collectUpTo step n) else Pure.pure r.1) h (tail.map (xs ++ ·))

/-- Tokens of the kinds are passed over, up to the first one of another kind. -/
theorem skipAll {kinds : List TokenKind} {f : Face} (skipped : ∀ f ∈ fs, f.1 ∈ kinds ∧ f.1 ≠ .eof)
    (other : f.1 ∉ kinds) : Reads (Parse.skipAll kinds) fs () (f :: rest) := by
  intro s hs
  have loop : ∀ n, fs.length < n → Reads (Parse.collectUpTo (α := Unit) (do
      if kinds.contains (← get).kind then
        let _ ← Parse.advance
        return ([], true)
      else return ([], false)) n) fs [] (f :: rest) := by
    clear hs
    induction fs with
    | nil =>
      intro n enough
      obtain ⟨n, rfl⟩ : ∃ m, n = m + 1 := ⟨n - 1, by omega⟩
      refine collectUpTo_stop (Reads.get_bind fun s hs => ?_) n
      rw [Stream.kind_eq hs, if_neg (by simpa using other)]
      exact Reads.pure _ _
    | cons f' fs ih =>
      intro n enough
      obtain ⟨n, rfl⟩ : ∃ m, n = m + 1 := ⟨n - 1, by omega⟩
      obtain ⟨kind, more⟩ := skipped f' (by simp)
      have tail := ih (fun f hf => skipped f (by simp [hf])) n (by simpa using enough)
      have round : Reads (do
          if kinds.contains (← get).kind then
            let _ ← Parse.advance
            return ([], true)
          else return ([], false)) [f'] (([] : List Unit), true) (fs ++ f :: rest) := by
        refine Reads.get_bind fun s hs => ?_
        rw [Stream.kind_eq hs, if_pos (by simpa using kind)]
        exact Reads.advance_bind more fun _ _ => Reads.pure _ _
      exact collectUpTo_more round tail
  obtain ⟨s', read, left⟩ := loop (s.unread + 1) (by rw [← Stream.length_faces, hs, List.length_append]; omega) s hs
  refine ⟨s', ?_, left⟩
  change (Parse.collectUpTo _ (s.unread + 1) s).bind (fun r => .ok ((), r.2)) = _
  rw [read]
  rfl

end Reads

/-! ## Readers that fail -/

/-- In front of the tokens, the reader fails. -/
def Fails (p : Parse α) (fs : List Face) : Prop := ∀ s, s.faces = fs → ∃ error, p s = .error error

namespace Fails

variable {p : Parse α} {f : α → Parse β} {fs rest : List Face} {x : α}

theorem failExpected (expected : String) (fs : List Face) : Fails (Parse.failExpected (α := α) expected) fs :=
  fun _ _ => ⟨_, rfl⟩

theorem failWith (cause : SyntaxError.Cause) (fs : List Face) : Fails (Parse.failWith (α := α) cause) fs :=
  fun _ _ => ⟨_, rfl⟩

theorem bind (h : Fails p fs) : Fails (p >>= f) fs := by
  intro s hs
  obtain ⟨error, failed⟩ := h s hs
  refine ⟨error, ?_⟩
  change (p s).bind (fun r => f r.1 r.2) = _
  rw [failed]
  rfl

/-- The second reader fails. -/
theorem bind_of_reads (hp : Reads p fs x rest) (h : Fails (f x) rest) : Fails (p >>= f) (fs ++ rest) := by
  intro s hs
  obtain ⟨s₁, read, left⟩ := hp s hs
  obtain ⟨error, failed⟩ := h s₁ left
  refine ⟨error, ?_⟩
  change (p s).bind (fun r => f r.1 r.2) = _
  rw [read]
  exact failed

theorem get_bind {f : Stream → Parse α} (h : ∀ s, s.faces = fs → Fails (f s) fs) : Fails (get >>= f) fs := by
  intro s hs
  exact h s hs s hs

theorem advance_bind {g : Token → Parse α} {k : TokenKind} {text : String} (more : k ≠ .eof)
    (h : ∀ t, Fails (g t) rest) : Fails (Parse.advance >>= g) ((k, text) :: rest) := by
  intro s hs
  obtain ⟨t, s₁, advanced, -, left⟩ := Parse.advance_eq more hs
  obtain ⟨error, failed⟩ := h t s₁ left
  refine ⟨error, ?_⟩
  change (Parse.advance s).bind (fun r => g r.1 r.2) = _
  rw [advanced]
  exact failed

end Fails

/-! ## Readers that may fail -/

/-- If the reader succeeds from `s`, what it gives and leaves satisfies `Q`. -/
def Yields (s : Stream) (p : Parse α) (Q : α → Stream → Prop) : Prop := ∀ x s', p s = .ok (x, s') → Q x s'

namespace Yields

variable {s : Stream} {p : Parse α} {f : α → Parse β} {Q : α → Stream → Prop} {R : β → Stream → Prop}

theorem pure {x : α} (h : Q x s) : Yields s (pure x) Q := by
  intro y s' e
  cases e
  exact h

theorem bind (hp : Yields s p fun x s₁ => Yields s₁ (f x) R) : Yields s (p >>= f) R := by
  intro y s' e
  change (p s).bind (fun r => f r.1 r.2) = _ at e
  cases result : p s with
  | error _ =>
    rw [result] at e
    cases e
  | ok r =>
    rw [result] at e
    exact hp r.1 r.2 result y s' e

theorem get_bind {f : Stream → Parse β} (h : Yields s (f s) R) : Yields s (get >>= f) R := h

/-- Whatever the first reader does, the second one yields what is wanted. -/
theorem bind_any (h : ∀ x s₁, Yields s₁ (f x) R) : Yields s (p >>= f) R :=
  bind fun x s₁ _ => h x s₁

theorem mono {Q' : α → Stream → Prop} (h : Yields s p Q) (imp : ∀ x s', Q x s' → Q' x s') : Yields s p Q' := by
  intro x s' e
  exact imp x s' (h x s' e)

theorem ite {c : Prop} [Decidable c] {q : Parse α} (h : c → Yields s p Q) (h' : ¬c → Yields s q Q) :
    Yields s (if c then p else q) Q := by
  split
  next holds => exact h holds
  next fails => exact h' fails

theorem failExpected (expected : String) : Yields s (Parse.failExpected expected) Q := by
  intro x s' e
  cases e

theorem failWith (cause : SyntaxError.Cause) : Yields s (Parse.failWith cause) Q := by
  intro x s' e
  cases e

end Yields

/-- Whatever the stream, what the reader gives satisfies `Q`. -/
def Gives (p : Parse α) (Q : α → Prop) : Prop := ∀ s, Yields s p fun x _ => Q x

namespace Gives

variable {p : Parse α} {f : α → Parse β} {P : α → Prop} {Q : β → Prop}

theorem pure {y : β} (h : Q y) : Gives (pure y) Q := fun _ => .pure h

theorem bind (h : ∀ x, Gives (f x) Q) : Gives (p >>= f) Q := fun _ => .bind_any fun x s₁ => h x s₁

theorem bind_of (hp : Gives p P) (h : ∀ x, P x → Gives (f x) Q) : Gives (p >>= f) Q :=
  fun s => .bind ((hp s).mono fun x s₁ hx => h x hx s₁)

theorem mono {P' : α → Prop} (h : Gives p P) (imp : ∀ x, P x → P' x) : Gives p P' :=
  fun s => (h s).mono fun x _ => imp x

theorem ite {c : Prop} [Decidable c] {q q' : Parse β} (h : Gives q Q) (h' : Gives q' Q) :
    Gives (if c then q else q') Q := by
  split
  · exact h
  · exact h'

theorem failExpected (expected : String) : Gives (Parse.failExpected expected) Q := fun _ => .failExpected expected

end Gives

/-! ## Loops -/

namespace Parse

/-- One round of `refine`: the value is replaced. -/
def Round (step : α → Parse (Option α)) (a b : α × Stream) : Prop := step a.1 a.2 = .ok (some b.1, b.2)

/-- A round that reads a token. -/
def ReadingRound (step : α → Parse (Option α)) (a b : α × Stream) : Prop :=
  Round step a b ∧ b.2.unread < a.2.unread

variable {step : α → Parse (Option α)}

theorem refineUpTo_of_rounds {a b : α × Stream} {s' : Stream} (rounds : Relation.ReflTransGen (ReadingRound step) a b)
    (last : step b.1 b.2 = .ok (none, s')) {n : Nat} (enough : a.2.unread < n) :
    refineUpTo step n a.1 a.2 = .ok (b.1, s') := by
  induction rounds using Relation.ReflTransGen.head_induction_on generalizing n with
  | refl =>
    obtain ⟨n, rfl⟩ : ∃ m, n = m + 1 := ⟨n - 1, by omega⟩
    change (step b.1 b.2).bind _ = _
    rw [last]
    rfl
  | @head a c round _ ih =>
    obtain ⟨n, rfl⟩ : ∃ m, n = m + 1 := ⟨n - 1, by omega⟩
    obtain ⟨round, shorter⟩ := round
    change (step a.1 a.2).bind _ = _
    rw [round]
    exact ih (by omega)

/-- Rounds that each read a token, until there is nothing to replace, are what `refine` does. -/
theorem refine_of_rounds {x y : α} {s s₁ s' : Stream}
    (rounds : Relation.ReflTransGen (ReadingRound step) (x, s) (y, s₁)) (last : step y s₁ = .ok (none, s')) :
    refine step x s = .ok (y, s') :=
  refineUpTo_of_rounds rounds last (Nat.lt_succ_self s.unread)

end Parse

/-- What holds after a round of `refine` from `x`: `I` of the new value, or `Q` if there is none. -/
def AfterRound (I Q : α → Stream → Prop) (x : α) : Option α → Stream → Prop
  | some y, s => I y s
  | none, s => Q x s

/-- A property of value and stream that every round keeps holds when `refine` is done. -/
theorem Yields.refine {step : α → Parse (Option α)} {I Q : α → Stream → Prop} {x : α} {s : Stream} (start : I x s)
    (round : ∀ x s, I x s → Yields s (step x) (AfterRound I Q x)) : Yields s (Parse.refine step x) Q := by
  have bounded : ∀ n x s, I x s → Yields s (Parse.refineUpTo step n x) Q := by
    intro n
    induction n with
    | zero => exact fun x s _ => failWith _
    | succ n ih =>
      intro x s inv
      refine bind ((round x s inv).mono ?_)
      intro result s₁ kept
      cases result with
      | none => exact pure kept
      | some y => exact ih y s₁ kept
  exact bounded _ x s start

end Codewright.Php
