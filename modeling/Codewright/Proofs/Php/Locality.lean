import Codewright.Proofs.Php.Fork
import Codewright.Proofs.Php.Reading

/-!
# Readers see only what they read

A reader that stays in what two streams have in common does the same on both.

* `Local w after before p p'` – if `p` succeeds and leaves common tokens, then there were common tokens before, and `p'` gives the
  same or fails for want of depth; the numbers say how many tokens these are at least;
* `Fork.Follows` – what `p'` does then;
* `Local.bind`, `Local.collect`, … – a rule for every way to build readers.

Three kinds of readers occur. One that looks at the token behind what it reads needs a common token after it and in front of it
(`Inner`). One that ends with a token of its own needs none after it. One that reads what may stand behind a statement needs none
at all.
-/

namespace Codewright.Php

variable {α β : Type}

/-- The reader fails for want of depth. -/
def FailsDeep (p : Parse α) (s : Stream) : Prop := ∃ e, p s = .error e ∧ e.cause = .tooDeep

theorem Parse.exists_of_bind_eq_ok {p : Parse α} {f : α → Parse β} {s t : Stream} {y : β} (h : (p >>= f) s = .ok (y, t)) :
    ∃ x s₁, p s = .ok (x, s₁) ∧ f x s₁ = .ok (y, t) := by
  change (p s).bind (fun r => f r.1 r.2) = _ at h
  cases first : p s with
  | error e =>
    rw [first] at h
    cases h
  | ok r =>
    rw [first] at h
    exact ⟨r.1, r.2, rfl, h⟩

theorem Parse.bind_eq {p : Parse α} {s s₁ : Stream} {x : α} (h : p s = .ok (x, s₁)) (f : α → Parse β) :
    (p >>= f) s = f x s₁ := by
  change (p s).bind (fun r => f r.1 r.2) = _
  rw [h]
  rfl

theorem FailsDeep.bind {p : Parse α} {s : Stream} (h : FailsDeep p s) (f : α → Parse β) : FailsDeep (p >>= f) s := by
  obtain ⟨e, failed, deep⟩ := h
  refine ⟨e, ?_, deep⟩
  change (p s).bind (fun r => f r.1 r.2) = _
  rw [failed]
  rfl

/-- From `s'`, the reader gives `x` and leaves a stream beside `t`, unless it fails for want of depth. -/
def Fork.Follows (w : Fork) (p' : Parse α) (s' : Stream) (x : α) (t : Stream) : Prop :=
  FailsDeep p' s' ∨ ∃ t', p' s' = .ok (x, t') ∧ w.Beside t t'

namespace Fork.Follows

variable {w : Fork} {p' : Parse α} {f' : α → Parse β} {s' t v : Stream} {x : α} {y : β}

theorem done {t' : Stream} (beside : w.Beside t t') : w.Follows (pure x) t' x t := .inr ⟨t', rfl, beside⟩

theorem bind (h : w.Follows p' s' x t) (hf : ∀ t', w.Beside t t' → w.Follows (f' x) t' y v) : w.Follows (p' >>= f') s' y v := by
  rcases h with deep | ⟨t', read, beside⟩
  · exact .inl (deep.bind f')
  · have run := Parse.bind_eq read f'
    rcases hf t' beside with ⟨e, failed, deep⟩ | ⟨v', read', beside'⟩
    · exact .inl ⟨e, run.trans failed, deep⟩
    · exact .inr ⟨v', run.trans read', beside'⟩

end Fork.Follows

/-- If `p` gives `x` and leaves as many tokens as the fork has, and `after x` more, then there were `before` more of them; and if
the streams have the fork, `p'` gives `x` too and leaves streams with the fork, unless it fails for want of depth. -/
def LocalAt (w : Fork) (after : α → Nat) (before : Nat) (s s' : Stream) (p p' : Parse α) : Prop :=
  ∀ x t, p s = .ok (x, t) → w.Within (after x) t → w.Within before s ∧ (w.Beside s s' → w.Follows p' s' x t)

/-- From all streams. -/
def Local (w : Fork) (after : α → Nat) (before : Nat) (p p' : Parse α) : Prop := ∀ s s', LocalAt w after before s s' p p'

/-- A reader in front of common tokens, which may look at the token behind those that it reads. -/
abbrev Inner (w : Fork) (p p' : Parse α) : Prop := Local w (fun _ => 1) 1 p p'

namespace LocalAt

variable {w : Fork} {s s' : Stream} {p p' : Parse α} {f f' : α → Parse β} {after : α → Nat} {after' : β → Nat} {before n : Nat}

theorem pure {x : α} (le : before ≤ after x) : LocalAt w after before s s' (pure x) (Pure.pure x) := by
  intro y t given within
  cases given
  exact ⟨within.mono le, .done⟩

theorem failExpected {expected : String} {q : Parse α} : LocalAt w after before s s' (Parse.failExpected expected) q := by
  intro x t given
  cases given

theorem failWith {cause : SyntaxError.Cause} {q : Parse α} : LocalAt w after before s s' (Parse.failWith cause) q := by
  intro x t given
  cases given

theorem bind (hp : LocalAt w after before s s' p p') (hf : ∀ x, Local w after' (after x) (f x) (f' x)) :
    LocalAt w after' before s s' (p >>= f) (p' >>= f') := by
  intro y t given within
  obtain ⟨x, s₁, first, second⟩ := Parse.exists_of_bind_eq_ok given
  -- The second reader tells that enough common tokens are left for it.
  have left : w.Within (after x) s₁ := (hf x s₁ s₁ y t second within).1
  obtain ⟨enough, follows⟩ := hp x s₁ first left
  exact ⟨enough, fun beside => (follows beside).bind fun s₁' => (hf x s₁ s₁' y t second within).2⟩

theorem mono {after₁ : α → Nat} {before₁ : Nat} (h : LocalAt w after before s s' p p') (more : ∀ x, after x ≤ after₁ x)
    (less : before₁ ≤ before) : LocalAt w after₁ before₁ s s' p p' := by
  intro x t given within
  obtain ⟨enough, alike⟩ := h x t given (within.mono (more x))
  exact ⟨enough.mono less, alike⟩

/-- Where the second reader fails for want of depth, there is nothing more to say. -/
theorem of_failsDeep {q : Parse α} (h : LocalAt w after before s s' p q) (deep : FailsDeep p' s') :
    LocalAt w after before s s' p p' :=
  fun x t given within => ⟨(h x t given within).1, fun _ => .inl deep⟩

theorem ite {c : Prop} [Decidable c] {q q' : Parse α} (h : c → LocalAt w after before s s' p p')
    (h' : ¬c → LocalAt w after before s s' q q') :
    LocalAt w after before s s' (if c then p else q) (if c then p' else q') := by
  by_cases hc : c
  · rw [if_pos hc, if_pos hc]
    exact h hc
  · rw [if_neg hc, if_neg hc]
    exact h' hc

theorem get_bind {f f' : Stream → Parse β} (h : LocalAt w after' before s s' (f s) (f' s')) :
    LocalAt w after' before s s' (get >>= f) (get >>= f') := h

/-- What is learned from looking at the streams is the same. -/
theorem look_beside {f f' : Stream → Parse β} (same : w.Beside s s' → f' s' = f' s)
    (h : LocalAt w after' before s s' (f s) (f' s)) : LocalAt w after' before s s' (get >>= f) (get >>= f') := by
  intro x t given within
  obtain ⟨enough, alike⟩ := h x t given within
  refine ⟨enough, fun beside => ?_⟩
  change w.Follows (f' s') s' x t
  rw [same beside]
  exact alike beside

/-- What is learned from looking at the streams in front of a common token is the same. -/
theorem look {f f' : Stream → Parse β} (same : w.Alike s s' → f' s' = f' s) (h : LocalAt w after' 1 s s' (f s) (f' s)) :
    LocalAt w after' 1 s s' (get >>= f) (get >>= f') := by
  intro x t given within
  obtain ⟨enough, alike⟩ := h x t given within
  refine ⟨enough, fun beside => ?_⟩
  change w.Follows (f' s') s' x t
  rw [same ⟨beside, enough⟩]
  exact alike beside

end LocalAt

/-! ### Single tokens -/

/-- The first token may be replaced by one of its kind. -/
theorem looksAhead_last {t u : Token} {ts : List Token} (last : ∀ v ∈ (t :: ts).getLast?, v.kind.looksAhead = false)
    (same : u.kind = t.kind) : ∀ v ∈ (u :: ts).getLast?, v.kind.looksAhead = false := by
  cases ts with
  | nil =>
    intro v hv
    obtain rfl : u = v := by simpa using hv
    rw [same]
    exact last t rfl
  | cons t' ts => simpa using last

/-- What reading a token does. -/
theorem Parse.advance_cons {s : Stream} {t : Token} {rest : List Token} (tokens : s.tokens = t :: rest) :
    ∃ s₁, Parse.advance s = .ok (t.bare, s₁) ∧ s₁.pending = s.pending ++ t.allComments ∧
      s₁.tokens = (if t.isEof then t.bare :: rest else rest) ∧ s₁.lastEnd = (if t.isEof then s.lastEnd else t.span.stop) ∧
      s₁.eof = s.eof := by
  obtain ⟨_, eof, lastEnd, pending, unread, unread_eq⟩ := s
  subst tokens
  simp only [Parse.advance]
  split
  · exact ⟨_, rfl, rfl, rfl, rfl, rfl⟩
  · exact ⟨_, rfl, rfl, rfl, rfl, rfl⟩

theorem Parse.advance_of_tokens {s : Stream} {t : Token} {rest : List Token} (tokens : s.tokens = t :: rest) (more : t.kind ≠ .eof) :
    ∃ s₁, Parse.advance s = .ok (t.bare, s₁) ∧ s₁.tokens = rest ∧ s₁.pending = s.pending ++ t.allComments ∧
      s₁.lastEnd = t.span.stop ∧ s₁.eof = s.eof := by
  obtain ⟨s₁, read, pending, left, stop, eof⟩ := advance_cons tokens
  have other : t.isEof = false := by rw [Token.isEof, beq_eq_false_iff_ne]; exact more
  rw [other, if_neg Bool.false_ne_true] at left stop
  exact ⟨s₁, read, left, pending, stop, eof⟩

/-- A token other than the last is the first of those that were left. -/
theorem Parse.first_of_advance {s t : Stream} {x : Token} (closed : s.eof.kind = .eof) (more : s.kind ≠ .eof)
    (read : Parse.advance s = .ok (x, t)) : ∃ u, s.tokens = u :: t.tokens ∧ u.kind = s.kind ∧ t.eof = s.eof := by
  cases tokens : s.tokens with
  | nil =>
    have here : s.kind = s.eof.kind := by simp [Stream.kind, Stream.peek, Stream.peekAt, tokens]
    exact absurd (here.trans closed) more
  | cons u rest =>
    have here : s.kind = u.kind := Stream.kind_of_tokens tokens
    obtain ⟨s₁, read', left, -, -, eof⟩ := advance_of_tokens tokens (here ▸ more)
    obtain ⟨rfl, rfl⟩ : u.bare = x ∧ s₁ = t := by simpa [read'] using read
    exact ⟨u, by rw [left], here.symm, eof⟩

/-- What is read is the first token, if any is left. -/
theorem Parse.tokens_of_advance {s t : Stream} {x : Token} (given : Parse.advance s = .ok (x, t)) (some_left : t.unread ≠ 0) :
    ∃ u rest, s.tokens = u :: rest ∧ t.tokens = if u.isEof then u.bare :: rest else rest := by
  obtain ⟨tokens, eof, lastEnd, pending, unread, unread_eq⟩ := s
  cases tokens with
  | nil =>
    cases given
    exact absurd unread_eq some_left
  | cons u rest =>
    obtain ⟨s₁, read, -, left, -⟩ := Parse.advance_cons (s := ⟨u :: rest, eof, lastEnd, pending, unread, unread_eq⟩) rfl
    obtain ⟨-, rfl⟩ : _ = x ∧ s₁ = t := by simpa [read] using given
    exact ⟨u, rest, rfl, left⟩

namespace LocalAt

variable {w : Fork} {s s' : Stream} {n : Nat}

/-- From streams with a fork, a common token is read. -/
theorem advance_beside (beside : w.Beside s s') {x : Token} {t : Stream} (given : Parse.advance s = .ok (x, t))
    (within : w.Within n t) : ∃ t', Parse.advance s' = .ok (x, t') ∧ w.Beside t t' := by
  obtain ⟨common, mark, mark', tokens, tokens', bare, bare', doc, comments, last⟩ := beside.tokens
  cases common with
  | nil =>
    obtain ⟨s₁, read, -, left, -⟩ := Parse.advance_cons tokens
    obtain ⟨-, rfl⟩ : _ = x ∧ s₁ = t := by simpa [read] using given
    -- The mark is not the end, so it would have been read.
    have more : mark.isEof = false := by
      have kind := (w.isMark.of_bare bare).kind
      rw [Token.isEof, beq_eq_false_iff_ne]
      rintro eof
      exact kind (by simp [eof])
    have enough := within.enough
    rw [s₁.unread_eq, left, more] at enough
    simp at enough
    omega
  | cons u common =>
    obtain ⟨s₁, read, pending, left, stop, -⟩ := Parse.advance_cons tokens
    obtain ⟨s₁', read', pending', left', stop', -⟩ := Parse.advance_cons tokens'
    obtain ⟨rfl, rfl⟩ : _ = x ∧ s₁ = t := by simpa [read] using given
    refine ⟨s₁', read', ?_, by rw [pending, pending', beside.pending], by rw [stop, stop', beside.lastEnd]⟩
    cases eof : u.isEof with
    | true =>
      rw [eof] at left left'
      exact ⟨u.bare :: common, mark, mark', left, left', bare, bare', doc, comments, looksAhead_last last rfl⟩
    | false =>
      rw [eof] at left left'
      refine ⟨common, mark, mark', left, left', bare, bare', doc, comments, ?_⟩
      intro v hv
      exact last v (by rw [List.getLast?_cons, Option.mem_def.1 hv]; rfl)

/-- A token is read, or the token at the end is seen again. -/
theorem advance : LocalAt w (fun _ => n) n s s' Parse.advance Parse.advance := by
  intro x t given within
  refine ⟨?_, fun beside => .inr (advance_beside beside given within)⟩
  have enough : w.rest.length + 1 + n ≤ t.unread := within.enough
  obtain ⟨u, rest, tokens, left⟩ := Parse.tokens_of_advance given (by omega)
  have back : t.bares <:+ s.bares := by
    rw [Stream.bares, Stream.bares, left, tokens]
    split
    · exact List.suffix_refl _
    · exact List.suffix_cons _ _
  exact ⟨within.ahead.trans back, enough.trans (by rw [← s.length_bares, ← t.length_bares]; exact back.length_le)⟩

/-- A token other than the last is read. -/
theorem advance_of (more : s.kind ≠ .eof) : LocalAt w (fun _ => n) 1 s s' Parse.advance Parse.advance := by
  intro x t given within
  refine ⟨?_, fun beside => .inr (advance_beside beside given within)⟩
  have enough : w.rest.length + 1 + n ≤ t.unread := within.enough
  obtain ⟨u, rest, tokens, left⟩ := Parse.tokens_of_advance given (by omega)
  have here : s.kind = u.kind := Stream.kind_of_tokens tokens
  have other : u.isEof = false := by rw [Token.isEof, beq_eq_false_iff_ne, ← here]; exact more
  rw [other, if_neg Bool.false_ne_true] at left
  have ahead := within.ahead
  rw [Stream.bares, left] at ahead
  refine ⟨?_, ?_⟩
  · rw [Stream.bares, tokens]
    exact ahead.trans (List.suffix_cons _ _)
  · rw [t.unread_eq, left] at enough
    rw [s.unread_eq, tokens, List.length_cons]
    omega

end LocalAt

namespace Local

variable {w : Fork} {p p' : Parse α} {f f' : α → Parse β} {after : α → Nat} {after' : β → Nat} {before n : Nat}

theorem pure {x : α} (le : before ≤ after x) : Local w after before (pure x) (Pure.pure x) := fun _ _ => .pure le

theorem failExpected {expected : String} {q : Parse α} : Local w after before (Parse.failExpected expected) q :=
  fun _ _ => .failExpected

theorem failWith {cause : SyntaxError.Cause} {q : Parse α} : Local w after before (Parse.failWith cause) q :=
  fun _ _ => .failWith

/-- A reader that reads nothing needs behind it what it needs in front of it. -/
theorem done {x : α} : Local w (fun _ => n) n (Pure.pure x) (Pure.pure x) := pure (Nat.le_refl n)

theorem bind (hp : Local w after before p p') (hf : ∀ x, Local w after' (after x) (f x) (f' x)) :
    Local w after' before (p >>= f) (p' >>= f') :=
  fun s s' => (hp s s').bind hf

theorem pure_bind {x : α} (h : Local w after' before (f x) (f' x)) :
    Local w after' before (Pure.pure x >>= f) (Pure.pure x >>= f') := h

theorem mono {after₁ : α → Nat} {before₁ : Nat} (h : Local w after before p p') (more : ∀ x, after x ≤ after₁ x)
    (less : before₁ ≤ before) : Local w after₁ before₁ p p' :=
  fun s s' => (h s s').mono more less

theorem of_failsDeep {q : Parse α} (h : Local w after before p q) (deep : ∀ s, FailsDeep p' s) : Local w after before p p' :=
  fun s s' => (h s s').of_failsDeep (deep s')

theorem ite {c : Prop} [Decidable c] {q q' : Parse α} (h : Local w after before p p') (h' : Local w after before q q') :
    Local w after before (if c then p else q) (if c then p' else q') :=
  fun s s' => .ite (fun _ => h s s') fun _ => h' s s'

theorem get_bind {f f' : Stream → Parse β} (h : ∀ s s', LocalAt w after' before s s' (f s) (f' s')) :
    Local w after' before (get >>= f) (get >>= f') :=
  fun s s' => .get_bind (h s s')

theorem look {f f' : Stream → Parse β} (same : ∀ s s', w.Alike s s' → f' s' = f' s)
    (h : ∀ s, Local w after' 1 (f s) (f' s)) : Local w after' 1 (get >>= f) (get >>= f') :=
  fun s s' => .look (same s s') (h s s s')

theorem look_beside {f f' : Stream → Parse β} (same : ∀ s s', w.Beside s s' → f' s' = f' s)
    (h : ∀ s, Local w after' before (f s) (f' s)) : Local w after' before (get >>= f) (get >>= f') :=
  fun s s' => .look_beside (same s s') (h s s s')

theorem map {F : α → β} (hp : Local w (fun _ => n) before p p') : Local w (fun _ => n) before (F <$> p) (F <$> p') := by
  have run : Local w (fun _ => n) before (p >>= fun x => Pure.pure (F x)) (p' >>= fun x => Pure.pure (F x)) :=
    hp.bind fun _ => .pure (Nat.le_refl _)
  exact run

/-! ### Single tokens -/

theorem advance : Local w (fun _ => n) n Parse.advance Parse.advance := fun _ _ => .advance

theorem takeDoc : Local w (fun _ => n) n Parse.takeDoc Parse.takeDoc := by
  rintro ⟨tokens, eof, lastEnd, pending, unread, unread_eq⟩ ⟨tokens', eof', lastEnd', pending', unread', unread_eq'⟩ x t given
  refine fun within => ⟨?_, fun ⟨⟨common, mark, mark', left, left', bare, bare', doc, comments, last⟩, same, same'⟩ => .inr ?_⟩
  · cases tokens <;> cases given <;> exact ⟨within.ahead, within.enough⟩
  · dsimp only at left left'
    subst left left'
    cases common with
    | nil =>
      cases given
      exact ⟨_, congrArg Except.ok (Prod.ext doc rfl), ⟨[], _, _, rfl, rfl, bare, bare', rfl, comments, last⟩, same, same'⟩
    | cons u common =>
      cases given
      exact ⟨_, rfl, ⟨_ :: common, _, _, rfl, rfl, bare, bare', doc, comments, looksAhead_last last rfl⟩, same, same'⟩

theorem takeComments : Local w (fun _ => n) n Parse.takeComments Parse.takeComments := by
  rintro ⟨tokens, eof, lastEnd, pending, unread, unread_eq⟩ ⟨tokens', eof', lastEnd', pending', unread', unread_eq'⟩ x t given
  refine fun within => ⟨?_, fun ⟨⟨common, mark, mark', left, left', bare, bare', doc, comments, last⟩, same, same'⟩ => .inr ?_⟩
  · cases tokens <;> cases given <;> exact ⟨within.ahead, within.enough⟩
  · dsimp only at left left' same
    subst left left' same
    cases common with
    | nil =>
      cases given
      exact ⟨_, congrArg Except.ok (Prod.ext (congrArg (_ ++ ·) comments) rfl),
        ⟨[], _, _, rfl, rfl, bare, bare', doc, rfl, last⟩, rfl, same'⟩
    | cons u common =>
      cases given
      exact ⟨_, rfl, ⟨_ :: common, _, _, rfl, rfl, bare, bare', doc, comments, looksAhead_last last rfl⟩, rfl, same'⟩

/-! ### Tokens that must or may come -/

/-- A token other than the last is read, and something is made of it. -/
theorem advance_map_of {s s' : Stream} {F : Token → α} (more : s.kind ≠ .eof) :
    LocalAt w (fun _ => n) 1 s s' (do return F (← Parse.advance)) (do return F (← Parse.advance)) := by
  exact (LocalAt.advance_of more).bind fun _ => .pure (Nat.le_refl n)

theorem expect (k : TokenKind) (ne : k ≠ .eof) : Local w (fun _ => n) 1 (Parse.expect k) (Parse.expect k) := by
  refine fun s s' => .look (fun same => by rw [same.at_]) (.ite (fun here => ?_) fun _ => .failExpected)
  exact LocalAt.advance_of (Stream.kind_of_at here ▸ ne)

theorem expectKeyword {word : String} : Local w (fun _ => n) 1 (Parse.expectKeyword word) (Parse.expectKeyword word) := by
  refine fun s s' => .look (fun same => by rw [same.atKeyword]) (.ite (fun here => ?_) fun _ => .failExpected)
  have ident : s.kind = .ident := Token.kind_of_isKeyword here
  exact LocalAt.advance_of (ident ▸ nofun)

theorem expectIdent {what : String} : Local w (fun _ => n) 1 (Parse.expectIdent what) (Parse.expectIdent what) :=
  fun s s' => .look (fun same => by rw [same.at_]) <| .ite (fun here => advance_map_of (Stream.kind_of_at here ▸ nofun))
    fun _ => .failExpected

theorem expectVariable : Local w (fun _ => n) 1 Parse.expectVariable Parse.expectVariable :=
  fun s s' => .look (fun same => by rw [same.at_]) <| .ite (fun here => advance_map_of (Stream.kind_of_at here ▸ nofun))
    fun _ => .failExpected

theorem tryToken {k : TokenKind} : Inner w (Parse.tryToken k) (Parse.tryToken k) :=
  .look (fun s s' same => by rw [same.at_]) fun s => .ite (advance.bind fun _ => .done) (.done)

theorem tryKeyword {word : String} : Inner w (Parse.tryKeyword word) (Parse.tryKeyword word) :=
  .look (fun s s' same => by rw [same.atKeyword]) fun s =>
    .ite (advance.bind fun _ => .done) (.done)

/-- A token that may end what is read: if it comes, nothing needs to be left behind it. -/
theorem tryToken_last {k : TokenKind} (ne : k ≠ .eof) :
    Local w (fun ended => if ended then n else 1) 1 (Parse.tryToken k) (Parse.tryToken k) := by
  refine fun s s' => .look (fun same => by rw [same.at_]) (.ite (fun here => ?_) fun _ => .pure (Nat.le_refl 1))
  exact (LocalAt.advance_of (n := n) (Stream.kind_of_at here ▸ ne)).bind fun _ => .pure (Nat.le_refl n)

/-- The keyword of a clause that may stand behind a statement. -/
theorem tryClause {word : String} (clause : word ∈ clauseWords) :
    Local w (fun _ => n) n (Parse.tryKeyword word) (Parse.tryKeyword word) :=
  .look_beside (fun s s' same => by rw [same.atClause clause]) fun s =>
    .ite (advance.bind fun _ => .done) (.done)

theorem expectSemicolon : Local w (fun _ => n) 1 Parse.expectSemicolon Parse.expectSemicolon := by
  have closeTag : Local w (fun _ => n) 1 (do if (← get).at_ .closeTag then return () else Parse.failExpected "';'")
      (do if (← get).at_ .closeTag then return () else Parse.failExpected "';'") := by
    refine fun s s' => .look (fun same => by rw [same.at_]) (.ite (fun here => ?_) fun _ => .failExpected)
    -- The mark is no closing tag.
    intro x t given within
    cases given
    have within : w.Within 0 s := within.mono (Nat.zero_le _)
    refine ⟨Classical.byContradiction fun last => ?_, fun beside => .inr ⟨s', rfl, beside⟩⟩
    have kind := w.isMark.kind
    rw [← within.kind_eq last, Stream.kind_of_at here] at kind
    exact kind (by decide)
  refine (tryToken_last (k := .semicolon) (n := n) nofun).bind fun ended => ?_
  cases ended with
  | true => exact .done
  | false => exact closeTag.mono (fun _ => Nat.le_refl _) (Nat.le_refl _)

/-! ### Loops -/

theorem failsDeep (s : Stream) : FailsDeep (Parse.failWith (α := α) .tooDeep) s := ⟨_, rfl, rfl⟩

section

variable {step step' : Parse (List α × Bool)}

/-- Rounds after which the loop goes on leave common tokens; the last one may leave fewer. -/
theorem collectUpTo (h : Local w (fun r => if r.2 then before else n) before step step') (m m' : Nat) :
    Local w (fun _ => n) before (Parse.collectUpTo step m) (Parse.collectUpTo step' m') := by
  have round {m m' : Nat} (ih : Local w (fun _ => n) before (Parse.collectUpTo step m) (Parse.collectUpTo step' m')) :
      Local w (fun _ => n) before (Parse.collectUpTo step (m + 1)) (Parse.collectUpTo step' (m' + 1)) := by
    refine h.bind fun (xs, more) => ?_
    cases more with
    | true => exact ih.bind fun _ => .done
    | false => exact .done
  induction m generalizing m' with
  | zero => exact .failWith
  | succ m ih =>
    cases m' with
    | zero => exact (round (ih 0)).of_failsDeep failsDeep
    | succ m' => exact round (ih m')

theorem collect_last (h : Local w (fun r => if r.2 then before else n) before step step') :
    Local w (fun _ => n) before (Parse.collect step) (Parse.collect step') :=
  .get_bind fun s s' => collectUpTo h (s.unread + 1) (s'.unread + 1) s s'

theorem collect (h : Local w (fun _ => n) n step step') :
    Local w (fun _ => n) n (Parse.collect step) (Parse.collect step') :=
  collect_last (h.mono (fun r => by cases r.2 <;> exact Nat.le_refl n) (Nat.le_refl n))

end

theorem refineUpTo {step step' : α → Parse (Option α)} (h : ∀ x, Local w (fun _ => n) n (step x) (step' x)) (m m' : Nat)
    (x : α) : Local w (fun _ => n) n (Parse.refineUpTo step m x) (Parse.refineUpTo step' m' x) := by
  have round {m m' : Nat} (ih : ∀ x, Local w (fun _ => n) n (Parse.refineUpTo step m x) (Parse.refineUpTo step' m' x)) (x : α) :
      Local w (fun _ => n) n (Parse.refineUpTo step (m + 1) x) (Parse.refineUpTo step' (m' + 1) x) := by
    refine (h x).bind fun r => ?_
    cases r with
    | none => exact .done
    | some y => exact ih y
  induction m generalizing m' x with
  | zero => exact .failWith
  | succ m ih =>
    cases m' with
    | zero => exact (round (ih 0) x).of_failsDeep failsDeep
    | succ m' => exact round (ih m') x

theorem refine {step step' : α → Parse (Option α)} (h : ∀ x, Local w (fun _ => n) n (step x) (step' x)) (x : α) :
    Local w (fun _ => n) n (Parse.refine step x) (Parse.refine step' x) :=
  .get_bind fun s s' => refineUpTo h (s.unread + 1) (s'.unread + 1) x s s'

theorem behind {separator separator' : Parse Bool} (hs : Local w (fun _ => n) n separator separator')
    (hp : Local w (fun _ => n) n p p') : Local w (fun _ => n) n (Parse.behind separator p) (Parse.behind separator' p') :=
  collect <| hs.bind fun _ => .ite (hp.bind fun _ => .done) (.done)

section

variable (hp : Inner w p p')

include hp

theorem commaList : Inner w (Parse.commaList p) (Parse.commaList p') :=
  hp.bind fun _ => (behind tryToken hp).bind fun _ => .done

theorem commaListUntil {close : TokenKind} : Inner w (Parse.commaListUntil close p) (Parse.commaListUntil close p') :=
  collect <| .look (fun s s' same => by rw [same.at_]) fun s =>
    .ite (.done) <| hp.bind fun _ => tryToken.bind fun _ => .done

theorem afterKeyword {word : String} : Inner w (Parse.afterKeyword word p) (Parse.afterKeyword word p') :=
  tryKeyword.bind fun _ => .ite (hp.bind fun _ => .done) (.done)

theorem afterToken {k : TokenKind} : Inner w (Parse.afterToken k p) (Parse.afterToken k p') :=
  tryToken.bind fun _ => .ite (hp.bind fun _ => .done) (.done)

/-- The closing token is a common one. -/
theorem enclosedBy {opening closing : TokenKind} (ne : opening ≠ .eof) (ne' : closing ≠ .eof) :
    Local w (fun _ => n) 1 (Parse.enclosedBy opening closing p) (Parse.enclosedBy opening closing p') :=
  (expect opening ne).bind fun _ => hp.bind fun _ => (expect closing ne').bind fun _ => .done

end

/-- Clauses that may stand behind a statement. -/
theorem afterClause {word : String} (clause : word ∈ clauseWords) (hp : Local w (fun _ => n) n p p') :
    Local w (fun _ => n) n (Parse.afterKeyword word p) (Parse.afterKeyword word p') :=
  (tryClause clause).bind fun _ => .ite (hp.bind fun _ => .done) (.done)

theorem skipFillers : Local w (fun _ => n) n (Parse.skipAll Parse.fillers) (Parse.skipAll Parse.fillers) :=
  .bind (collect <| .look_beside (fun s s' same => by rw [same.atFiller]) fun s =>
    .ite (advance.bind fun _ => .done) (.done)) fun _ => .done

theorem leadingComments : Local w (fun _ => n) n Parse.leadingComments Parse.leadingComments :=
  takeComments.bind fun _ => .look_beside (fun s s' same => by rw [same.atDeclaration]) fun s =>
    .ite (.pure_bind (.done)) (takeDoc.bind fun _ => .done)

end Local

end Codewright.Php
