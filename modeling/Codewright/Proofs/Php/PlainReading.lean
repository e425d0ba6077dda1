import Codewright.Proofs.Php.Names
import Codewright.Proofs.Php.PlainTree
import Codewright.Proofs.Php.Tiling
import Codewright.Php.Parser
import Codewright.Proofs.Php.Reading

/-!
# What readers make of sound tokens

* `IsTextOf kind text` – what is known of the text of a token of each kind that trees take up;
* `Token.IsSound` – the text of the token is one of its kind, and its comments are comments;
* `isTextOf_scan`, `isSound_readCode` – the lexer gives sound tokens;
* `isSound_of_tokenize` – all tokens of a source are sound.

* `Stream.IsSound` – the unread tokens are sound, and the comments that no tree has yet are comments;
* `Makes s p P` – from the stream `s`, if it is sound, what the reader `p` gives satisfies `P`, and what it leaves is sound;
* `Makes.bind`, `Makes.advance`, `Makes.collect`, … – one rule for each way to build readers;
* `Makes.typeHint`, `Makes.attributes`, … – the readers of leaves.
-/

namespace Codewright.Php

open Text Source Lexer

/-- The text is one that tokens of the kind have. The texts of marks, tags and casts are left out: trees do not keep them. -/
structure IsTextOf (kind : TokenKind) (text : String) : Prop where
  name : kind = .ident → IsTypeCode text
  isName : kind = .ident → IsName text
  word : kind = .variable ∨ kind = .int ∨ kind = .float → IsCodeText text
  raw : kind = .string ∨ kind = .attributeGroup → IsRaw text.toList
  html : kind = .inlineHtml → IsHtml text.toList

/-- The text of the token is one of its kind, and its comments are comments. -/
structure Token.IsSound (t : Token) : Prop where
  text : IsTextOf t.kind t.text
  comments : ∀ c ∈ t.allComments, IsComment c.toList

/-- The kinds of tokens whose texts trees keep. -/
def keptKinds : List TokenKind := [.ident, .variable, .int, .float, .string, .attributeGroup, .inlineHtml]

theorem IsTextOf.of_not_kept {kind : TokenKind} (h : kind ∉ keptKinds) (text : String) : IsTextOf kind text := by
  refine ⟨?_, ?_, ?_, ?_, ?_⟩
  · rintro rfl
    exact absurd (by decide) h
  · rintro rfl
    exact absurd (by decide) h
  · rintro (rfl | rfl | rfl) <;> exact absurd (by decide) h
  · rintro (rfl | rfl) <;> exact absurd (by decide) h
  · rintro rfl
    exact absurd (by decide) h

namespace IsTextOf

theorem ident {text : String} (h : IsTypeCode text) (is_name : IsName text) : IsTextOf .ident text :=
  ⟨fun _ => h, fun _ => is_name, nofun, nofun, nofun⟩

theorem inner {kind : TokenKind} (h : kind ∈ [.variable, .int, .float]) {text : String}
    (inner : ∀ c ∈ text.toList, isInner c = true) : IsTextOf kind text := by
  simp only [List.mem_cons, List.not_mem_nil, or_false] at h
  refine ⟨?_, ?_, fun _ => .of_inner inner, ?_, ?_⟩ <;> rcases h with rfl | rfl | rfl <;> nofun

theorem kept {kind : TokenKind} (h : kind ∈ [.string, .attributeGroup]) {text : String} (raw : IsRaw text.toList) :
    IsTextOf kind text := by
  simp only [List.mem_cons, List.not_mem_nil, or_false] at h
  refine ⟨?_, ?_, ?_, fun _ => raw, ?_⟩ <;> rcases h with rfl | rfl <;> nofun

theorem inlineHtml {text : String} (h : IsHtml text.toList) : IsTextOf .inlineHtml text :=
  ⟨nofun, nofun, nofun, nofun, fun _ => h⟩

end IsTextOf

namespace Lexer

variable {c : Char} {cs : List Char}

/-- A text in quotes or brackets. -/
theorem isTextOf_enclosed {kind : TokenKind} {opening : List Char} {e : Enclosure} {lexeme : Lexeme}
    (h : kind ∈ [.string, .attributeGroup]) (raw : ∀ n, enclosedLength [e] cs = .ok n → IsRaw (opening ++ cs.take n))
    (read : enclosed kind opening e cs = .ok lexeme) : IsTextOf lexeme.kind lexeme.text := by
  unfold enclosed at read
  split at read
  · next n length =>
    cases read
    refine .kept h ?_
    rw [String.toList_ofList]
    exact raw n length
  · cases read

theorem numberShape_kind (cs : List Char) : (numberShape cs).1 ∈ [.variable, .int, .float] := by
  unfold numberShape
  split
  · simp
  · dsimp only
    split <;> simp

/-- The text of a lexeme is one of its kind. -/
theorem isTextOf_scan {lexeme : Lexeme} (no_space : isSpace c = false) (h : scan c cs = .ok lexeme) : IsTextOf lexeme.kind lexeme.text := by
  unfold scan at h
  dsimp only at h
  split at h
  · cases h
    refine .inner (by simp) ?_
    rw [String.toList_ofList]
    exact inner_span isInner_of_isIdentChar cs
  split at h
  · next starts =>
    cases h
    have start : isInner c = true ∧ c ≠ '>' := by
      rw [Bool.or_eq_true, Bool.and_eq_true, beq_iff_eq] at starts
      rcases starts with letter | ⟨rfl, -⟩
      · refine ⟨isInner_of_isIdentChar (by simp [isIdentChar, letter]), ?_⟩
        rintro rfl
        cases letter
      · decide
    refine .ident ⟨.of_inner ?_, c, _, String.toList_ofList, start.2⟩ (isName_take no_space starts)
    rw [String.toList_ofList]
    exact List.forall_mem_cons.2 ⟨start.1, inner_name cs⟩
  split at h
  · next starts =>
    cases h
    refine .inner (numberShape_kind _) ?_
    rw [String.toList_ofList]
    refine List.forall_mem_cons.2 ⟨?_, inner_number_tail c cs⟩
    rw [Bool.or_eq_true, Bool.and_eq_true, beq_iff_eq] at starts
    rcases starts with digit | ⟨rfl, -⟩
    · exact isInner_of_isDigit digit
    · decide
  split at h
  · next quote =>
    rw [Bool.or_eq_true, Bool.or_eq_true, beq_iff_eq, beq_iff_eq, beq_iff_eq, or_assoc] at quote
    exact isTextOf_enclosed (by simp) (fun n length => isRaw_quoted (by simpa using quote) length) h
  split at h
  · cases h
    have not_kept : TokenKind.cast ∉ keptKinds := by decide
    exact .of_not_kept not_kept _
  split at h
  · next heredoc =>
    obtain ⟨rest, whole⟩ := List.isPrefixOf_iff_prefix.1 heredoc
    cases whole
    change (heredocLength rest).bind _ = _ at h
    cases length : heredocLength rest with
    | error _ =>
      rw [length] at h
      cases h
    | ok n =>
      rw [length] at h
      cases h
      refine .kept (by simp) ?_
      rw [String.toList_ofList]
      exact isRaw_heredoc length
  split at h
  · next group =>
    obtain ⟨rest, whole⟩ := List.isPrefixOf_iff_prefix.1 group
    cases whole
    exact isTextOf_enclosed (by simp) (fun n length => isRaw_group length) h
  split at h
  · next text kind found =>
    cases h
    have marks : ∀ p ∈ punctuation, p.2 ∉ keptKinds := by decide
    exact .of_not_kept (marks _ (List.mem_of_find?_eq_some found)) _
  · cases h

/-! ## Tokens -/

theorem isSound_textToken {html : List Char} (h : IsHtml html) (p : Position) : ∀ t ∈ textToken html p, t.IsSound := by
  unfold textToken
  split
  · simp
  · refine List.forall_mem_singleton.2 ⟨.inlineHtml ?_, nofun⟩
    rw [token, String.toList_ofList]
    exact h

theorem isSound_readText_source {p : Position} {html : List Token} (h : readText p cs = .source html) :
    ∀ t ∈ html, t.IsSound := by
  unfold readText at h
  split at h
  · next none_there =>
    cases h
    exact isSound_textToken (isHtml_of_none none_there) p
  · cases h

theorem isSound_readText_code {p : Position} {tokens : List Token} {read : Nat} (h : readText p cs = .code tokens read) :
    ∀ t ∈ tokens, t.IsSound := by
  unfold readText at h
  split at h
  · cases h
  · next n kind found =>
    cases h
    refine List.forall_mem_append.2 ⟨isSound_textToken (isHtml_take found) p, List.forall_mem_singleton.2 ⟨?_, nofun⟩⟩
    refine .of_not_kept ?_ _
    rcases kind_findOpenTag? found with rfl | rfl
    · exact (by decide : TokenKind.openTag ∉ keptKinds)
    · exact (by decide : TokenKind.openTagEcho ∉ keptKinds)

/-- The comments of a gap are comments. -/
theorem isComment_readGap {p q : Position} {rest : List Char} {g : Gap} (h : readGap .empty p cs = .ok (g, q, rest)) :
    ∀ c ∈ g.all, IsComment c.toList := by
  obtain ⟨gap, comments, -, -, isGap, all⟩ := readGap_eq_ok h
  have none : (Gap.empty.all : Multiset String) = 0 := rfl
  rw [none, zero_add] at all
  intro c hc
  refine isComment_of_isGap isGap c ?_
  rw [← all]
  exact hc

theorem isSound_eofToken {p q : Position} {rest : List Char} {g : Gap} (h : readGap .empty p cs = .ok (g, q, rest))
    (r : Position) : (eofToken r g).IsSound := by
  have not_kept : TokenKind.eof ∉ keptKinds := by decide
  refine ⟨.of_not_kept not_kept _, ?_⟩
  simpa [eofToken, Token.allComments] using isComment_readGap h

/-- The tokens of code are sound. -/
theorem isSound_readCode {p : Position} {tokens : List Token} (h : readCode p cs = .ok tokens) : ∀ t ∈ tokens, t.IsSound := by
  have closeTag : TokenKind.closeTag ∉ keptKinds := by decide
  fun_induction readCode p cs generalizing tokens with
  | case1 => cases h
  | case2 p cs g q gap =>
    cases h
    exact List.forall_mem_singleton.2 (isSound_eofToken gap q)
  | case3 p cs g q c rest gap tag n q' close html =>
    rename_i text
    cases h
    refine List.forall_mem_cons.2 ⟨⟨.of_not_kept closeTag _, isComment_readGap gap⟩, ?_⟩
    refine List.forall_mem_append.2 ⟨isSound_readText_source text, List.forall_mem_singleton.2 ?_⟩
    have not_kept : TokenKind.eof ∉ keptKinds := by decide
    exact ⟨.of_not_kept not_kept _, List.forall_mem_nil _⟩
  | case4 p cs g q c rest gap tag n q' close ts read text =>
    rename_i ih
    obtain ⟨us, code, rfl⟩ := exists_of_map_eq_ok h
    refine List.forall_mem_append.2 ⟨List.forall_mem_cons.2 ⟨⟨.of_not_kept closeTag _, isComment_readGap gap⟩, ?_⟩, ih code⟩
    exact isSound_readText_code text
  | case5 => cases h
  | case6 p cs g q c rest gap other lexeme scanned q' =>
    rename_i ih
    obtain ⟨us, code, rfl⟩ := exists_of_map_eq_ok h
    exact List.forall_mem_cons.2 ⟨⟨isTextOf_scan (isSpace_of_readGap gap) scanned, isComment_readGap gap⟩, ih code⟩

end Lexer

/-- **Tokens are sound.** Each token of a source has a text of its kind, and its comments are comments. -/
theorem isSound_of_tokenize {source : String} {tokens : List Token} (h : tokenize source = .ok tokens) :
    ∀ t ∈ tokens, t.IsSound := by
  unfold tokenize at h
  split at h
  · cases h
  · next text =>
    obtain ⟨us, code, rfl⟩ := exists_of_map_eq_ok h
    exact List.forall_mem_append.2 ⟨isSound_readText_code text, isSound_readCode code⟩

end Codewright.Php

/-! ## What readers make -/

namespace Codewright.Php

open Source Text Lexer

namespace Stream

/-- The unread tokens are sound, and the comments that belong to no tree yet are comments. -/
structure IsSound (s : Stream) : Prop where
  tokens : ∀ t ∈ s.tokens, t.IsSound
  eof : s.eof.IsSound
  pending : ∀ c ∈ s.pending, IsComment c.toList

theorem IsSound.peekAt {s : Stream} (h : s.IsSound) (n : Nat) : (s.peekAt n).IsSound := by
  unfold Stream.peekAt
  cases found : s.tokens[n]? with
  | none => exact h.eof
  | some t => exact h.tokens t (List.mem_of_getElem? found)

end Stream

theorem Token.IsSound.bare {t : Token} (h : t.IsSound) : t.bare.IsSound := ⟨h.text, nofun⟩

variable {α β : Type}

/-- If the stream is sound, what the reader gives satisfies `P`, and what it leaves is sound. -/
def Makes (s : Stream) (p : Parse α) (P : α → Prop) : Prop := s.IsSound → Yields s p fun x s' => P x ∧ s'.IsSound

/-- What the reader leaves of a sound stream is sound. -/
abbrev Keeps (s : Stream) (p : Parse α) : Prop := Makes s p fun _ => True

namespace Makes

variable {s : Stream} {p : Parse α} {f : α → Parse β} {P : α → Prop} {Q : β → Prop}

theorem pure {x : α} (h : P x) : Makes s (pure x) P := fun sound => .pure ⟨h, sound⟩

theorem bind (hp : Makes s p P) (hf : ∀ {s'} x, P x → Makes s' (f x) Q) : Makes s (p >>= f) Q :=
  fun sound => .bind ((hp sound).mono fun x _ ⟨hx, sound'⟩ => hf x hx sound')

theorem pure_bind {x : α} (h : Makes s (f x) Q) : Makes s (Pure.pure x >>= f) Q := h

theorem get_bind {f : Stream → Parse β} (h : Makes s (f s) Q) : Makes s (get >>= f) Q := h

theorem mono {P' : α → Prop} (h : Makes s p P) (imp : ∀ x, P x → P' x) : Makes s p P' :=
  fun sound => (h sound).mono fun x _ ⟨hx, sound'⟩ => ⟨imp x hx, sound'⟩

theorem map {F : α → β} (h : Makes s p fun x => Q (F x)) : Makes s (F <$> p) Q := by
  intro sound y s' read
  change (p s).bind (fun r => .ok (F r.1, r.2)) = _ at read
  cases result : p s with
  | error _ =>
    rw [result] at read
    cases read
  | ok r =>
    rw [result] at read
    cases read
    exact h sound r.1 r.2 result

theorem map_some (h : Makes s p P) : Makes s (some <$> p) fun x => ∀ y ∈ x, P y :=
  .map (h.mono fun x hx y same => by cases same; exact hx)

theorem failWith (cause : SyntaxError.Cause) : Makes s (Parse.failWith cause) P := fun _ => .failWith cause

theorem failExpected (expected : String) : Makes s (Parse.failExpected expected) P := fun _ => .failExpected expected

theorem ite {c : Prop} [Decidable c] {q : Parse α} (h : Makes s p P) (h' : Makes s q P) : Makes s (if c then p else q) P := by
  split
  · exact h
  · exact h'

/-- A reader behind a look at the next token. -/
theorem ite_at {k : TokenKind} {q : Parse α} (h : s.kind = k → Makes s p P) (h' : Makes s q P) :
    Makes s (if s.at_ k then p else q) P := by
  split
  · next at_ => exact h (by simpa [Stream.at_] using at_)
  · exact h'

/-- A reader that keeps the text of the next token. -/
theorem peek (h : IsTextOf s.kind s.peek.text → Makes s p P) : Makes s p P :=
  fun sound => h (sound.peekAt 0).text sound

/-! ### Single tokens -/

/-- The token that is read, and the kind of the one behind it. -/
theorem advance_next (sound : s.IsSound) :
    Yields s Parse.advance fun t s' => IsTextOf s.kind t.text ∧ s'.IsSound ∧ (s.kind ≠ .eof → s'.kind = (s.peekAt 1).kind) := by
  intro t s' read
  have text := (sound.peekAt 0).text
  obtain ⟨tokens, eof, lastEnd, pending, unread, unread_eq⟩ := s
  cases tokens with
  | nil =>
    cases read
    exact ⟨text, sound, fun _ => rfl⟩
  | cons u rest =>
    have first := sound.tokens u (by simp)
    have others : ∀ t ∈ rest, t.IsSound := fun t ht => sound.tokens t (by simp [ht])
    have waiting : ∀ c ∈ pending ++ u.allComments, IsComment c.toList :=
      List.forall_mem_append.2 ⟨sound.pending, first.comments⟩
    rw [Parse.advance] at read
    dsimp only at read
    split at read
    · next last =>
      cases read
      have kind : u.kind = .eof := by simpa [Token.isEof] using last
      exact ⟨text, ⟨List.forall_mem_cons.2 ⟨first.bare, others⟩, sound.eof, waiting⟩, fun ne => absurd kind ne⟩
    · cases read
      exact ⟨text, ⟨others, sound.eof, waiting⟩, fun _ => rfl⟩

theorem advance : Makes s Parse.advance fun t => IsTextOf s.kind t.text :=
  fun sound => (advance_next sound).mono fun _ _ h => ⟨h.1, h.2.1⟩

/-- A token of a kind that is known. -/
theorem advance_of {k : TokenKind} (h : s.kind = k) : Makes s Parse.advance fun t => IsTextOf k t.text := h ▸ advance

/-- A token behind one that is left out. -/
theorem advance_advance {k k' : TokenKind} {f : Token → Parse β} (here : s.kind = k) (not_last : k ≠ .eof)
    (next : s.hasAt 1 k' = true) (hf : ∀ {s'} t, IsTextOf k' t.text → Makes s' (f t) Q) :
    Makes s (Parse.advance >>= fun _ => Parse.advance >>= f) Q := by
  intro sound
  refine .bind ((advance_next sound).mono fun _ s₁ ⟨_, sound₁, kind⟩ => ?_)
  have kind₁ : s₁.kind = k' := by
    rw [kind (here ▸ not_last)]
    simpa [Stream.hasAt] using next
  exact bind (advance_of kind₁) (fun t ht => hf t ht) sound₁

theorem takeDoc : Makes s Parse.takeDoc fun doc => ∀ text ∈ doc, IsComment text.toList := by
  intro sound d s' read
  obtain ⟨tokens, eof, lastEnd, pending, unread, unread_eq⟩ := s
  cases tokens with
  | nil =>
    cases read
    exact ⟨nofun, sound⟩
  | cons u rest =>
    cases read
    have first := sound.tokens u (by simp)
    refine ⟨fun text member => first.comments text ?_, ⟨List.forall_mem_cons.2 ⟨⟨first.text, fun c hc => ?_⟩, fun t ht => ?_⟩,
      sound.eof, sound.pending⟩⟩
    · exact List.mem_append_right _ (by simpa using member)
    · exact first.comments c (List.mem_append_left _ (by simpa [Token.allComments] using hc))
    · exact sound.tokens t (by simp [ht])

theorem takeComments : Makes s Parse.takeComments fun texts => ∀ text ∈ texts, IsComment text.toList := by
  intro sound texts s' read
  obtain ⟨tokens, eof, lastEnd, pending, unread, unread_eq⟩ := s
  cases tokens with
  | nil =>
    cases read
    exact ⟨sound.pending, sound.tokens, sound.eof, nofun⟩
  | cons u rest =>
    cases read
    have first := sound.tokens u (by simp)
    refine ⟨List.forall_mem_append.2 ⟨sound.pending, fun c hc => first.comments c (List.mem_append_left _ hc)⟩,
      ⟨List.forall_mem_cons.2 ⟨⟨first.text, fun c hc => ?_⟩, fun t ht => ?_⟩, sound.eof, nofun⟩⟩
    · exact first.comments c (List.mem_append_right _ (by simpa [Token.allComments] using hc))
    · exact sound.tokens t (by simp [ht])

theorem skip : Keeps s Parse.advance := advance.mono fun _ _ => trivial

theorem expect (k : TokenKind) : Keeps s (Parse.expect k) := .get_bind (.ite skip (.failExpected _))

theorem expectKeyword (word : String) : Keeps s (Parse.expectKeyword word) := .get_bind (.ite skip (.failExpected _))

theorem expectIdent (what : String) : Makes s (Parse.expectIdent what) IsTypeCode :=
  .get_bind <| .ite_at (fun h => (advance_of h).bind fun _ text => .pure (text.name rfl)) (.failExpected _)

theorem expectName (what : String) : Makes s (Parse.expectIdent what) IsName :=
  .get_bind <| .ite_at (fun h => (advance_of h).bind fun _ text => .pure (text.isName rfl)) (.failExpected _)

theorem expectVariable : Makes s Parse.expectVariable IsCodeText :=
  .get_bind <| .ite_at (fun h => (advance_of h).bind fun _ text => .pure (text.word (.inl rfl))) (.failExpected _)

theorem tryToken (k : TokenKind) : Keeps s (Parse.tryToken k) :=
  .get_bind (.ite (skip.bind fun _ _ => .pure trivial) (.pure trivial))

theorem tryKeyword (word : String) : Keeps s (Parse.tryKeyword word) :=
  .get_bind (.ite (skip.bind fun _ _ => .pure trivial) (.pure trivial))

theorem expectSemicolon : Keeps s Parse.expectSemicolon :=
  (tryToken _).bind fun _ _ => .ite (.pure trivial) (.get_bind (.ite (.pure trivial) (.failExpected _)))

/-! ### Loops -/

theorem collect {step : Parse (List α × Bool)} (h : ∀ {s}, Makes s step fun r => ∀ x ∈ r.1, P x) :
    Makes s (Parse.collect step) fun xs => ∀ x ∈ xs, P x := by
  have rounds (n : Nat) : ∀ {s}, Makes s (Parse.collectUpTo step n) fun xs => ∀ x ∈ xs, P x := by
    induction n with
    | zero => exact .failWith _
    | succ n ih =>
      refine .bind h fun r hr => .ite ?more (.pure hr)
      exact .bind ih fun ys hys => .pure (List.forall_mem_append.2 ⟨hr, hys⟩)
  exact .get_bind (rounds (s.unread + 1))

theorem refine {step : α → Parse (Option α)} (h : ∀ {s} x, P x → Makes s (step x) fun r => ∀ y ∈ r, P y) {x : α} (hx : P x) :
    Makes s (Parse.refine step x) P := by
  have rounds (n : Nat) : ∀ {s} x, P x → Makes s (Parse.refineUpTo step n x) P := by
    induction n with
    | zero => exact fun _ _ => .failWith _
    | succ n ih =>
      intro s x hx
      refine .bind (h x hx) fun r hr => ?_
      cases r with
      | none => exact .pure hx
      | some y => exact ih y (hr y rfl)
  exact .get_bind (rounds (s.unread + 1) x hx)

/-- A loop whose values do not matter. -/
theorem keeps_refine {step : α → Parse (Option α)} (h : ∀ {s} x, Keeps s (step x)) {x : α} : Keeps s (Parse.refine step x) :=
  refine (fun x _ => (h x).mono fun _ _ _ _ => trivial) trivial

theorem skipAll (kinds : List TokenKind) : Keeps s (Parse.skipAll kinds) := by
  have round {s : Stream} : Makes s (do
      if kinds.contains (← get).kind then
        let _ ← Parse.advance
        return ([], true)
      else return ([], false)) fun r : List Unit × Bool => ∀ _ ∈ r.1, True :=
    .get_bind (.ite (skip.bind fun _ _ => .pure nofun) (.pure nofun))
  exact .bind (collect round) fun _ _ => .pure trivial

section

variable (hp : ∀ {s}, Makes s p P)

include hp

theorem behind {separator : Parse Bool} (hs : ∀ {s}, Keeps s separator) :
    Makes s (Parse.behind separator p) fun xs => ∀ x ∈ xs, P x :=
  .collect <| hs.bind fun _ _ => .ite (hp.bind fun _ hx => .pure (List.forall_mem_singleton.2 hx)) (.pure nofun)

theorem commaList : Makes s (Parse.commaList p) fun xs => ∀ x ∈ xs, P x :=
  hp.bind fun _ hx => (behind hp (tryToken _)).bind fun _ hxs => .pure (List.forall_mem_cons.2 ⟨hx, hxs⟩)

theorem commaListUntil (close : TokenKind) : Makes s (Parse.commaListUntil close p) fun xs => ∀ x ∈ xs, P x :=
  .collect <| .get_bind <| .ite (.pure nofun) <| hp.bind fun _ hx => (tryToken _).bind fun _ _ =>
    .pure (List.forall_mem_singleton.2 hx)

theorem afterKeyword (word : String) : Makes s (Parse.afterKeyword word p) fun x => ∀ y ∈ x, P y :=
  (tryKeyword word).bind fun _ _ => .ite (hp.bind fun _ hx => .pure (by simpa using hx)) (.pure nofun)

theorem afterToken (k : TokenKind) : Makes s (Parse.afterToken k p) fun x => ∀ y ∈ x, P y :=
  (tryToken k).bind fun _ _ => .ite (hp.bind fun _ hx => .pure (by simpa using hx)) (.pure nofun)

theorem enclosedBy (opening closing : TokenKind) : Makes s (Parse.enclosedBy opening closing p) P :=
  (expect opening).bind fun _ _ => hp.bind fun _ hx => (expect closing).bind fun _ _ => .pure hx

end

/-! ### Leaves -/

theorem typeAtomUpTo (n : Nat) : ∀ {s}, Makes s (Parse.typeAtomUpTo n) TypeHint.IsPlain := by
  induction n with
  | zero => exact .failWith _
  | succ n ih =>
    refine (tryToken _).bind fun _ _ => .ite ?group ?name
    case group =>
      refine ih.bind fun first h => (behind ih (tryToken _)).bind fun rest hs => (expect _).bind fun _ _ => .pure ?_
      exact .intersection (List.cons_ne_nil _ _) (List.forall_mem_cons.2 ⟨h, hs⟩)
    case name => exact (expectIdent _).bind fun _ h => .pure h

theorem typeAtom : Makes s Parse.typeAtom TypeHint.IsPlain := .get_bind (typeAtomUpTo (s.unread + 1))

theorem tryIntersection : Keeps s Parse.tryIntersection := .get_bind (.ite (tryToken _) (.pure trivial))

theorem typeHint : Makes s Parse.typeHint TypeHint.IsPlain := by
  refine (tryToken _).bind fun _ _ => .ite (typeAtom.bind fun _ h => .pure h.nullable) ?_
  refine typeAtom.bind fun first h => (behind typeAtom (tryToken _)).bind fun alternatives hs => .ite ?_ (.pure ?_)
  · refine (behind typeAtom tryIntersection).bind fun parts hs => .ite (.pure h) (.pure ?_)
    exact .intersection (List.cons_ne_nil _ _) (List.forall_mem_cons.2 ⟨h, hs⟩)
  · exact .union (List.cons_ne_nil _ _) (List.forall_mem_cons.2 ⟨h, hs⟩)

theorem returnType : Makes s Parse.returnType fun t => ∀ t' ∈ t, t'.IsPlain := afterToken typeHint _

theorem name (what : String) : Makes s (Parse.expectIdent what) IsCodeText := (expectIdent what).mono fun _ h => h.code

theorem nameList (what : String) : Makes s (Parse.nameList what) fun names => ∀ n ∈ names, IsName n :=
  commaList (expectName what)

theorem attributes : Makes s Parse.attributes fun as => ∀ a ∈ as, IsRaw a.toList :=
  collect <| .get_bind <| .ite_at (fun h => (advance_of h).bind fun _ text =>
    .pure (List.forall_mem_singleton.2 (text.raw (.inr rfl)))) (.pure nofun)

theorem failModifier (reason : String) : Makes s (Parse.failModifier reason) P := .get_bind (.failWith _)

theorem addModifier (m : Modifiers) (flag : Modifier) : Keeps s (Parse.addModifier m flag) :=
  .ite (failModifier _) <| .ite (failModifier _) <| skip.bind fun _ _ => .pure trivial

theorem memberModifiers : Keeps s Parse.memberModifiers := by
  refine (keeps_refine fun m => .get_bind ?_).bind fun _ _ => .ite (failModifier _) (.pure trivial)
  split
  · exact (addModifier _ _).bind fun _ _ => .pure trivial
  · exact .ite (skip.bind fun _ _ => .pure trivial) (.pure trivial)

theorem classModifiers : Keeps s Parse.classModifiers := by
  refine (keeps_refine fun m => .get_bind ?_).bind fun _ _ => .ite (failModifier _) (.pure trivial)
  split
  · exact .ite (failModifier _) (skip.bind fun _ _ => .pure trivial)
  · exact .pure trivial

theorem parent : Makes s Parse.parent fun p => ∀ n ∈ p, IsName n := afterKeyword (expectName _) _

theorem interfaces (word : String) : Makes s (Parse.interfaces word) fun names => ∀ n ∈ names, IsName n := by
  refine (afterKeyword (nameList _) word).bind fun names h => .pure ?_
  cases names with
  | none => exact nofun
  | some names => exact h names rfl

theorem importRename : Makes s Parse.importRename fun r => ∀ n ∈ r, IsCodeText n := afterKeyword (name _) _

theorem importItems : Makes s Parse.importItems fun items => ∀ i ∈ items, i.IsPlain := by
  refine (name _).bind fun start h => .get_bind (.ite ?group ?single)
  case group =>
    refine skip.bind fun _ _ => enclosedBy (commaListUntil ?_ _) _ _
    exact (name _).bind fun _ h' => importRename.bind fun _ hr => .pure ⟨(h.append (.of_isCodeWord rfl)).append h', hr⟩
  case single => exact importRename.bind fun _ hr => .pure (List.forall_mem_singleton.2 ⟨h, hr⟩)

theorem importKind : Keeps s Parse.importKind :=
  (tryKeyword _).bind fun _ _ => .ite (.pure trivial) <| (tryKeyword _).bind fun _ _ => .ite (.pure trivial) (.pure trivial)

theorem captures : Makes s Grammar.captures fun cs => ∀ c ∈ cs, IsCodeText c.name := by
  refine (tryKeyword _).bind fun _ _ => .ite (enclosedBy (commaListUntil ?_ _) _ _) (.pure nofun)
  exact (tryToken _).bind fun _ _ => expectVariable.bind fun _ h => .pure h

theorem adaptation : Makes s Parse.adaptation Adaptation.IsPlain := by
  have last (traitName : Option Name) (method : String) (ht : ∀ t ∈ traitName, IsCodeText t) (hm : IsCodeText method)
      (visibility : Option Visibility) (newName : Option String) (hn : ∀ n ∈ newName, IsCodeText n) {s : Stream} :
      Makes s (if visibility.isNone && newName.isNone then Parse.failExpected "visibility or alias"
        else do
          Parse.expectSemicolon
          return .rename traitName method visibility newName) Adaptation.IsPlain :=
    .ite (.failExpected _) (expectSemicolon.bind fun _ _ => .pure ⟨ht, hm, hn⟩)
  refine (name _).bind fun first hf => (tryToken _).bind fun _ _ =>
    .ite ((name _).bind fun method hm => .pure_bind <| .get_bind ?_) <| .pure_bind <| .get_bind ?_
  · split
    · next t _ same _ =>
      cases same
      exact skip.bind fun _ _ => (nameList _).bind fun _ h => expectSemicolon.bind fun _ _ =>
        .pure ⟨hf, hm, fun n member => (h n member).isCodeText⟩
    · refine (expectKeyword _).bind fun _ _ => .get_bind (.ite (skip.bind fun _ _ => ?_) ?_)
      all_goals
        refine .get_bind (.ite_at (fun h => (advance_of h).bind fun _ text => .pure_bind ?_) (.pure_bind ?_))
        · exact last (some first) method (by simpa using hf) hm _ _ (by simpa using (text.name rfl).code)
        · exact last (some first) method (by simpa using hf) hm _ none nofun
  · split
    · next same _ => cases same
    · refine (expectKeyword _).bind fun _ _ => .get_bind (.ite (skip.bind fun _ _ => ?_) ?_)
      all_goals
        refine .get_bind (.ite_at (fun h => (advance_of h).bind fun _ text => .pure_bind ?_) (.pure_bind ?_))
        · exact last none first nofun hf _ _ (by simpa using (text.name rfl).code)
        · exact last none first nofun hf _ none nofun

end Makes

end Codewright.Php
