import Codewright.Proofs.Php.Progress

/-!
# Streams that part

Two streams have tokens in common, and then go on in different ways.

* `Fork` – two ways to go on, each with a mark that no statement goes on with;
* `Fork.Beside`, `Fork.Alike` – streams that part at the fork, and those with a common token in front of it;
* `Fork.Within` – how far in front of the fork the first stream is at least;
* `Fork.Alike.peek`, `Fork.Alike.atClass`, … – a test on the streams comes out the same, also where it looks further ahead: the
  last common token is none that tests look over.
-/

namespace Codewright.Php

/-- Behind a token of this kind, readers look at the token that follows before they read it. -/
def TokenKind.looksAhead (k : TokenKind) : Bool :=
  [.ident, .amp, .ellipsis, .backslash, .arrow, .nullsafeArrow, .doubleColon].contains k

/-- The keywords of what may stand behind a statement and belongs to it. -/
def clauseWords : List String := ["else", "elseif", "catch", "finally"]

/-- The keywords that begin declarations. -/
def declarationWords : List String := ["abstract", "final", "readonly", "class", "interface", "trait", "enum", "function"]

/-- The token means nothing to a reader at the end of a statement. -/
structure Token.IsMark (t : Token) : Prop where
  kind : t.kind ∉ [.eof, .openTag, .closeTag, .semicolon, .attributeGroup]
  clause : ∀ word ∈ clauseWords, t.isKeyword word = false
  declaration : ∀ word ∈ declarationWords, t.isKeyword word = false

theorem Token.IsMark.of_bare {t u : Token} (h : u.IsMark) (bare : t.bare = u.bare) : t.IsMark := by
  have kind : t.kind = u.kind := congrArg (fun t => t.kind) bare
  have text : t.text = u.text := congrArg (fun t => t.text) bare
  have same (word : String) : t.isKeyword word = u.isKeyword word := by rw [isKeyword, isKeyword, kind, text]
  exact ⟨kind ▸ h.kind, fun word member => (same word).trans (h.clause word member),
    fun word member => (same word).trans (h.declaration word member)⟩

/-- Two ways to go on behind common tokens: a mark with a rest on either side. -/
structure Fork where
  mark : Token
  rest : List Token
  mark' : Token
  rest' : List Token
  isMark : mark.IsMark
  isMark' : mark'.IsMark

theorem Token.kind_of_isKeyword {t : Token} {word : String} (h : t.isKeyword word = true) : t.kind = .ident := by
  simp only [Token.isKeyword, Bool.and_eq_true, beq_iff_eq] at h
  exact h.1

theorem Token.IsMark.of_keyword {t : Token} {word : String} (clause : word ∉ clauseWords) (declaration : word ∉ declarationWords)
    (here : t.isKeyword word = true) : t.IsMark := by
  have kind : t.kind = .ident := Token.kind_of_isKeyword here
  have keyword (other : String) : t.isKeyword other = (word == other) := by
    rw [Token.isKeyword, Bool.and_eq_true, beq_iff_eq, beq_iff_eq] at here
    rw [Token.isKeyword, here.1, here.2, beq_self_eq_true, Bool.true_and]
  refine ⟨by simp [kind], fun other member => ?_, fun other member => ?_⟩ <;> rw [keyword, beq_eq_false_iff_ne] <;> rintro rfl
  · exact clause member
  · exact declaration member

theorem Stream.kind_of_at {s : Stream} {k : TokenKind} (h : s.at_ k = true) : s.kind = k := by
  simpa [Stream.at_] using h

theorem Stream.peek_of_tokens {s : Stream} {t : Token} {rest : List Token} (tokens : s.tokens = t :: rest) : s.peek = t := by
  simp [Stream.peek, Stream.peekAt, tokens]

theorem Stream.kind_of_tokens {s : Stream} {t : Token} {rest : List Token} (tokens : s.tokens = t :: rest) : s.kind = t.kind :=
  congrArg (fun t => t.kind) (peek_of_tokens tokens)

/-- No declaration begins with a mark. -/
theorem Stream.atDeclaration_eq_false {s : Stream} (h : s.peek.IsMark) : s.atDeclaration = false := by
  have group : s.at_ .attributeGroup = false := by
    have kind := h.kind
    rw [Stream.at_, Stream.kind, beq_eq_false_iff_ne]
    rintro group
    exact kind (by simp [group])
  have none : ∀ word ∈ declarationWords, s.atKeyword word = false := h.declaration
  simp only [declarationWords, List.forall_mem_cons] at none
  obtain ⟨abstr, final, readonly, cls, iface, trait, enum, function, -⟩ := none
  have no_class : s.atClass = false := by
    cases tokens : s.tokens with
    | nil => simp [Stream.atClass, tokens]
    | cons t rest =>
      have here : s.peek = t := peek_of_tokens tokens
      rw [Stream.atKeyword, here] at abstr final readonly cls
      have no_modifier : Stream.isClassModifier t = false := by simp [Stream.isClassModifier, abstr, final, readonly]
      rw [Stream.atClass, tokens, List.dropWhile_cons_of_neg (by simp [no_modifier])]
      cases rest <;> simp [cls]
  simp [Stream.atDeclaration, Stream.atFunction, Stream.atAnyKeyword, group, no_class, iface, trait, enum, function]

namespace Fork

/-- The streams have tokens in common and go on as the fork says, up to comments that have been taken from both marks. -/
structure Beside (w : Fork) (s s' : Stream) : Prop where
  tokens : ∃ common mark mark', s.tokens = common ++ mark :: w.rest ∧ s'.tokens = common ++ mark' :: w.rest' ∧
    mark.bare = w.mark.bare ∧ mark'.bare = w.mark'.bare ∧ mark'.doc = mark.doc ∧ mark'.comments = mark.comments ∧
    ∀ t ∈ common.getLast?, t.kind.looksAhead = false
  pending : s'.pending = s.pending
  lastEnd : s'.lastEnd = s.lastEnd

/-- The first way to go on is still ahead, behind so many tokens at least. -/
structure Within (w : Fork) (n : Nat) (s : Stream) : Prop where
  ahead : (w.mark :: w.rest).map Token.bare <:+ s.bares
  enough : w.rest.length + 1 + n ≤ s.unread

/-- The streams have a token in common. -/
structure Alike (w : Fork) (s s' : Stream) : Prop where
  beside : w.Beside s s'
  within : w.Within 1 s

variable {w : Fork} {s s' : Stream} {n : Nat}

theorem Within.mono {m : Nat} (h : w.Within n s) (le : m ≤ n) : w.Within m s :=
  ⟨h.ahead, Nat.le_trans (Nat.add_le_add_left le _) h.enough⟩

/-- A stream with a fork stands in front of it. -/
theorem Beside.within (h : w.Beside s s') : w.Within 0 s := by
  obtain ⟨common, mark, mark', tokens, -, bare, -⟩ := h.tokens
  refine ⟨?_, by rw [s.unread_eq, tokens]; simp⟩
  rw [Stream.bares, tokens, List.map_append, List.map_cons, List.map_cons, bare]
  exact List.suffix_append _ _

/-- A stream that stands at the first way to go on sees the mark. -/
theorem Within.kind_eq (h : w.Within 0 s) (last : ¬w.Within 1 s) : s.kind = w.mark.kind := by
  have size : s.bares.length = ((w.mark :: w.rest).map Token.bare).length := by
    rw [s.length_bares, List.length_map, List.length_cons]
    exact Nat.le_antisymm (Nat.le_of_not_lt fun more => last ⟨h.ahead, more⟩) h.enough
  have same := h.ahead.eq_of_length size.symm
  cases tokens : s.tokens with
  | nil => simp [Stream.bares, tokens] at same
  | cons t rest =>
    rw [Stream.bares, tokens, List.map_cons, List.map_cons] at same
    exact (Stream.kind_of_tokens tokens).trans (congrArg (fun t => t.kind) (List.cons.inj same).1.symm)

/-- Two streams with a fork are at the fork, or they have a token in common. -/
theorem Beside.cases (h : w.Beside s s') : (∃ mark mark', s.tokens = mark :: w.rest ∧ s'.tokens = mark' :: w.rest' ∧
    mark.bare = w.mark.bare ∧ mark'.bare = w.mark'.bare) ∨ w.Alike s s' := by
  obtain ⟨common, mark, mark', tokens, tokens', bare, bare', -⟩ := h.tokens
  cases common with
  | nil => exact .inl ⟨mark, mark', tokens, tokens', bare, bare'⟩
  | cons t common =>
    refine .inr ⟨h, h.within.ahead, ?_⟩
    rw [s.unread_eq, tokens]
    simp

namespace Alike

variable (same : w.Alike s s')

include same

theorem exists_common : ∃ common mark mark', common ≠ [] ∧ s.tokens = common ++ mark :: w.rest ∧
    s'.tokens = common ++ mark' :: w.rest' ∧ ∀ t ∈ common.getLast?, t.kind.looksAhead = false := by
  obtain ⟨common, mark, mark', tokens, tokens', -, -, -, -, last⟩ := same.beside.tokens
  refine ⟨common, mark, mark', ?_, tokens, tokens', last⟩
  rintro rfl
  have enough := same.within.enough
  rw [s.unread_eq, tokens, List.nil_append, List.length_cons] at enough
  omega

theorem peek : s'.peek = s.peek := by
  obtain ⟨common, mark, mark', more, tokens, tokens', -⟩ := same.exists_common
  obtain ⟨t, common, rfl⟩ := List.exists_cons_of_ne_nil more
  simp [Stream.peek, Stream.peekAt, tokens, tokens']

theorem kind : s'.kind = s.kind := congrArg Token.kind same.peek

theorem at_ (k : TokenKind) : s'.at_ k = s.at_ k := by rw [Stream.at_, Stream.at_, same.kind]

theorem atKeyword (word : String) : s'.atKeyword word = s.atKeyword word := by
  rw [Stream.atKeyword, Stream.atKeyword, same.peek]

theorem atAnyKeyword (words : List String) : s'.atAnyKeyword words = s.atAnyKeyword words := by
  rw [Stream.atAnyKeyword, Stream.atAnyKeyword, funext same.atKeyword]

theorem atEnd : s'.atEnd = s.atEnd := same.at_ .eof

theorem nextModifier? (flags : List Modifier) : Parse.nextModifier? flags s' = Parse.nextModifier? flags s := by
  simp only [Parse.nextModifier?, same.atKeyword]

/-- The token behind one that looks ahead. -/
theorem peekAt_one (ahead : s.kind.looksAhead = true) : s'.peekAt 1 = s.peekAt 1 := by
  obtain ⟨common, mark, mark', more, tokens, tokens', last⟩ := same.exists_common
  obtain ⟨t, common, rfl⟩ := List.exists_cons_of_ne_nil more
  have here : s.kind = t.kind := Stream.kind_of_tokens tokens
  cases common with
  | nil =>
    rw [here, last t (by simp)] at ahead
    cases ahead
  | cons u common => simp [Stream.peekAt, tokens, tokens']

/-- The token behind one that looks ahead looks ahead too, and so on. -/
theorem peekAt_two (ahead : s.kind.looksAhead = true) (ahead' : (s.peekAt 1).kind.looksAhead = true) :
    s'.peekAt 2 = s.peekAt 2 := by
  obtain ⟨common, mark, mark', more, tokens, tokens', last⟩ := same.exists_common
  obtain ⟨t, common, rfl⟩ := List.exists_cons_of_ne_nil more
  have here : s.kind = t.kind := Stream.kind_of_tokens tokens
  match common with
  | [] =>
    rw [here, last t (by simp)] at ahead
    cases ahead
  | [u] =>
    have next : (s.peekAt 1).kind = u.kind := by simp [Stream.peekAt, tokens]
    rw [next, last u (by simp)] at ahead'
    cases ahead'
  | u :: v :: common => simp [Stream.peekAt, tokens, tokens']

theorem hasAt_one (ahead : s.kind.looksAhead = true) (k : TokenKind) : s'.hasAt 1 k = s.hasAt 1 k := by
  rw [Stream.hasAt, Stream.hasAt, same.peekAt_one ahead]

theorem keywordAt_one (ahead : s.kind.looksAhead = true) (word : String) : s'.keywordAt 1 word = s.keywordAt 1 word := by
  rw [Stream.keywordAt, Stream.keywordAt, same.peekAt_one ahead]

/-- A test for a token that looks ahead, and for the token behind it. -/
theorem at_and_hasAt {k : TokenKind} (ahead : k.looksAhead = true) (j : TokenKind) :
    (s'.at_ k && s'.hasAt 1 j) = (s.at_ k && s.hasAt 1 j) := by
  rw [same.at_]
  cases here : s.at_ k with
  | false => rfl
  | true => rw [same.hasAt_one (Stream.kind_of_at here ▸ ahead)]

theorem atKeyword_and {word : String} {b b' : Bool} (h : s.kind.looksAhead = true → b' = b) :
    (s'.atKeyword word && b') = (s.atKeyword word && b) := by
  rw [same.atKeyword]
  cases here : s.atKeyword word with
  | false => rfl
  | true =>
    have ident : s.kind = .ident := Token.kind_of_isKeyword here
    rw [h (by rw [ident]; rfl)]

theorem atClass : s'.atClass = s.atClass := by
  obtain ⟨common, mark, mark', more, tokens, tokens', last⟩ := same.exists_common
  rw [Stream.atClass, Stream.atClass, tokens, tokens']
  clear tokens tokens'
  -- The modifiers end within the common part, since its last token is no identifier.
  induction common with
  | nil => exact absurd rfl more
  | cons t common ih =>
    cases common with
    | nil =>
      have other (word : String) : t.isKeyword word = false := by
        rw [← Bool.not_eq_true]
        intro keyword
        have ahead := last t (by simp)
        rw [Token.kind_of_isKeyword keyword] at ahead
        cases ahead
      have no_modifier : Stream.isClassModifier t = false := by simp [Stream.isClassModifier, other]
      simp [no_modifier, other]
    | cons u common =>
      cases modifier : Stream.isClassModifier t with
      | false => simp [modifier]
      | true => simpa [modifier] using ih (by simp) (by simpa using last)

theorem atFunction : s'.atFunction = s.atFunction := by
  rw [Stream.atFunction, Stream.atFunction]
  refine same.atKeyword_and fun ahead => ?_
  have next : (s'.hasAt 1 .amp && s'.hasAt 2 .ident) = (s.hasAt 1 .amp && s.hasAt 2 .ident) := by
    rw [same.hasAt_one ahead]
    cases here : s.hasAt 1 .amp with
    | false => rfl
    | true =>
      have amp : (s.peekAt 1).kind = .amp := by simpa [Stream.hasAt] using here
      rw [Stream.hasAt, Stream.hasAt, same.peekAt_two ahead (by rw [amp]; rfl)]
  rw [next, same.hasAt_one ahead]

theorem atNamespace : s'.atNamespace = s.atNamespace := by
  rw [Stream.atNamespace, Stream.atNamespace]
  refine same.atKeyword_and fun ahead => ?_
  rw [same.hasAt_one ahead, same.hasAt_one ahead, same.hasAt_one ahead]

theorem atDeclaration : s'.atDeclaration = s.atDeclaration := by
  have other : (s'.atAnyKeyword ["interface", "trait", "enum"] && s'.hasAt 1 .ident) =
      (s.atAnyKeyword ["interface", "trait", "enum"] && s.hasAt 1 .ident) := by
    rw [same.atAnyKeyword]
    cases here : s.atAnyKeyword ["interface", "trait", "enum"] with
    | false => rfl
    | true =>
      obtain ⟨word, -, keyword⟩ := List.any_eq_true.1 here
      have ident : s.kind = .ident := Token.kind_of_isKeyword keyword
      rw [same.hasAt_one (by rw [ident]; rfl)]
  rw [Stream.atDeclaration, Stream.atDeclaration, same.at_, same.atClass, other, same.atFunction]

end Alike

/-! ### At the fork -/

namespace Beside

variable (same : w.Beside s s')

include same

theorem spanFrom (start : Nat) : s'.spanFrom start = s.spanFrom start := by
  rw [Stream.spanFrom, Stream.spanFrom, same.lastEnd]

/-- A test that comes out the same on marks and on common tokens. -/
theorem test {f : Stream → Bool} (common : w.Alike s s' → f s' = f s)
    (marks : ∀ s mark rest, mark.IsMark → s.tokens = mark :: rest → f s = false) : f s' = f s := by
  rcases same.cases with ⟨mark, mark', tokens, tokens', bare, bare'⟩ | alike
  · rw [marks s mark _ (w.isMark.of_bare bare) tokens, marks s' mark' _ (w.isMark'.of_bare bare') tokens']
  · exact common alike

theorem atFiller : Parse.fillers.contains s'.kind = Parse.fillers.contains s.kind := by
  refine same.test (f := fun s => Parse.fillers.contains s.kind) (fun alike => by rw [alike.kind])
    fun s mark rest isMark tokens => ?_
  have here : s.kind = mark.kind := Stream.kind_of_tokens tokens
  have kind := isMark.kind
  rw [here]
  simp [Parse.fillers] at kind ⊢
  exact ⟨kind.2.1, kind.2.2.1, kind.2.2.2.1⟩

theorem atClause {word : String} (clause : word ∈ clauseWords) : s'.atKeyword word = s.atKeyword word := by
  refine same.test (f := fun s => s.atKeyword word) (fun alike => alike.atKeyword word) fun s mark rest isMark tokens => ?_
  have here : s.peek = mark := Stream.peek_of_tokens tokens
  rw [Stream.atKeyword, here]
  exact isMark.clause word clause

theorem atDeclaration : s'.atDeclaration = s.atDeclaration := by
  refine same.test (f := Stream.atDeclaration) (fun alike => alike.atDeclaration) fun s mark rest isMark tokens => ?_
  have here : s.peek = mark := Stream.peek_of_tokens tokens
  exact Stream.atDeclaration_eq_false (here ▸ isMark)

end Beside

end Fork

end Codewright.Php
