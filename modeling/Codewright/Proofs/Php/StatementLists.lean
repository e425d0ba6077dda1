import Codewright.Proofs.Php.LastTokens
import Codewright.Proofs.Php.LeadingNames
import Codewright.Proofs.Php.LocalStatements

/-!
# Lists of statements that end in different ways

A list of statements is read up to a closing brace or a keyword. Where two streams part at such tokens, the same statements are
read from both, unless one of them begins with the keyword.

* `Parse.bind_eq`, `Parse.expect_eq`, … – readers, run on streams that are known;
* `Fork.Beside.at_mark`, `Stream.Rests.last_read` – streams in front of the marks, and what has been read up to them;
* `Grammar.Local.statementsUntil_follows` – lists.
-/

namespace Codewright.Php

variable {α β : Type}

/-! ## Runs -/

theorem Parse.bind_eq_of_ok {p : Parse α} {f f' : α → Parse β} {s : Stream} (h : ∀ x s₁, p s = .ok (x, s₁) → f x s₁ = f' x s₁) :
    (p >>= f) s = (p >>= f') s := by
  change (p s).bind (fun r => f r.1 r.2) = (p s).bind fun r => f' r.1 r.2
  cases first : p s with
  | error e => rfl
  | ok r => exact h r.1 r.2 first

theorem Parse.expect_eq {s : Stream} {k : TokenKind} (here : s.at_ k = true) : Parse.expect k s = Parse.advance s := by
  rw [Parse.expect, Parse.get_bind_apply, if_pos here]

theorem Parse.expectKeyword_eq {s : Stream} {word : String} (here : s.atKeyword word = true) :
    Parse.expectKeyword word s = Parse.advance s := by
  rw [Parse.expectKeyword, Parse.get_bind_apply, if_pos here]

theorem Parse.expectSemicolon_eq {s t : Stream} {x : Token} (here : s.at_ .semicolon = true) (read : Parse.advance s = .ok (x, t)) :
    Parse.expectSemicolon s = .ok ((), t) := by
  have found : Parse.tryToken .semicolon s = .ok (true, t) := by
    rw [Parse.tryToken, Parse.get_bind_apply, if_pos here, Parse.bind_eq read]
    rfl
  rw [Parse.expectSemicolon, Parse.bind_eq found]
  rfl

theorem Parse.expectKeyword_eq_ok {s t : Stream} {word : String} {x : Token} (h : Parse.expectKeyword word s = .ok (x, t)) :
    s.atKeyword word = true ∧ Parse.advance s = .ok (x, t) := by
  rw [Parse.expectKeyword, Parse.get_bind_apply] at h
  split at h
  · next here => exact ⟨here, h⟩
  · cases h

/-- A semicolon is read, or nothing. -/
theorem Parse.expectSemicolon_eq_ok {s t : Stream} (h : Parse.expectSemicolon s = .ok ((), t)) :
    (s.at_ .semicolon = true ∧ ∃ x, Parse.advance s = .ok (x, t)) ∨ t = s := by
  obtain ⟨found, s₁, tried, h⟩ := Parse.exists_of_bind_eq_ok h
  rw [Parse.tryToken, Parse.get_bind_apply] at tried
  by_cases here : s.at_ .semicolon = true
  · rw [if_pos here] at tried
    obtain ⟨x, s₂, read, given⟩ := Parse.exists_of_bind_eq_ok tried
    cases given
    cases h
    exact .inl ⟨here, x, read⟩
  · rw [if_neg here] at tried
    cases tried
    refine .inr ?_
    rw [if_neg Bool.false_ne_true, Parse.get_bind_apply] at h
    split at h
    · cases h
      rfl
    · cases h

theorem Parse.expect_eq_ok {s t : Stream} {k : TokenKind} {x : Token} (h : Parse.expect k s = .ok (x, t)) :
    s.at_ k = true ∧ Parse.advance s = .ok (x, t) := by
  rw [Parse.expect, Parse.get_bind_apply] at h
  split at h
  · next here => exact ⟨here, h⟩
  · cases h

/-! ## Lists of statements -/

/-- The token ends a list of statements that goes on to one of the keywords. -/
def Token.Stops (t : Token) (stops : List String) : Prop := t.kind = .closeBrace ∨ ∃ word ∈ stops, t.isKeyword word = true

theorem Token.Stops.of_bare {t u : Token} {stops : List String} (h : u.Stops stops) (bare : t.bare = u.bare) : t.Stops stops := by
  have kind : t.kind = u.kind := congrArg (fun t => t.kind) bare
  have text : t.text = u.text := congrArg (fun t => t.text) bare
  simpa [Token.Stops, Token.isKeyword, kind, text] using h

theorem Stream.stops_iff (s : Stream) (stops : List String) :
    (s.at_ .closeBrace || s.atAnyKeyword stops) = true ↔ s.peek.Stops stops := by
  simp [Token.Stops, Stream.at_, Stream.atAnyKeyword, Stream.atKeyword, Stream.kind]

/-- One round of the reader of a list. -/
def Grammar.round (g : Grammar) (stops : List String) : Parse (List Stmt × Bool) := do
  Parse.skipAll Parse.fillers
  let comments ← Parse.leadingComments
  let s ← get
  if s.at_ .closeBrace || s.atAnyKeyword stops then return (comments, false)
  else if s.atEnd then Parse.failExpected "'\x7d'"
  else return (comments ++ [← g.stmt], true)

theorem Grammar.statementsUntil_eq (g : Grammar) (stops : List String) :
    g.statementsUntil stops = Parse.collect (g.round stops) := rfl

namespace Fork

variable {w : Fork} {s s' : Stream}

/-- At the fork, the second stream stands at the second mark. -/
theorem Beside.at_mark (h : w.Beside s s') (size : s.unread = w.rest.length + 1) :
    ∃ mark mark', s.tokens = mark :: w.rest ∧ s'.tokens = mark' :: w.rest' ∧ mark'.bare = w.mark'.bare ∧
      mark'.doc = mark.doc ∧ mark'.comments = mark.comments := by
  obtain ⟨common, mark, mark', tokens, tokens', -, bare', doc, comments, -⟩ := h.tokens
  obtain rfl : common = [] := by
    rw [s.unread_eq, tokens, List.length_append, List.length_cons] at size
    exact List.eq_nil_of_length_eq_zero (by omega)
  exact ⟨mark, mark', tokens, tokens', bare', doc, comments⟩

theorem Beside.of_tokens {common : List Token} (tokens : s.tokens = common ++ w.mark :: w.rest)
    (tokens' : s'.tokens = common ++ w.mark' :: w.rest') (same : w.mark'.doc = w.mark.doc ∧ w.mark'.comments = w.mark.comments)
    (pending : s'.pending = s.pending) (lastEnd : s'.lastEnd = s.lastEnd)
    (last : ∀ t ∈ common.getLast?, t.kind.looksAhead = false) : w.Beside s s' :=
  ⟨⟨common, w.mark, w.mark', tokens, tokens', rfl, rfl, same.1, same.2, last⟩, pending, lastEnd⟩

/-- The other way round. -/
def swap (w : Fork) : Fork := ⟨w.mark', w.rest', w.mark, w.rest, w.isMark', w.isMark⟩

theorem Beside.swap (h : w.Beside s s') : w.swap.Beside s' s := by
  obtain ⟨⟨common, mark, mark', tokens, tokens', bare, bare', doc, comments, last⟩, pending, lastEnd⟩ := h
  exact ⟨⟨common, mark', mark, tokens', tokens, bare', bare, doc.symm, comments.symm, last⟩, pending.symm, lastEnd.symm⟩

end Fork

theorem Stream.Rests.eof {s t : Stream} (h : s.Rests t) : t.eof = s.eof := by
  rcases h with ⟨eof, -⟩ | lands
  · exact eof
  · exact lands.eof

/-- The tokens that are left are the last ones. -/
theorem Stream.Rests.bares_left {s t : Stream} (h : s.Rests t) {common left : List Token} (tokens : s.tokens = common ++ left)
    (size : t.unread = left.length) : t.bares = left.map Token.bare := by
  have back : t.bares <:+ s.bares := by
    rcases h with ⟨-, same⟩ | lands
    · exact same ▸ List.suffix_refl _
    · exact lands.back
  obtain ⟨front, whole⟩ := back
  rw [Stream.bares, Stream.bares, tokens, List.map_append] at whole
  exact (List.append_inj' whole (by rw [List.length_map, List.length_map, ← t.unread_eq, size])).2

/-- What has been read up to a mark ends with a token behind which readers do not look ahead. -/
theorem Stream.Rests.last_read {s t : Stream} (h : s.Rests t) {common left : List Token} (tokens : s.tokens = common ++ left)
    (bares : t.bares = left.map Token.bare) (other : t.kind ≠ .closeTag) :
    ∀ u ∈ common.getLast?, u.kind.looksAhead = false := by
  have whole : s.bares = common.map Token.bare ++ t.bares := by rw [Stream.bares, tokens, List.map_append, bares]
  rcases h with ⟨-, same⟩ | ⟨-, -, tag | ⟨front, last, read, plain⟩⟩
  · obtain rfl : common = [] := by simpa [same] using whole
    simp
  · exact absurd tag other
  · have read : common.map Token.bare = front ++ [last] := by
      rw [whole, ← List.singleton_append, ← List.append_assoc] at read
      exact List.append_cancel_right read
    intro u member
    have same : (common.map Token.bare).getLast? = some u.bare := by rw [List.getLast?_map, Option.mem_def.1 member]; rfl
    rw [read, List.getLast?_concat] at same
    obtain rfl : last = u.bare := Option.some.inj same
    exact plain

namespace Grammar.Local

variable {w : Fork} {g g' : Grammar} (h : Grammar.Local w g g') {stops stops' : List String}

include h

/-- A round does the same where the lists end at the marks, and in front of them no statement begins with what ends the second. -/
theorem round_follows (ends' : w.mark'.Stops stops') (leads : ∀ word ∈ stops', ∀ s, s.atKeyword word = true →
      Yields s g.stmt fun x _ => x.opensWith word = true)
    {u b : Stream} {xs : List Stmt} {more : Bool} (read : g.round stops u = .ok ((xs, more), b))
    (free : ∀ x ∈ xs, ∀ word ∈ stops', x.opensWith word = false) (last : more = false → b.unread = w.rest.length + 1)
    (ahead : w.Within 0 b) (u' : Stream) :
    w.Within 0 u ∧ (w.Beside u u' → w.Follows (g'.round stops') u' (xs, more) b) := by
  obtain ⟨_, u₁, fillers, read⟩ := Parse.exists_of_bind_eq_ok read
  obtain ⟨comments, a, leading, read⟩ := Parse.exists_of_bind_eq_ok read
  -- Behind the comments, the list has come to its end, or a statement follows.
  have core : w.Within 0 a ∧ ∀ a', w.Beside a a' → w.Follows (do
      let s ← get
      if s.at_ .closeBrace || s.atAnyKeyword stops' then return (comments, false)
      else if s.atEnd then Parse.failExpected "'\x7d'"
      else return (comments ++ [← g'.stmt], true)) a' (xs, more) b := by
    change (if a.at_ .closeBrace || a.atAnyKeyword stops then Pure.pure (comments, false)
      else if a.atEnd then Parse.failExpected "'\x7d'" else do return (comments ++ [← g.stmt], true) : Parse _) a = _ at read
    by_cases ended : (a.at_ .closeBrace || a.atAnyKeyword stops) = true
    · rw [if_pos ended] at read
      cases read
      refine ⟨ahead, fun a' beside => ?_⟩
      obtain ⟨-, mark', -, tokens', bare', -⟩ := beside.at_mark (last rfl)
      have next : a'.peek = mark' := Stream.peek_of_tokens tokens'
      have ended' : (a'.at_ .closeBrace || a'.atAnyKeyword stops') = true :=
        (a'.stops_iff stops').2 (next ▸ ends'.of_bare bare')
      change w.Follows (if a'.at_ .closeBrace || a'.atAnyKeyword stops' then _ else _) a' _ _
      rw [if_pos ended']
      exact .done beside
    · rw [if_neg ended] at read
      by_cases atEnd : a.atEnd = true
      · rw [if_pos atEnd] at read
        cases read
      · rw [if_neg atEnd] at read
        obtain ⟨x, b₁, stmt, given⟩ := Parse.exists_of_bind_eq_ok read
        cases given
        have same := fun a' => h.stmt (Nat.zero_le 1) a a' x b stmt ahead
        refine ⟨(same a).1.mono (Nat.zero_le 1), fun a' beside => ?_⟩
        have alike : w.Alike a a' := ⟨beside, (same a').1⟩
        have going : ¬(a'.at_ .closeBrace || a'.atAnyKeyword stops') = true := by
          rw [alike.at_, alike.atAnyKeyword]
          simp only [Bool.or_eq_true, not_or] at ended ⊢
          refine ⟨ended.1, fun keyword => ?_⟩
          obtain ⟨word, member, here⟩ := List.any_eq_true.1 keyword
          have opens : x.opensWith word = true := leads word member a here x b stmt
          rw [free x (by simp) word member] at opens
          cases opens
        change w.Follows (if a'.at_ .closeBrace || a'.atAnyKeyword stops' then _ else if a'.atEnd then _ else _) a' _ _
        rw [if_neg going, alike.atEnd, if_neg atEnd]
        exact .bind ((same a').2 beside) fun b' beside' => .done beside'
  have leading' := fun a' => Local.leadingComments (n := 0) u₁ a' comments a leading core.1
  have fillers' := fun u' => Local.skipFillers (n := 0) u u' _ u₁ fillers (leading' u₁).1
  exact ⟨(fillers' u).1, fun beside => .bind ((fillers' u').2 beside) fun u₁' beside₁ =>
    .bind ((leading' u₁').2 beside₁) core.2⟩

/-- A list does the same where it ends at the first mark, and goes on to the second. -/
theorem statementsUntil_follows (ends' : w.mark'.Stops stops') (leads : ∀ word ∈ stops', ∀ s, s.atKeyword word = true →
      Yields s g.stmt fun x _ => x.opensWith word = true)
    {u v : Stream} {xs : List Stmt} (read : g.statementsUntil stops u = .ok (xs, v))
    (free : ∀ x ∈ xs, ∀ word ∈ stops', x.opensWith word = false) (last : v.unread = w.rest.length + 1)
    (ahead : w.Within 0 v) {u' : Stream} (beside : w.Beside u u') :
    w.Follows (g'.statementsUntil stops') u' xs v := by
  have rounds (k k' : Nat) {u : Stream} {xs : List Stmt} (read : Parse.collectUpTo (g.round stops) k u = .ok (xs, v))
      (free : ∀ x ∈ xs, ∀ word ∈ stops', x.opensWith word = false) (u' : Stream) :
      w.Within 0 u ∧ (w.Beside u u' → w.Follows (Parse.collectUpTo (g'.round stops') k') u' xs v) := by
    induction k generalizing k' u u' xs with
    | zero => cases read
    | succ k ih =>
      obtain ⟨⟨ys, more⟩, b, first, read⟩ := Parse.exists_of_bind_eq_ok read
      cases more with
      | false =>
        cases read
        have same := h.round_follows ends' leads first free (fun _ => last) ahead
        refine ⟨(same u).1, fun beside => ?_⟩
        cases k' with
        | zero => exact .inl (Local.failsDeep u')
        | succ k' => exact .bind ((same u').2 beside) fun t' beside' => .done beside'
      | true =>
        obtain ⟨zs, v₁, others, given⟩ := Parse.exists_of_bind_eq_ok read
        cases given
        have rest := fun k' b' => ih k' others (fun x member => free x (List.mem_append_right _ member)) b'
        have same := h.round_follows ends' leads first (fun x member => free x (List.mem_append_left _ member)) nofun
          (rest 0 b).1
        refine ⟨(same u).1, fun beside => ?_⟩
        cases k' with
        | zero => exact .inl (Local.failsDeep u')
        | succ k' =>
          exact .bind ((same u').2 beside) fun b' beside' => .bind ((rest k' b').2 beside') fun t' beside'' => .done beside''
  rw [statementsUntil_eq] at read ⊢
  exact (rounds (u.unread + 1) (u'.unread + 1) read free u').2 beside

end Grammar.Local

end Codewright.Php
