import Mathlib.Algebra.BigOperators.Group.Multiset.Basic
import Codewright.Php.Lexer.Gap

/-!
# What stands between tokens

Whitespace and comments, told without the reader of gaps.

* `IsLineComment text behind`, `IsBlockComment text` – complete comments;
* `IsGap behind gap comments` – the text `gap` in front of `behind` is whitespace and complete comments, and these are the
  comments;
* `readGap_eq_ok` – what the reader of gaps reads is a gap, with the comments that it collects.
-/

namespace Codewright.Php

open Text Source

/-- A line comment in front of `behind`: from its mark up to a line feed, a closing tag, or the end of the source. -/
structure IsLineComment (text behind : List Char) : Prop where
  opens : ∃ body, text = '/' :: '/' :: body ∨ text = '#' :: body ∧ (body ++ behind).head? ≠ some '['
  one_line : '\n' ∉ text
  no_tag : ¬['?', '>'] <:+: text
  ends : behind = [] ∨ (∃ rest, behind = '\n' :: rest) ∨ ∃ rest, behind = '?' :: '>' :: rest

/-- A block comment, which ends at the first mark of its end. -/
def IsBlockComment (text : List Char) : Prop :=
  ∃ body, text = '/' :: '*' :: (body ++ ['*', '/']) ∧ ¬['*', '/'] <:+: body ++ ['*']

/-- Whitespace and complete comments in front of `behind`. Line comments count without whitespace at their end. -/
inductive IsGap (behind : List Char) : List Char → Multiset String → Prop where
  | nil : IsGap behind [] 0
  | space {c : Char} {gap : List Char} {comments : Multiset String} :
      isSpace c = true → IsGap behind gap comments → IsGap behind (c :: gap) comments
  | line {text gap : List Char} {comments : Multiset String} :
      IsLineComment text (gap ++ behind) → IsGap behind gap comments →
      IsGap behind (text ++ gap) (String.ofList (trimEnd text) ::ₘ comments)
  | block {text gap : List Char} {comments : Multiset String} :
      IsBlockComment text → IsGap behind gap comments →
      IsGap behind (text ++ gap) (String.ofList text ::ₘ comments)

namespace Lexer

theorem headIs_iff {x : Char} {cs : List Char} : headIs (· == x) cs = true ↔ cs.head? = some x := by
  cases cs with
  | nil => simp [headIs]
  | cons c cs => simp [headIs]

/-! ## Line comments -/

/-- A line comment goes as far as the line feed or the closing tag that ends it. -/
theorem lineCommentLength_ends (cs : List Char) :
    let behind := cs.drop (lineCommentLength cs)
    behind = [] ∨ (∃ rest, behind = '\n' :: rest) ∨ ∃ rest, behind = '?' :: '>' :: rest := by
  induction cs with
  | nil => exact .inl rfl
  | cons c cs ih =>
    rw [lineCommentLength]
    by_cases stop : (c == '\n' || (c == '?' && headIs (· == '>') cs)) = true
    · simp only [stop, if_true, List.drop_zero]
      simp only [Bool.or_eq_true, Bool.and_eq_true, beq_iff_eq, headIs_iff] at stop
      rcases stop with feed | ⟨mark, tag⟩
      · exact .inr (.inl ⟨cs, by rw [feed]⟩)
      · obtain ⟨rest, rfl⟩ := List.head?_eq_some_iff.1 tag
        exact .inr (.inr ⟨rest, by rw [mark]⟩)
    · simp only [stop, Bool.false_eq_true, if_false, List.drop_succ_cons]
      exact ih

/-- Neither of these stands in it. -/
theorem take_lineCommentLength (cs : List Char) :
    '\n' ∉ cs.take (lineCommentLength cs) ∧ ¬['?', '>'] <:+: cs.take (lineCommentLength cs) := by
  induction cs with
  | nil => simp
  | cons c cs ih =>
    obtain ⟨one_line, no_tag⟩ := ih
    rw [lineCommentLength]
    by_cases stop : (c == '\n' || (c == '?' && headIs (· == '>') cs)) = true
    · simp [stop]
    · simp only [stop, Bool.false_eq_true, if_false, List.take_succ_cons]
      simp only [Bool.or_eq_true, Bool.and_eq_true, beq_iff_eq, headIs_iff, not_or, not_and] at stop
      obtain ⟨no_feed, no_mark⟩ := stop
      refine ⟨?_, ?_⟩
      · rw [List.mem_cons, not_or]
        exact ⟨fun feed => no_feed feed.symm, one_line⟩
      · rw [List.infix_cons_iff, not_or]
        refine ⟨?_, no_tag⟩
        intro start
        obtain ⟨mark, rest⟩ := List.cons_prefix_cons.1 start
        refine no_mark mark.symm ?_
        obtain ⟨more, same⟩ := rest
        rw [← List.take_append_drop (lineCommentLength cs) cs, ← same]
        rfl

/-- A mark of one character, and what the reader reads behind it. -/
theorem isLineComment {c : Char} {cs : List Char}
    (opens : c = '#' ∧ cs.head? ≠ some '[' ∨ c = '/' ∧ cs.head? = some '/') :
    IsLineComment (c :: cs.take (lineCommentLength cs)) (cs.drop (lineCommentLength cs)) := by
  obtain ⟨one_line, no_tag⟩ := take_lineCommentLength cs
  have no_mark : c ≠ '\n' ∧ c ≠ '?' := by
    rcases opens with ⟨rfl, -⟩ | ⟨rfl, -⟩ <;> decide
  refine ⟨?_, ?_, ?_, lineCommentLength_ends cs⟩
  · rcases opens with ⟨rfl, other⟩ | ⟨rfl, second⟩
    · refine ⟨_, .inr ⟨rfl, ?_⟩⟩
      rw [List.take_append_drop]
      exact other
    · obtain ⟨rest, rfl⟩ := List.head?_eq_some_iff.1 second
      refine ⟨rest.take (lineCommentLength rest), .inl ?_⟩
      simp [lineCommentLength]
  · rw [List.mem_cons, not_or]
    exact ⟨no_mark.1.symm, one_line⟩
  · rw [List.infix_cons_iff, not_or]
    refine ⟨?_, no_tag⟩
    intro start
    exact no_mark.2 (List.cons_prefix_cons.1 start).1.symm

/-! ## Block comments -/

theorem take_blockEnd? {cs : List Char} {n : Nat} (h : blockEnd? cs = some n) :
    ∃ body, cs.take n = body ++ ['*', '/'] ∧ ¬['*', '/'] <:+: body ++ ['*'] := by
  induction cs generalizing n with
  | nil => cases h
  | cons c cs ih =>
    rw [blockEnd?] at h
    by_cases stop : (c == '*' && headIs (· == '/') cs) = true
    · simp only [stop, if_true, Option.some.injEq] at h
      simp only [Bool.and_eq_true, beq_iff_eq, headIs_iff] at stop
      obtain ⟨rfl, slash⟩ := stop
      obtain ⟨rest, rfl⟩ := List.head?_eq_some_iff.1 slash
      subst h
      refine ⟨[], rfl, ?_⟩
      decide
    · simp only [stop, Bool.false_eq_true, if_false] at h
      obtain ⟨m, found, rfl⟩ := Option.map_eq_some_iff.1 h
      obtain ⟨body, same, first⟩ := ih found
      refine ⟨c :: body, by rw [List.take_succ_cons, same, List.cons_append], ?_⟩
      rw [List.cons_append, List.infix_cons_iff, not_or]
      refine ⟨?_, first⟩
      intro start
      obtain ⟨star, rest⟩ := List.cons_prefix_cons.1 start
      apply stop
      simp only [Bool.and_eq_true, beq_iff_eq, headIs_iff]
      refine ⟨star.symm, ?_⟩
      cases body with
      | nil =>
        obtain ⟨slash, -⟩ := List.cons_prefix_cons.1 rest
        exact absurd slash (by decide)
      | cons b body =>
        obtain ⟨slash, -⟩ := List.cons_prefix_cons.1 rest
        rw [← List.take_append_drop m cs, same, ← slash]
        rfl

/-! ## Gaps -/

/-- What a piece of a gap is. -/
theorem gapPiece?_eq_some {c : Char} {cs : List Char} {piece : GapPiece} {n : Nat}
    (h : gapPiece? c cs = .ok (some (piece, n))) :
    (piece = .blank ∧ n = 0 ∧ isSpace c = true) ∨
      (piece = .lineComment ∧ IsLineComment (c :: cs.take n) (cs.drop n)) ∨
      ((piece = .blockComment ∨ piece = .docComment) ∧ IsBlockComment (c :: cs.take n)) := by
  unfold gapPiece? at h
  split at h
  · next space =>
    cases h
    exact .inl ⟨rfl, rfl, space⟩
  split at h
  · next opens =>
    cases h
    refine .inr (.inl ⟨rfl, isLineComment ?_⟩)
    simpa [headIs_iff, ← Bool.not_eq_true] using opens
  split at h
  · next opens =>
    simp only [Bool.and_eq_true, beq_iff_eq, headIs_iff] at opens
    obtain ⟨rfl, star⟩ := opens
    obtain ⟨rest, rfl⟩ := List.head?_eq_some_iff.1 star
    split at h
    · next found piece' comment =>
      obtain ⟨m, ends, same⟩ := Option.map_eq_some_iff.1 comment
      cases h
      obtain ⟨body, text, first⟩ := take_blockEnd? ends
      cases same
      refine .inr (.inr ⟨?_, body, ?_, first⟩)
      · split
        · exact .inr rfl
        · exact .inl rfl
      · exact congrArg (fun cs => '/' :: '*' :: cs) text
    · cases h
  · cases h

/-- The comments of a gap with one more piece. -/
theorem all_addPlain (g : Gap) (text : String) : ((g.addPlain text).all : Multiset String) = g.all + {text} := by
  simp only [Gap.all, Gap.addPlain, ← Multiset.coe_add, ← Multiset.coe_singleton]
  rw [add_right_comm]

theorem all_addDoc (g : Gap) (text : String) : ((g.addDoc text).all : Multiset String) = g.all + {text} := by
  simp only [Gap.all, Gap.addDoc, ← Multiset.coe_add]
  rfl

/-- The reader of gaps reads whitespace and complete comments, and collects these. -/
theorem readGap_eq_ok {g g' : Gap} {p q : Position} {cs rest : List Char} (h : readGap g p cs = .ok (g', q, rest)) :
    ∃ gap comments, cs = gap ++ rest ∧ q = p.after gap ∧ IsGap rest gap comments ∧
      (g'.all : Multiset String) = g.all + comments := by
  fun_induction readGap g p cs with
  | case1 g p =>
    cases h
    exact ⟨[], 0, rfl, rfl, .nil, (add_zero _).symm⟩
  | case2 g p c cs u unterminated => cases h
  | case3 g p c cs lexeme =>
    cases h
    exact ⟨[], 0, rfl, rfl, .nil, (add_zero _).symm⟩
  | case4 g p c cs piece n found ih =>
    obtain ⟨gap, comments, left, behind, isGap, all⟩ := ih h
    have whole : c :: cs = (c :: cs.take n) ++ gap ++ rest := by
      rw [List.append_assoc, ← left, List.cons_append, List.take_append_drop]
    have place : q = p.after ((c :: cs.take n) ++ gap) := by rw [behind, Position.after_append]
    rcases gapPiece?_eq_some found with ⟨rfl, rfl, space⟩ | ⟨rfl, line⟩ | ⟨kind, block⟩
    · exact ⟨_, comments, whole, place, .space space isGap, all⟩
    · rw [left] at line
      refine ⟨_, _, whole, place, .line line isGap, ?_⟩
      rw [all, Gap.add, all_addPlain, add_assoc, Multiset.singleton_add]
    · refine ⟨_, _, whole, place, .block block isGap, ?_⟩
      rcases kind with rfl | rfl
      · rw [all, Gap.add, all_addPlain, add_assoc, Multiset.singleton_add]
      · rw [all, Gap.add, all_addDoc, add_assoc, Multiset.singleton_add]

/-- The reader of gaps stops in front of something else than whitespace. -/
theorem isSpace_of_readGap {g g' : Gap} {p q : Position} {c : Char} {cs rest : List Char}
    (h : readGap g p cs = .ok (g', q, c :: rest)) : isSpace c = false := by
  fun_induction readGap g p cs with
  | case1 g p => cases h
  | case2 g p d cs u unterminated => cases h
  | case3 g p d cs lexeme =>
    cases h
    cases space : isSpace c with
    | false => rfl
    | true =>
      rw [gapPiece?, if_pos space] at lexeme
      cases lexeme
  | case4 g p d cs piece n found ih => exact ih h

/-- Where the reader of gaps fails, a comment begins that the rest of the source does not end. -/
theorem readGap_eq_error {g : Gap} {p : Position} {cs : List Char} {e : SyntaxError} (h : readGap g p cs = .error e) :
    ∃ gap rest, cs = gap ++ rest ∧ e.pos = p.after gap ∧ e.span = ⟨(p.after gap).byte, ((p.after gap).after rest).byte⟩ := by
  fun_induction readGap g p cs with
  | case1 g p => cases h
  | case2 g p c cs u unterminated =>
    cases h
    exact ⟨[], c :: cs, rfl, rfl, rfl⟩
  | case3 g p c cs lexeme => cases h
  | case4 g p c cs piece n found ih =>
    obtain ⟨gap, rest, left, pos, span⟩ := ih h
    refine ⟨(c :: cs.take n) ++ gap, rest, ?_, ?_, ?_⟩
    · rw [List.append_assoc, ← left, List.cons_append, List.take_append_drop]
    · rw [pos, Position.after_append]
    · rw [span, Position.after_append]

end Lexer

end Codewright.Php
