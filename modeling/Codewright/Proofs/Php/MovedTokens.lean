import Codewright.Proofs.Php.LexedTokens
import Codewright.Proofs.Php.Reindent

/-!
# Tokens in another place

What the tokens of code are does not depend on where the code stands, and the comments in front of it belong to the first of them.

* `Token.unplaced` – a token without its place;
* `exists_readText_source`, `exists_readText_code` – text sections;
* `exists_readCode_behind` – code behind another gap is read as the same tokens, the first of which has the comments of that gap;
  `exists_readCode_moved`: so is code in another place.
-/

namespace Codewright.Php

open Text Source

/-- What a token is, and the comments that it carries, without its place. -/
def Token.unplaced (t : Token) : Face × Option String × List String := (t.face, t.doc, t.comments)

namespace Lexer

variable {cs : List Char}

/-! ## Text sections -/

theorem unplaced_textToken (html : List Char) (p q : Position) :
    (textToken html p).map Token.unplaced = (textToken html q).map Token.unplaced := by
  unfold textToken
  split <;> rfl

theorem exists_readText_source {p : Position} {ts : List Token} (h : readText p cs = .source ts) (q : Position) :
    ∃ us, readText q cs = .source us ∧ us.map Token.unplaced = ts.map Token.unplaced := by
  unfold readText at h ⊢
  split at h
  · cases h
    exact ⟨_, rfl, unplaced_textToken cs q p⟩
  · cases h

theorem exists_readText_code {p : Position} {ts : List Token} {read : Nat} (h : readText p cs = .code ts read) (q : Position) :
    ∃ us, readText q cs = .code us read ∧ us.map Token.unplaced = ts.map Token.unplaced := by
  unfold readText at h ⊢
  split at h
  · cases h
  · next n kind found =>
    cases h
    refine ⟨_, rfl, ?_⟩
    rw [List.map_append, List.map_append, unplaced_textToken _ q p]
    rfl

/-! ## Code -/

/-- The tokens of the same code behind two gaps: the first ones carry the comments of these gaps, the others the same ones. -/
inductive SameBehind (g g' : Gap) : List Token → List Token → Prop where
  | eof (p q : Position) : SameBehind g g' [eofToken p g] [eofToken q g']
  | token {kind : TokenKind} {text : String} {p p' q q' : Position} {ts us : List Token} :
      us.map Token.unplaced = ts.map Token.unplaced →
      SameBehind g g' (Lexer.token kind text p p' g :: ts) (Lexer.token kind text q q' g' :: us)

theorem SameBehind.unplaced {g : Gap} {ts us : List Token} (h : SameBehind g g ts us) :
    us.map Token.unplaced = ts.map Token.unplaced := by
  cases h with
  | eof p q => rfl
  | token same =>
    rw [List.map_cons, List.map_cons, same]
    rfl

/-- Where the reader of gaps stops, it stays. -/
theorem readGap_of_readGap {s : List Char} {g g' : Gap} {p q : Position} (h : readGap g p s = .ok (g', q, cs)) (g₁ : Gap)
    (q₁ : Position) : readGap g₁ q₁ cs = .ok (g₁, q₁, cs) := by
  cases cs with
  | nil => exact readGap_nil g₁ q₁
  | cons c cs => exact readGap_of_lexeme (gapPiece?_of_readGap h)

/-- A gap without comments adds none. -/
theorem exists_readGap_empty {s : List Char} {p q : Position} (h : readGap .empty p s = .ok (.empty, q, cs)) (g : Gap)
    (p' : Position) : ∃ q', readGap g p' s = .ok (g, q', cs) := by
  obtain ⟨gap, comments, rfl, -, gaps, same⟩ := hasComments_of_readGap h
  obtain rfl : comments = [] := by
    have none : ((Gap.ofTexts comments).all : Multiset String) = 0 := by
      rw [Gap.ofTexts, ← same]
      rfl
    rwa [all_ofTexts, Multiset.coe_eq_zero] at none
  exact ⟨_, (readGap_of_hasComments gaps g p').trans (readGap_of_readGap h g _)⟩

/-- A closing tag, and what follows it. -/
theorem readCode_closeTag {s : List Char} {p q : Position} {g : Gap} {c : Char} (gap : readGap .empty p s = .ok (g, q, c :: cs))
    (tag : c = '?' ∧ headIs (· == '>') cs) :
    readCode p s =
      let n := 1 + lineEndLength (cs.drop 1)
      let q' := q.after (c :: cs.take n)
      match readText q' (cs.drop n) with
      | .source html => .ok (token .closeTag "?>" q q' g :: html ++ [eofToken (q'.after (cs.drop n)) .empty])
      | .code tokens read =>
        (readCode (q'.after ((cs.drop n).take read)) ((cs.drop n).drop read)).map (token .closeTag "?>" q q' g :: tokens ++ ·) := by
  rw [readCode]
  split
  next failed => rw [gap] at failed; cases failed
  next read => rw [gap] at read; cases read
  next read =>
    rw [gap] at read
    cases read
    exact if_pos tag

theorem exists_readGap_of_readCode {s : List Char} {p : Position} {ts : List Token} (h : readCode p s = .ok ts) :
    ∃ g q cs, readGap .empty p s = .ok (g, q, cs) := by
  cases gap : readGap .empty p s with
  | ok r => exact ⟨_, _, _, rfl⟩
  | error e =>
    rw [readCode] at h
    split at h
    next => cases h
    next read => rw [gap] at read; cases read
    next read => rw [gap] at read; cases read

/-- Code behind two gaps is read as the same tokens. -/
theorem exists_readCode_behind {s t : List Char} {g g' : Gap} {p p' q q' : Position} {ts : List Token}
    (left : readGap .empty p s = .ok (g, q, cs)) (right : readGap .empty p' t = .ok (g', q', cs)) (h : readCode p s = .ok ts) :
    ∃ us, readCode p' t = .ok us ∧ SameBehind g g' ts us := by
  fun_induction readCode p s generalizing t g g' p' q q' cs ts with
  | case1 p s e failed =>
    rw [failed] at left
    cases left
  | case2 p s h q gap =>
    rw [gap] at left
    cases left
    cases h
    exact ⟨_, readCode_nil right, .eof _ _⟩
  | case3 p s d r c rest gap tag n r' =>
    rename_i html text
    rw [gap] at left
    cases left
    cases h
    obtain ⟨html', text', same⟩ := exists_readText_source text (q'.after (c :: rest.take (1 + lineEndLength (rest.drop 1))))
    rw [readCode_closeTag right tag]
    dsimp only
    rw [text']
    refine ⟨_, rfl, .token ?_⟩
    have tail (t u : Position) : (html' ++ [eofToken t .empty]).map Token.unplaced = (html ++ [eofToken u .empty]).map Token.unplaced := by
      rw [List.map_append, List.map_append, same]
      rfl
    exact tail _ _
  | case4 p s d r c rest gap tag n r' close tokens =>
    rename_i read text ih
    rw [gap] at left
    cases left
    obtain ⟨us, code, rfl⟩ := exists_of_map_eq_ok h
    obtain ⟨tokens', text', same⟩ := exists_readText_code text (q'.after (c :: rest.take (1 + lineEndLength (rest.drop 1))))
    obtain ⟨g₁, q₁, cs₁, gap₁⟩ := exists_readGap_of_readCode code
    obtain ⟨q₂, gap₂⟩ := readGap_moved gap₁ ((q'.after (c :: rest.take (1 + lineEndLength (rest.drop 1)))).after
      ((rest.drop (1 + lineEndLength (rest.drop 1))).take read))
    obtain ⟨vs, code', behind⟩ := ih gap₁ gap₂ code
    rw [readCode_closeTag right tag]
    dsimp only
    rw [text']
    dsimp only
    rw [code']
    refine ⟨_, rfl, .token ?_⟩
    have tail : (tokens' ++ vs).map Token.unplaced = (tokens ++ us).map Token.unplaced := by
      rw [List.map_append, List.map_append, same, behind.unplaced]
    exact tail
  | case5 p s d r c rest gap other fault => cases h
  | case6 p s d r c rest gap other lexeme scanned =>
    rename_i ih
    rw [gap] at left
    cases left
    obtain ⟨us, code, rfl⟩ := exists_of_map_eq_ok h
    have found := lexemeAt?_of_readGap gap other scanned
    obtain ⟨g₁, q₁, cs₁, gap₁⟩ := exists_readGap_of_readCode code
    obtain ⟨q₂, gap₂⟩ := readGap_moved gap₁ (q'.after (c :: rest.take lexeme.more))
    obtain ⟨vs, code', behind⟩ := ih gap₁ gap₂ code
    rw [readCode_lexeme right found, code']
    exact ⟨_, rfl, .token behind.unplaced⟩

/-- Code in another place is read as the same tokens. -/
theorem exists_readCode_moved {p : Position} {ts : List Token} (h : readCode p cs = .ok ts) (q : Position) :
    ∃ us, readCode q cs = .ok us ∧ us.map Token.unplaced = ts.map Token.unplaced := by
  obtain ⟨g, p', rest, gap⟩ := exists_readGap_of_readCode h
  obtain ⟨q', gap'⟩ := readGap_moved gap q
  obtain ⟨us, read, behind⟩ := exists_readCode_behind gap gap' h
  exact ⟨us, read, behind.unplaced⟩

end Lexer

end Codewright.Php
