import Codewright.Proofs.Php.InlineHtml
import Codewright.Proofs.Php.PrintedComment

/-!
# Code that is indented in another way

* `Reindented s t` – two texts of code that differ in the spaces behind line feeds, where no token goes on behind them;
* `Reindented.readGap`, `Reindented.drop` – what a gap and a lexeme take from both texts;
* `Token.content` – a token without its place, with what its comments say;
* `Reindented.readCode_tail` – such texts are read as tokens of the same content.
-/

namespace Codewright.Php

open Text Source

/-- The kind and text of a token, and what the lines of its comments say. -/
def Token.content (t : Token) : Face × Option (List (List Char)) × List (List (List Char)) :=
  (t.face, t.doc.map commentLines, t.comments.map commentLines)

namespace Lexer

variable {s t : List Char}

/-- Two texts of code that differ in the indentation of their lines: characters of code, tokens that keep their text, line feeds
with spaces behind them, and comments and text sections on lines of their own. -/
inductive Reindented : List Char → List Char → Prop where
  | nil : Reindented [] []
  | char {c : Char} {s t : List Char} : isCode c s = true → Reindented s t → Reindented (c :: s) (c :: t)
  | raw {text s t : List Char} : IsRaw text → headIs isIdentChar s = false → Reindented s t →
      Reindented (text ++ s) (text ++ t)
  | feed {i j s t : List Char} : (∀ c ∈ i, c = ' ') → (∀ c ∈ j, c = ' ') → Reindented s t →
      Reindented ('\n' :: (i ++ s)) ('\n' :: (j ++ t))
  | comment {i j a b s t : List Char} : (∀ c ∈ i, c = ' ') → (∀ c ∈ j, c = ' ') → SameComment a b →
      Reindented ('\n' :: s) ('\n' :: t) → Reindented ('\n' :: (i ++ (a ++ '\n' :: s))) ('\n' :: (j ++ (b ++ '\n' :: t)))
  | html {text s t : List Char} : IsHtml text → Reindented ('\n' :: s) ('\n' :: t) →
      Reindented ('\n' :: '?' :: '>' :: (text ++ (openingTag '\n' ++ s))) ('\n' :: '?' :: '>' :: (text ++ (openingTag '\n' ++ t)))

theorem SameLine.append_left (h : SameLine s t) (front : List Char) : SameLine (front ++ s) (front ++ t) := by
  induction front with
  | nil => exact h
  | cons c front ih => exact .cons c ih

theorem Reindented.sameLine (h : Reindented s t) : SameLine s t := by
  induction h with
  | nil => exact .nil
  | char _ _ ih => exact .cons _ ih
  | raw _ _ _ ih => exact ih.append_left _
  | feed _ _ _ _ => exact .feed _ _
  | comment _ _ _ _ _ => exact .feed _ _
  | html _ _ _ => exact .feed _ _

/-- What stands behind the characters of a lexeme. -/
theorem Reindented.drop (h : Reindented s t) {c : Char} (code : isCode c s = true) {n : Nat}
    (joins : joined c (s.take n) = true) : Reindented (s.drop n) (t.drop n) := by
  induction n generalizing s t c with
  | zero => exact h
  | succ n ih =>
    cases h with
    | nil => exact .nil
    | @char d s t code' h =>
      rw [List.take_succ_cons, joined, Bool.and_eq_true] at joins
      exact ih h code' joins.2
    | @raw text s t raw ends h =>
      exfalso
      rcases raw.begins with ⟨d, member, first⟩ | ⟨more, rfl⟩
      · obtain ⟨text, rfl⟩ := List.head?_eq_some_iff.1 first
        rw [List.cons_append, List.take_succ_cons, joined, Bool.and_eq_true] at joins
        simp only [List.mem_cons, List.not_mem_nil, or_false] at member
        rcases member with rfl | rfl | rfl | rfl <;> exact Bool.noConfusion (show false = true from joins.1)
      · rw [List.cons_append, List.cons_append, List.cons_append, List.take_succ_cons, joined, Bool.and_eq_true] at joins
        have bracket : c = '<' := by simpa [show isInner '<' = false from rfl] using joins.1
        subst bracket
        cases code
    | feed _ _ _ => exact absurd rfl (ne_feed_of_joined joins '\n' (by simp))
    | comment _ _ _ _ => exact absurd rfl (ne_feed_of_joined joins '\n' (by simp))
    | html _ _ => exact absurd rfl (ne_feed_of_joined joins '\n' (by simp))

/-! ## Gaps -/

/-- Two texts behind gaps: their ends, characters of code, tokens that keep their text, or text sections. -/
inductive Ahead : List Char → List Char → Prop where
  | nil : Ahead [] []
  | char {c : Char} {s t : List Char} : isCode c s = true → isSpace c = false → Reindented s t → Ahead (c :: s) (c :: t)
  | raw {text s t : List Char} : IsRaw text → headIs isIdentChar s = false → Reindented s t → Ahead (text ++ s) (text ++ t)
  | html {text s t : List Char} : IsHtml text → Reindented ('\n' :: s) ('\n' :: t) →
      Ahead ('?' :: '>' :: (text ++ (openingTag '\n' ++ s))) ('?' :: '>' :: (text ++ (openingTag '\n' ++ t)))

theorem readGap_space {c : Char} (space : isSpace c = true) (g : Gap) (p : Position) (s : List Char) :
    readGap g p (c :: s) = readGap g (p.after [c]) s := by
  have blank : gapPiece? c s = .ok (some (.blank, 0)) := by simp [gapPiece?, space]
  rw [readGap_cons, blank]
  rfl

theorem readGap_spaces {w : List Char} (space : ∀ c ∈ w, c = ' ') (g : Gap) (p : Position) (s : List Char) :
    ∃ q, readGap g p (w ++ s) = readGap g q s := by
  induction w generalizing p with
  | nil => exact ⟨p, rfl⟩
  | cons c w ih =>
    rw [List.forall_mem_cons] at space
    obtain ⟨q, same⟩ := ih space.2 (p.after [c])
    exact ⟨q, by rw [List.cons_append, readGap_space (by rw [space.1]; rfl), same]⟩

/-- The place of a gap does not matter. -/
theorem readGap_moved {g h : Gap} {p p' : Position} {cs rest : List Char} (read : readGap g p cs = .ok (h, p', rest))
    (q : Position) : ∃ q', readGap g q cs = .ok (h, q', rest) := by
  fun_induction readGap g p cs generalizing q with
  | case1 g p =>
    cases read
    exact ⟨q, readGap_nil _ q⟩
  | case2 g p c cs u unterminated => cases read
  | case3 g p c cs lexeme =>
    cases read
    exact ⟨q, readGap_of_lexeme lexeme⟩
  | case4 g p c cs piece n found ih =>
    obtain ⟨q', later⟩ := ih read (q.after (c :: cs.take n))
    exact ⟨q', by rw [readGap_cons, found]; exact later⟩

/-- A gap that begins with a line feed. -/
theorem readGap_feed (g : Gap) (p : Position) {w : List Char} (space : ∀ c ∈ w, c = ' ') (s : List Char) :
    ∃ q, readGap g p ('\n' :: (w ++ s)) = readGap g q s := by
  rw [readGap_space rfl]
  exact readGap_spaces space g _ s

theorem readGap_piece {c : Char} {cs rest : List Char} {piece : GapPiece}
    (h : gapPiece? c (cs ++ rest) = .ok (some (piece, cs.length))) (g : Gap) (p : Position) :
    readGap g p (c :: cs ++ rest) = readGap (g.add (c :: cs) piece) (p.after (c :: cs)) rest := by
  rw [List.cons_append, readGap_cons, h]
  simp only [List.take_left, List.drop_left]

theorem readGap_of_lexemeAt? {lexeme : Lexeme} (h : lexemeAt? s = some lexeme) (g : Gap) (p : Position) :
    readGap g p s = .ok (g, p, s) := by
  cases s with
  | nil => cases h
  | cons c s =>
    rw [lexemeAt?] at h
    split at h
    · cases h
    · split at h
      · next no_gap => exact readGap_of_lexeme no_gap
      · cases h

/-- A gap is read from both texts, with comments that say the same. -/
theorem Reindented.readGap (h : Reindented s t) {g g' : Gap} (same : g.lines = g'.lines) (p q : Position) :
    ∃ h h' p' q' s' t', readGap g p s = .ok (h, p', s') ∧ readGap g' q t = .ok (h', q', t') ∧ h.lines = h'.lines ∧
      Ahead s' t' := by
  induction h generalizing g g' p q with
  | nil => exact ⟨g, g', p, q, [], [], Lexer.readGap_nil g p, Lexer.readGap_nil g' q, same, .nil⟩
  | @char c s t code h ih =>
    cases space : isSpace c with
    | true =>
      rw [readGap_space space, readGap_space space]
      exact ih same _ _
    | false =>
      obtain ⟨lexeme, left, right, -⟩ := exists_lexeme code space h.sameLine
      exact ⟨g, g', p, q, _, _, readGap_of_lexemeAt? left g p, readGap_of_lexemeAt? right g' q, same, .char code space h⟩
  | @raw text s t raw ends h _ =>
    obtain ⟨kind, read⟩ := raw.lexeme
    have left := read s ends
    have right := read t (h.sameLine.headIs_eq _ ▸ ends)
    exact ⟨g, g', p, q, _, _, readGap_of_lexemeAt? left g p, readGap_of_lexemeAt? right g' q, same, .raw raw ends h⟩
  | feed hi hj _ ih =>
    obtain ⟨p', left⟩ := readGap_feed g p hi _
    obtain ⟨q', right⟩ := readGap_feed g' q hj _
    rw [left, right]
    exact ih same p' q'
  | comment hi hj comment _ ih =>
    obtain ⟨c, a, b, piece, rfl, rfl, read, read', keeps⟩ := comment
    obtain ⟨p', left⟩ := readGap_feed g p hi _
    obtain ⟨q', right⟩ := readGap_feed g' q hj _
    rw [left, right, readGap_piece (read _), readGap_piece (read' _)]
    exact ih (keeps g g' same) _ _
  | html is_html h _ =>
    have space : isSpace '\n' = true := rfl
    rw [readGap_space space, readGap_space space]
    exact ⟨g, g', _, _, _, _, readGap_of_lexeme rfl, readGap_of_lexeme rfl, same, .html is_html h⟩

/-- The same behind a line feed that belongs to the token in front of it. -/
theorem Reindented.readGap_tail (h : Reindented ('\n' :: s) ('\n' :: t)) (p q : Position) :
    ∃ g g' p' q' s' t', Lexer.readGap .empty p s = .ok (g, p', s') ∧ Lexer.readGap .empty q t = .ok (g', q', t') ∧
      g.lines = g'.lines ∧ Ahead s' t' := by
  obtain ⟨g, g', p', q', s', t', left, right, same, ahead⟩ := h.readGap (g := .empty) rfl .origin .origin
  rw [readGap_space rfl] at left right
  obtain ⟨p', left⟩ := readGap_moved left p
  obtain ⟨q', right⟩ := readGap_moved right q
  exact ⟨g, g', p', q', s', t', left, right, same, ahead⟩

/-! ## Tokens -/

theorem readCode_nil {p q : Position} {g : Gap} (gap : readGap .empty p s = .ok (g, q, [])) :
    readCode p s = .ok [eofToken q g] := by
  rw [readCode]
  split
  next failed => rw [gap] at failed; cases failed
  next read => rw [gap] at read; cases read; rfl
  next read => rw [gap] at read; cases read

theorem readCode_lexeme {p q : Position} {g : Gap} {c : Char} {cs : List Char} {lexeme : Lexeme}
    (gap : readGap .empty p s = .ok (g, q, c :: cs)) (read : lexemeAt? (c :: cs) = some lexeme) :
    readCode p s =
      (readCode (q.after (c :: cs.take lexeme.more)) (cs.drop lexeme.more)).map
        (token lexeme.kind lexeme.text q (q.after (c :: cs.take lexeme.more)) g :: ·) := by
  rw [lexemeAt?] at read
  split at read
  · cases read
  next no_tag =>
  split at read
  · have scanned : scan c cs = .ok lexeme := by
      cases result : scan c cs with
      | error _ =>
        rw [result] at read
        cases read
      | ok l =>
        rw [result] at read
        cases read
        rfl
    rw [readCode]
    split
    next failed => rw [gap] at failed; cases failed
    next read => rw [gap] at read; cases read
    next read =>
      rw [gap] at read
      cases read
      rw [if_neg no_tag, scanned]
  · cases read

/-- A token whose text is known. -/
theorem readCode_text {p q : Position} {g : Gap} {c : Char} {cs rest : List Char} {kind : TokenKind} {text : String}
    (gap : readGap .empty p s = .ok (g, q, c :: cs ++ rest))
    (read : lexemeAt? (c :: cs ++ rest) = some ⟨kind, text, (c :: cs).length - 1⟩) :
    readCode p s = (readCode (q.after (c :: cs)) rest).map (token kind text q (q.after (c :: cs)) g :: ·) := by
  rw [readCode_lexeme gap read]
  simp only [List.length_cons, Nat.add_sub_cancel, List.append_eq, List.take_left, List.drop_left]

/-- The contents of the tokens of a text section and of the tags around it. -/
def htmlContents (g : Gap) (html : List Char) : List (Face × Option (List (List Char)) × List (List (List Char))) :=
  (((.closeTag, "?>"), g.lines) :: (htmlFaces (html.drop (lineEndLength html))).map fun f => (f, none, [])) ++
    [((.openTag, "<?php"), none, [])]

theorem content_textToken (cs : List Char) (p : Position) :
    (textToken cs p).map Token.content = (htmlFaces cs).map fun f => (f, none, []) := by
  unfold textToken htmlFaces
  split <;> rfl

/-- A text section with the tags around it is read whatever code follows. -/
theorem readCode_html {p q : Position} {g : Gap} {html rest : List Char} (is_html : IsHtml html)
    (gap : readGap .empty p s = .ok (g, q, '?' :: '>' :: (html ++ (openingTag '\n' ++ rest)))) :
    ∃ q' ts, readCode p s = (readCode q' rest).map (ts ++ ·) ∧ ts.map Token.content = htmlContents g html := by
  have le := lineEndLength_le html
  have line_end : lineEndLength (html ++ (openingTag '\n' ++ rest)) = lineEndLength html := lineEndLength_append html _
  have left : (html ++ (openingTag '\n' ++ rest)).drop (lineEndLength html) =
      html.drop (lineEndLength html) ++ (openingTag '\n' ++ rest) :=
    List.drop_append_of_le_length le
  have behind : (html.drop (lineEndLength html) ++ (openingTag '\n' ++ rest)).drop ((html.drop (lineEndLength html)).length + 6) =
      rest := by
    rw [← List.append_assoc]
    exact List.drop_left' (by rw [List.length_append]; rfl)
  rw [readCode]
  split
  next failed => rw [gap] at failed; cases failed
  next read => rw [gap] at read; cases read
  next read =>
    rw [gap] at read
    cases read
    rw [if_pos ⟨rfl, rfl⟩]
    simp only [List.drop_succ_cons, List.drop_zero, line_end, Nat.add_comm 1, List.take_succ_cons, left,
      readText_isHtml (is_html.drop _)]
    rw [behind]
    refine ⟨_, _, rfl, ?_⟩
    simp only [List.map_cons, List.map_append, content_textToken, htmlContents, List.cons_append]
    rfl

/-- Both readings succeed, with tokens of the same content. -/
def SameTokens (r r' : Except SyntaxError (List Token)) : Prop :=
  ∃ ts us, r = .ok ts ∧ r' = .ok us ∧ ts.map Token.content = us.map Token.content

theorem SameTokens.map {r r' : Except SyntaxError (List Token)} (h : SameTokens r r') {l m : List Token}
    (same : l.map Token.content = m.map Token.content) : SameTokens (r.map (l ++ ·)) (r'.map (m ++ ·)) := by
  obtain ⟨ts, us, rfl, rfl, same'⟩ := h
  exact ⟨_, _, rfl, rfl, by rw [List.map_append, List.map_append, same, same']⟩

theorem IsRaw.exists_cons {text : List Char} (h : IsRaw text) : ∃ c cs, text = c :: cs := by
  rcases h.begins with ⟨c, -, first⟩ | ⟨more, rfl⟩
  · obtain ⟨cs, rfl⟩ := List.head?_eq_some_iff.1 first
    exact ⟨c, cs, rfl⟩
  · exact ⟨_, _, rfl⟩

/-- The tokens of two texts whose gaps say the same, and what comes behind the gaps. -/
theorem Ahead.sameTokens {s' t' : List Char} (h : Ahead s' t') {g g' : Gap} (same : g.lines = g'.lines) {p p' q q' : Position}
    (gap : Lexer.readGap .empty p s = .ok (g, p', s')) (gap' : Lexer.readGap .empty q t = .ok (g', q', t')) :
    SameTokens (readCode p s) (readCode q t) := by
  induction size : s'.length using Nat.strongRecOn generalizing s t s' t' g g' p p' q q' with
  | _ size ih =>
    subst size
    -- Behind a token the texts go on with another gap.
    have later {u v : List Char} (h : Reindented u v) (shorter : u.length < s'.length) (p q : Position) :
        SameTokens (readCode p u) (readCode q v) := by
      obtain ⟨h₁, h₂, p₂, q₂, u₂, v₂, left, right, same, ahead⟩ := h.readGap (g := .empty) rfl p q
      exact ih _ (Nat.lt_of_le_of_lt (length_readGap_le left) shorter) ahead same left right rfl
    cases h with
    | nil =>
      refine ⟨_, _, readCode_nil gap, readCode_nil gap', ?_⟩
      obtain ⟨doc, comments⟩ := Prod.mk.inj same
      have docs : g.doc.toList.map commentLines = g'.doc.toList.map commentLines := by
        rw [← Option.toList_map, ← Option.toList_map, doc]
      simp [Token.content, Token.face, eofToken, Gap.all, comments, docs]
    | @char c s t code no_space h =>
      obtain ⟨lexeme, left, right, joins⟩ := exists_lexeme code no_space h.sameLine
      rw [readCode_lexeme gap left, readCode_lexeme gap' right]
      refine SameTokens.map (l := [_]) (m := [_]) (later (h.drop code joins) ?_ _ _) ?_
      · rw [List.length_drop, List.length_cons]
        omega
      · exact congrArg (fun lines => [((lexeme.kind, lexeme.text), lines)]) same
    | @raw text s t raw ends h =>
      obtain ⟨kind, read⟩ := raw.lexeme
      obtain ⟨c, cs, rfl⟩ := raw.exists_cons
      have left := read s ends
      have right := read t (h.sameLine.headIs_eq _ ▸ ends)
      rw [readCode_text gap left, readCode_text gap' right]
      refine SameTokens.map (l := [_]) (m := [_]) (later h ?_ _ _) ?_
      · rw [List.length_append, List.length_cons]
        omega
      · exact congrArg (fun lines => [((kind, String.ofList (c :: cs)), lines)]) same
    | @html html s t is_html h =>
      obtain ⟨p₁, ts, left, contents⟩ := readCode_html is_html gap
      obtain ⟨q₁, us, right, contents'⟩ := readCode_html is_html gap'
      rw [left, right]
      -- The tag takes the line feed in front of the code.
      obtain ⟨h₁, h₂, p₂, q₂, u₂, v₂, left, right, same', ahead⟩ := h.readGap_tail p₁ q₁
      refine SameTokens.map (ih _ ?_ ahead same' left right rfl) ?_
      · have le := length_readGap_le left
        simp only [List.length_cons, List.length_append]
        omega
      · rw [contents, contents', htmlContents, same, htmlContents]

/-- **Indentation does not matter.** Texts that differ in their indentation, behind a line feed that belongs to the token in front
of them, are read as tokens of the same content. -/
theorem Reindented.readCode_tail (h : Reindented ('\n' :: s) ('\n' :: t)) (p q : Position) :
    SameTokens (readCode p s) (readCode q t) := by
  obtain ⟨g, g', p', q', s', t', left, right, same, ahead⟩ := h.readGap_tail p q
  exact ahead.sameTokens same left right

end Lexer

end Codewright.Php
