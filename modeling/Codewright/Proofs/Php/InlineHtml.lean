import Codewright.Php.Printer
import Codewright.Proofs.Php.ClassText
import Codewright.Proofs.Php.Climbing

/-!
# Text between code

A text section is printed between a closing tag and an opening tag. The closing tag takes a line end with it, so a text that
begins with one comes back without it.

* `IsHtml cs` – no opening tag begins in the characters, whatever tag follows them; so it is of every text section that the
  lexer reads (`isHtml_take`, `isHtml_of_none`);
* `spells_inlineHtml` – the printed text section is read without its first line end, wherever it stands;
* `htmlTexts_print` – a file of one text section; `htmlTexts_print_eq_iff`: when it keeps its text;
* `KeepsInlineHtml` – the text sections of a source are those of what is printed of it; `not_keepsInlineHtml` – not of every
  source.
-/

namespace Codewright.Php

open Text Source

namespace Lexer

/-! ## Texts without opening tags -/

theorem openTagAt?_eq_some_iff {cs : List Char} {kind : TokenKind} : openTagAt? cs = some kind ↔
    (∃ rest, cs = '<' :: '?' :: '=' :: rest ∧ kind = .openTagEcho) ∨
      ∃ p h q rest, cs = '<' :: '?' :: p :: h :: q :: rest ∧ [p, h, q].map Char.toLower = ['p', 'h', 'p'] ∧
        rest.head?.all isSpace = true ∧ kind = .openTag := by
  constructor
  · intro found
    unfold openTagAt? at found
    split at found
    · next rest =>
      cases found
      exact .inl ⟨rest, rfl, rfl⟩
    · next p h q rest _ =>
      split at found
      · next long =>
        cases found
        rw [Bool.and_eq_true, decide_eq_true_eq] at long
        exact .inr ⟨p, h, q, rest, rfl, long.1, long.2, rfl⟩
      · cases found
    · cases found
  · rintro (⟨rest, rfl, rfl⟩ | ⟨p, h, q, rest, rfl, lower, blank, rfl⟩)
    · rfl
    · have not_short : p ≠ '=' := by
        rintro rfl
        exact absurd (List.cons.inj lower).1 (by decide)
      unfold openTagAt?
      split
      · next same =>
        cases same
        exact absurd rfl not_short
      · next same =>
        cases same
        apply if_pos
        rw [Bool.and_eq_true, decide_eq_true_eq]
        exact ⟨lower, blank⟩
      · next other => exact absurd rfl (other p h q rest)

/-- No opening tag begins in the characters, when another tag follows. -/
def IsHtml (cs : List Char) : Prop := ∀ front back, cs = front ++ back → back ≠ [] → openTagAt? (back ++ ['<']) = none

/-- An opening tag that begins in front of another tag ends there, so it does not matter what follows. -/
theorem openTagAt?_append {cs rest : List Char} {kind : TokenKind} (ne_nil : cs ≠ [])
    (found : openTagAt? (cs ++ '<' :: rest) = some kind) (tail : List Char) : openTagAt? (cs ++ tail) = some kind := by
  rcases openTagAt?_eq_some_iff.1 found with ⟨r, same, rfl⟩ | ⟨p, h, q, r, same, lower, blank, rfl⟩
  · match cs, ne_nil with
    | [_], _ => simp at same
    | [_, _], _ => simp at same
    | _ :: _ :: _ :: cs, _ =>
      simp only [List.cons_append, List.cons.injEq] at same
      obtain ⟨rfl, rfl, rfl, -⟩ := same
      exact openTagAt?_eq_some_iff.2 (.inl ⟨cs ++ tail, rfl, rfl⟩)
  · have no_letter : Char.toLower '<' ≠ 'p' ∧ Char.toLower '<' ≠ 'h' := by decide
    simp only [List.map_cons, List.map_nil, List.cons.injEq, and_true] at lower
    match cs, ne_nil with
    | [_], _ => simp at same
    | [_, _], _ =>
      simp only [List.cons_append, List.nil_append, List.cons.injEq] at same
      obtain ⟨-, -, rfl, -⟩ := same
      exact absurd lower.1 no_letter.1
    | [_, _, _], _ =>
      simp only [List.cons_append, List.nil_append, List.cons.injEq] at same
      obtain ⟨-, -, -, rfl, -⟩ := same
      exact absurd lower.2.1 no_letter.2
    | [_, _, _, _], _ =>
      simp only [List.cons_append, List.nil_append, List.cons.injEq] at same
      obtain ⟨-, -, -, -, rfl, -⟩ := same
      exact absurd lower.2.2 no_letter.1
    | [_, _, _, _, _], _ =>
      simp only [List.cons_append, List.nil_append, List.cons.injEq] at same
      obtain ⟨-, -, -, -, -, rfl⟩ := same
      have no_blank : isSpace '<' = false := by decide
      simp [no_blank] at blank
    | _ :: _ :: _ :: _ :: _ :: b :: cs, _ =>
      simp only [List.cons_append, List.cons.injEq] at same
      obtain ⟨rfl, rfl, same₂, same₃, same₄, rfl⟩ := same
      refine openTagAt?_eq_some_iff.2 (.inr ⟨p, h, q, b :: cs ++ tail, ?_, ?_, blank, rfl⟩)
      · rw [same₂, same₃, same₄]
        rfl
      · simp [lower]

theorem openTagAt?_append_none {cs tail : List Char} (ne_nil : cs ≠ []) (none_there : openTagAt? (cs ++ tail) = none)
    (rest : List Char) : openTagAt? (cs ++ '<' :: rest) = none := by
  cases found : openTagAt? (cs ++ '<' :: rest) with
  | none => rfl
  | some kind =>
    rw [openTagAt?_append ne_nil found tail] at none_there
    cases none_there

theorem isHtml_nil : IsHtml [] := by
  intro front back same ne_nil
  exact absurd (List.append_eq_nil_iff.1 same.symm).2 ne_nil

theorem isHtml_cons {c : Char} {cs tail : List Char} (none_here : openTagAt? (c :: cs ++ tail) = none) (h : IsHtml cs) :
    IsHtml (c :: cs) := by
  intro front back same ne_nil
  cases front with
  | nil =>
    have same : c :: cs = back := same
    subst same
    exact openTagAt?_append_none ne_nil none_here []
  | cons _ front => exact h front back (List.cons.inj same).2 ne_nil

/-- What is left of a text behind some characters. -/
theorem IsHtml.drop {cs : List Char} (h : IsHtml cs) (n : Nat) : IsHtml (cs.drop n) := by
  intro front back same
  apply h (cs.take n ++ front)
  rw [List.append_assoc, ← same, List.take_append_drop]

/-- The text in front of an opening tag that has been found. -/
theorem isHtml_take {cs : List Char} {n : Nat} {kind : TokenKind} (h : findOpenTag? cs = some (n, kind)) :
    IsHtml (cs.take n) := by
  induction cs generalizing n with
  | nil => cases h
  | cons c cs ih =>
    rw [findOpenTag?] at h
    split at h
    · cases h
      exact isHtml_nil
    · next none_here =>
      obtain ⟨r, found, same⟩ := Option.map_eq_some_iff.1 h
      cases same
      have whole : c :: cs.take r.1 ++ cs.drop r.1 = c :: cs := by rw [List.cons_append, List.take_append_drop]
      exact isHtml_cons (whole ▸ none_here) (ih found)

/-- The text at the end of a source. -/
theorem isHtml_of_none {cs : List Char} (h : findOpenTag? cs = none) : IsHtml cs := by
  induction cs with
  | nil => exact isHtml_nil
  | cons c cs ih =>
    rw [findOpenTag?] at h
    split at h
    · cases h
    · next none_here =>
      have whole : c :: cs ++ [] = c :: cs := List.append_nil _
      exact isHtml_cons (whole ▸ none_here) (ih (Option.map_eq_none_iff.1 h))

/-- The opening tag behind a text is the first one. -/
theorem findOpenTag?_isHtml {cs rest : List Char} {kind : TokenKind} (h : IsHtml cs)
    (tag : openTagAt? ('<' :: rest) = some kind) : findOpenTag? (cs ++ '<' :: rest) = some (cs.length, kind) := by
  induction cs with
  | nil => simp [findOpenTag?, tag]
  | cons c cs ih =>
    have none_here : openTagAt? (c :: cs ++ '<' :: rest) = none :=
      openTagAt?_append_none (List.cons_ne_nil c cs) (h [] (c :: cs) rfl (List.cons_ne_nil c cs)) rest
    have behind : IsHtml cs := h.drop 1
    rw [List.cons_append] at none_here ⊢
    rw [findOpenTag?, none_here, ih behind]
    rfl

/-! ## Printed texts -/

/-- The tokens of a text section without the tags around it. -/
def htmlFaces (cs : List Char) : List Face := if cs.isEmpty then [] else [(.inlineHtml, String.ofList cs)]

theorem faces_textToken (cs : List Char) (p : Position) : (textToken cs p).map Token.face = htmlFaces cs := by
  unfold textToken htmlFaces
  split <;> rfl

/-- The line end at the start of a text does not depend on the opening tag behind it. -/
theorem lineEndLength_append (cs rest : List Char) : lineEndLength (cs ++ '<' :: rest) = lineEndLength cs := by
  fun_cases lineEndLength cs with
  | case1 => rfl
  | case2 => rfl
  | case3 cs no_return no_feed =>
    unfold lineEndLength
    split
    · next more same =>
      match cs with
      | [] => cases same
      | [_] => cases same
      | c :: d :: cs =>
        cases same
        exact absurd rfl (no_return cs)
    · next more _ same =>
      match cs with
      | [] => cases same
      | c :: cs =>
        cases same
        exact absurd rfl (no_feed cs)
    · rfl

theorem lineEndLength_le (cs : List Char) : lineEndLength cs ≤ cs.length := by
  unfold lineEndLength
  split <;> simp

/-- A text section up to an opening tag on a line of its own. -/
theorem readText_isHtml {html : List Char} (h : IsHtml html) (p : Position) (rest : List Char) :
    readText p (html ++ (openingTag '\n' ++ rest)) =
      .code (textToken html p ++
        [token .openTag "<?php" (p.after html) ((p.after html).after (openingTag '\n')) .empty]) (html.length + 6) := by
  have tag : openTagAt? (openingTag '\n' ++ rest) = some .openTag :=
    openTagAt?_eq_some_iff.2 (.inr ⟨'p', 'h', 'p', '\n' :: rest, rfl, by decide, (show isSpace '\n' = true by decide), rfl⟩)
  have found : findOpenTag? (html ++ (openingTag '\n' ++ rest)) = some (html.length, .openTag) :=
    findOpenTag?_isHtml h tag
  have behind : (html ++ (openingTag '\n' ++ rest)).drop (html.length + 5) = '\n' :: rest := by
    rw [← List.drop_drop, List.drop_left]
    rfl
  rw [readText, found]
  simp only [List.take_left, List.drop_left]
  show TextEnd.code (textToken html p ++ [token .openTag "<?php" (p.after html) ((p.after html).after
    (_ ++ ((html ++ (openingTag '\n' ++ rest)).drop (html.length + 5)).take (swallowedAfterOpen .openTag
      ((html ++ (openingTag '\n' ++ rest)).drop (html.length + 5))))) .empty]) (html.length + 5 + swallowedAfterOpen .openTag
      ((html ++ (openingTag '\n' ++ rest)).drop (html.length + 5))) = _
  rw [behind]
  rfl

/-- **A text section loses its first line end.** The printed text between its tags is the tokens of the tags and of the text
behind its first line end. -/
theorem spells_inlineHtml {html : List Char} (h : IsHtml html) (rest : List Char) :
    Spells ('?' :: '>' :: (html ++ openingTag '\n'))
      ((.closeTag, "?>") :: (htmlFaces (html.drop (lineEndLength html)) ++ [(.openTag, "<?php")])) rest := by
  intro p
  have no_gap : gapPiece? '?' ('>' :: (html ++ (openingTag '\n' ++ rest))) = .ok none := rfl
  have le := lineEndLength_le html
  have line_end : lineEndLength (html ++ (openingTag '\n' ++ rest)) = lineEndLength html := lineEndLength_append html _
  have taken : (html ++ (openingTag '\n' ++ rest)).take (lineEndLength html) = html.take (lineEndLength html) :=
    List.take_append_of_le_length le
  have left : (html ++ (openingTag '\n' ++ rest)).drop (lineEndLength html) =
      html.drop (lineEndLength html) ++ (openingTag '\n' ++ rest) :=
    List.drop_append_of_le_length le
  rw [List.cons_append, List.cons_append, List.append_assoc, Lexer.codeFaces_eq, readGap_of_lexeme no_gap]
  show facesBehind (p, '?' :: '>' :: (html ++ (openingTag '\n' ++ rest))) = _
  rw [facesBehind, if_pos ⟨rfl, rfl⟩]
  simp only [List.drop_succ_cons, List.drop_zero, line_end, Nat.add_comm 1, List.take_succ_cons, taken, left,
    readText_isHtml (h.drop _)]
  -- What the tags and the text cover, and what is left behind them.
  have length : (html.drop (lineEndLength html) ++ openingTag '\n').length =
      (html.drop (lineEndLength html)).length + 6 := by
    rw [List.length_append]
    rfl
  have place : (p.after ('?' :: '>' :: html.take (lineEndLength html))).after
      (html.drop (lineEndLength html) ++ openingTag '\n') = p.after ('?' :: '>' :: (html ++ openingTag '\n')) := by
    rw [← Position.after_append, List.cons_append, List.cons_append, ← List.append_assoc, List.take_append_drop]
  rw [← List.append_assoc, ← length, List.take_left, List.drop_left, place, codeFaces]
  cases readCode (p.after ('?' :: '>' :: (html ++ openingTag '\n'))) rest with
  | error e => rfl
  | ok ts =>
    simp only [Except.map, List.map_append, faces_textToken]
    rfl

end Lexer

/-! ## Files -/

/-- The texts of the text sections among tokens. -/
def htmlTexts (tokens : List Token) : List String :=
  (tokens.filter fun t => t.kind == .inlineHtml).map Token.text

/-- The same of the faces of tokens. -/
theorem htmlTexts_eq (tokens : List Token) :
    htmlTexts tokens = ((tokens.map Token.face).filter fun f => f.1 == .inlineHtml).map Prod.snd := by
  rw [htmlTexts, List.filter_map, List.map_map]
  rfl

/-- The file that consists of a text section alone. -/
def File.ofHtml (html : String) : File := ⟨.cons (.inlineHtml html) .nil, .nowhere⟩

theorem File.toList_print_ofHtml (indent html : String) :
    ((File.ofHtml html).print indent).toList =
      Lexer.openingTag '\n' ++ ('\n' :: ('?' :: '>' :: (html.toList ++ Lexer.openingTag '\n'))) := by
  show Doc.chars indent (File.ofHtml html).doc = _
  have doc : (File.ofHtml html).doc = [.text "<?php\n", .text "\n", .text ("?>" ++ html ++ "<?php\n")] := rfl
  rw [doc]
  simp [Lexer.openingTag]

/-- A text section is read back without its first line end. -/
theorem htmlTexts_print (indent : String) {html : String} (h : Lexer.IsHtml html.toList) :
    ∃ tokens, tokenize ((File.ofHtml html).print indent) = .ok tokens ∧
      htmlTexts tokens = (Lexer.htmlFaces (html.toList.drop (Lexer.lineEndLength html.toList))).map Prod.snd := by
  have spelled : Lexer.Spells ('\n' :: ('?' :: '>' :: (html.toList ++ Lexer.openingTag '\n'))) _ [] :=
    (Lexer.spells_inlineHtml h []).newline
  obtain ⟨tokens, read, faces⟩ :=
    Lexer.tokenize_openingTag (show '\n' ∈ [' ', '\n'] by decide) (File.toList_print_ofHtml indent html) spelled
  refine ⟨tokens, read, ?_⟩
  rw [htmlTexts_eq, faces]
  unfold Lexer.htmlFaces
  split <;> rfl

/-- A text section keeps its text if and only if it begins with no line end. -/
theorem htmlTexts_print_eq_iff (indent : String) {html : String} (h : Lexer.IsHtml html.toList) (some_text : html ≠ "") :
    ∃ tokens, tokenize ((File.ofHtml html).print indent) = .ok tokens ∧
      (htmlTexts tokens = [html] ↔ Lexer.lineEndLength html.toList = 0) := by
  obtain ⟨tokens, read, texts⟩ := htmlTexts_print indent h
  refine ⟨tokens, read, ?_⟩
  have more : html.toList ≠ [] := by simpa using some_text
  rw [texts]
  unfold Lexer.htmlFaces
  constructor
  · intro kept
    split at kept
    · cases kept
    · have text : String.ofList (html.toList.drop (Lexer.lineEndLength html.toList)) = html :=
        List.head_eq_of_cons_eq kept
      have same : html.toList.drop (Lexer.lineEndLength html.toList) = html.toList := by
        simpa using congrArg String.toList text
      have length := congrArg List.length same
      rw [List.length_drop] at length
      have positive := List.length_pos_iff.2 more
      omega
  · intro none_there
    simp [none_there, some_text]

/-! ## Sources -/

/-- The text sections of a source that can be read are those of what is printed of it. -/
def KeepsInlineHtml (source : String) : Prop :=
  ∀ f tokens, tokenize source = .ok tokens → parse source = .ok f →
    ∃ tokens', tokenize (f.print usualIndent) = .ok tokens' ∧ htmlTexts tokens' = htmlTexts tokens

/-- The first of two line ends behind a closing tag belongs to the tag. The second one is printed directly behind a closing
tag, and is lost. -/
theorem not_keepsInlineHtml : ¬KeepsInlineHtml "<?php ?>\n\nfoo" := by
  have before : (tokenize "<?php ?>\n\nfoo").toOption.map htmlTexts = some ["\nfoo"] := by decide +kernel
  have after : ((parse "<?php ?>\n\nfoo").toOption.bind fun f => (tokenize (f.print usualIndent)).toOption).map htmlTexts =
      some ["foo"] := by
    decide +kernel
  intro keeps
  cases read : tokenize "<?php ?>\n\nfoo" with
  | error _ =>
    rw [read] at before
    cases before
  | ok tokens =>
    cases tree : parse "<?php ?>\n\nfoo" with
    | error _ =>
      rw [tree] at after
      cases after
    | ok f =>
      obtain ⟨tokens', again, same⟩ := keeps f tokens read tree
      rw [read] at before
      rw [tree] at after
      have after : (tokenize (f.print usualIndent)).toOption.map htmlTexts = some ["foo"] := after
      rw [again] at after
      have before : htmlTexts tokens = ["\nfoo"] := Option.some.inj before
      have after : htmlTexts tokens' = ["foo"] := Option.some.inj after
      rw [before, after] at same
      exact absurd same (by decide)

end Codewright.Php
