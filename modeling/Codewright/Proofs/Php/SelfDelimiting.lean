import Codewright.Proofs.Php.Climbing
import Codewright.Proofs.Php.MovedTokens
import Codewright.Proofs.Php.Numerals

/-!
# Tokens that delimit themselves

A name, a variable, a number, a string or a group of attributes is told by its own text, as long as what follows does not go on with
it. So it may be taken out of its source and put elsewhere.

* `rawKinds` – the kinds of such tokens;
* `numberShape_take` – numbers; `lexemeAt?_take` – all of them;
* `exists_text_of_lexed` – where the token stands in its source;
* `raw_token_reread` – the text of a token behind an opening tag is the same token.
-/

namespace Codewright.Php

open Text Source

namespace Lexer

/-- The kinds of tokens that are put into other sources as they are written. -/
def rawKinds : List TokenKind := [.string, .int, .float, .ident, .attributeGroup, .variable]

variable {rest : List Char}

/-! ## Numbers -/

theorem spanLength_le (p : Char → Bool) (cs : List Char) : spanLength p cs ≤ cs.length := (List.takeWhile_prefix p).length_le

/-- A run of characters of a class, cut out in front of something else. -/
theorem spanLength_take {p : Char → Bool} (cs : List Char) (stop : headIs p rest = false) :
    spanLength p (cs.take (spanLength p cs) ++ rest) = spanLength p cs := by
  rw [spanLength_append (take_spanLength p cs) stop, List.length_take, Nat.min_eq_left (spanLength_le p cs)]

/-- A run keeps the character with which it begins. -/
theorem headIs_take_spanLength {p q : Char → Bool} {cs : List Char} (start : headIs q cs = true)
    (goes_on : ∀ c, q c = true → p c = true) : headIs q (cs.take (spanLength p cs)) = true := by
  cases cs with
  | nil => cases start
  | cons c cs =>
    rw [spanLength, List.takeWhile_cons, if_pos (goes_on c start)]
    exact start

theorem ne_nil_of_headIs {p : Char → Bool} {cs : List Char} (h : headIs p cs = true) : cs ≠ [] := by
  rintro rfl
  cases h

theorem isFractionText_take (cs : List Char) :
    fractionLength cs ≤ cs.length ∧ IsFractionText (cs.take (fractionLength cs)) := by
  unfold fractionLength
  split
  · next cs =>
    split
    · next digit =>
      have begins := headIs_take_spanLength digit isDigitOrSeparator_of_isDigit
      exact ⟨Nat.succ_le_succ (spanLength_le _ cs), .inr ⟨_, List.take_succ_cons, begins, take_spanLength _ cs⟩⟩
    · exact ⟨Nat.zero_le _, .inl rfl⟩
  · exact ⟨Nat.zero_le _, .inl rfl⟩

theorem isExponent_take (cs : List Char) : exponentLength cs ≤ cs.length ∧ IsExponent (cs.take (exponentLength cs)) := by
  cases cs with
  | nil => exact ⟨Nat.le_refl _, .inl rfl⟩
  | cons mark cs =>
    rw [exponentLength_cons]
    split
    · next is_mark =>
      split
      · next digit =>
        have signs : signLength cs ≤ cs.length ∧ (cs.take (signLength cs) = [] ∨ cs.take (signLength cs) = ['+'] ∨
            cs.take (signLength cs) = ['-']) := by
          unfold signLength
          split
          · next sign =>
            match cs, sign with
            | c :: cs, sign =>
              have sign : (c == '+' || c == '-') = true := sign
              rw [Bool.or_eq_true, beq_iff_eq, beq_iff_eq] at sign
              exact ⟨Nat.succ_le_succ (Nat.zero_le _), .inr (by simpa using sign)⟩
          · exact ⟨Nat.zero_le _, .inl rfl⟩
        have inside := spanLength_le Char.isDigit (cs.drop (signLength cs))
        rw [List.length_drop] at inside
        refine ⟨by rw [List.length_cons]; omega, .inr ⟨mark, cs.take (signLength cs), _, ?_, by simpa using is_mark, signs.2, ?_,
          take_spanLength Char.isDigit (cs.drop (signLength cs))⟩⟩
        · rw [Nat.add_assoc, Nat.add_comm 1, List.take_succ_cons, List.take_add]
        · exact ne_nil_of_headIs (headIs_take_spanLength digit fun _ h => h)
      · exact ⟨Nat.zero_le _, .inl rfl⟩
    · exact ⟨Nat.zero_le _, .inl rfl⟩

/-- Digits of a radix come behind a zero and its mark, and no boundary is one of them. -/
theorem exists_of_radixDigits? {cs : List Char} {p : Char → Bool} (h : radixDigits? cs = some p) :
    ∃ r digits, cs = '0' :: r :: digits ∧ (∀ other, radixDigits? ('0' :: r :: other) = some p) ∧
      ∀ c, isBoundary c = true → p c = false := by
  obtain ⟨⟨r, digits, rfl, -⟩, -⟩ := radixDigits?_spec h
  refine ⟨r, digits, rfl, fun _ => h, fun c boundary => ?_⟩
  simp only [radixDigits?] at h
  split at h
  · cases h
    simpa using forall_isBoundary (p := fun c => !(isHexDigit c || c == '_')) (by decide) c boundary
  split at h
  · cases h
    simpa using forall_isBoundary (p := fun c => !(c == '0' || c == '1' || c == '_')) (by decide) c boundary
  split at h
  · cases h
    have ends := forall_isBoundary (p := fun c => !(('0' ≤ c && c ≤ '7') || c == '_')) (by decide) c boundary
    rwa [Bool.not_eq_true'] at ends
  · cases h

/-- The parts of a number without a radix mark. -/
theorem exists_numberParts {c : Char} {cs : List Char} (start : (c.isDigit || (c == '.' && headIs Char.isDigit cs)) = true)
    (radix : radixDigits? (c :: cs) = none) :
    ∃ w f e tail, c :: cs = w ++ (f ++ e) ++ tail ∧ (w ≠ [] ∨ f ≠ []) ∧ (∀ d ∈ w, isDigitOrSeparator d = true) ∧
      IsFractionText f ∧ IsExponent e ∧
      numberShape (c :: cs) = (if f.length == 0 && e.length == 0 then .int else .float, w.length + f.length + e.length) := by
  have cut {n : Nat} {s : List Char} (le : n ≤ s.length) : (s.take n).length = n := by
    rw [List.length_take, Nat.min_eq_left le]
  have w_length := cut (spanLength_le isDigitOrSeparator (c :: cs))
  generalize w_eq : spanLength isDigitOrSeparator (c :: cs) = w at w_length
  obtain ⟨f_le, fraction⟩ := isFractionText_take ((c :: cs).drop w)
  have f_length := cut f_le
  generalize f_eq : fractionLength ((c :: cs).drop w) = f at fraction f_length
  obtain ⟨e_le, exponent⟩ := isExponent_take ((c :: cs).drop (w + f))
  have e_length := cut e_le
  generalize e_eq : exponentLength ((c :: cs).drop (w + f)) = e at exponent e_length
  refine ⟨(c :: cs).take w, ((c :: cs).drop w).take f, ((c :: cs).drop (w + f)).take e, (c :: cs).drop (w + f + e), ?_, ?_,
    w_eq ▸ take_spanLength isDigitOrSeparator (c :: cs), fraction, exponent, ?_⟩
  · rw [← List.append_assoc, ← List.take_add, ← List.take_add, List.take_append_drop]
  · rw [← List.length_pos_iff, ← List.length_pos_iff, w_length, f_length]
    rw [Bool.or_eq_true, Bool.and_eq_true, beq_iff_eq] at start
    rcases start with digit | ⟨rfl, digit⟩
    · have here := isDigitOrSeparator_of_isDigit c digit
      left
      rw [← w_eq, spanLength, List.takeWhile_cons, if_pos here]
      exact Nat.succ_pos _
    · obtain rfl : 0 = w := w_eq
      right
      rw [← f_eq, List.drop_zero, fractionLength, if_pos digit]
      exact Nat.succ_pos _
  · rw [w_length, f_length, e_length, numberShape, radix]
    simp only [w_eq, f_eq, e_eq]

/-- A number ends where it ends, whatever follows but something that goes on with it. -/
theorem numberShape_take {c : Char} {cs : List Char} (start : (c.isDigit || (c == '.' && headIs Char.isDigit cs)) = true)
    (ends : Boundary rest) :
    0 < (numberShape (c :: cs)).2 ∧ (numberShape (c :: cs)).2 ≤ (c :: cs).length ∧
      numberShape ((c :: cs).take (numberShape (c :: cs)).2 ++ rest) = numberShape (c :: cs) := by
  cases radix : radixDigits? (c :: cs) with
  | some p =>
    have shape {cs : List Char} (radix : radixDigits? cs = some p) :
        numberShape cs = (.int, 2 + spanLength p (cs.drop 2)) := by
      rw [numberShape, radix]
    obtain ⟨r, digits, whole, always, stop⟩ := exists_of_radixDigits? radix
    rw [whole] at radix ⊢
    have inside := spanLength_le p digits
    rw [shape radix, Nat.add_comm, List.take_succ_cons, List.take_succ_cons, List.cons_append, List.cons_append, shape (always _)]
    refine ⟨Nat.succ_pos _, Nat.add_le_add_right inside 2, ?_⟩
    simp only [List.drop_succ_cons, List.drop_zero, spanLength_take digits (ends.headIs_eq_false stop)]
    rw [Nat.add_comm]
  | none =>
    obtain ⟨w, f, e, tail, whole, some_char, digits, fraction, exponent, shape⟩ := exists_numberParts start radix
    have length : w.length + f.length + e.length = (w ++ (f ++ e)).length := by
      rw [List.length_append, List.length_append, Nat.add_assoc]
    rw [shape, whole]
    refine ⟨?_, ?_, ?_⟩
    · rcases some_char with some_w | some_f
      · exact Nat.lt_of_lt_of_le (List.length_pos_iff.2 some_w) (by omega)
      · exact Nat.lt_of_lt_of_le (List.length_pos_iff.2 some_f) (by omega)
    · rw [length]
      exact (List.prefix_append _ _).length_le
    · have parts := numberShape_parts digits fraction exponent some_char ends
      rw [length] at parts ⊢
      rw [List.take_left]
      exact parts

/-! ## Lexemes -/

/-- A number that begins with a point goes on with a digit. -/
theorem one_lt_numberShape_point {cs : List Char} (digit : headIs Char.isDigit cs = true) : 1 < (numberShape ('.' :: cs)).2 := by
  have fraction : fractionLength ('.' :: cs) = spanLength isDigitOrSeparator cs + 1 := by rw [fractionLength, if_pos digit]
  have some_digit : 0 < spanLength isDigitOrSeparator cs := by
    have begins := ne_nil_of_headIs (headIs_take_spanLength digit isDigitOrSeparator_of_isDigit)
    rw [Nat.pos_iff_ne_zero]
    intro none
    exact begins (by rw [none, List.take_zero])
  have shape : (numberShape ('.' :: cs)).2 = 0 + fractionLength ('.' :: cs) + exponentLength (('.' :: cs).drop (0 + fractionLength ('.' :: cs))) := rfl
  omega

/-- The name behind a dollar sign. -/
theorem lexemeAt?_variable {cs : List Char} (start : headIs isIdentStart cs = true) (ends : headIs isIdentChar rest = false) :
    lexemeAt? ('$' :: cs.take (spanLength isIdentChar cs) ++ rest) =
      some ⟨.variable, String.ofList (cs.take (spanLength isIdentChar cs)), spanLength isIdentChar cs⟩ := by
  have start' : headIs isIdentStart (cs.take (spanLength isIdentChar cs) ++ rest) = true := by
    refine headIs_append (headIs_take_spanLength start fun c letter => ?_) rest
    rw [isIdentChar, letter, Bool.true_or]
  have length := spanLength_take cs ends
  have name : (cs.take (spanLength isIdentChar cs) ++ rest).take (spanLength isIdentChar cs) =
      cs.take (spanLength isIdentChar cs) :=
    List.take_left' (by rw [List.length_take, Nat.min_eq_left (spanLength_le _ cs)])
  rw [List.cons_append, lexemeAt?_cons _ rfl rfl]
  simp [scan, start', length, name, Except.toOption]

/-- A number in front of something that does not go on with it. -/
theorem lexemeAt?_number {c : Char} {cs : List Char} (start : (c.isDigit || (c == '.' && headIs Char.isDigit cs)) = true)
    (ends : Boundary rest) :
    lexemeAt? (c :: cs.take ((numberShape (c :: cs)).2 - 1) ++ rest) =
      some ⟨(numberShape (c :: cs)).1, String.ofList (c :: cs.take ((numberShape (c :: cs)).2 - 1)),
        (c :: cs.take ((numberShape (c :: cs)).2 - 1)).length - 1⟩ := by
  obtain ⟨positive, inside, same⟩ := numberShape_take start ends
  generalize shape : numberShape (c :: cs) = r at positive inside same ⊢
  obtain ⟨kind, n⟩ := r
  obtain ⟨n, rfl⟩ : ∃ m, n = m + 1 := ⟨n - 1, (Nat.sub_add_cancel positive).symm⟩
  have plain : (!isSpace c && !(['?', '#', '/'].contains c) && !(c == '$') && !isIdentStart c && !(c == '\\')) = true := by
    rw [Bool.or_eq_true, Bool.and_eq_true, beq_iff_eq] at start
    rcases start with digit | ⟨rfl, -⟩
    · exact forall_isDigit (p := fun c => !isSpace c && !(['?', '#', '/'].contains c) && !(c == '$') && !isIdentStart c && !(c == '\\'))
        (by decide) c digit
    · decide
  simp only [Bool.and_eq_true, Bool.not_eq_true'] at plain
  obtain ⟨⟨⟨⟨no_space, no_mark⟩, no_dollar⟩, no_letter⟩, no_backslash⟩ := plain
  have start' : (c.isDigit || (c == '.' && headIs Char.isDigit (cs.take n ++ rest))) = true := by
    simp only [Bool.or_eq_true, Bool.and_eq_true, beq_iff_eq] at start ⊢
    refine start.imp_right fun ⟨point, digit⟩ => ⟨point, headIs_append ?_ rest⟩
    subst point
    have more := one_lt_numberShape_point digit
    rw [shape] at more
    match n, cs, digit with
    | n + 1, d :: cs, digit => exact digit
  have length : (cs.take n).length = n := by
    rw [List.length_take, Nat.min_eq_left (Nat.le_of_succ_le_succ inside)]
  dsimp only at same ⊢
  rw [List.take_succ_cons, List.cons_append] at same
  rw [Nat.add_sub_cancel, List.cons_append, lexemeAt?_cons _ no_space no_mark, scan]
  simp [no_dollar, no_letter, no_backslash, start', same, length, Except.toOption]

/-- A text in quotes or brackets. -/
theorem enclosed_eq_ok {kind : TokenKind} {opening cs : List Char} {e : Enclosure} {lexeme : Lexeme}
    (h : enclosed kind opening e cs = .ok lexeme) :
    ∃ n, enclosedLength [e] cs = .ok n ∧ lexeme = ⟨kind, String.ofList (opening ++ cs.take n), opening.length - 1 + n⟩ := by
  unfold enclosed at h
  split at h
  · next n length =>
    cases h
    exact ⟨n, length, rfl⟩
  · cases h

/-- What the scanner finds, cut out in front of something that does not go on with it. -/
theorem lexemeAt?_take {c : Char} {cs : List Char} {lexeme : Lexeme} (h : lexemeAt? (c :: cs) = some lexeme)
    (raw : lexeme.kind ∈ rawKinds) (ends : Boundary rest) :
    lexemeAt? (c :: cs.take lexeme.more ++ rest) = some ⟨lexeme.kind, lexeme.text, (c :: cs.take lexeme.more).length - 1⟩ := by
  obtain ⟨c', cs', same, no_gap, read⟩ := exists_scan_of_lexemeAt? h
  obtain ⟨rfl, rfl⟩ := List.cons.inj same
  have no_space : isSpace c = false := by
    cases space : isSpace c with
    | false => rfl
    | true =>
      rw [gapPiece?, if_pos space] at no_gap
      cases no_gap
  have no_name : headIs isIdentChar rest = false := ends.headIs_eq_false fun _ => isIdentChar_of_isBoundary
  unfold scan at read
  dsimp only at read
  split at read
  · next starts =>
    cases read
    rw [Bool.and_eq_true, beq_iff_eq] at starts
    obtain ⟨rfl, start⟩ := starts
    rw [lexemeAt?_variable start no_name, List.length_cons, List.length_take, Nat.min_eq_left (spanLength_le _ cs)]
    rfl
  split at read
  · next starts =>
    cases read
    have read := IsName.lexemeAt?_append (isName_take no_space starts) (.of_boundary ends)
    rwa [String.toList_ofList] at read
  split at read
  · next starts =>
    cases read
    exact lexemeAt?_number starts ends
  split at read
  · next quote =>
    rw [Bool.or_eq_true, Bool.or_eq_true, beq_iff_eq, beq_iff_eq, beq_iff_eq, or_assoc] at quote
    obtain ⟨n, length, rfl⟩ := enclosed_eq_ok read
    have same : [c].length - 1 + n = n := Nat.zero_add n
    dsimp only
    rw [same]
    exact lexemeAt?_quoted (by simpa using quote) length rest
  split at read
  · cases read
    exact absurd raw (show TokenKind.cast ∉ rawKinds by decide)
  split at read
  · next heredoc =>
    obtain ⟨tail, whole⟩ := List.isPrefixOf_iff_prefix.1 heredoc
    cases whole
    change (heredocLength tail).bind _ = _ at read
    cases length : heredocLength tail with
    | error _ =>
      rw [length] at read
      cases read
    | ok n =>
      rw [length] at read
      cases read
      exact lexemeAt?_heredoc length no_name
  split at read
  · next group =>
    obtain ⟨tail, whole⟩ := List.isPrefixOf_iff_prefix.1 group
    cases whole
    obtain ⟨n, length, rfl⟩ := @enclosed_eq_ok .attributeGroup _ _ _ _ read
    have same : ['#', '['].length - 1 + n = n + 1 := Nat.add_comm 1 n
    dsimp only
    rw [same]
    exact lexemeAt?_group length rest
  split at read
  · next text kind found =>
    cases read
    have marks : ∀ p ∈ punctuation, p.2 ∉ rawKinds := by decide
    exact absurd raw (marks _ (List.mem_of_find?_eq_some found))
  · cases read

/-! ## Tokens -/

/-- The source text of a token that delimits itself, and what follows it. -/
theorem exists_text_of_lexed {before cs : List Char} {tokens : List Token} {t : Token} (h : Lexed before cs tokens)
    (ht : t ∈ tokens) (raw : t.kind ∈ rawKinds) :
    ∃ front text back more, before ++ cs = front ++ text ++ back ∧ t.span = ⟨byteLength front, byteLength (front ++ text)⟩ ∧
      lexemeAt? (text ++ back) = some ⟨t.kind, t.text, more⟩ ∧ (text ++ back).take (more + 1) = text := by
  induction h with
  | eof gaps =>
    rw [List.mem_singleton.1 ht] at raw
    exact absurd raw (show TokenKind.eof ∉ rawKinds by decide)
  | @token before gap text rest comments kind s ts gaps some_text told _ ih =>
    rcases List.mem_cons.1 ht with rfl | later
    · rcases told with is_section | ⟨more, found, covers⟩
      · have apart : ∀ kind ∈ sectionKinds, kind ∉ rawKinds := by decide
        exact absurd raw (apart kind is_section)
      · exact ⟨before ++ gap, text, rest, more, by simp, rfl, found, covers⟩
    · obtain ⟨front, text', back, more, whole, span, found, covers⟩ := ih later
      exact ⟨front, text', back, more, by rw [← whole]; simp, span, found, covers⟩

/-- What stands behind an opening tag is the second token. -/
theorem exists_second {cs rest : List Char} {face : Face} {source : String} {tokens : List Token}
    (h : Spells cs [face] rest) (chars : source.toList = openingTag ' ' ++ (cs ++ rest)) (read : tokenize source = .ok tokens) :
    ∃ opening second later, tokens = opening :: second :: later ∧ second.face = face := by
  rw [tokenize_eq_readCode (by decide) chars] at read
  obtain ⟨code, behind, rfl⟩ := exists_of_map_eq_ok read
  have faces := h (Position.origin.after (openingTag ' '))
  rw [codeFaces, behind] at faces
  obtain ⟨later, -, same⟩ := exists_of_map_eq_ok faces.symm
  cases code with
  | nil => cases same
  | cons second code => exact ⟨_, second, code, rfl, (List.cons.inj same).1.symm⟩

/-- A source can be read also with tokens put in front of its code. -/
theorem exists_tokenize_spelled {cs rest : List Char} {faces : List Face} {source source' : String} {tokens : List Token}
    (h : Spells cs faces rest) (chars : source.toList = openingTag ' ' ++ rest)
    (chars' : source'.toList = openingTag ' ' ++ (cs ++ rest)) (read : tokenize source = .ok tokens) :
    ∃ tokens', tokenize source' = .ok tokens' := by
  rw [tokenize_eq_readCode (by decide) chars] at read
  obtain ⟨code, behind, -⟩ := exists_of_map_eq_ok read
  obtain ⟨moved, behind', -⟩ := exists_readCode_moved behind ((Position.origin.after (openingTag ' ')).after cs)
  have whole := h (Position.origin.after (openingTag ' '))
  rw [codeFaces, codeFaces, behind'] at whole
  obtain ⟨code', spelled, -⟩ := exists_of_map_eq_ok whole
  exact ⟨_, by rw [tokenize_eq_readCode (by decide) chars', spelled]; rfl⟩

end Lexer

/-- **Tokens delimit themselves.** Behind an opening tag, in front of anything that does not go on with it, the text of a name, a
variable, a number, a string or a group of attributes of any source is read as a token of the same kind with the same text. It is read,
if what follows is. -/
theorem raw_token_reread {source : String} {tokens : List Token} (h : tokenize source = .ok tokens) {t : Token} (ht : t ∈ tokens)
    (raw : t.kind ∈ Lexer.rawKinds) :
    ∃ text, t.span.slice source = some text ∧ ∀ u : String, Lexer.Boundary u.toList →
      (∀ alone, tokenize ("<?php " ++ u) = .ok alone → ∃ reread, tokenize ("<?php " ++ text ++ u) = .ok reread) ∧
      ∀ reread, tokenize ("<?php " ++ text ++ u) = .ok reread →
        ∃ opening second rest, reread = opening :: second :: rest ∧ second.kind = t.kind ∧ second.text = t.text := by
  have run := Lexer.runs_tokenize source
  rw [h] at run
  obtain ⟨front, text, back, more, whole, span, found, covers⟩ := Lexer.exists_text_of_lexed run ht raw
  refine ⟨String.ofList text, by rw [span]; exact Span.slice_eq whole, fun u boundary => ?_⟩
  have some_text : text ≠ [] := by
    rintro rfl
    rw [List.nil_append] at found covers
    obtain ⟨c, cs, rfl, -⟩ := Lexer.exists_scan_of_lexemeAt? found
    cases covers
  have alone : Lexer.lexemeAt? (text ++ u.toList) = some ⟨t.kind, t.text, text.length - 1⟩ := by
    obtain ⟨c, cs, same, -⟩ := Lexer.exists_scan_of_lexemeAt? found
    rw [same] at found covers
    rw [← covers]
    exact Lexer.lexemeAt?_take found raw boundary
  have spelled := Lexer.spells_lexeme alone some_text
  have chars : ("<?php " ++ String.ofList text ++ u).toList = Lexer.openingTag ' ' ++ (text ++ u.toList) := by
    simp [Lexer.openingTag]
  refine ⟨fun _ read => Lexer.exists_tokenize_spelled spelled (by simp [Lexer.openingTag]) chars read, fun reread read => ?_⟩
  obtain ⟨opening, second, rest, same, face⟩ := Lexer.exists_second spelled chars read
  obtain ⟨kind, text⟩ := Prod.mk.inj face
  exact ⟨opening, second, rest, same, kind, text⟩

/-- A group of attributes with a bracket in a string, a heredoc with an interpolation in it, and a number with an exponent. -/
def quotedSource : String := "<?php #[A(']')] f(<<<E\n  it's \x7b$a['b']\x7d\n  E, 1_0.5e+3);"

theorem raw_token_reread_quoted :
    ∃ tokens, tokenize quotedSource = .ok tokens ∧
      tokens.map Token.kind =
        [.openTag, .attributeGroup, .ident, .openParen, .string, .comma, .float, .closeParen, .semicolon, .eof] ∧
      ∀ t ∈ tokens, t.kind ∈ Lexer.rawKinds →
        ∃ text opening second rest, t.span.slice quotedSource = some text ∧
          tokenize ("<?php " ++ text ++ ");") = .ok (opening :: second :: rest) ∧ second.kind = t.kind ∧ second.text = t.text := by
  have kinds : (tokenize quotedSource).toOption.map (·.map Token.kind) =
      some [.openTag, .attributeGroup, .ident, .openParen, .string, .comma, .float, .closeParen, .semicolon, .eof] := by
    decide +kernel
  cases read : tokenize quotedSource with
  | error _ =>
    rw [read] at kinds
    cases kinds
  | ok tokens =>
    rw [read] at kinds
    refine ⟨tokens, rfl, Option.some.inj kinds, fun t ht raw => ?_⟩
    obtain ⟨text, slice, same⟩ := raw_token_reread read ht raw
    obtain ⟨can, same⟩ := same ");" (Lexer.boundary_cons (by decide) _)
    have closing : tokenize ("<?php " ++ ");") = .ok
        [⟨.openTag, ⟨0, 6⟩, ⟨0, 0, 0⟩, "<?php", none, []⟩, ⟨.closeParen, ⟨6, 7⟩, ⟨6, 0, 6⟩, ")", none, []⟩,
          ⟨.semicolon, ⟨7, 8⟩, ⟨7, 0, 7⟩, ";", none, []⟩, ⟨.eof, ⟨8, 8⟩, ⟨8, 0, 8⟩, "", none, []⟩] := by
      decide +kernel
    obtain ⟨reread, found⟩ := can _ closing
    obtain ⟨opening, second, rest, rfl, kind, text_eq⟩ := same reread found
    exact ⟨text, opening, second, rest, slice, found, kind, text_eq⟩

end Codewright.Php
