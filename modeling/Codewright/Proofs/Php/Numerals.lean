import Codewright.Json.Written
import Codewright.Proofs.Php.Names

/-!
# Numerals of JSON as tokens

A numeral of JSON is written in a source as it stands. Without its sign it is one token: an integer if it has neither a
fraction nor an exponent.

* `IsNumeral` – the text is a numeral of JSON; `IsMagnitude` – it is one without a sign, part by part;
* `IsMagnitude.numberShape_append` – how far it goes as a token;
* `spells_magnitude` – the token.
-/

namespace Codewright.Php

open Text Source

/-- The text is a numeral of JSON. -/
def IsNumeral (text : String) : Prop := (Json.numberText text.toList).any (·.2.isEmpty) = true

instance (text : String) : Decidable (IsNumeral text) := inferInstanceAs (Decidable (_ = true))

/-- At least one digit, and nothing else. -/
def IsDigits (ds : List Char) : Prop := ds ≠ [] ∧ ∀ d ∈ ds, d.isDigit = true

/-- A point and digits, or nothing. -/
def IsFraction (cs : List Char) : Prop := cs = [] ∨ ∃ ds, cs = '.' :: ds ∧ IsDigits ds

/-- The mark of an exponent, perhaps a sign, and digits, or nothing. -/
def IsExponent (cs : List Char) : Prop :=
  cs = [] ∨ ∃ mark sign ds, cs = mark :: (sign ++ ds) ∧ (mark = 'e' ∨ mark = 'E') ∧
    (sign = [] ∨ sign = ['+'] ∨ sign = ['-']) ∧ IsDigits ds

/-- Digits, perhaps with a fraction and an exponent. -/
def IsMagnitude (cs : List Char) : Prop :=
  ∃ whole fraction exponent, cs = whole ++ (fraction ++ exponent) ∧ IsDigits whole ∧ IsFraction fraction ∧
    IsExponent exponent

/-! ## What the grammar of JSON says -/

section Json

open Json

variable {cs rest : List Char}

theorem digits1_spec {ds : List Char} (h : digits1 cs = some (ds, rest)) : cs = ds ++ rest ∧ IsDigits ds := by
  rw [digits1] at h
  split at h
  · cases h
  · next not_empty =>
    cases h
    exact ⟨List.takeWhile_append_dropWhile.symm, by simpa using not_empty, List.all_eq_true.1 List.all_takeWhile⟩

theorem wholePart_spec {ds : List Char} (h : wholePart cs = some (ds, rest)) : cs = ds ++ rest ∧ IsDigits ds := by
  unfold wholePart at h
  split at h
  · cases h
    exact ⟨rfl, by simp, by simp⟩
  · exact digits1_spec h

theorem fractionPart_spec {f : List Char} (h : fractionPart cs = some (f, rest)) : cs = f ++ rest ∧ IsFraction f := by
  unfold fractionPart at h
  split at h
  · obtain ⟨⟨ds, rest'⟩, digits, same⟩ := Option.map_eq_some_iff.1 h
    cases same
    obtain ⟨rfl, all⟩ := digits1_spec digits
    exact ⟨rfl, .inr ⟨ds, rfl, all⟩⟩
  · cases h
    exact ⟨rfl, .inl rfl⟩

theorem exponentSign_spec (cs : List Char) :
    ∃ sign, cs = sign ++ (exponentSign cs).2 ∧ (sign = [] ∨ sign = ['+'] ∨ sign = ['-']) := by
  unfold exponentSign
  split
  · exact ⟨['+'], rfl, by simp⟩
  · exact ⟨['-'], rfl, by simp⟩
  · exact ⟨[], rfl, by simp⟩

theorem exponentPart_spec {e : List Char} (h : exponentPart cs = some (e, rest)) :
    ∃ exponent, cs = exponent ++ rest ∧ IsExponent exponent := by
  unfold exponentPart at h
  split at h
  · cases h
    exact ⟨[], rfl, .inl rfl⟩
  · next mark cs =>
    obtain ⟨sign, signed, signs⟩ := exponentSign_spec cs
    generalize exponentSign cs = behind at h signed
    split at h
    · next is_mark =>
      obtain ⟨⟨ds, rest'⟩, digits, same⟩ := Option.map_eq_some_iff.1 h
      cases same
      obtain ⟨left, all⟩ := digits1_spec digits
      rw [left] at signed
      refine ⟨mark :: (sign ++ ds), by rw [signed]; simp, .inr ⟨mark, sign, ds, rfl, ?_, signs, all⟩⟩
      simpa using is_mark
    · cases h
      exact ⟨[], rfl, .inl rfl⟩

theorem unsignedNumber_spec {r : List Char} (h : unsignedNumber cs = some (r, [])) : IsMagnitude cs := by
  obtain ⟨⟨whole, cs₁⟩, read, h⟩ := Option.bind_eq_some_iff.1 h
  obtain ⟨⟨fraction, cs₂⟩, read', h⟩ := Option.bind_eq_some_iff.1 h
  obtain ⟨⟨exponent, cs₃⟩, read'', h⟩ := Option.bind_eq_some_iff.1 h
  cases h
  obtain ⟨rfl, digits⟩ := wholePart_spec read
  obtain ⟨rfl, is_fraction⟩ := fractionPart_spec read'
  obtain ⟨e, rfl, is_exponent⟩ := exponentPart_spec read''
  exact ⟨whole, fraction, e, by simp, digits, is_fraction, is_exponent⟩

/-- A numeral is a magnitude, perhaps with a minus in front. -/
theorem IsNumeral.magnitude {text : String} (h : IsNumeral text) :
    (∃ cs, text.toList = '-' :: cs ∧ IsMagnitude cs) ∨ IsMagnitude text.toList := by
  rw [IsNumeral] at h
  obtain ⟨⟨spelling, rest⟩, read, empty⟩ := (Option.any_eq_true _ _).1 h
  obtain rfl : rest = [] := by simpa using empty
  unfold numberText at read
  split at read
  · next cs chars =>
    obtain ⟨⟨r, rest'⟩, unsigned, same⟩ := Option.map_eq_some_iff.1 read
    cases same
    exact .inl ⟨cs, chars, unsignedNumber_spec unsigned⟩
  · obtain ⟨⟨r, rest'⟩, unsigned, same⟩ := Option.map_eq_some_iff.1 read
    cases same
    exact .inr (unsignedNumber_spec unsigned)

end Json

/-! ## What the lexer reads -/

namespace Lexer

variable {rest : List Char}

theorem isDigitOrSeparator_of_isDigit (c : Char) (h : c.isDigit = true) : isDigitOrSeparator c = true := by
  rw [isDigitOrSeparator, h, Bool.true_or]

theorem IsDigits.digitOrSeparator {ds : List Char} (h : IsDigits ds) : ∀ d ∈ ds, isDigitOrSeparator d = true :=
  fun d hd => isDigitOrSeparator_of_isDigit d (h.2 d hd)

theorem IsDigits.headIs {ds : List Char} (h : IsDigits ds) (rest : List Char) :
    headIs Char.isDigit (ds ++ rest) = true := by
  obtain ⟨d, ds, rfl⟩ := List.exists_cons_of_ne_nil h.1
  exact h.2 d (by simp)

/-- A class of characters that has neither boundaries nor marks of exponents in it ends in front of an exponent. -/
theorem headIs_exponent {e : List Char} (h : IsExponent e) (boundary : Boundary rest) {p : Char → Bool}
    (ends : ∀ c, isBoundary c = true → p c = false) (marks : p 'e' = false ∧ p 'E' = false) :
    Php.headIs p (e ++ rest) = false := by
  rcases h with rfl | ⟨mark, sign, ds, rfl, rfl | rfl, -⟩
  · exact boundary.headIs_eq_false ends
  · exact marks.1
  · exact marks.2

/-- A point and digits, perhaps with separators between them, or nothing. -/
def IsFractionText (cs : List Char) : Prop :=
  cs = [] ∨ ∃ ds, cs = '.' :: ds ∧ Php.headIs Char.isDigit ds = true ∧ ∀ d ∈ ds, isDigitOrSeparator d = true

theorem IsFractionText.of_isFraction {f : List Char} (h : IsFraction f) : IsFractionText f := by
  rcases h with rfl | ⟨ds, rfl, digits⟩
  · exact .inl rfl
  · have start := IsDigits.headIs digits []
    rw [List.append_nil] at start
    exact .inr ⟨ds, rfl, start, IsDigits.digitOrSeparator digits⟩

theorem headIs_fraction {f e : List Char} (h : IsFractionText f) (he : IsExponent e) (boundary : Boundary rest)
    {p : Char → Bool} (ends : ∀ c, isBoundary c = true → p c = false) (marks : p 'e' = false ∧ p 'E' = false)
    (point : p '.' = false) : Php.headIs p (f ++ (e ++ rest)) = false := by
  rcases h with rfl | ⟨ds, rfl, -⟩
  · exact headIs_exponent he boundary ends marks
  · exact point

theorem isDigit_of_isBoundary {c : Char} (h : isBoundary c = true) : c.isDigit = false := by
  simpa using forall_isBoundary (p := fun c => !c.isDigit) (by decide) c h

theorem isDigitOrSeparator_of_isBoundary {c : Char} (h : isBoundary c = true) : isDigitOrSeparator c = false := by
  simpa using forall_isBoundary (p := fun c => !isDigitOrSeparator c) (by decide) c h

theorem isRadixMark_of_isBoundary {c : Char} (h : isBoundary c = true) : isRadixMark c = false := by
  simpa using forall_isBoundary (p := fun c => !isRadixMark c) (by decide) c h

theorem fractionLength_append {f e : List Char} (h : IsFractionText f) (he : IsExponent e) (boundary : Boundary rest) :
    fractionLength (f ++ (e ++ rest)) = f.length := by
  rcases h with rfl | ⟨ds, rfl, start, digits⟩
  · have no_point : Php.headIs (· == '.') (e ++ rest) = false := by
      refine headIs_exponent he boundary (fun c hc => ?_) (by decide)
      simpa using forall_isBoundary (p := fun c => !(c == '.')) (by decide) c hc
    rw [List.nil_append]
    cases behind : e ++ rest with
    | nil => rfl
    | cons c cs =>
      rw [behind] at no_point
      have no_point : (c == '.') = false := no_point
      unfold fractionLength
      split
      · next same =>
        cases same
        cases no_point
      · rfl
  · have stop : Php.headIs isDigitOrSeparator (e ++ rest) = false :=
      headIs_exponent he boundary (fun _ => isDigitOrSeparator_of_isBoundary) (by decide)
    rw [List.cons_append, fractionLength, if_pos (headIs_append start _), spanLength_append digits stop]
    rfl

theorem exponentLength_append {e : List Char} (h : IsExponent e) (boundary : Boundary rest) :
    exponentLength (e ++ rest) = e.length := by
  rcases h with rfl | ⟨mark, sign, ds, rfl, marks, signs, digits⟩
  · exact exponentLength_boundary boundary
  · have is_mark : (mark == 'e' || mark == 'E') = true := by simpa using marks
    have stop : Php.headIs Char.isDigit rest = false := boundary.headIs_eq_false fun _ => isDigit_of_isBoundary
    have signed : (if Php.headIs (fun s => s == '+' || s == '-') (sign ++ (ds ++ rest)) then 1 else 0) =
      sign.length := by
      rcases signs with rfl | rfl | rfl
      · obtain ⟨d, ds, rfl⟩ := List.exists_cons_of_ne_nil digits.1
        have no_sign : (d == '+' || d == '-') = false := by
          simpa using forall_isDigit (p := fun d => !(d == '+' || d == '-')) (by decide) d (digits.2 d (by simp))
        simp [Php.headIs, no_sign]
      · rfl
      · rfl
    rw [List.cons_append, List.append_assoc, exponentLength, if_pos is_mark]
    simp only [signed, List.drop_left, IsDigits.headIs digits rest, if_true, spanLength_append digits.2 stop,
      List.length_cons, List.length_append]
    omega

/-- The number at the start of a text, given its parts. -/
theorem numberShape_parts {w f e : List Char} (hw : ∀ d ∈ w, isDigitOrSeparator d = true) (hf : IsFractionText f)
    (he : IsExponent e) (some_char : w ≠ [] ∨ f ≠ []) (boundary : Boundary rest) : numberShape (w ++ (f ++ e) ++ rest) =
      (if f.length == 0 && e.length == 0 then .int else .float, w.length + f.length + e.length) := by
  have stop : Php.headIs isDigitOrSeparator (f ++ (e ++ rest)) = false :=
    headIs_fraction hf he boundary (fun _ => isDigitOrSeparator_of_isBoundary) (by decide) (by decide)
  have whole : spanLength isDigitOrSeparator (w ++ (f ++ (e ++ rest))) = w.length := spanLength_append hw stop
  have no_radix : radixDigits? (w ++ (f ++ (e ++ rest))) = none := by
    match w, some_char with
    | [], some_char =>
      obtain rfl | ⟨ds, rfl, -⟩ := hf
      · simp at some_char
      · rfl
    | [d], _ =>
      refine radixDigits?_eq_none ?_
      exact headIs_fraction hf he boundary (fun _ => isRadixMark_of_isBoundary) (by decide) (by decide)
    | d :: d' :: ds, _ => exact radixDigits?_eq_none (isRadixMark_eq_false (hw d' (by simp)))
  rw [List.append_assoc, List.append_assoc, numberShape, no_radix]
  simp only [whole, List.drop_left, fractionLength_append hf he boundary]
  rw [← List.drop_drop, List.drop_left, List.drop_left, exponentLength_append he boundary]

end Lexer

/-- As a token, a magnitude ends where its text does. -/
theorem IsMagnitude.numberShape_append {cs rest : List Char} (h : IsMagnitude cs) (boundary : Lexer.Boundary rest) :
    Lexer.numberShape (cs ++ rest) = ((Lexer.numberShape cs).1, cs.length) := by
  obtain ⟨w, f, e, rfl, hw, hf, he⟩ := h
  have parts {rest : List Char} (boundary : Lexer.Boundary rest) := Lexer.numberShape_parts
    (Lexer.IsDigits.digitOrSeparator hw) (.of_isFraction hf) he (.inl hw.1) boundary
  have alone := parts Lexer.boundary_nil
  rw [List.append_nil] at alone
  rw [parts boundary, alone]
  simp [Nat.add_assoc]

theorem IsMagnitude.exists_digit {cs : List Char} (h : IsMagnitude cs) : ∃ d ds, cs = d :: ds ∧ d.isDigit = true := by
  obtain ⟨w, f, e, rfl, hw, -⟩ := h
  obtain ⟨d, ds, rfl⟩ := List.exists_cons_of_ne_nil hw.1
  exact ⟨d, _, rfl, hw.2 d (by simp)⟩

/-- A magnitude is one token. -/
theorem IsMagnitude.spells {cs rest : List Char} (h : IsMagnitude cs) (boundary : Lexer.Boundary rest) :
    Lexer.Spells cs [((Lexer.numberShape cs).1, String.ofList cs)] rest := by
  have shape := h.numberShape_append boundary
  obtain ⟨d, ds, rfl, digit⟩ := h.exists_digit
  have plain := Lexer.forall_isDigit (p := fun c => !(c == '$') && !isIdentStart c && !(c == '\\')) (by decide) d digit
  simp only [Bool.and_eq_true, Bool.not_eq_true'] at plain
  obtain ⟨⟨no_dollar, no_letter⟩, no_backslash⟩ := plain
  refine Lexer.spells_lexeme ?_ (by simp)
  rw [List.cons_append] at shape ⊢
  rw [Lexer.lexemeAt?_cons]
  · simp [Lexer.scan, no_dollar, no_letter, no_backslash, digit, shape, Except.toOption]
  · simpa using Lexer.forall_isDigit (p := fun c => !isSpace c) (by decide) d digit
  · simpa using Lexer.forall_isDigit (p := fun c => !(['?', '#', '/'].contains c)) (by decide) d digit

end Codewright.Php
