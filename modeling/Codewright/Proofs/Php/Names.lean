import Mathlib.Data.List.Find
import Codewright.Php.Synthesis
import Codewright.Proofs.Php.OperatorText

/-!
# Names and marks in printed text

What a printed declaration is made of beside values: names, keywords, variables, and marks between them. Each of them is
put in front of a text that is spelled already.

* `IsName` – the text is one name; `isName_iff`: it is the text of one token;
* `EndsName` – a name is at its end here; `OpensNoCast` – a parenthesis in front of the text is a parenthesis;
* `Spells.name`, `Spells.comma`, `Spells.openParen`, … – one token more in front.
-/

namespace Codewright.Php

open Text Source

namespace Lexer

/-! ## Names -/

/-- The characters are one name: identifiers joined by backslashes, perhaps with one more in front. Outside ASCII every
character may stand in a name, but no name begins with whitespace. -/
def isName : List Char → Bool
  | [] => false
  | c :: cs =>
    !isSpace c && (isIdentStart c || (c == '\\' && headIs isIdentStart cs)) && nameLength cs == cs.length

/-- Nothing that could go on with a name follows. -/
def EndsName (rest : List Char) : Prop := headIs (fun c => isIdentChar c || c == '\\') rest = false

theorem EndsName.nameLength_eq {rest : List Char} (h : EndsName rest) : nameLength rest = 0 := by
  cases rest with
  | nil => rfl
  | cons c rest =>
    have no_name : (isIdentChar c || c == '\\') = false := h
    rw [Bool.or_eq_false_iff] at no_name
    simp [nameLength, no_name.1, no_name.2]

theorem EndsName.of_boundary {rest : List Char} (h : Boundary rest) : EndsName rest := by
  refine h.headIs_eq_false fun c hc => ?_
  simpa using forall_isBoundary (p := fun c => !(isIdentChar c || c == '\\')) (by decide) c hc

/-- What follows a name does not change how far it goes. -/
theorem nameLength_append_of_length {cs rest : List Char} (h : nameLength cs = cs.length) (stop : EndsName rest) :
    nameLength (cs ++ rest) = cs.length := by
  induction cs with
  | nil => exact stop.nameLength_eq
  | cons c cs ih =>
    rw [nameLength] at h
    split at h
    · next goes_on =>
      have goes_on' : ((c == '\\' && headIs isIdentStart (cs ++ rest)) || isIdentChar c) = true := by
        simp only [Bool.or_eq_true, Bool.and_eq_true] at goes_on ⊢
        exact goes_on.imp_left (And.imp_right fun start => headIs_append start rest)
      rw [List.cons_append, nameLength, if_pos goes_on', ih (by simpa using h)]
      rfl
    · cases h

theorem not_mark_of_start {c : Char} (h : (isIdentStart c || c == '\\') = true) :
    ['?', '#', '/', '$'].contains c = false := by
  cases mark : ['?', '#', '/', '$'].contains c with
  | false => rfl
  | true =>
    simp only [List.contains_eq_mem, List.mem_cons, List.not_mem_nil, or_false, decide_eq_true_eq] at mark
    rcases mark with rfl | rfl | rfl | rfl <;> cases h

/-- A character with which a name can begin is no mark. -/
theorem lexemeAt?_start {c : Char} {cs : List Char} (no_space : isSpace c = false)
    (start : (isIdentStart c || (c == '\\' && headIs isIdentStart cs)) = true) :
    lexemeAt? (c :: cs) = some ⟨.ident, String.ofList (c :: cs.take (nameLength cs)), nameLength cs⟩ := by
  have start' : (isIdentStart c || c == '\\') = true := by
    simp only [Bool.or_eq_true, Bool.and_eq_true] at start ⊢
    exact start.imp_right And.left
  have no_mark := not_mark_of_start start'
  simp only [List.contains_eq_mem, List.mem_cons, List.not_mem_nil, or_false, decide_eq_false_iff_not,
    not_or] at no_mark
  obtain ⟨no_question, no_hash, no_slash, no_dollar⟩ := no_mark
  rw [lexemeAt?_cons _ no_space (by simp [no_question, no_hash, no_slash])]
  simp only [scan, beq_eq_false_iff_ne.2 no_dollar, Bool.false_and, Bool.false_eq_true, if_false, start, if_true]
  rfl

end Lexer

/-- The text is one name. -/
def IsName (text : String) : Prop := Lexer.isName text.toList = true

instance (text : String) : Decidable (IsName text) := inferInstanceAs (Decidable (_ = true))

namespace Lexer

variable {text : String} {cs rest : List Char} {fs : List Face}

theorem IsName.exists_cons (h : IsName text) : ∃ c cs, text.toList = c :: cs ∧ isSpace c = false ∧
    (isIdentStart c || (c == '\\' && headIs isIdentStart cs)) = true ∧ nameLength cs = cs.length := by
  rw [IsName] at h
  cases chars : text.toList with
  | nil =>
    rw [chars] at h
    cases h
  | cons c cs =>
    rw [chars, isName, Bool.and_eq_true, Bool.and_eq_true, Bool.not_eq_true', beq_iff_eq] at h
    exact ⟨c, cs, rfl, h.1.1, h.1.2, h.2⟩

theorem forall_mem_of_nameLength {cs : List Char} (h : nameLength cs = cs.length) :
    ∀ c ∈ cs, (isIdentChar c || c == '\\') = true := by
  induction cs with
  | nil => simp
  | cons c cs ih =>
    rw [nameLength] at h
    split at h
    · next goes_on =>
      simp only [Bool.or_eq_true, Bool.and_eq_true, List.mem_cons, forall_eq_or_imp] at goes_on ⊢
      refine ⟨goes_on.symm.imp_right And.left, fun d hd => ?_⟩
      simpa using ih (by simpa using h) d hd
    · cases h

/-- A name has nothing in it but the characters of identifiers and backslashes. -/
theorem IsName.forall_mem (h : IsName text) : ∀ c ∈ text.toList, (isIdentChar c || c == '\\') = true := by
  obtain ⟨c, cs, chars, -, start, length⟩ := IsName.exists_cons h
  rw [chars]
  simp only [List.mem_cons, forall_eq_or_imp, isIdentChar]
  refine ⟨?_, forall_mem_of_nameLength length⟩
  simp only [Bool.or_eq_true, Bool.and_eq_true] at start ⊢
  exact start.imp Or.inl And.left

theorem IsName.not_mem (h : IsName text) {c : Char} (other : (isIdentChar c || c == '\\') = false) :
    c ∉ text.toList := by
  intro member
  rw [IsName.forall_mem h c member] at other
  cases other

/-- In front of anything else than a name, a name is one lexeme. -/
theorem IsName.lexemeAt?_append (h : IsName text) (stop : EndsName rest) :
    lexemeAt? (text.toList ++ rest) = some ⟨.ident, text, text.toList.length - 1⟩ := by
  obtain ⟨c, cs, chars, no_space, start, length⟩ := IsName.exists_cons h
  have whole : String.ofList (c :: cs) = text := by rw [← chars, String.ofList_toList]
  have start' : (isIdentStart c || (c == '\\' && headIs isIdentStart (cs ++ rest))) = true := by
    simp only [Bool.or_eq_true, Bool.and_eq_true] at start ⊢
    exact start.imp_right fun ⟨backslash, goes_on⟩ => ⟨backslash, headIs_append goes_on rest⟩
  have length' := nameLength_append_of_length length stop
  rw [chars, List.cons_append, lexemeAt?_start no_space start', length']
  simp [whole]

theorem IsName.ne_nil (h : IsName text) : text.toList ≠ [] := by
  obtain ⟨c, cs, chars, -⟩ := IsName.exists_cons h
  exact chars ▸ List.cons_ne_nil c cs

/-- In front of anything else than a name, a name is one token. -/
theorem IsName.spells (h : IsName text) (stop : EndsName rest) : Spells text.toList [(.ident, text)] rest :=
  spells_lexeme (IsName.lexemeAt?_append h stop) (IsName.ne_nil h)

theorem nameLength_le (cs : List Char) : nameLength cs ≤ cs.length := by
  induction cs with
  | nil => exact Nat.le_refl 0
  | cons c cs ih =>
    rw [nameLength, List.length_cons]
    split <;> omega

theorem headIs_take_nameLength {cs : List Char} (h : headIs isIdentStart cs = true) :
    headIs isIdentStart (cs.take (nameLength cs)) = true := by
  cases cs with
  | nil => cases h
  | cons c cs =>
    have start : isIdentStart c = true := h
    have goes_on : ((c == '\\' && headIs isIdentStart cs) || isIdentChar c) = true := by simp [isIdentChar, start]
    rw [nameLength, if_pos goes_on]
    exact start

/-- What goes on with a name goes on as far without what follows the name. -/
theorem nameLength_take (cs : List Char) : nameLength (cs.take (nameLength cs)) = nameLength cs := by
  induction cs with
  | nil => rfl
  | cons c cs ih =>
    rw [nameLength]
    split
    · next goes_on =>
      have goes_on' : ((c == '\\' && headIs isIdentStart (cs.take (nameLength cs))) || isIdentChar c) = true := by
        simp only [Bool.or_eq_true, Bool.and_eq_true] at goes_on ⊢
        exact goes_on.imp_left (And.imp_right headIs_take_nameLength)
      rw [List.take_succ_cons, nameLength, if_pos goes_on', ih]
    · rfl

/-- What is read as an identifier is a name. -/
theorem isName_take {c : Char} {cs : List Char} (no_space : isSpace c = false)
    (start : (isIdentStart c || (c == '\\' && headIs isIdentStart cs)) = true) :
    IsName (String.ofList (c :: cs.take (nameLength cs))) := by
  have start' : (isIdentStart c || (c == '\\' && headIs isIdentStart (cs.take (nameLength cs)))) = true := by
    simp only [Bool.or_eq_true, Bool.and_eq_true] at start ⊢
    exact start.imp_right (And.imp_right headIs_take_nameLength)
  rw [IsName, String.toList_ofList, isName, no_space, start', nameLength_take, List.length_take,
    Nat.min_eq_left (nameLength_le cs)]
  simp

/-- Only a name is read as an identifier. -/
theorem start_of_lexemeAt? {c : Char} {lexeme : Lexeme} (h : lexemeAt? (c :: cs) = some lexeme)
    (ident : lexeme.kind = .ident) :
    isSpace c = false ∧ (isIdentStart c || (c == '\\' && headIs isIdentStart cs)) = true := by
  rw [lexemeAt?] at h
  split at h
  · cases h
  split at h
  · next no_gap =>
    have no_space : isSpace c = false := by
      cases space : isSpace c with
      | false => rfl
      | true =>
        rw [gapPiece?, if_pos space] at no_gap
        cases no_gap
    have scanned : scan c cs = .ok lexeme := by
      cases hs : scan c cs <;> simp_all [Except.toOption]
    refine ⟨no_space, ?_⟩
    rcases kind_scan scanned with ⟨-, start⟩ | value | ⟨p, member, mark⟩
    · exact start
    · rw [ident] at value
      exact absurd value (by decide)
    · have none_ident : ∀ p ∈ punctuation, p.2 ≠ .ident := by decide
      exact absurd (mark.symm.trans ident) (none_ident p member)
  · cases h

/-- A text is a name just when it is the text of one token that is an identifier. -/
theorem isName_iff : IsName text ↔ lexemeAt? text.toList = some ⟨.ident, text, text.toList.length - 1⟩ := by
  constructor
  · intro h
    have alone := IsName.lexemeAt?_append h (.of_boundary boundary_nil)
    rwa [List.append_nil] at alone
  · intro h
    cases chars : text.toList with
    | nil =>
      rw [chars] at h
      cases h
    | cons c cs =>
      rw [chars] at h
      obtain ⟨no_space, start⟩ := start_of_lexemeAt? h rfl
      rw [lexemeAt?_start no_space start] at h
      have length : nameLength cs = cs.length := congrArg Lexeme.more (Option.some.inj h)
      rw [IsName, chars, isName, no_space, start, length]
      simp

/-! ## Identifiers -/

/-- The code points of the whitespace characters. -/
def spaceCodes : List Nat :=
  [9, 10, 11, 12, 13, 0x20, 0x85, 0xA0, 0x1680, 0x2000, 0x2001, 0x2002, 0x2003, 0x2004, 0x2005, 0x2006, 0x2007, 0x2008,
    0x2009, 0x200A, 0x2028, 0x2029, 0x202F, 0x205F, 0x3000]

theorem toNat_mem_spaceCodes {c : Char} (h : isSpace c = true) : c.toNat ∈ spaceCodes := by
  simp only [isSpace, Bool.or_eq_true, Bool.and_eq_true, decide_eq_true_eq, beq_iff_eq] at h
  simp only [spaceCodes, List.mem_cons, List.not_mem_nil, or_false]
  omega

theorem mem_eq_any (t : RangeTable) (c : Char) :
    RangeTable.mem t c = t.toList.any fun r => r.1 ≤ c.toNat && c.toNat ≤ r.2 := by
  rw [RangeTable.mem, Array.any_toList]

/-- No letter is whitespace. -/
theorem isSpace_of_isLetter {c : Char} (h : isLetter c = true) : isSpace c = false := by
  cases space : isSpace c with
  | false => rfl
  | true =>
    have no_letters : spaceCodes.all (fun n => !(letters.toList.any fun r => r.1 ≤ n && n ≤ r.2)) = true := by
      decide +kernel
    have no_letter := List.all_eq_true.1 no_letters _ (toNat_mem_spaceCodes space)
    rw [← mem_eq_any, Bool.not_eq_true'] at no_letter
    rw [isLetter, no_letter] at h
    split at h
    · have range := toNat_of_isAlpha h
      have code := toNat_mem_spaceCodes space
      simp only [spaceCodes, List.mem_cons, List.not_mem_nil, or_false] at code
      omega
    · cases h

theorem isIdentStart_of_isLetter {c : Char} (h : (c == '_' || isLetter c) = true) : isIdentStart c = true := by
  rw [Bool.or_eq_true, isLetter] at h
  rcases h with underscore | letter
  · simp [isIdentStart, underscore]
  · split at letter
    · simp [isIdentStart, letter]
    · next large =>
      have no_ascii : isAscii c = false := by
        simpa [isAscii, UInt32.lt_iff_toNat_lt] using large
      simp [isIdentStart, no_ascii]

theorem isIdentChar_of_isLetterOrNumeral {c : Char} (h : (c == '_' || isLetterOrNumeral c) = true) :
    isIdentChar c = true := by
  rw [Bool.or_eq_true, isLetterOrNumeral] at h
  rcases h with underscore | letter
  · simp [isIdentChar, isIdentStart, underscore]
  · split at letter
    · simp only [Char.isAlphanum, Bool.or_eq_true] at letter
      rcases letter with alpha | digit
      · simp [isIdentChar, isIdentStart, alpha]
      · simp [isIdentChar, digit]
    · next large =>
      have no_ascii : isAscii c = false := by
        simpa [isAscii, UInt32.lt_iff_toNat_lt] using large
      simp [isIdentChar, isIdentStart, no_ascii]

theorem nameLength_of_forall (h : ∀ c ∈ cs, isIdentChar c = true) : nameLength cs = cs.length := by
  simpa using nameLength_append h boundary_nil

/-- An identifier in the sense of descriptors is a name in the sense of tokens. -/
theorem isName_of_isIdentifier (h : isIdentifier text.toList = true) : IsName text := by
  rw [IsName]
  cases chars : text.toList with
  | nil =>
    rw [chars] at h
    cases h
  | cons c cs =>
    rw [chars, isIdentifier, Bool.and_eq_true, List.all_eq_true] at h
    have no_space : isSpace c = false := by
      rcases (Bool.or_eq_true _ _).mp h.1 with underscore | letter
      · rw [beq_iff_eq.1 underscore]
        decide
      · exact isSpace_of_isLetter letter
    have length := nameLength_of_forall fun d hd => isIdentChar_of_isLetterOrNumeral (h.2 d hd)
    rw [isName, no_space, isIdentStart_of_isLetter h.1, length]
    simp

/-- It names a variable, too. -/
theorem isIdentifier_spec (h : Php.isIdentifier text.toList = true) : IsIdentifier text := by
  rw [IsIdentifier]
  cases chars : text.toList with
  | nil =>
    rw [chars] at h
    cases h
  | cons c cs =>
    rw [chars, isIdentifier, Bool.and_eq_true, List.all_eq_true] at h
    have start : isIdentStart c = true := isIdentStart_of_isLetter h.1
    refine ⟨start, ?_⟩
    rw [List.all_cons, List.all_eq_true.2 fun d hd => isIdentChar_of_isLetterOrNumeral (h.2 d hd), isIdentChar, start]
    rfl

/-! ## Marks -/

/-- The characters behind `c` with which a longer mark begins. -/
def longerMarks (c : Char) : List Char :=
  punctuation.filterMap fun p =>
    match p.1.toList with
    | c' :: d :: _ => if c' = c then some d else none
    | _ => none

/-- In front of any other character, a character is a mark by itself, if it is one. -/
theorem punctuationAt?_single {c : Char} {cs : List Char} (h : headIs (longerMarks c).contains cs = false) :
    punctuationAt? (c :: cs) = punctuation.find? fun p => p.1.toList == [c] := by
  refine List.find?_congr fun p hp => ?_
  cases spelled : p.1.toList with
  | nil =>
    have none_empty : ∀ p ∈ punctuation, p.1.toList ≠ [] := by decide
    exact absurd spelled (none_empty p hp)
  | cons c' ds =>
    cases ds with
    | nil => simp [List.isPrefixOf]
    | cons d ds =>
      cases cs with
      | nil => simp [List.isPrefixOf]
      | cons e es =>
        have other : (c' == c && d == e) = false := by
          cases same : (c' == c && d == e) with
          | false => rfl
          | true =>
            rw [Bool.and_eq_true, beq_iff_eq, beq_iff_eq] at same
            have longer : d ∈ longerMarks c := List.mem_filterMap.2 ⟨p, hp, by rw [spelled]; simp [same.1]⟩
            have not_longer : (longerMarks c).contains e = false := h
            rw [← same.2, List.contains_iff_mem.2 longer] at not_longer
            cases not_longer
        rw [List.isPrefixOf, List.isPrefixOf, ← Bool.and_assoc, other]
        simp

theorem lexemeAt?_single {c : Char} {cs : List Char} {kind : TokenKind} {text : String}
    (mark : (text, kind, c) ∈ [("|", TokenKind.pipe, '|'), ("&", .amp, '&'), ("-", .minus, '-')])
    (h : headIs (longerMarks c).contains cs = false) : lexemeAt? (c :: cs) = some ⟨kind, text, 0⟩ := by
  have found := punctuationAt?_single h
  simp only [List.mem_cons, List.not_mem_nil, or_false, Prod.mk.injEq] at mark
  rcases mark with ⟨rfl, rfl, rfl⟩ | ⟨rfl, rfl, rfl⟩ | ⟨rfl, rfl, rfl⟩
  all_goals
    rw [lexemeAt?_cons _ (by decide) (by decide), scan]
    simp only [found]
    rfl

/-- A question mark is no mark of a longer one and no closing tag. -/
theorem lexemeAt?_question {cs : List Char} (h : headIs (longerMarks '?').contains cs = false)
    (no_tag : headIs (· == '>') cs = false) : lexemeAt? ('?' :: cs) = some ⟨.question, "?", 0⟩ := by
  have found := punctuationAt?_single h
  rw [lexemeAt?, if_neg (by simp [no_tag])]
  have no_gap : gapPiece? '?' cs = .ok none := rfl
  rw [no_gap, scan]
  simp only [found]
  rfl

/-! ## Parentheses -/

/-- What stands between the parentheses of a cast. -/
def isCastChar (c : Char) : Bool := isBlank c || c.isAlpha

/-- A parenthesis in front of the text opens no cast: something else than letters and blanks comes before it is
closed. -/
def OpensNoCast (rest : List Char) : Prop := (rest.dropWhile isCastChar).head? ≠ some ')'

theorem OpensNoCast.cons {c : Char} (other : isCastChar c = false) (no_close : c ≠ ')') (rest : List Char) :
    OpensNoCast (c :: rest) := by
  rw [OpensNoCast, List.dropWhile_cons, other]
  simpa using no_close

theorem OpensNoCast.append {cs rest : List Char} (h : ∀ c ∈ cs, c ≠ ')') (tail : OpensNoCast rest) :
    OpensNoCast (cs ++ rest) := by
  induction cs with
  | nil => exact tail
  | cons c cs ih =>
    cases between : isCastChar c with
    | false => exact .cons between (h c (by simp)) _
    | true =>
      rw [OpensNoCast, List.cons_append, List.dropWhile_cons, between]
      exact ih fun d hd => h d (by simp [hd])

theorem drop_spanLength (p : Char → Bool) (cs : List Char) : cs.drop (spanLength p cs) = cs.dropWhile p := by
  induction cs with
  | nil => rfl
  | cons c cs ih =>
    cases hc : p c with
    | false => simp [spanLength, hc]
    | true =>
      rw [spanLength, List.takeWhile_cons, List.dropWhile_cons, hc]
      exact ih

theorem dropWhile_dropWhile {p q : Char → Bool} (h : ∀ c, p c = true → q c = true) (cs : List Char) :
    (cs.dropWhile p).dropWhile q = cs.dropWhile q := by
  induction cs with
  | nil => rfl
  | cons c cs ih =>
    cases hc : p c with
    | false => simp [hc]
    | true => simp [hc, h c hc, ih]

theorem castShape?_eq_none {cs : List Char} (h : OpensNoCast cs) : castShape? cs = none := by
  have behind : cs.drop (spanLength isBlank cs +
      ((cs.drop (spanLength isBlank cs)).takeWhile Char.isAlpha).length +
      spanLength isBlank (cs.drop (spanLength isBlank cs +
        ((cs.drop (spanLength isBlank cs)).takeWhile Char.isAlpha).length))) =
      ((cs.dropWhile isBlank).dropWhile Char.isAlpha).dropWhile isBlank := by
    have word := drop_spanLength Char.isAlpha (cs.dropWhile isBlank)
    rw [spanLength] at word
    rw [← List.drop_drop, drop_spanLength, ← List.drop_drop, drop_spanLength, word]
  have closing : headIs (· == ')') (((cs.dropWhile isBlank).dropWhile Char.isAlpha).dropWhile isBlank) = false := by
    cases left : ((cs.dropWhile isBlank).dropWhile Char.isAlpha).dropWhile isBlank with
    | nil => rfl
    | cons c rest =>
      have same : (c :: rest).dropWhile isCastChar = cs.dropWhile isCastChar := by
        rw [← left, dropWhile_dropWhile, dropWhile_dropWhile, dropWhile_dropWhile]
        all_goals
          intro d hd
          simp [isCastChar, hd]
      have no_close : c ≠ ')' := by
        rintro rfl
        rw [OpensNoCast, ← same] at h
        exact h rfl
      simpa [headIs] using no_close
  simp only [castShape?, behind, closing, Bool.false_eq_true, if_false]

/-- There is no cast without a word. -/
theorem castShape?_closeParen (cs : List Char) : castShape? (')' :: cs) = none := by
  have no_word : (casts.find? fun p => asciiLower (String.ofList []) == p.1) = none := by decide
  have no_blank : isBlank ')' = false := by decide
  have no_letter : ')'.isAlpha = false := by decide
  simp [castShape?, spanLength, no_blank, no_letter, headIs, no_word]

theorem lexemeAt?_openParen {cs : List Char} (h : castShape? cs = none) :
    lexemeAt? ('(' :: cs) = some ⟨.openParen, "(", 0⟩ := by
  have single : headIs (longerMarks '(').contains cs = false := by
    cases cs <;> rfl
  have found := punctuationAt?_single single
  rw [lexemeAt?_cons _ (by decide) (by decide), scan]
  simp only [found, h]
  rfl

/-! ## Spelled tokens in front of others -/

namespace Spells

variable {b : List Char}

theorem blank {c : Char} (h : isSpace c = true) (tail : Spells b fs rest) : Spells (c :: b) fs rest :=
  (spells_blank h _).append tail

theorem space (tail : Spells b fs rest) : Spells (' ' :: b) fs rest := tail.blank (by decide)

theorem newline (tail : Spells b fs rest) : Spells ('\n' :: b) fs rest := tail.blank (by decide)

theorem name {text : String} (h : IsName text) (stop : EndsName (b ++ rest)) (tail : Spells b fs rest) :
    Spells (text.toList ++ b) ((.ident, text) :: fs) rest :=
  (IsName.spells h stop).append tail

/-- A word with a space behind it. -/
theorem word {text : String} (h : IsName text) (tail : Spells b fs rest) :
    Spells (text.toList ++ ' ' :: b) ((.ident, text) :: fs) rest :=
  tail.space.name h rfl

theorem var {text : String} (h : IsIdentifier text) (stop : Boundary (b ++ rest)) (tail : Spells b fs rest) :
    Spells ('$' :: (text.toList ++ b)) ((.variable, text) :: fs) rest :=
  (spells_variable h stop).append tail

theorem mark {c : Char} {kind : TokenKind} {text : String} (h : lexemeAt? (c :: (b ++ rest)) = some ⟨kind, text, 0⟩)
    (tail : Spells b fs rest) : Spells (c :: b) ((kind, text) :: fs) rest := by
  have single : Spells [c] [(kind, text)] (b ++ rest) := spells_lexeme h (by simp)
  exact single.append tail

theorem semicolon (tail : Spells b fs rest) : Spells (';' :: b) ((.semicolon, ";") :: fs) rest := tail.mark rfl

theorem comma (tail : Spells b fs rest) : Spells (',' :: b) ((.comma, ",") :: fs) rest := tail.mark rfl

theorem closeParen (tail : Spells b fs rest) : Spells (')' :: b) ((.closeParen, ")") :: fs) rest := tail.mark rfl

theorem openBracket (tail : Spells b fs rest) : Spells ('[' :: b) ((.openBracket, "[") :: fs) rest := tail.mark rfl

theorem closeBracket (tail : Spells b fs rest) : Spells (']' :: b) ((.closeBracket, "]") :: fs) rest := tail.mark rfl

theorem openBrace (tail : Spells b fs rest) : Spells ('\x7b' :: b) ((.openBrace, "\x7b") :: fs) rest := tail.mark rfl

theorem closeBrace (tail : Spells b fs rest) : Spells ('\x7d' :: b) ((.closeBrace, "\x7d") :: fs) rest := tail.mark rfl

theorem openParen (h : OpensNoCast (b ++ rest)) (tail : Spells b fs rest) :
    Spells ('(' :: b) ((.openParen, "(") :: fs) rest :=
  tail.mark (lexemeAt?_openParen (castShape?_eq_none h))

theorem emptyParens (tail : Spells b fs rest) :
    Spells ('(' :: ')' :: b) ((.openParen, "(") :: (.closeParen, ")") :: fs) rest :=
  tail.closeParen.mark (lexemeAt?_openParen (castShape?_closeParen _))

theorem colon (tail : Spells b fs rest) : Spells (':' :: ' ' :: b) ((.colon, ":") :: fs) rest := tail.space.mark rfl

theorem assign (tail : Spells b fs rest) : Spells ('=' :: ' ' :: b) ((.assign, "=") :: fs) rest := tail.space.mark rfl

theorem fatArrow (tail : Spells b fs rest) : Spells ('=' :: '>' :: ' ' :: b) ((.fatArrow, "=>") :: fs) rest := by
  have arrow : Spells ['=', '>'] [(.fatArrow, "=>")] (' ' :: b ++ rest) := spells_lexeme (by rfl) (by simp)
  exact arrow.append tail.space

theorem ellipsis (tail : Spells b fs rest) : Spells ('.' :: '.' :: '.' :: b) ((.ellipsis, "...") :: fs) rest := by
  have dots : Spells ['.', '.', '.'] [(.ellipsis, "...")] (b ++ rest) := spells_lexeme (by rfl) (by simp)
  exact dots.append tail

theorem pipe (h : headIs (longerMarks '|').contains (b ++ rest) = false) (tail : Spells b fs rest) :
    Spells ('|' :: b) ((.pipe, "|") :: fs) rest :=
  tail.mark (lexemeAt?_single (by simp) h)

theorem amp (h : headIs (longerMarks '&').contains (b ++ rest) = false) (tail : Spells b fs rest) :
    Spells ('&' :: b) ((.amp, "&") :: fs) rest :=
  tail.mark (lexemeAt?_single (by simp) h)

theorem minus (h : headIs (longerMarks '-').contains (b ++ rest) = false) (tail : Spells b fs rest) :
    Spells ('-' :: b) ((.minus, "-") :: fs) rest :=
  tail.mark (lexemeAt?_single (by simp) h)

theorem question (h : headIs (longerMarks '?').contains (b ++ rest) = false)
    (no_tag : headIs (· == '>') (b ++ rest) = false) (tail : Spells b fs rest) :
    Spells ('?' :: b) ((.question, "?") :: fs) rest :=
  tail.mark (lexemeAt?_question h no_tag)

end Spells

end Lexer

end Codewright.Php
