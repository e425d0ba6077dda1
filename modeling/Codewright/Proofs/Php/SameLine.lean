import Mathlib.Data.List.Find
import Codewright.Proofs.Php.Spelling

/-!
# Lexemes that end on their line

Most lexemes are told by the line on which they begin. Strings, heredocs and attribute groups are not, and comments and tags are no
lexemes; `isCode` says where none of these begins.

* `SameLine s t` – the texts are the same up to their first line feed;
* `isCode c cs` – a character of code that begins no comment, no closing tag and no text in quotes or brackets;
* `exists_lexeme` – such a character begins a lexeme, the same one in front of texts that begin with the same line; `Joined`
  says of which characters the lexeme is made.
-/

namespace Codewright.Php.Lexer

open Text

/-- Two texts are the same up to and including the first line feed, or up to their ends. -/
inductive SameLine : List Char → List Char → Prop where
  | nil : SameLine [] []
  | feed (s t : List Char) : SameLine ('\n' :: s) ('\n' :: t)
  | cons (c : Char) {s t : List Char} : SameLine s t → SameLine (c :: s) (c :: t)

namespace SameLine

variable {s t : List Char} {p : Char → Bool} {n : Nat}

theorem headIs_eq (h : SameLine s t) (p : Char → Bool) : headIs p s = headIs p t := by
  cases h <;> rfl

theorem drop (h : SameLine s t) (inside : ∀ d ∈ s.take n, d ≠ '\n') : SameLine (s.drop n) (t.drop n) := by
  induction n generalizing s t with
  | zero => exact h
  | succ n ih =>
    cases h with
    | nil => exact .nil
    | feed s t => exact absurd rfl (inside '\n' (by simp))
    | cons c h => exact ih h fun d hd => inside d (by simp [hd])

theorem take_eq (h : SameLine s t) (inside : ∀ d ∈ s.take n, d ≠ '\n') : s.take n = t.take n := by
  induction n generalizing s t with
  | zero => rfl
  | succ n ih =>
    cases h with
    | nil => rfl
    | feed s t => exact absurd rfl (inside '\n' (by simp))
    | cons c h => rw [List.take_succ_cons, List.take_succ_cons, ih h fun d hd => inside d (by simp [hd])]

theorem takeWhile_eq (h : SameLine s t) (stops : p '\n' = false) : s.takeWhile p = t.takeWhile p := by
  induction h with
  | nil => rfl
  | feed s t => rw [List.takeWhile_cons_of_neg (by simp [stops]), List.takeWhile_cons_of_neg (by simp [stops])]
  | cons c _ ih => rw [List.takeWhile_cons, List.takeWhile_cons, ih]

theorem spanLength_eq (h : SameLine s t) (stops : p '\n' = false) : spanLength p s = spanLength p t := by
  rw [spanLength, h.takeWhile_eq stops, spanLength]

theorem nameLength_eq (h : SameLine s t) : nameLength s = nameLength t := by
  induction h with
  | nil => rfl
  | feed s t => rfl
  | cons c h ih => rw [nameLength, nameLength, ih, h.headIs_eq]

/-- A word without line feeds stands at the start of both texts or of none. -/
theorem isPrefixOf_eq (h : SameLine s t) {w : List Char} (one : '\n' ∉ w) : w.isPrefixOf s = w.isPrefixOf t := by
  induction w generalizing s t with
  | nil => simp
  | cons d w ih =>
    rw [List.mem_cons, not_or] at one
    have other : (d == '\n') = false := beq_eq_false_iff_ne.2 (Ne.symm one.1)
    cases h with
    | nil => rfl
    | feed s t => simp [List.isPrefixOf, other]
    | cons c h => simp [List.isPrefixOf, ih h one.2]

end SameLine

/-! ## The characters of code -/

/-- White space on a line, and the marks that begin nothing but lexemes of one line, whatever follows. -/
def isMark (c : Char) : Bool :=
  [' ', '\t', '\\', '$', '(', ')', '[', ']', '\x7b', '\x7d', ',', ';', ':', '.', '=', '!', '>', '+', '-', '*', '%', '&', '|',
    '^', '~', '@'].contains c

/-- A character that is one of code, whatever follows. -/
def isInner (c : Char) : Bool := isIdentChar c || isMark c

theorem isInner_of_isAlpha {c : Char} (h : c.isAlpha = true) : isInner c = true := by
  simp [isInner, isIdentChar, isIdentStart, h]

theorem isInner_of_isDigit {c : Char} (h : c.isDigit = true) : isInner c = true := by
  simp [isInner, isIdentChar, h]

theorem isInner_of_isIdentChar {c : Char} (h : isIdentChar c = true) : isInner c = true := by
  simp [isInner, h]

theorem isInner_of_isBlank {c : Char} (h : isBlank c = true) : isInner c = true := by
  rw [isBlank, Bool.or_eq_true, beq_iff_eq, beq_iff_eq] at h
  rcases h with rfl | rfl <;> decide

theorem isInner_of_separator {c : Char} (h : isDigitOrSeparator c = true) : isInner c = true := by
  rw [isDigitOrSeparator, Bool.or_eq_true, beq_iff_eq] at h
  rcases h with digit | rfl
  · exact isInner_of_isDigit digit
  · decide

/-- The digits up to a hexadecimal one. -/
theorem isInner_of_isHexDigit {c : Char} (h : isHexDigit c = true) : isInner c = true := by
  have upper : c.isUpper = decide (c.val ≥ 'A'.val ∧ c.val ≤ 'Z'.val) := rfl
  have lower : c.isLower = (decide (c.val ≥ 'a'.val) && decide (c.val ≤ 'z'.val)) := rfl
  simp only [isHexDigit, Bool.or_eq_true, Bool.and_eq_true, decide_eq_true_eq] at h
  rcases h with (digit | ⟨least, most⟩) | ⟨least, most⟩
  · exact isInner_of_isDigit digit
  · refine isInner_of_isAlpha ?_
    rw [show c.isAlpha = (c.isUpper || c.isLower) from rfl, lower]
    simp only [Char.le_def, UInt32.le_iff_toNat_le] at least most
    simp only [UInt32.le_iff_toNat_le, ge_iff_le, Bool.or_eq_true, Bool.and_eq_true, decide_eq_true_eq]
    exact .inr ⟨least, most.trans (by decide)⟩
  · refine isInner_of_isAlpha ?_
    rw [show c.isAlpha = (c.isUpper || c.isLower) from rfl, upper]
    simp only [Char.le_def, UInt32.le_iff_toNat_le] at least most
    simp only [UInt32.le_iff_toNat_le, ge_iff_le, Bool.or_eq_true, decide_eq_true_eq]
    exact .inl ⟨least, most.trans (by decide)⟩

theorem ne_feed_of_isInner {c : Char} (h : isInner c = true) : c ≠ '\n' := by
  rintro rfl
  cases h

/-- The characters may stand in a lexeme behind `c`; an angle bracket only behind another one. -/
def joined (c : Char) : List Char → Bool
  | [] => true
  | d :: ds => (isInner d || d == '?' || (d == '<' && c == '<')) && joined d ds

theorem joined_of_inner (c : Char) {ds : List Char} (h : ∀ d ∈ ds, isInner d = true) : joined c ds = true := by
  induction ds generalizing c with
  | nil => rfl
  | cons d ds ih =>
    rw [joined, h d (by simp), Bool.true_or, Bool.true_or, Bool.true_and]
    exact ih d fun e he => h e (by simp [he])

theorem ne_feed_of_joined {c : Char} {ds : List Char} (h : joined c ds = true) : ∀ d ∈ ds, d ≠ '\n' := by
  induction ds generalizing c with
  | nil => simp
  | cons d ds ih =>
    rw [joined, Bool.and_eq_true, Bool.or_eq_true, Bool.or_eq_true, Bool.and_eq_true, beq_iff_eq, beq_iff_eq] at h
    refine List.forall_mem_cons.2 ⟨?_, ih h.2⟩
    rcases h.1 with (inner | rfl) | ⟨rfl, -⟩
    · exact ne_feed_of_isInner inner
    · decide
    · decide

theorem take_spanLength (p : Char → Bool) (s : List Char) : ∀ d ∈ s.take (spanLength p s), p d = true := by
  induction s with
  | nil => simp
  | cons c s ih =>
    cases hc : p c with
    | false => simp [spanLength, hc]
    | true =>
      have length : spanLength p (c :: s) = spanLength p s + 1 := by simp [spanLength, hc]
      rw [length, List.take_succ_cons]
      exact List.forall_mem_cons.2 ⟨hc, ih⟩

theorem inner_span {p : Char → Bool} (h : ∀ {c}, p c = true → isInner c = true) (s : List Char) :
    ∀ d ∈ s.take (spanLength p s), isInner d = true :=
  fun d hd => h (take_spanLength p s d hd)

theorem inner_name (s : List Char) : ∀ d ∈ s.take (nameLength s), isInner d = true := by
  induction s with
  | nil => simp [nameLength]
  | cons c s ih =>
    rw [nameLength]
    split
    · next goes =>
      rw [List.take_succ_cons]
      refine List.forall_mem_cons.2 ⟨?_, ih⟩
      rw [Bool.or_eq_true, Bool.and_eq_true, beq_iff_eq] at goes
      rcases goes with ⟨rfl, -⟩ | ident
      · decide
      · exact isInner_of_isIdentChar ident
    · simp

/-- The parts of a lexeme one after the other. -/
theorem inner_add {s : List Char} {m n : Nat} (h : ∀ d ∈ s.take m, isInner d = true)
    (h' : ∀ d ∈ (s.drop m).take n, isInner d = true) : ∀ d ∈ s.take (m + n), isInner d = true := by
  rw [List.take_add]
  exact List.forall_mem_append.2 ⟨h, h'⟩

/-! ### Numbers -/

theorem inner_fraction (s : List Char) : ∀ d ∈ s.take (fractionLength s), isInner d = true := by
  unfold fractionLength
  split
  · next cs =>
    split
    · rw [List.take_succ_cons]
      exact List.forall_mem_cons.2 ⟨by decide, inner_span isInner_of_separator cs⟩
    · simp
  · simp

/-- The length of the sign at the start of the list. -/
def signLength (cs : List Char) : Nat := if headIs (fun s => s == '+' || s == '-') cs then 1 else 0

theorem exponentLength_cons (c : Char) (cs : List Char) :
    exponentLength (c :: cs) =
      if c == 'e' || c == 'E' then
        if headIs Char.isDigit (cs.drop (signLength cs)) then
          1 + signLength cs + spanLength Char.isDigit (cs.drop (signLength cs))
        else 0
      else 0 :=
  rfl

theorem inner_sign (cs : List Char) : ∀ d ∈ cs.take (signLength cs), isInner d = true := by
  unfold signLength
  split
  · next sign =>
    cases cs with
    | nil => cases sign
    | cons c cs =>
      rw [headIs, Bool.or_eq_true, beq_iff_eq, beq_iff_eq] at sign
      rcases sign with rfl | rfl <;> simp [show isInner '+' = true from rfl, show isInner '-' = true from rfl]
  · simp

theorem inner_exponent (s : List Char) : ∀ d ∈ s.take (exponentLength s), isInner d = true := by
  cases s with
  | nil => simp [exponentLength]
  | cons c cs =>
    rw [exponentLength_cons]
    split
    · next mark =>
      split
      · rw [Nat.add_assoc, Nat.add_comm, List.take_succ_cons]
        refine List.forall_mem_cons.2 ⟨?_, inner_add (inner_sign cs) (inner_span isInner_of_isDigit _)⟩
        rw [Bool.or_eq_true, beq_iff_eq, beq_iff_eq] at mark
        rcases mark with rfl | rfl <;> decide
      · simp
    · simp

/-- Digits of a radix come behind a zero and a mark, and are characters of code. -/
theorem radixDigits?_spec {s : List Char} {p : Char → Bool} (h : radixDigits? s = some p) :
    (∃ r rest, s = '0' :: r :: rest ∧ isInner r = true) ∧ ∀ {c}, p c = true → isInner c = true := by
  unfold radixDigits? at h
  split at h
  · next r rest =>
    split at h
    · next mark =>
      cases h
      rw [Bool.or_eq_true, beq_iff_eq, beq_iff_eq] at mark
      refine ⟨⟨r, rest, rfl, by rcases mark with rfl | rfl <;> decide⟩, fun digit => ?_⟩
      rw [Bool.or_eq_true, beq_iff_eq] at digit
      rcases digit with digit | rfl
      · exact isInner_of_isHexDigit digit
      · decide
    split at h
    · next mark =>
      cases h
      rw [Bool.or_eq_true, beq_iff_eq, beq_iff_eq] at mark
      refine ⟨⟨r, rest, rfl, by rcases mark with rfl | rfl <;> decide⟩, fun digit => ?_⟩
      rw [Bool.or_eq_true, Bool.or_eq_true, beq_iff_eq, beq_iff_eq, beq_iff_eq] at digit
      rcases digit with (rfl | rfl) | rfl <;> decide
    split at h
    · next mark =>
      cases h
      rw [Bool.or_eq_true, beq_iff_eq, beq_iff_eq] at mark
      refine ⟨⟨r, rest, rfl, by rcases mark with rfl | rfl <;> decide⟩, fun digit => ?_⟩
      rw [Bool.or_eq_true, Bool.and_eq_true, decide_eq_true_eq, decide_eq_true_eq, beq_iff_eq] at digit
      rcases digit with ⟨least, most⟩ | rfl
      · refine isInner_of_isDigit ?_
        simp only [Char.le_def, UInt32.le_iff_toNat_le] at least most
        simp only [Char.isDigit, UInt32.le_iff_toNat_le, ge_iff_le, Bool.and_eq_true, decide_eq_true_eq]
        exact ⟨least, most.trans (by decide)⟩
      · decide
    · cases h
  · cases h

theorem inner_radix {s : List Char} {p : Char → Bool} (h : radixDigits? s = some p) :
    (∀ d ∈ s.take 2, isInner d = true) ∧ ∀ d ∈ (s.drop 2).take (spanLength p (s.drop 2)), isInner d = true := by
  obtain ⟨⟨r, rest, rfl, mark⟩, digits⟩ := radixDigits?_spec h
  exact ⟨by simpa [show isInner '0' = true from rfl] using mark, inner_span digits _⟩

theorem inner_number (s : List Char) : ∀ d ∈ s.take (numberShape s).2, isInner d = true := by
  unfold numberShape
  split
  · next radix => exact inner_add (inner_radix radix).1 (inner_radix radix).2
  · refine inner_add (inner_add (inner_span isInner_of_separator s) (inner_fraction _)) ?_
    exact inner_exponent _

/-! ### Casts -/

/-- The length of a cast behind its opening parenthesis, without the closing one. -/
def castLength (cs : List Char) : Nat :=
  spanLength isBlank cs + spanLength Char.isAlpha (cs.drop (spanLength isBlank cs)) +
    spanLength isBlank (cs.drop (spanLength isBlank cs + spanLength Char.isAlpha (cs.drop (spanLength isBlank cs))))

theorem castShape?_eq_ite (cs : List Char) :
    castShape? cs =
      if headIs (· == ')') (cs.drop (castLength cs)) then
        (casts.find? fun p => asciiLower (String.ofList ((cs.drop (spanLength isBlank cs)).takeWhile Char.isAlpha)) == p.1).map
          fun p => (p.2, castLength cs + 1)
      else none :=
  rfl

theorem inner_castWord (s : List Char) :
    ∀ d ∈ s.take (spanLength isBlank s + spanLength Char.isAlpha (s.drop (spanLength isBlank s))), isInner d = true :=
  inner_add (inner_span isInner_of_isBlank s) (inner_span isInner_of_isAlpha _)

theorem inner_castLength (s : List Char) : ∀ d ∈ s.take (castLength s), isInner d = true :=
  inner_add (inner_castWord s) (inner_span isInner_of_isBlank _)

theorem inner_cast {s : List Char} {r : String × Nat} (h : castShape? s = some r) : ∀ d ∈ s.take r.2, isInner d = true := by
  rw [castShape?_eq_ite] at h
  split at h
  · next closing =>
    obtain ⟨p, -, rfl⟩ := Option.map_eq_some_iff.1 h
    refine inner_add (inner_castLength s) ?_
    cases behind : s.drop (castLength s) with
    | nil => simp
    | cons c cs =>
      rw [behind, headIs, beq_iff_eq] at closing
      simp [closing, show isInner ')' = true from rfl]
  · cases h

/-! ### Same lines, same lexemes -/

/-- The characters of a number behind its first one. -/
theorem inner_number_tail (c : Char) (s : List Char) : ∀ d ∈ s.take ((numberShape (c :: s)).2 - 1), isInner d = true := by
  have inner := inner_number (c :: s)
  cases length : (numberShape (c :: s)).2 with
  | zero => simp
  | succ n =>
    rw [length, List.take_succ_cons] at inner
    exact (List.forall_mem_cons.1 inner).2

namespace SameLine

variable {s t : List Char}

/-- What comes behind characters inside a lexeme. -/
theorem drop_inner (h : SameLine s t) {n : Nat} (inner : ∀ d ∈ s.take n, isInner d = true) : SameLine (s.drop n) (t.drop n) :=
  h.drop fun d hd => ne_feed_of_isInner (inner d hd)

theorem fractionLength_eq (h : SameLine s t) : fractionLength s = fractionLength t := by
  cases h with
  | nil => rfl
  | feed s t => rfl
  | @cons c s t h =>
    by_cases point : c = '.'
    · subst point
      rw [fractionLength, fractionLength, h.headIs_eq, h.spanLength_eq (by decide)]
    · unfold fractionLength
      split
      · next same => exact absurd (List.cons.inj same).1 point
      · split
        · next same => exact absurd (List.cons.inj same).1 point
        · rfl

theorem signLength_eq (h : SameLine s t) : signLength s = signLength t := by
  rw [signLength, h.headIs_eq, signLength]

theorem exponentLength_eq (h : SameLine s t) : exponentLength s = exponentLength t := by
  cases h with
  | nil => rfl
  | feed s t => rfl
  | @cons c s t h =>
    have behind : SameLine (s.drop (signLength s)) (t.drop (signLength s)) := h.drop_inner (inner_sign s)
    rw [exponentLength_cons, exponentLength_cons, ← h.signLength_eq, behind.headIs_eq, behind.spanLength_eq (by decide)]

theorem radixDigits?_eq (h : SameLine s t) : radixDigits? s = radixDigits? t := by
  cases h with
  | nil => rfl
  | feed s t => rfl
  | @cons c s t h =>
    cases h with
    | nil => rfl
    | feed s t => rw [radixDigits?_eq_none rfl, radixDigits?_eq_none rfl]
    | @cons d s t h =>
      by_cases zero : c = '0'
      · subst zero
        rfl
      · unfold radixDigits?
        split
        · next same => exact absurd (List.cons.inj same).1 zero
        · split
          · next same => exact absurd (List.cons.inj same).1 zero
          · rfl

theorem numberShape_eq (h : SameLine s t) : numberShape s = numberShape t := by
  unfold numberShape
  rw [← h.radixDigits?_eq]
  split
  · next p radix =>
    have stops : p '\n' = false := by
      by_contra digit
      exact absurd ((radixDigits?_spec radix).2 (eq_true_of_ne_false digit)) (by decide)
    rw [(h.drop_inner (inner_radix radix).1).spanLength_eq stops]
  · have whole := inner_span isInner_of_separator s
    have behind := h.drop_inner whole
    have behind' := h.drop_inner (inner_add whole (inner_fraction _))
    dsimp only
    rw [← h.spanLength_eq (p := isDigitOrSeparator) (by decide), ← behind.fractionLength_eq, ← behind'.exponentLength_eq]

theorem castLength_eq (h : SameLine s t) : castLength s = castLength t := by
  have word := h.drop_inner (inner_span isInner_of_isBlank s)
  have closing := h.drop_inner (inner_castWord s)
  unfold castLength
  rw [← h.spanLength_eq (p := isBlank) (by decide), ← word.spanLength_eq (p := Char.isAlpha) (by decide),
    ← closing.spanLength_eq (p := isBlank) (by decide)]

theorem castShape?_eq (h : SameLine s t) : castShape? s = castShape? t := by
  have word := h.drop_inner (inner_span isInner_of_isBlank s)
  have closing := h.drop_inner (inner_castLength s)
  rw [castShape?_eq_ite, castShape?_eq_ite, ← h.castLength_eq, closing.headIs_eq, ← h.spanLength_eq (p := isBlank) (by decide),
    word.takeWhile_eq (p := Char.isAlpha) (by decide)]

theorem punctuationAt?_eq (h : SameLine s t) : punctuationAt? s = punctuationAt? t := by
  have one : ∀ p ∈ punctuation, '\n' ∉ p.1.toList := by decide
  exact List.find?_congr fun p hp => h.isPrefixOf_eq (one p hp)

end SameLine

/-- A character of code that begins no comment, no closing tag, no string and no attribute group when `cs` follows. -/
def isCode (c : Char) (cs : List Char) : Bool :=
  if c == '/' then !headIs (fun d => d == '/' || d == '*') cs
  else if c == '?' then !headIs (· == '>') cs
  else if c == '<' then !List.isPrefixOf ['<', '<'] cs
  else isInner c

section

variable {c : Char} {s t : List Char}

theorem isCode_of_isInner (h : isInner c = true) (s : List Char) : isCode c s = true := by
  have ne (d : Char) (hd : isInner d = false) : (c == d) = false := by
    rw [beq_eq_false_iff_ne]
    rintro rfl
    rw [h] at hd
    cases hd
  simp [isCode, ne '/' rfl, ne '?' rfl, ne '<' rfl, h]

theorem SameLine.isCode_eq (h : SameLine s t) (c : Char) : isCode c s = isCode c t := by
  rw [isCode, h.headIs_eq, h.headIs_eq, h.isPrefixOf_eq (by decide), isCode]

/-- What is no character of code. -/
theorem ne_of_isCode (code : isCode c s = true) : ∀ d ∈ ['\n', '\'', '"', '\x60', '#'], c ≠ d := by
  intro d hd same
  subst same
  simp only [List.mem_cons, List.not_mem_nil, or_false] at hd
  rcases hd with rfl | rfl | rfl | rfl | rfl <;> exact Bool.noConfusion (show false = true from code)

/-- No gap and no closing tag begins at a character of code other than white space. -/
theorem lexemeAt?_of_isCode (code : isCode c s = true) (no_space : isSpace c = false) :
    lexemeAt? (c :: s) = (scan c s).toOption := by
  have no_hash : (c == '#') = false := beq_eq_false_iff_ne.2 (ne_of_isCode code '#' (by simp))
  have no_tag : ¬(c = '?' ∧ headIs (· == '>') s = true) := by
    rintro ⟨rfl, tag⟩
    simp [isCode, tag] at code
  have no_comment : (c == '/' && headIs (· == '/') s) = false ∧ (c == '/' && headIs (· == '*') s) = false := by
    by_cases slash : c = '/'
    · subst slash
      cases s with
      | nil => exact ⟨rfl, rfl⟩
      | cons d s => simpa [isCode, headIs, and_comm] using code
    · simp [slash]
  rw [lexemeAt?, if_neg no_tag]
  simp [gapPiece?, no_space, no_hash, no_comment]

/-- The lexeme does not depend on what comes behind the line. -/
theorem scan_eq (code : isCode c s = true) (h : SameLine s t) : scan c s = scan c t := by
  have ne := ne_of_isCode code
  have no_quote : (c == '\'' || c == '"' || c == '\x60') = false := by
    simp [ne '\'' (by simp), ne '"' (by simp), ne '\x60' (by simp)]
  have no_heredoc : ['<', '<', '<'].isPrefixOf (c :: s) = false := by
    by_cases bracket : c = '<'
    · subst bracket
      simpa [isCode] using code
    · simp [List.isPrefixOf, Ne.symm bracket]
  have no_group : ['#', '['].isPrefixOf (c :: s) = false := by
    simp [List.isPrefixOf, Ne.symm (ne '#' (by simp))]
  have whole : SameLine (c :: s) (c :: t) := .cons c h
  have take {n : Nat} (inner : ∀ d ∈ s.take n, isInner d = true) : s.take n = t.take n :=
    h.take_eq fun d hd => ne_feed_of_isInner (inner d hd)
  unfold scan
  dsimp only
  rw [← whole.isPrefixOf_eq (by decide), ← whole.isPrefixOf_eq (by decide), no_heredoc, no_group, no_quote,
    ← h.headIs_eq, ← h.headIs_eq, ← whole.numberShape_eq, ← whole.punctuationAt?_eq, ← h.castShape?_eq, ← h.nameLength_eq,
    ← h.spanLength_eq (by decide), take (inner_span isInner_of_isIdentChar s), take (inner_name s), take (inner_number_tail c s)]
  rfl

/-- The marks of one character, and those that begin some of several. -/
theorem exists_punctuation (mark : (isMark c || ['/', '?', '<'].contains c) = true) (no_space : isSpace c = false) :
    ∃ p ∈ punctuation, p.1.toList = [c] := by
  have table : ([' ', '\t', '\\', '$', '(', ')', '[', ']', '\x7b', '\x7d', ',', ';', ':', '.', '=', '!', '>', '+', '-', '*', '%',
      '&', '|', '^', '~', '@'] ++ ['/', '?', '<']).all (fun c => isSpace c || punctuation.any fun p => p.1.toList == [c]) = true := by
    decide
  rw [isMark, Bool.or_eq_true, List.contains_iff_mem, List.contains_iff_mem, ← List.mem_append] at mark
  have found := List.all_eq_true.1 table c mark
  rw [no_space, Bool.false_or] at found
  obtain ⟨p, member, single⟩ := List.any_eq_true.1 found
  exact ⟨p, member, beq_iff_eq.1 single⟩

/-- The mark that is found at a character, and what it takes of the characters behind it. -/
theorem joined_punctuation {text : String} {kind : TokenKind} (found : punctuationAt? (c :: s) = some (text, kind)) :
    joined c (s.take (text.length - 1)) = true := by
  have table : ∀ p ∈ punctuation, (match p.1.toList with
      | [] => false
      | c :: ds => joined c ds) = true := by
    decide
  have here := List.find?_some found
  have joins := table _ (List.mem_of_find?_eq_some found)
  dsimp only at here joins
  obtain ⟨rest, whole⟩ := List.isPrefixOf_iff_prefix.1 here
  cases chars : text.toList with
  | nil =>
    rw [chars] at joins
    cases joins
  | cons d ds =>
    rw [chars] at joins whole
    cases whole
    have length : text.length - 1 = ds.length := by rw [← String.length_toList, chars]; rfl
    show joined c ((ds ++ rest).take _) = true
    rw [length, List.take_left]
    exact joins

/-- A character of code other than white space begins a lexeme of one line. -/
theorem exists_scan (code : isCode c s = true) (no_space : isSpace c = false) :
    ∃ lexeme, scan c s = .ok lexeme ∧ joined c (s.take lexeme.more) = true := by
  have ne := ne_of_isCode code
  unfold scan
  dsimp only
  split
  · exact ⟨_, rfl, joined_of_inner c (inner_span isInner_of_isIdentChar s)⟩
  split
  · exact ⟨_, rfl, joined_of_inner c (inner_name s)⟩
  next no_name =>
  split
  · exact ⟨_, rfl, joined_of_inner c (inner_number_tail c s)⟩
  next no_number =>
  split
  · next quote => simp [ne '\'' (by simp), ne '"' (by simp), ne '\x60' (by simp)] at quote
  split
  · next cast =>
    split at cast
    · exact ⟨_, rfl, joined_of_inner c (inner_cast cast)⟩
    · cases cast
  split
  · next heredoc =>
    obtain ⟨rest, whole⟩ := List.isPrefixOf_iff_prefix.1 heredoc
    cases whole
    cases code
  split
  · next group =>
    obtain ⟨rest, whole⟩ := List.isPrefixOf_iff_prefix.1 group
    cases whole
    exact absurd rfl (ne '#' (by simp))
  split
  · next found => exact ⟨_, rfl, joined_punctuation found⟩
  · next none_there =>
    have mark : (isMark c || ['/', '?', '<'].contains c) = true := by
      rw [Bool.or_eq_true, Bool.and_eq_true, not_or] at no_name no_number
      by_cases other : c ∈ ['/', '?', '<']
      · rw [Bool.or_eq_true, List.contains_iff_mem]
        exact .inr other
      · simp only [List.mem_cons, List.not_mem_nil, or_false, not_or] at other
        have inner : isInner c = true := by simpa [isCode, other] using code
        simpa [isInner, isIdentChar, no_name.1, no_number.1, other] using inner
    obtain ⟨p, member, single⟩ := exists_punctuation mark no_space
    have not_here := List.find?_eq_none.1 none_there p member
    rw [single] at not_here
    simp [List.isPrefixOf] at not_here

/-- **A lexeme is told by its line.** Where code goes on with no gap, there is a lexeme that ends on the line, the same one whatever
the lines behind are. -/
theorem exists_lexeme (code : isCode c s = true) (no_space : isSpace c = false) (h : SameLine s t) :
    ∃ lexeme, lexemeAt? (c :: s) = some lexeme ∧ lexemeAt? (c :: t) = some lexeme ∧ joined c (s.take lexeme.more) = true := by
  obtain ⟨lexeme, read, joins⟩ := exists_scan code no_space
  refine ⟨lexeme, ?_, ?_, joins⟩
  · rw [lexemeAt?_of_isCode code no_space, read]
    rfl
  · rw [lexemeAt?_of_isCode (h.isCode_eq c ▸ code) no_space, ← scan_eq code h, read]
    rfl

end

end Codewright.Php.Lexer
