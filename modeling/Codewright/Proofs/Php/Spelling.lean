import Codewright.Php.Lexer

/-!
# Texts that spell tokens

What a piece of code is for the parser: the faces of its tokens, that is, their kinds and texts.

* `Spells cs fs rest` – in front of `rest`, the characters `cs` are the tokens `fs`, with whatever whitespace and
  comments stand between them; pieces are put together by `Spells.append`;
* `spells_gap`, `spells_lexeme` – a piece of a gap and a single token;
* `spells_variable`, `spells_word`, `spells_decimal`, … – the tokens of one kind, in front of a text that does not go on
  with them (`Boundary`).
-/

namespace Codewright.Php

open Text Source

/-- A token without its place and the comments in front of it. -/
abbrev Face := TokenKind × String

/-- The kind and text of a token. -/
def Token.face (t : Token) : Face := (t.kind, t.text)

/-- The face of the token behind the last one. -/
def eofFace : Face := (.eof, "")

namespace Lexer

/-! ## Gaps -/

/-- The comments read before do not change how far a gap goes. -/
theorem map_snd_readGap (g g' : Gap) (p : Position) (cs : List Char) :
    (readGap g p cs).map Prod.snd = (readGap g' p cs).map Prod.snd := by
  fun_induction readGap g p cs generalizing g' with
  | case1 => rw [readGap_nil]; rfl
  | case2 g p c cs u h => rw [readGap_cons, h]
  | case3 g p c cs h => rw [readGap_cons, h]; rfl
  | case4 g p c cs piece n h ih =>
    rw [readGap_cons, h]
    exact ih _

theorem readGap_of_lexeme {g : Gap} {p : Position} {c : Char} {cs : List Char} (h : gapPiece? c cs = .ok none) :
    readGap g p (c :: cs) = .ok (g, p, c :: cs) := by
  rw [readGap_cons, h]

/-! ## Faces -/

/-- The faces of the tokens of code, given its place and what a gap leaves of it. -/
def facesBehind : Position × List Char → Except SyntaxError (List Face)
  | (_, []) => .ok [eofFace]
  | (p, c :: rest) =>
    if c = '?' ∧ headIs (· == '>') rest then
      let n := 1 + lineEndLength (rest.drop 1)
      let q := p.after (c :: rest.take n)
      match readText q (rest.drop n) with
      | .source html => .ok ((.closeTag, "?>") :: html.map Token.face ++ [eofFace])
      | .code tokens read =>
        (readCode (q.after ((rest.drop n).take read)) ((rest.drop n).drop read)).map fun ts =>
          (.closeTag, "?>") :: tokens.map Token.face ++ ts.map Token.face
    else
      match scan c rest with
      | .error f => .error ⟨f.cause, ⟨p.byte, (p.after ((c :: rest).take f.read)).byte⟩, p⟩
      | .ok lexeme =>
        (readCode (p.after (c :: rest.take lexeme.more)) (rest.drop lexeme.more)).map fun ts =>
          (lexeme.kind, lexeme.text) :: ts.map Token.face

/-- The faces of the tokens of code. -/
def codeFaces (p : Position) (cs : List Char) : Except SyntaxError (List Face) :=
  (readCode p cs).map (·.map Token.face)

/-- The faces do not depend on the comments of the gap in front. -/
theorem codeFaces_eq (p : Position) (cs : List Char) :
    codeFaces p cs = ((readGap .empty p cs).map Prod.snd).bind facesBehind := by
  rw [codeFaces, readCode]
  split
  next e h => rw [h]; rfl
  next g q h => rw [h]; rfl
  next g q c rest h =>
    rw [h]
    change Except.map _ _ = facesBehind (q, c :: rest)
    rw [facesBehind]
    by_cases tag : c = '?' ∧ headIs (· == '>') rest
    · rw [if_pos tag, if_pos tag]
      dsimp only
      cases readText _ _ with
      | source html => simp [Except.map, Token.face, token, eofToken, eofFace]
      | code tokens read =>
        dsimp only
        cases readCode _ _ <;> simp [Except.map, Token.face, token]
    · rw [if_neg tag, if_neg tag]
      cases scan c rest with
      | error f => rfl
      | ok lexeme =>
        dsimp only
        cases readCode _ _ <;> simp [Except.map, Token.face, token]

theorem codeFaces_nil (p : Position) : codeFaces p [] = .ok [eofFace] := by
  rw [codeFaces_eq, readGap_nil]
  rfl

/-! ## Spelling -/

/-- In front of `rest`, the characters `cs` are the tokens `fs`. -/
def Spells (cs : List Char) (fs : List Face) (rest : List Char) : Prop :=
  ∀ p, codeFaces p (cs ++ rest) = (codeFaces (p.after cs) rest).map (fs ++ ·)

theorem Spells.nil (rest : List Char) : Spells [] [] rest := by
  intro p
  cases h : codeFaces p rest <;> simp [h, Except.map]

theorem Spells.append {a b rest : List Char} {fs gs : List Face}
    (ha : Spells a fs (b ++ rest)) (hb : Spells b gs rest) :
    Spells (a ++ b) (fs ++ gs) rest := by
  intro p
  rw [List.append_assoc, ha, hb, Position.after_append]
  cases codeFaces ((p.after a).after b) rest <;> simp [Except.map]

/-- A text that spells tokens up to its end. -/
theorem Spells.codeFaces_eq {cs : List Char} {fs : List Face} (h : Spells cs fs []) (p : Position) :
    codeFaces p cs = .ok (fs ++ [eofFace]) := by
  have := h p
  rw [List.append_nil, codeFaces_nil] at this
  exact this

/-- Whitespace and comments spell nothing. -/
theorem spells_gap {c : Char} {cs rest : List Char} {piece : GapPiece}
    (h : gapPiece? c (cs ++ rest) = .ok (some (piece, cs.length))) : Spells (c :: cs) [] rest := by
  intro p
  rw [Lexer.codeFaces_eq, Lexer.codeFaces_eq, List.cons_append, readGap_cons, h]
  simp only [List.take_left, List.drop_left]
  rw [map_snd_readGap _ .empty]
  cases ((readGap .empty (p.after (c :: cs)) rest).map Prod.snd).bind facesBehind <;> simp [Except.map]

theorem spells_blank {c : Char} (h : isSpace c = true) (rest : List Char) : Spells [c] [] rest := by
  have blank : gapPiece? c ([] ++ rest) = .ok (some (.blank, ([] : List Char).length)) := by simp [gapPiece?, h]
  exact spells_gap blank

/-- The lexeme at the start of a text, if neither a gap nor a closing tag begins there. -/
def lexemeAt? : List Char → Option Lexeme
  | [] => none
  | c :: cs =>
    if c = '?' ∧ headIs (· == '>') cs then none
    else
      match gapPiece? c cs with
      | .ok none => (scan c cs).toOption
      | _ => none

/-- A lexeme spells its token. -/
theorem spells_lexeme {cs rest : List Char} {kind : TokenKind} {text : String}
    (h : lexemeAt? (cs ++ rest) = some ⟨kind, text, cs.length - 1⟩) (ne_nil : cs ≠ []) :
    Spells cs [(kind, text)] rest := by
  obtain ⟨c, cs, rfl⟩ := List.exists_cons_of_ne_nil ne_nil
  rw [List.cons_append, lexemeAt?] at h
  split at h
  next => cases h
  next no_tag =>
    split at h
    next no_gap =>
      have scanned : scan c (cs ++ rest) = .ok ⟨kind, text, cs.length⟩ := by
        cases hs : scan c (cs ++ rest) <;> simp_all [Except.toOption]
      intro p
      rw [Lexer.codeFaces_eq, List.cons_append, readGap_of_lexeme no_gap]
      simp only [Except.map, Except.bind, facesBehind, if_neg no_tag, scanned,
        List.take_left, List.drop_left, codeFaces]
      generalize readCode _ _ = result
      cases result <;> simp
    next => cases h

/-! ## Where tokens end -/

/-- A character that goes on with no name, number or variable in front of it. -/
def isBoundary (c : Char) : Bool :=
  [' ', '\n', ';', ',', ')', ']', '\x7d', '(', '[', '-', '+', '?', ':'].contains c

/-- What follows a name, a number or a variable that is at its end. -/
def Boundary (rest : List Char) : Prop := ∀ c, rest.head? = some c → isBoundary c = true

theorem boundary_nil : Boundary [] := by
  intro c hc
  cases hc

theorem boundary_cons {c : Char} (h : isBoundary c = true) (rest : List Char) : Boundary (c :: rest) := by
  intro d hd
  cases hd
  exact h

/-- A class of characters that has no boundary in it does not go on behind one. -/
theorem Boundary.headIs_eq_false {p : Char → Bool} {rest : List Char} (h : Boundary rest)
    (hp : ∀ c, isBoundary c = true → p c = false) : headIs p rest = false := by
  cases rest with
  | nil => rfl
  | cons c rest => exact hp c (h c rfl)

/-- A property of the boundary characters holds if it holds of each. -/
theorem forall_isBoundary {p : Char → Bool}
    (h : [' ', '\n', ';', ',', ')', ']', '\x7d', '(', '[', '-', '+', '?', ':'].all p = true) (c : Char)
    (hc : isBoundary c = true) : p c = true :=
  List.all_eq_true.1 h c (List.contains_iff_mem.1 hc)

theorem isIdentChar_of_isBoundary {c : Char} (h : isBoundary c = true) : isIdentChar c = false := by
  simpa using forall_isBoundary (p := fun c => !isIdentChar c) (by decide) c h

/-- A run of characters of a class ends where the class does. -/
theorem spanLength_append {p : Char → Bool} {cs rest : List Char} (h : ∀ c ∈ cs, p c = true)
    (stop : headIs p rest = false) : spanLength p (cs ++ rest) = cs.length := by
  induction cs with
  | nil =>
    cases rest with
    | nil => rfl
    | cons c rest =>
      have : p c = false := stop
      simp [spanLength, this]
  | cons c cs ih =>
    have hc : p c = true := h c (by simp)
    have tail := ih fun d hd => h d (by simp [hd])
    simp only [spanLength, List.cons_append, List.takeWhile_cons, hc, if_true, List.length_cons] at tail ⊢
    rw [tail]

/-! ## Tokens of one kind -/

/-- The text may be the name of a variable. -/
def IsIdentifier (name : String) : Prop :=
  headIs isIdentStart name.toList = true ∧ name.toList.all isIdentChar = true

/-- The text is digits, perhaps with separators, and begins with a digit. -/
def IsDecimal (text : String) : Prop :=
  headIs Char.isDigit text.toList = true ∧ text.toList.all isDigitOrSeparator = true

theorem headIs_append {p : Char → Bool} {cs : List Char} (h : headIs p cs = true) (rest : List Char) :
    headIs p (cs ++ rest) = true := by
  cases cs with
  | nil => cases h
  | cons c cs => exact h

theorem spells_variable {name : String} {rest : List Char} (h : IsIdentifier name) (boundary : Boundary rest) :
    Spells ('$' :: name.toList) [(.variable, name)] rest := by
  have length_eq : spanLength isIdentChar (name.toList ++ rest) = name.toList.length :=
    spanLength_append (List.all_eq_true.1 h.2) (boundary.headIs_eq_false fun _ => isIdentChar_of_isBoundary)
  refine spells_lexeme ?_ (by simp)
  simp [lexemeAt?, scan, headIs_append h.1, length_eq, gapPiece?, isSpace, Except.toOption]

/-- Where no gap and no closing tag can begin, the lexeme is what the scanner finds. -/
theorem lexemeAt?_cons {c : Char} (cs : List Char) (no_space : isSpace c = false)
    (no_gap : ['?', '#', '/'].contains c = false) : lexemeAt? (c :: cs) = (scan c cs).toOption := by
  simp only [List.contains_eq_mem, List.mem_cons, List.not_mem_nil, or_false, decide_eq_false_iff_not, not_or] at no_gap
  obtain ⟨no_tag, no_hash, no_slash⟩ := no_gap
  simp [lexemeAt?, gapPiece?, no_space, no_tag, no_hash, no_slash]

theorem toNat_of_isAlpha {c : Char} (h : c.isAlpha = true) :
    (65 ≤ c.toNat ∧ c.toNat ≤ 90) ∨ (97 ≤ c.toNat ∧ c.toNat ≤ 122) := by
  have upper : c.isUpper = decide (c.val ≥ 'A'.val ∧ c.val ≤ 'Z'.val) := rfl
  have lower : c.isLower = (decide (c.val ≥ 'a'.val) && decide (c.val ≤ 'z'.val)) := rfl
  rw [show c.isAlpha = (c.isUpper || c.isLower) from rfl, upper, lower] at h
  simpa [UInt32.le_iff_toNat_le] using h

/-- A text that a letter begins is no gap and no closing tag. -/
theorem lexemeAt?_letter {c : Char} (cs : List Char) (letter : c.isAlpha = true) :
    lexemeAt? (c :: cs) = (scan c cs).toOption := by
  have range := toNat_of_isAlpha letter
  apply lexemeAt?_cons
  · simp only [isSpace, Bool.or_eq_false_iff, Bool.and_eq_false_iff, decide_eq_false_iff_not, beq_eq_false_iff_ne]
    omega
  · cases mark : ['?', '#', '/'].contains c with
    | false => rfl
    | true =>
      simp only [List.contains_eq_mem, List.mem_cons, List.not_mem_nil, or_false, decide_eq_true_eq] at mark
      rcases mark with rfl | rfl | rfl <;> cases letter

theorem nameLength_append {cs rest : List Char} (h : ∀ c ∈ cs, isIdentChar c = true) (boundary : Boundary rest) :
    nameLength (cs ++ rest) = cs.length := by
  induction cs with
  | nil =>
    cases rest with
    | nil => rfl
    | cons c rest =>
      have no_name := isIdentChar_of_isBoundary (boundary c rfl)
      have no_backslash := forall_isBoundary (p := fun c => !(c == '\\')) (by decide) c (boundary c rfl)
      simp only [Bool.not_eq_true'] at no_backslash
      simp [nameLength, no_name, no_backslash]
  | cons c cs ih =>
    rw [List.cons_append, nameLength, h c (by simp), Bool.or_true, if_pos rfl, ih fun d hd => h d (by simp [hd])]
    rfl

/-- A word of letters. -/
theorem spells_word {word : String} {rest : List Char} (ne_nil : word.toList ≠ [])
    (letters : ∀ c ∈ word.toList, c.isAlpha = true) (boundary : Boundary rest) :
    Spells word.toList [(.ident, word)] rest := by
  obtain ⟨c, cs, chars⟩ := List.exists_cons_of_ne_nil ne_nil
  have whole : String.ofList (c :: cs) = word := by rw [← chars, String.ofList_toList]
  rw [chars] at letters ⊢
  have letter : c.isAlpha = true := letters c (by simp)
  have ident : ∀ d ∈ cs, isIdentChar d = true := fun d hd => by
    simp [isIdentChar, isIdentStart, letters d (by simp [hd])]
  have start : isIdentStart c = true := by simp [isIdentStart, letter]
  have no_dollar : (c == '$') = false := by
    rw [beq_eq_false_iff_ne]
    rintro rfl
    cases letter
  refine spells_lexeme ?_ (by simp)
  rw [List.cons_append, lexemeAt?_letter _ letter]
  simp [scan, no_dollar, start, nameLength_append ident boundary, whole, Except.toOption]

/-- A property of the ten digits holds if it holds of each. -/
theorem forall_isDigit {p : Char → Bool}
    (h : ['0', '1', '2', '3', '4', '5', '6', '7', '8', '9'].all p = true) (c : Char)
    (hc : c.isDigit = true) : p c = true := by
  have range : 48 ≤ c.toNat ∧ c.toNat ≤ 57 := by
    simpa [Char.isDigit, UInt32.le_iff_toNat_le] using hc
  obtain ⟨k, hk⟩ : ∃ k, c.toNat = k := ⟨_, rfl⟩
  have code : c = Char.ofNat k := by rw [← hk, Char.ofNat_toNat]
  rw [hk] at range
  have : k = 48 ∨ k = 49 ∨ k = 50 ∨ k = 51 ∨ k = 52 ∨ k = 53 ∨ k = 54 ∨ k = 55 ∨ k = 56 ∨ k = 57 := by omega
  apply List.all_eq_true.1 h
  rcases this with rfl | rfl | rfl | rfl | rfl | rfl | rfl | rfl | rfl | rfl <;> subst code <;> decide

/-- The characters that make a radix mark of a zero in front of them. -/
def isRadixMark (c : Char) : Bool := ['x', 'X', 'b', 'B', 'o', 'O'].contains c

theorem radixDigits?_eq_none {c : Char} {cs : List Char} (h : headIs isRadixMark cs = false) :
    radixDigits? (c :: cs) = none := by
  unfold radixDigits?
  split
  next r rest e =>
    cases e
    simp only [headIs, isRadixMark, List.contains_eq_mem, List.mem_cons, List.not_mem_nil, or_false,
      decide_eq_false_iff_not, not_or] at h
    obtain ⟨x, x', b, b', o, o'⟩ := h
    simp [x, x', b, b', o, o']
  next => rfl

theorem isRadixMark_eq_false {c : Char} (h : isDigitOrSeparator c = true) : isRadixMark c = false := by
  cases mark : isRadixMark c with
  | false => rfl
  | true =>
    simp only [isRadixMark, List.contains_eq_mem, List.mem_cons, List.not_mem_nil, or_false, decide_eq_true_eq] at mark
    rcases mark with rfl | rfl | rfl | rfl | rfl | rfl <;> cases h

theorem fractionLength_boundary {rest : List Char} (boundary : Boundary rest) : fractionLength rest = 0 := by
  unfold fractionLength
  split
  next => exact absurd (boundary '.' rfl) (by decide)
  next => rfl

theorem exponentLength_boundary {rest : List Char} (boundary : Boundary rest) : exponentLength rest = 0 := by
  cases rest with
  | nil => rfl
  | cons e rest =>
    have no_mark := forall_isBoundary (p := fun e => !(e == 'e' || e == 'E')) (by decide) e (boundary e rfl)
    rw [exponentLength, if_neg (by simpa using no_mark)]

theorem numberShape_decimal {c : Char} {cs rest : List Char} (h : ∀ d ∈ c :: cs, isDigitOrSeparator d = true)
    (boundary : Boundary rest) : numberShape (c :: (cs ++ rest)) = (.int, cs.length + 1) := by
  have stop : headIs isDigitOrSeparator rest = false := boundary.headIs_eq_false fun c hc => by
    simpa using forall_isBoundary (p := fun c => !isDigitOrSeparator c) (by decide) c hc
  have no_radix : radixDigits? (c :: (cs ++ rest)) = none := by
    apply radixDigits?_eq_none
    cases cs with
    | nil =>
      refine boundary.headIs_eq_false fun c hc => ?_
      simpa using forall_isBoundary (p := fun c => !isRadixMark c) (by decide) c hc
    | cons d cs => exact isRadixMark_eq_false (h d (by simp))
  have whole : spanLength isDigitOrSeparator ((c :: cs) ++ rest) = cs.length + 1 := spanLength_append h stop
  rw [List.cons_append] at whole
  simp [numberShape, no_radix, whole, fractionLength_boundary boundary, exponentLength_boundary boundary]

theorem spells_decimal {text : String} {rest : List Char} (h : IsDecimal text) (boundary : Boundary rest) :
    Spells text.toList [(.int, text)] rest := by
  obtain ⟨first, all⟩ := h
  rw [List.all_eq_true] at all
  cases chars : text.toList with
  | nil => simp [chars, headIs] at first
  | cons c cs =>
    rw [chars] at first all
    have digit : c.isDigit = true := first
    have plain := forall_isDigit (p := fun c => !(c == '$') && !isIdentStart c && !(c == '\\')) (by decide) c digit
    simp only [Bool.and_eq_true, Bool.not_eq_true'] at plain
    obtain ⟨⟨no_dollar, no_letter⟩, no_backslash⟩ := plain
    have whole : String.ofList (c :: cs) = text := by rw [← chars, String.ofList_toList]
    refine spells_lexeme ?_ (by simp)
    rw [List.cons_append, lexemeAt?_cons]
    · simp [scan, no_dollar, no_letter, no_backslash, digit, numberShape_decimal all boundary, whole, Except.toOption]
    · simpa using forall_isDigit (p := fun c => !isSpace c) (by decide) c digit
    · simpa using forall_isDigit (p := fun c => !(['?', '#', '/'].contains c)) (by decide) c digit

/-! ## Kinds of tokens -/

theorem kind_numberShape (cs : List Char) : (numberShape cs).1 = .int ∨ (numberShape cs).1 = .float := by
  rw [numberShape]
  split
  · exact .inl rfl
  · dsimp only
    split
    · exact .inl rfl
    · exact .inr rfl

theorem kind_enclosed {kind : TokenKind} {opening cs : List Char} {e : Enclosure} {lexeme : Lexeme}
    (h : enclosed kind opening e cs = .ok lexeme) : lexeme.kind = kind := by
  rw [enclosed] at h
  split at h
  · cases h
    rfl
  · cases h

/-- The kinds of the tokens that are neither names nor marks. -/
def valueKinds : List TokenKind := [.variable, .int, .float, .string, .cast, .attributeGroup]

/-- A lexeme is a name, if one can begin here, or something with a text of its own, or a mark. -/
theorem kind_scan {c : Char} {cs : List Char} {lexeme : Lexeme} (h : scan c cs = .ok lexeme) :
    (lexeme.kind = .ident ∧ (isIdentStart c || (c == '\\' && headIs isIdentStart cs)) = true) ∨
      lexeme.kind ∈ valueKinds ∨ ∃ p ∈ punctuation, lexeme.kind = p.2 := by
  have value (kind : TokenKind) (same : lexeme.kind = kind) (mem : kind ∈ valueKinds) : lexeme.kind ∈ valueKinds := by
    rwa [same]
  unfold scan at h
  dsimp only at h
  split at h
  · cases h
    exact .inr (.inl (value .variable rfl (by decide)))
  split at h
  · next start =>
    cases h
    exact .inl ⟨rfl, start⟩
  split at h
  · cases h
    rcases kind_numberShape (c :: cs) with int | float
    · exact .inr (.inl (value .int int (by decide)))
    · exact .inr (.inl (value .float float (by decide)))
  split at h
  · exact .inr (.inl (value .string (kind_enclosed h) (by decide)))
  split at h
  · cases h
    exact .inr (.inl (value .cast rfl (by decide)))
  split at h
  · cases length : heredocLength (cs.drop 2) with
    | error _ =>
      rw [length] at h
      cases h
    | ok n =>
      rw [length] at h
      cases h
      exact .inr (.inl (value .string rfl (by decide)))
  split at h
  · exact .inr (.inl (value .attributeGroup (kind_enclosed h) (by decide)))
  split at h
  · next text kind found =>
    cases h
    exact .inr (.inr ⟨_, List.mem_of_find?_eq_some found, rfl⟩)
  · cases h

end Lexer

end Codewright.Php
