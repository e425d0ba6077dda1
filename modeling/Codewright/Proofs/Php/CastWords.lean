import Codewright.Proofs.Php.Climbing

/-!
# Constants named like types

A constant whose name is the word of a cast is a constant only as long as no parentheses stand right around it:
`(int)` is one token. Printing puts parentheses right around expressions, so it turns such a constant into a cast, in
whatever way the source keeps the two apart.

* `IsCastWord` – the words of casts, in any spelling of their letters;
* `parseExpr_castWord` – between parentheses on lines of their own, such a word is read as a constant;
* `parseExpr_print_castWord` – the printed text of that constant in parentheses is not read at all;
* `ReprintsToItself` – what is printed of a source is printed again as it stands; `isLostByPrinting` – it cannot be
  read.
-/

namespace Codewright.Php

open Text Source

/-- The word makes a cast between parentheses. -/
def IsCastWord (word : String) : Prop := ∃ p ∈ casts, asciiLower word = p.1

instance (word : String) : Decidable (IsCastWord word) := inferInstanceAs (Decidable (∃ p ∈ casts, _))

theorem isAlpha_of_isAlpha_toLower {c : Char} (h : c.toLower.isAlpha = true) : c.isAlpha = true := by
  by_cases upper : c.isUpper = true
  · exact Bool.or_eq_true_iff.2 (.inl upper)
  · have same : c.toLower = c := dif_neg fun in_range => upper (decide_eq_true in_range)
    rwa [same] at h

namespace IsCastWord

variable {word : String}

theorem isAlpha (h : IsCastWord word) : ∀ c ∈ word.toList, c.isAlpha = true := by
  obtain ⟨p, member, lower⟩ := h
  have letters : casts.all (fun p => p.1.toList.all Char.isAlpha) = true := by decide
  intro c hc
  refine isAlpha_of_isAlpha_toLower (List.all_eq_true.1 (List.all_eq_true.1 letters p member) _ ?_)
  rw [← lower, asciiLower, String.toList_ofList]
  exact List.mem_map_of_mem hc

theorem ne_nil (h : IsCastWord word) : word.toList ≠ [] := by
  obtain ⟨p, member, lower⟩ := h
  have not_empty : casts.all (fun p => p.1 != "") = true := by decide
  intro empty
  have : p.1 = "" := by rw [← lower, asciiLower, empty]; rfl
  simpa [this] using List.all_eq_true.1 not_empty p member

/-- What holds of the words of casts in lower case, if it holds of each. -/
theorem forall_lower (h : IsCastWord word) {p : String → Bool} (all : casts.all (fun c => p c.1) = true) :
    p (asciiLower word) = true := by
  obtain ⟨c, member, lower⟩ := h
  rw [lower]
  exact List.all_eq_true.1 all c member

end IsCastWord

/-! ## The tokens -/

namespace Lexer

variable {word : String}

theorem no_isBlank {c : Char} (letter : c.isAlpha = true) : isBlank c = false := by
  cases blank : isBlank c with
  | false => rfl
  | true =>
    simp only [isBlank, Bool.or_eq_true, beq_iff_eq] at blank
    rcases blank with rfl | rfl <;> cases letter

theorem castShape?_of_isCastWord (h : IsCastWord word) :
    ∃ type, ∀ rest, castShape? (word.toList ++ ')' :: rest) = some (type, word.toList.length + 1) := by
  obtain ⟨found, is_found⟩ : ∃ p, (casts.find? fun p => asciiLower word == p.1) = some p := by
    obtain ⟨p, member, lower⟩ := h
    exact Option.isSome_iff_exists.1 (List.find?_isSome.2 ⟨p, member, by simp [lower]⟩)
  refine ⟨found.2, fun rest => ?_⟩
  obtain ⟨c, cs, chars⟩ := List.exists_cons_of_ne_nil h.ne_nil
  have before : spanLength isBlank (word.toList ++ ')' :: rest) = 0 := by
    have : isBlank c = false := no_isBlank (h.isAlpha c (by simp [chars]))
    simp [spanLength, chars, this]
  have letters : (word.toList ++ ')' :: rest).takeWhile Char.isAlpha = word.toList := by
    rw [List.takeWhile_append_of_pos h.isAlpha]
    simp
  have after : spanLength isBlank (')' :: rest) = 0 := rfl
  simp only [castShape?, before, List.drop_zero, letters, Nat.zero_add, List.drop_left, after, Nat.add_zero]
  simp [headIs, is_found]

/-- Between parentheses, the word of a cast is a single token. -/
theorem spells_castWord (h : IsCastWord word) :
    ∃ type, ∀ rest, Spells ('(' :: (word.toList ++ [')'])) [(.cast, type)] rest := by
  obtain ⟨type, shape⟩ := castShape?_of_isCastWord h
  refine ⟨type, fun rest => spells_lexeme ?_ (by simp)⟩
  have no_letter : isIdentStart '(' = false := by decide
  rw [List.cons_append, List.append_assoc, lexemeAt?_cons _ (by decide) (by decide)]
  simp [scan, no_letter, shape, Except.toOption]

/-- On a line of its own, it is a name. -/
theorem spells_lines (h : IsCastWord word) :
    Spells ("(\n" ++ word ++ "\n)").toList [(.openParen, "("), (.ident, word), (.closeParen, ")")] [] := by
  have line_end (rest : List Char) : Spells ['\n'] [] rest := spells_blank (by decide) rest
  have opening : Spells ['('] [(.openParen, "(")] (['\n'] ++ (word.toList ++ (['\n'] ++ [')'])) ++ []) :=
    spells_lexeme (by rfl) (by simp)
  have name : Spells word.toList [(.ident, word)] ((['\n'] ++ [')']) ++ []) :=
    spells_word h.ne_nil h.isAlpha (boundary_cons (by decide) _)
  have closing := (line_end _).append (spells_closeParen [])
  have := opening.append ((line_end _).append (name.append closing))
  simpa using this

end Lexer

/-! ## Reading -/

namespace Grammar

variable (g : Grammar) {word : String} {rest : List Face}

theorem reads_plainName :
    Reads plainName [(.ident, word)] (.constantRef word) ((.closeParen, ")") :: rest) := by
  refine Reads.get_bind fun s hs => ?_
  have called : s.hasAt 1 .openParen = false := by rw [Stream.hasAt_one_eq hs]; rfl
  have qualifies : s.hasAt 1 .doubleColon = false := by rw [Stream.hasAt_one_eq hs]; rfl
  rw [called, qualifies]
  refine Reads.advance_bind (by decide) fun t text => ?_
  rw [text]
  exact Reads.pure _ _

theorem reads_constant (h : IsCastWord word) :
    Reads g.primaryExpr [(.ident, word)] (.constantRef word) ((.closeParen, ")") :: rest) := by
  refine Reads.get_bind fun s hs => ?_
  rw [Stream.kind_eq hs]
  refine Reads.get_bind fun s hs => ?_
  have text : s.peek.text = word := congrArg Prod.snd (Stream.face_peek hs)
  have called : s.hasAt 1 .openParen = false := by rw [Stream.hasAt_one_eq hs]; rfl
  have by_ref : s.hasAt 1 .amp = false := by rw [Stream.hasAt_one_eq hs]; rfl
  have qualifies : s.hasAt 1 .doubleColon = false := by rw [Stream.hasAt_one_eq hs]; rfl
  have no_keyword (w : String) : s.keywordAt 1 w = false := by rw [Stream.keywordAt_one_eq hs]; rfl
  have plain := h.forall_lower
    (p := fun w => !(["true", "false", "null"].contains w) && !(w == "exit") && !(w == "die") && !(w == "function") &&
      !(reservedWords.contains w)) (by decide)
  simp only [Bool.and_eq_true, Bool.not_eq_true'] at plain
  obtain ⟨⟨⟨⟨no_literal, no_exit⟩, no_die⟩, no_function⟩, unreserved⟩ := plain
  simp only [text, called, by_ref, qualifies, no_keyword, no_literal, no_exit, no_die, no_function, unreserved,
    Bool.and_false, Bool.false_and, Bool.or_false, Bool.false_eq_true, if_false]
  exact reads_plainName

theorem reads_constantOperand (h : IsCastWord word) (primary : Reads g.primary [(.ident, word)] (.constantRef word)
    ((.closeParen, ")") :: rest)) :
    Reads g.operandExpr [(.ident, word)] (.constantRef word) ((.closeParen, ")") :: rest) := by
  refine Reads.get_bind fun s hs => ?_
  rw [Stream.kind_eq hs]
  refine Reads.get_bind fun s hs => ?_
  have text : s.peek.text = word := congrArg Prod.snd (Stream.face_peek hs)
  have other := h.forall_lower
    (p := fun w => !(["new", "clone", "print", "throw", "yield"].contains w) &&
      [IncludeKind.includes, .includesOnce, .requires, .requiresOnce].all fun k => !(w == k.keyword)) (by decide)
  simp only [Bool.and_eq_true, Bool.not_eq_true', List.contains_cons, Bool.or_eq_false_iff] at other
  obtain ⟨⟨no_new, no_clone, no_print, no_throw, no_yield, -⟩, no_include⟩ := other
  have no_kind : IncludeKind.ofKeyword? word = none := by
    simpa [IncludeKind.ofKeyword?] using no_include
  have keyword (w : String) : s.atKeyword w = (asciiLower word == w) := by
    rw [Stream.atKeyword_eq hs]
    rfl
  simp only [keyword, text, no_new, no_clone, no_print, no_throw, no_yield, no_kind, Bool.false_eq_true, if_false]
  have stops : Stops .wordOr ((.closeParen, ")") :: rest) := .closeParen rest
  exact primary.bind_nil (stops.reads_accesses g _)

/-- Between parentheses, the constant is read. -/
theorem reads_parenCastWord (h : IsCastWord word) {n : Nat} (enough : 6 ≤ n) :
    Reads ((upTo n).expr .wordOr) [(.openParen, "("), (.ident, word), (.closeParen, ")")] (.paren (.constantRef word))
      [eofFace] := by
  obtain ⟨n, rfl⟩ : ∃ m, n = m + 6 := ⟨n - 6, by omega⟩
  have name : Reads ((upTo (n + 3)).expr .wordOr) [(.ident, word)] (.constantRef word) ((.closeParen, ")") :: [eofFace]) :=
    Stops.reads_operatorExpr (.closeParen _) ((upTo (n + 1)).reads_constantOperand h ((upTo n).reads_constant h))
  have stops : Stops .wordOr [eofFace] := .eof []
  exact stops.reads_operatorExpr ((upTo (n + 4)).reads_closed (by decide) ((upTo (n + 3)).reads_paren name) stops)

/-- No expression is left at the end of the tokens. -/
theorem fails_primary_eof (n : ℕ) : Fails (upTo n).primary [eofFace] := by
  cases n with
  | zero => exact fun _ _ => ⟨_, rfl⟩
  | succ n =>
    refine Fails.get_bind fun s hs => ?_
    rw [Stream.kind_eq hs]
    exact Fails.failExpected _ _

theorem fails_operand_eof (n : ℕ) : Fails (upTo n).operand [eofFace] := by
  cases n with
  | zero => exact fun _ _ => ⟨_, rfl⟩
  | succ n =>
    refine Fails.get_bind fun s hs => ?_
    rw [Stream.kind_eq hs]
    exact (fails_primary_eof n).bind

theorem fails_expr_eof (n : ℕ) (min : Level) : Fails ((upTo n).expr min) [eofFace] := by
  cases n with
  | zero => exact fun _ _ => ⟨_, rfl⟩
  | succ n => exact (fails_operand_eof n).bind

/-- Behind a cast, an operand is missing. -/
theorem fails_operand_cast (n : ℕ) (type : String) : Fails (upTo n).operand ((.cast, type) :: [eofFace]) := by
  cases n with
  | zero => exact fun _ _ => ⟨_, rfl⟩
  | succ n =>
    refine Fails.get_bind fun s hs => ?_
    rw [Stream.kind_eq hs]
    exact Fails.advance_bind (by decide) fun t => (fails_expr_eof n .unary).bind

theorem fails_expr_cast (n : ℕ) (min : Level) (type : String) :
    Fails ((upTo n).expr min) ((.cast, type) :: [eofFace]) := by
  cases n with
  | zero => exact fun _ _ => ⟨_, rfl⟩
  | succ n => exact (fails_operand_cast n type).bind

end Grammar

/-! ## The constant in parentheses -/

/-- On a line of its own between parentheses, the word is read as a constant. -/
theorem parseExpr_castWord {word : String} (h : IsCastWord word) :
    parseExpr ("(\n" ++ word ++ "\n)") = .ok (.paren (.constantRef word)) :=
  parseExpr_eq_ok (Lexer.spells_lines h) (by decide) fun _ enough =>
    Grammar.reads_parenCastWord h (by simp only [List.length_cons, List.length_nil] at enough; omega)

/-- What is printed of it is the cast of nothing. -/
theorem parseExpr_print_castWord {word : String} (h : IsCastWord word) (e : Expr) :
    parseExpr (Expr.print (.paren (.constantRef word))) ≠ .ok e := by
  obtain ⟨type, spelled⟩ := Lexer.spells_castWord h
  have printed : (Node.doc 0 (.paren (.constantRef word)) : Doc) = [.text "(", .text word, .text ")"] := rfl
  have text : (Expr.print (.paren (.constantRef word))).toList = '(' :: (word.toList ++ [')']) := by
    change Doc.chars usualIndent (Node.doc 0 (.paren (.constantRef word))) = _
    rw [printed]
    simp
  refine runOn_ne_ok (p := Parse.exprAlone) (text ▸ spelled []) (fun n => ?_) e
  exact Fails.standalone (by simp) (.inl (Grammar.fails_expr_cast n _ type).bind)

/-! ## Whole sources -/

/-- Printing what is read from the source gives a text that is read again and printed as it stands. -/
def ReprintsToItself (source : String) : Prop :=
  ∀ f, parse source = .ok f →
    ∃ f', parse (f.print usualIndent) = .ok f' ∧ f'.print usualIndent = f.print usualIndent

/-- The source is an opening tag with code behind it, up to its end. -/
def isPureCode (source : String) : Bool :=
  match tokenize source with
  | .ok (t :: ts) =>
    t.kind == .openTag &&
      ts.all fun u => !([TokenKind.inlineHtml, .openTag, .openTagEcho, .closeTag].contains u.kind)
  | _ => false

/-- What is printed of a source that can be read cannot be read. -/
def isLostByPrinting (source : String) : Bool :=
  match parse source with
  | .ok f => !(parse (f.print usualIndent)).toOption.isSome
  | .error _ => false

theorem exists_of_isLostByPrinting {source : String} (h : isLostByPrinting source = true) :
    ∃ f, parse source = .ok f ∧ ∀ f', parse (f.print usualIndent) ≠ .ok f' := by
  rw [isLostByPrinting] at h
  split at h
  next f read =>
    refine ⟨f, read, fun f' again => ?_⟩
    rw [again] at h
    cases h
  next => cases h

theorem not_reprintsToItself_parens : ¬ReprintsToItself "<?php $x = (\nint\n);" := by
  obtain ⟨f, read, lost⟩ := exists_of_isLostByPrinting (show isLostByPrinting "<?php $x = (\nint\n);" = true by decide +kernel)
  intro same
  obtain ⟨f', again, -⟩ := same f read
  exact lost f' again

/-- A comma behind the last argument keeps the constant from being a cast, and is not printed. -/
theorem lost_trailingComma : isPureCode "<?php foo(int,);" = true ∧
    ∃ f, parse "<?php foo(int,);" = .ok f ∧ ∀ f', parse (f.print usualIndent) ≠ .ok f' :=
  ⟨by decide +kernel, exists_of_isLostByPrinting (by decide +kernel)⟩

end Codewright.Php
