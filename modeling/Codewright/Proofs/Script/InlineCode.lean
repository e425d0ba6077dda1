import Codewright.Proofs.Php.LiteralText
import Codewright.Proofs.Script.KeptLiterals

/-!
# Code that stands by itself

Generated code is put together from parts, each of which leads from code to code wherever it stands.

* `ReadsAsCode cells` – the cells are read as they are wherever they stand in code, and code goes on behind them;
* `IsInline cells` – besides, they are on one line and have no angle bracket that closes, and their brackets nest;
* `WritesInline text tail` – the text is inline code in front of something; `writesInline_compactChars` says so of JSON values.
-/

namespace Codewright.Script

open Text

variable {s t : MaskState} {follow : Option Char} {a b cells : List Cell} {w : List Char} {c : Char} {n : Nat}

/-- Wherever the cells stand in code, they are read as they are, and code goes on behind them. -/
def ReadsAsCode (cells : List Cell) : Prop :=
  ∀ (follow : Option Char) (s : MaskState), IsCode s → ∃ t, Scans .script follow s (chars cells) cells t ∧ IsCode t

theorem ReadsAsCode.nil : ReadsAsCode [] := fun _ s is_code => ⟨s, .nil, is_code⟩

theorem ReadsAsCode.append (ha : ReadsAsCode a) (hb : ReadsAsCode b) : ReadsAsCode (a ++ b) := by
  intro follow s is_code
  obtain ⟨t, front, is_code'⟩ := ha ((chars b).head?.or follow) s is_code
  obtain ⟨u, back, is_code''⟩ := hb follow t is_code'
  exact ⟨u, by rw [chars, List.map_append]; exact front.append back, is_code''⟩

/-- A character that is no quote, no slash and no backtick. -/
def isCodeChar (c : Char) : Bool := !"'\"/\x60".toList.contains c

theorem readsAsCode_code (plain : ∀ c ∈ w, isCodeChar c = true) : ReadsAsCode (w.map code) := by
  intro follow s is_code
  induction w generalizing s with
  | nil => exact ⟨s, .nil, is_code⟩
  | cons c w ih =>
    obtain ⟨here, more⟩ := List.forall_mem_cons.1 plain
    have step (next : Option Char) : maskStep .script s c next = .ok (true, .plain, []) := by
      have ne : c ≠ '\'' ∧ c ≠ '"' ∧ c ≠ '/' ∧ c ≠ '\x60' := by simpa [isCodeChar] using here
      simp [maskStep, is_code.mode, is_code.enclosures, stepCode, ne, openBrace, closeBrace]
    obtain ⟨t, read, is_code'⟩ := ih more (s.after c true .plain []) ⟨rfl, rfl⟩
    exact ⟨t, .cons (step _) read, is_code'⟩

/-! ## Inline code -/

/-- The characters of cells that are seen. -/
abbrev faces (cells : List Cell) : List Char := cells.map Cell.face

theorem faces_append (a b : List Cell) : faces (a ++ b) = faces a ++ faces b := List.map_append

theorem faces_cons (c : Cell) (cells : List Cell) : faces (c :: cells) = c.face :: faces cells := rfl

/-- Code that stands by itself on one line, with brackets that nest and no `>`. -/
structure IsInline (cells : List Cell) : Prop where
  reads : ReadsAsCode cells
  oneLine : '\n' ∉ faces cells
  noAngle : '>' ∉ faces cells
  balanced : bracketsBalanced (brackets cells) = true

theorem IsInline.nil : IsInline [] := ⟨.nil, List.not_mem_nil, List.not_mem_nil, rfl⟩

theorem balanced_append (ha : bracketsBalanced (brackets a) = true) (hb : bracketsBalanced (brackets b) = true) :
    bracketsBalanced (brackets (a ++ b)) = true := by
  rw [brackets_append, bracketsBalanced]
  exact (bracketsBalancedFrom_append ha [] (brackets b)).trans hb

theorem IsInline.append (ha : IsInline a) (hb : IsInline b) : IsInline (a ++ b) := by
  refine ⟨ha.reads.append hb.reads, ?_, ?_, balanced_append ha.balanced hb.balanced⟩
  · rw [faces_append, List.mem_append]
    exact fun feed => feed.elim ha.oneLine hb.oneLine
  · rw [faces_append, List.mem_append]
    exact fun angle => angle.elim ha.noAngle hb.noAngle

theorem faces_code (w : List Char) : faces (w.map code) = w := by
  simp [Function.comp_def, Cell.face]

/-- A character of code that is no bracket, no line feed and no `>`. -/
def isInlineChar (c : Char) : Bool := !"'\"/\x60\n>()[]\x7b\x7d".toList.contains c

/-- Where none of the other characters is of a kind, all characters of the kind are such. -/
theorem isInlineChar_of (p : Char → Bool) (none : "'\"/\x60\n>()[]\x7b\x7d".toList.any p = false) (h : p c = true) :
    isInlineChar c = true := by
  rw [isInlineChar, Bool.not_eq_true', ← Bool.not_eq_true, List.contains_iff_mem]
  exact fun special => List.any_eq_false.1 none c special h

theorem isInlineChar_cases (h : isInlineChar c = true) : isCodeChar c = true ∧ c ≠ '\n' ∧ c ≠ '>' ∧ isBracket c = false := by
  have ne : c ≠ '\'' ∧ c ≠ '"' ∧ c ≠ '/' ∧ c ≠ '\x60' ∧ c ≠ '\n' ∧ c ≠ '>' ∧ c ≠ '(' ∧ c ≠ ')' ∧ c ≠ '[' ∧ c ≠ ']' ∧
      c ≠ '\x7b' ∧ c ≠ '\x7d' := by
    simpa [isInlineChar] using h
  obtain ⟨tick, quote, slash, backtick, feed, angle, round, round', square, square', brace, brace'⟩ := ne
  have closing : openerOf? c = none := by
    unfold openerOf?
    split <;> first | rfl | contradiction
  exact ⟨by simp [isCodeChar, tick, quote, slash, backtick], feed, angle,
    by simp [isBracket, isOpener, closing, round, square, brace]⟩

theorem isInline_code (plain : ∀ c ∈ w, isInlineChar c = true) : IsInline (w.map code) := by
  refine ⟨readsAsCode_code fun c hc => (isInlineChar_cases (plain c hc)).1, ?_, ?_, ?_⟩
  · rw [faces_code]
    exact fun feed => (isInlineChar_cases (plain _ feed)).2.1 rfl
  · rw [faces_code]
    exact fun angle => (isInlineChar_cases (plain _ angle)).2.2.1 rfl
  · have none : brackets (w.map code) = [] := by
      rw [brackets, ← faces, faces_code, List.filter_eq_nil_iff]
      exact fun c hc => by simp [(isInlineChar_cases (plain c hc)).2.2.2]
    rw [none]
    rfl

theorem openerOf?_cases {opening closing : Char} (closes : openerOf? closing = some opening) :
    (opening = '(' ∧ closing = ')') ∨ (opening = '[' ∧ closing = ']') ∨ (opening = '\x7b' ∧ closing = '\x7d') := by
  unfold openerOf? at closes
  split at closes <;> cases closes <;> simp

/-- Brackets that nest do so within a pair of brackets. -/
theorem balanced_enclosed {opening closing : Char} (closes : openerOf? closing = some opening)
    (balanced : bracketsBalanced (brackets cells) = true) :
    bracketsBalanced (brackets (code opening :: (cells ++ [code closing]))) = true := by
  have brackets_eq : brackets (code opening :: (cells ++ [code closing])) = opening :: (brackets cells ++ [closing]) := by
    rw [← List.singleton_append, brackets_append, brackets_append]
    rcases openerOf?_cases closes with ⟨rfl, rfl⟩ | ⟨rfl, rfl⟩ | ⟨rfl, rfl⟩ <;> rfl
  have inside := bracketsBalancedFrom_insert balanced [] [opening] [closing]
  rw [List.singleton_append, List.singleton_append] at inside
  rw [brackets_eq, bracketsBalanced, inside]
  rcases openerOf?_cases closes with ⟨rfl, rfl⟩ | ⟨rfl, rfl⟩ | ⟨rfl, rfl⟩ <;> rfl

/-- Inline code stays so within a pair of brackets. -/
theorem IsInline.enclosed {opening closing : Char} (inside : IsInline cells) (closes : openerOf? closing = some opening) :
    IsInline (code opening :: (cells ++ [code closing])) := by
  have pair := openerOf?_cases closes
  have front : ReadsAsCode ([opening].map code) := readsAsCode_code (List.forall_mem_singleton.2 (by
    rcases pair with ⟨rfl, rfl⟩ | ⟨rfl, rfl⟩ | ⟨rfl, rfl⟩ <;> rfl))
  have back : ReadsAsCode ([closing].map code) := readsAsCode_code (List.forall_mem_singleton.2 (by
    rcases pair with ⟨rfl, rfl⟩ | ⟨rfl, rfl⟩ | ⟨rfl, rfl⟩ <;> rfl))
  refine ⟨front.append (inside.reads.append back), ?_, ?_, balanced_enclosed closes inside.balanced⟩
  · have one_line := inside.oneLine
    rcases pair with ⟨rfl, rfl⟩ | ⟨rfl, rfl⟩ | ⟨rfl, rfl⟩ <;> simpa [Cell.face] using one_line
  · have no_angle := inside.noAngle
    rcases pair with ⟨rfl, rfl⟩ | ⟨rfl, rfl⟩ | ⟨rfl, rfl⟩ <;> simpa [Cell.face] using no_angle

/-! ## Strings -/

/-- In a string between quotes. -/
structure InQuotes (quote : Char) (n : Nat) (s : MaskState) : Prop where
  mode : s.mode = .string quote n
  enclosures : s.enclosures = []

/-- A character that a string holds as it is. -/
def isQuotable (quote c : Char) : Bool := !(List.contains [quote, '\\', '\n'] c)

theorem InQuotes.scans {quote : Char} (inside : InQuotes quote n s) (quotable : ∀ c ∈ w, isQuotable quote c = true) (follow : Option Char) :
    ∃ t, Scans .script follow s w (w.map unseen) t ∧ InQuotes quote n t := by
  induction w generalizing s with
  | nil => exact ⟨s, .nil, inside⟩
  | cons c w ih =>
    obtain ⟨here, more⟩ := List.forall_mem_cons.1 quotable
    have ne : c ≠ quote ∧ c ≠ '\\' ∧ c ≠ '\n' := by simpa [isQuotable] using here
    have step (next : Option Char) : maskStep .script s c next = .ok (false, .string quote n, []) := by
      simp [maskStep, inside.mode, inside.enclosures, stepMode, ne, Except.map]
    obtain ⟨t, read, inside'⟩ := ih (s := s.after c false (.string quote n) []) ⟨rfl, rfl⟩ more
    exact ⟨t, .cons (step _) read, inside'⟩

/-- A text between quotes that does not end the string is read as code. -/
theorem readsAsCode_string {quote : Char} (is_quote : quote = '\'' ∨ quote = '"')
    (inside : ∀ n s, InQuotes quote n s → ∃ t, Scans .script (some quote) s w (w.map unseen) t ∧ InQuotes quote n t) :
    ReadsAsCode (code quote :: (w.map unseen ++ [code quote])) := by
  intro follow s is_code
  have opening (next : Option Char) : maskStep .script s quote next = .ok (true, .string quote s.byte, []) := by
    rcases is_quote with rfl | rfl <;> simp [maskStep, is_code.mode, is_code.enclosures, stepCode]
  obtain ⟨t, read, quoted⟩ := inside s.byte (s.after quote true (.string quote s.byte) []) ⟨rfl, rfl⟩
  have no_feed : quote ≠ '\n' := by rcases is_quote with rfl | rfl <;> decide
  have closing : maskStep .script t quote follow = .ok (true, .plain, []) := by
    simp [maskStep, quoted.mode, quoted.enclosures, stepMode, Except.map, no_feed]
  have last : Scans .script follow t [quote] [code quote] (t.after quote true .plain []) := .cons closing .nil
  refine ⟨t.after quote true .plain [], ?_, ⟨rfl, rfl⟩⟩
  have chars_eq : chars (code quote :: (w.map unseen ++ [code quote])) = quote :: (w ++ [quote]) := by
    simp [Function.comp_def]
  rw [chars_eq]
  exact .cons (opening _) (read.append last)

theorem face_unseen (no_feed : c ≠ '\n') : (unseen c).face = ' ' := by simp [Cell.face, no_feed]

/-- A string of one line is inline code: nothing of it is seen but its quotes. -/
theorem isInline_string {quote : Char} (is_quote : quote = '\'' ∨ quote = '"') (one : '\n' ∉ w)
    (inside : ∀ n s, InQuotes quote n s → ∃ t, Scans .script (some quote) s w (w.map unseen) t ∧ InQuotes quote n t) :
    IsInline (code quote :: (w.map unseen ++ [code quote])) := by
  have seen : ∀ c ∈ faces (code quote :: (w.map unseen ++ [code quote])), c = quote ∨ c = ' ' := by
    have hidden : ∀ c ∈ faces (w.map unseen), c = quote ∨ c = ' ' := by
      rw [faces, List.map_map]
      exact List.forall_mem_map.2 fun c hc => .inr (face_unseen fun feed => one (feed ▸ hc))
    have shown : (code quote).face = quote := rfl
    rw [faces_cons, faces_append, shown]
    exact List.forall_mem_cons.2 ⟨.inl rfl, List.forall_mem_append.2 ⟨hidden, List.forall_mem_singleton.2 (.inl rfl)⟩⟩
  have no_brackets : brackets (code quote :: (w.map unseen ++ [code quote])) = [] := by
    rw [brackets, ← faces, List.filter_eq_nil_iff]
    intro c hc
    rcases seen c hc with rfl | rfl
    · rcases is_quote with rfl | rfl <;> decide
    · decide
  refine ⟨readsAsCode_string is_quote inside, fun feed => ?_, fun angle => ?_, by rw [no_brackets]; rfl⟩
  · rcases seen _ feed with rfl | same
    · rcases is_quote with same | same <;> cases same
    · cases same
  · rcases seen _ angle with rfl | same
    · rcases is_quote with same | same <;> cases same
    · cases same

/-! ## Strings of JSON -/

/-- What stands for a character in a string is one character, or two and perhaps more behind a backslash. -/
theorem escaped_cases (c : Char) : (Json.escaped c = [c] ∧ isQuotable '"' c = true) ∨
    ∃ d w, Json.escaped c = '\\' :: d :: w ∧ d ≠ '\n' ∧ ∀ e ∈ w, isQuotable '"' e = true := by
  have digits : ∀ n < 32, (Nat.toDigits 16 n).all (isQuotable '"') = true := by decide
  unfold Json.escaped
  split
  all_goals try exact .inr ⟨_, [], rfl, by decide, nofun⟩
  split_ifs with low control
  · refine .inr ⟨'u', ['0', '0', '0'] ++ Nat.toDigits 16 c.toNat, rfl, by decide, List.forall_mem_append.2 ⟨List.all_eq_true.1 rfl, ?_⟩⟩
    exact List.all_eq_true.1 (digits c.toNat (by omega))
  · refine .inr ⟨'u', ['0', '0'] ++ Nat.toDigits 16 c.toNat, rfl, by decide, List.forall_mem_append.2 ⟨List.all_eq_true.1 rfl, ?_⟩⟩
    exact List.all_eq_true.1 (digits c.toNat control)
  · next no_quote no_backslash _ _ no_feed _ _ => exact .inl ⟨rfl, by simpa [isQuotable] using ⟨no_quote, no_backslash, no_feed⟩⟩

theorem InQuotes.scans_escaped (inside : InQuotes '"' n s) (c : Char) (follow : Option Char) :
    ∃ t, Scans .script follow s (Json.escaped c) ((Json.escaped c).map unseen) t ∧ InQuotes '"' n t := by
  rcases escaped_cases c with ⟨same, quotable⟩ | ⟨d, w, same, -, quotable⟩
  · rw [same]
    exact inside.scans (List.forall_mem_singleton.2 quotable) follow
  · rw [same]
    have first (next : Option Char) : maskStep .script s '\\' next = .ok (false, .escaped (.string '"' n), []) := by
      simp [maskStep, inside.mode, inside.enclosures, stepMode, Except.map]
    have second (next : Option Char) :
        maskStep .script (s.after '\\' false (.escaped (.string '"' n)) []) d next = .ok (false, .string '"' n, []) := rfl
    obtain ⟨t, read, inside'⟩ :=
      InQuotes.scans (s := (s.after '\\' false (.escaped (.string '"' n)) []).after d false (.string '"' n) []) ⟨rfl, rfl⟩ quotable follow
    exact ⟨t, .cons (first _) (.cons (second _) read), inside'⟩

/-- The cells of a string of JSON. -/
def quotedCells (s : String) : List Cell := code '"' :: ((s.toList.flatMap Json.escaped).map unseen ++ [code '"'])

theorem ne_feed_of_mem_escaped {d : Char} (h : d ∈ Json.escaped c) : d ≠ '\n' := by
  have plain {e : Char} (quotable : isQuotable '"' e = true) : e ≠ '\n' := by
    rintro rfl
    cases quotable
  rcases escaped_cases c with ⟨same, quotable⟩ | ⟨e, w, same, no_feed, quotable⟩
  · rw [same, List.mem_singleton] at h
    exact h ▸ plain quotable
  · rw [same] at h
    simp only [List.mem_cons] at h
    rcases h with rfl | rfl | h
    · decide
    · exact no_feed
    · exact plain (quotable d h)

theorem isInline_quoted (text : String) : IsInline (quotedCells text) := by
  have inside (cs : List Char) {n : Nat} {s : MaskState} (quoted : InQuotes '"' n s) (follow : Option Char) :
      ∃ t, Scans .script follow s (cs.flatMap Json.escaped) ((cs.flatMap Json.escaped).map unseen) t ∧ InQuotes '"' n t := by
    induction cs generalizing s with
    | nil => exact ⟨s, .nil, quoted⟩
    | cons c cs ih =>
      obtain ⟨t, here, quoted'⟩ := quoted.scans_escaped c ((cs.flatMap Json.escaped).head?.or follow)
      obtain ⟨u, more, quoted''⟩ := ih quoted'
      exact ⟨u, by rw [List.flatMap_cons, List.map_append]; exact here.append more, quoted''⟩
  refine isInline_string (.inr rfl) (fun feed => ?_) fun n s quoted => inside text.toList quoted _
  obtain ⟨c, -, feed⟩ := List.mem_flatMap.1 feed
  exact ne_feed_of_mem_escaped feed rfl

/-! ## Values of JSON -/

/-- A numeral is written with digits, signs, a point and the mark of the exponent. -/
theorem isInline_numeral {text : String} (numeral : Php.IsNumeral text) : IsInline (text.toList.map code) := by
  have digits {ds : List Char} (h : Php.IsDigits ds) : ∀ c ∈ ds, isInlineChar c = true :=
    fun c hc => isInlineChar_of Char.isDigit rfl (h.2 c hc)
  have magnitude {cs : List Char} (h : Php.IsMagnitude cs) : ∀ c ∈ cs, isInlineChar c = true := by
    obtain ⟨whole, fraction, exponent, rfl, is_whole, is_fraction, is_exponent⟩ := h
    simp only [List.forall_mem_append]
    refine ⟨digits is_whole, ?_, ?_⟩
    · rcases is_fraction with rfl | ⟨ds, rfl, h⟩
      · exact nofun
      · exact List.forall_mem_cons.2 ⟨rfl, digits h⟩
    · rcases is_exponent with rfl | ⟨mark, sign, ds, rfl, is_mark, is_sign, h⟩
      · exact nofun
      · refine List.forall_mem_cons.2 ⟨?_, List.forall_mem_append.2 ⟨?_, digits h⟩⟩
        · rcases is_mark with rfl | rfl <;> rfl
        · rcases is_sign with rfl | rfl | rfl <;> exact List.all_eq_true.1 rfl
  refine isInline_code ?_
  rcases numeral.magnitude with ⟨cs, same, h⟩ | h
  · rw [same]
    exact List.forall_mem_cons.2 ⟨rfl, magnitude h⟩
  · exact magnitude h

/-- The text is inline code in front of something. -/
def WritesInline (text tail : List Char) : Prop := ∃ cells, text = chars cells ++ tail ∧ IsInline cells

theorem WritesInline.word {tail : List Char} (plain : ∀ c ∈ w, isInlineChar c = true) : WritesInline (w ++ tail) tail :=
  ⟨w.map code, by simp [Function.comp_def], isInline_code plain⟩

theorem WritesInline.append {x y z : List Char} (front : WritesInline x y) (back : WritesInline y z) : WritesInline x z := by
  obtain ⟨a, rfl, ha⟩ := front
  obtain ⟨b, rfl, hb⟩ := back
  exact ⟨a ++ b, by simp, ha.append hb⟩

theorem WritesInline.quoted (s : String) (tail : List Char) : WritesInline (Json.quotedChars s tail) tail :=
  ⟨quotedCells s, by simp [Json.quotedChars, quotedCells, Function.comp_def], isInline_quoted s⟩

theorem WritesInline.enclosed {opening closing : Char} {inside tail : List Char} (closes : openerOf? closing = some opening)
    (writes : WritesInline inside (closing :: tail)) : WritesInline (opening :: inside) tail := by
  obtain ⟨cells, rfl, h⟩ := writes
  exact ⟨_, by simp, h.enclosed closes⟩

theorem WritesInline.refl (tail : List Char) : WritesInline tail tail := ⟨[], rfl, .nil⟩

/-- The text of a value is inline code. -/
theorem writesInline_compactChars (v : Json) (numerals : Php.HasNumerals v) (tail : List Char) :
    WritesInline (Json.compactChars tail v) tail := by
  have comma {x tail : List Char} (behind : WritesInline x tail) : WritesInline (',' :: x) tail :=
    (WritesInline.word (w := [',']) (List.all_eq_true.1 rfl)).append behind
  have colon {x tail : List Char} (behind : WritesInline x tail) : WritesInline (':' :: x) tail :=
    (WritesInline.word (w := [':']) (List.all_eq_true.1 rfl)).append behind
  induction v using Php.Json.nested_induction generalizing tail with
  | null => exact .word (w := "null".toList) (List.all_eq_true.1 rfl)
  | bool b =>
    cases b
    · exact .word (w := "false".toList) (List.all_eq_true.1 rfl)
    · exact .word (w := "true".toList) (List.all_eq_true.1 rfl)
  | number text =>
    exact ⟨text.toList.map code, by simp [Json.compactChars, Json.scalarChars, Function.comp_def], isInline_numeral numerals⟩
  | string s => exact .quoted s tail
  | array items ih =>
    rw [Php.HasNumerals, Php.itemsHaveNumerals_iff] at numerals
    have others (vs : List Json) (sub : ∀ v ∈ vs, v ∈ items) (tail : List Char) : WritesInline (Json.compactItems tail vs) tail := by
      induction vs with
      | nil => exact .refl tail
      | cons v vs ih' =>
        obtain ⟨here, more⟩ := List.forall_mem_cons.1 sub
        exact comma ((ih v here (numerals v here) _).append (ih' more))
    cases items with
    | nil => exact .enclosed rfl (.refl _)
    | cons v vs =>
      obtain ⟨here, more⟩ := List.forall_mem_cons.1 ih
      exact .enclosed rfl ((here (numerals v List.mem_cons_self) _).append (others vs (fun _ => List.mem_cons_of_mem v) _))
  | object es ih =>
    rw [Php.HasNumerals, Php.entriesHaveNumerals_iff] at numerals
    have entry {e : String × Json} (he : e ∈ es) (tail : List Char) :
        WritesInline (Json.quotedChars e.1 (':' :: Json.compactChars tail e.2)) tail :=
      (WritesInline.quoted e.1 _).append (colon (ih e he (numerals e he) tail))
    have others (es' : List (String × Json)) (sub : ∀ e ∈ es', e ∈ es) (tail : List Char) :
        WritesInline (Json.compactEntries tail es') tail := by
      induction es' with
      | nil => exact .refl tail
      | cons e es' ih' =>
        obtain ⟨here, more⟩ := List.forall_mem_cons.1 sub
        exact comma ((entry here _).append (ih' more))
    cases es with
    | nil => exact .enclosed rfl (.refl _)
    | cons e es => exact .enclosed rfl ((entry List.mem_cons_self _).append (others es (fun _ => List.mem_cons_of_mem e) _))

end Codewright.Script
