import Mathlib.Data.List.Basic
import Codewright.Css.Sheet
import Codewright.Proofs.Text.Scan

/-!
# Masks of stylesheets

A stylesheet has strings and comments, and nothing else that a mask hides. So a text is read alike behind every other text
that ends in code, and masks can be cut and put together wherever there is code on both sides.

* `Step` – what reading one character of a stylesheet can do; `maskStep_cases`;
* `IsMask cells` – the cells are the mask of their own characters;
* `Passes cells` – they are so in front of everything, and code follows;
* `IsMask.left`, `IsMask.right`, `IsMask.trimmed_start`, `IsMask.trimmed_end` – where a mask can be cut.
-/

namespace Codewright.Css

open Text

/-- A single or double quote. -/
def IsQuote (c : Char) : Prop := c = '\'' ∨ c = '"'

/-- A character whose cell is code of its own in front of everything. -/
def IsPlain (c : Char) : Prop := c ≠ '\'' ∧ c ≠ '"' ∧ c ≠ '/'

/-! ## Cells -/

theorem isPlain_semicolon : IsPlain ';' := ⟨by decide, by decide, by decide⟩

theorem isPlain_opening : IsPlain '\x7b' := ⟨by decide, by decide, by decide⟩

theorem isPlain_closing : IsPlain '\x7d' := ⟨by decide, by decide, by decide⟩

theorem isBlankCell_hidden (c : Char) : isBlankCell ⟨c, false⟩ = true := by
  unfold isBlankCell Cell.face
  split
  next feed => simp_all [isSpace]
  next => rfl

/-- A cell that is not blank is shown. -/
theorem shown_of_not_blank {c : Cell} (h : isBlankCell c = false) : c.shown = true := by
  obtain ⟨c, shown⟩ := c
  cases shown with
  | true => rfl
  | false => rw [isBlankCell_hidden] at h; cases h

theorem isBlankCell_of_isSpace {c : Cell} (h : isSpace c.char = true) : isBlankCell c = true := by
  unfold isBlankCell Cell.face
  split
  · exact h
  · rfl

theorem isBlankCell_map_code {text : List Char} (space : ∀ c ∈ text, isSpace c = true) :
    ∀ c ∈ text.map code, isBlankCell c = true :=
  List.forall_mem_map.2 fun c hc => isBlankCell_of_isSpace (c := code c) (space c hc)

/-! ## Reading one character -/

/-- What reading a character of a stylesheet can do. -/
inductive Step (s : MaskState) (follow : Option Char) : Char → Bool → MaskMode → Prop
  | code {c : Char} (plain : s.mode = .plain) (no_quote : ¬IsQuote c) : Step s follow c true .plain
  | quote {c : Char} (plain : s.mode = .plain) (is_quote : IsQuote c) : Step s follow c true (.string c s.byte)
  | slash (plain : s.mode = .plain) (star : follow = some '*') : Step s follow '/' false (.commentOpen s.byte)
  | star {c : Char} {start : Nat} (opened : s.mode = .commentOpen start) : Step s follow c false (.comment false start)
  | comment {c : Char} {star : Bool} {start : Nat} (inside : s.mode = .comment star start) (no_end : ¬(c = '/' ∧ star)) :
      Step s follow c false (.comment (c = '*') start)
  | commentEnd {start : Nat} (inside : s.mode = .comment true start) : Step s follow '/' false .plain
  | string {c quote : Char} {start : Nat} (inside : s.mode = .string quote start) (no_feed : c ≠ '\n')
      (no_quote : c ≠ quote) (no_escape : c ≠ '\\') : Step s follow c false (.string quote start)
  | backslash {quote : Char} {start : Nat} (inside : s.mode = .string quote start) :
      Step s follow '\\' false (.escaped (.string quote start))
  | escaped {c quote : Char} {start : Nat} (inside : s.mode = .escaped (.string quote start)) :
      Step s follow c false (.string quote start)
  | unquote {quote : Char} {start : Nat} (inside : s.mode = .string quote start) : Step s follow quote true .plain

/-- What the next character of a stylesheet can belong to. -/
inductive Fits : MaskMode → Prop
  | plain : Fits .plain
  | commentOpen {start : Nat} : Fits (.commentOpen start)
  | comment {star : Bool} {start : Nat} : Fits (.comment star start)
  | string {quote : Char} {start : Nat} (is_quote : IsQuote quote) : Fits (.string quote start)
  | escaped {quote : Char} {start : Nat} (is_quote : IsQuote quote) : Fits (.escaped (.string quote start))

/-- A state that reading a stylesheet leads to. -/
structure Reached (s : MaskState) : Prop where
  mode : Fits s.mode
  enclosures : s.enclosures = []

variable {s t u : MaskState} {follow : Option Char} {c : Char} {shown : Bool} {mode : MaskMode} {es : List Enclosure}
  {text : List Char} {a b cells front lead body tail : List Cell}

/-- A character that a mode claims. -/
theorem stepMode_cases (fits : Fits s.mode) (claimed : s.mode ≠ .plain) (h : stepMode s.mode c = .ok (shown, mode)) :
    Step s follow c shown mode := by
  cases at_ : s.mode with
  | plain => exact absurd at_ claimed
  | commentOpen start =>
    rw [at_] at h
    cases h
    exact .star at_
  | comment star start =>
    rw [at_] at h
    simp only [stepMode] at h
    split_ifs at h with ends
    · cases h
      obtain ⟨rfl, rfl⟩ := ends
      exact .commentEnd at_
    · cases h
      exact .comment at_ ends
  | string quote start =>
    rw [at_] at h
    simp only [stepMode] at h
    split_ifs at h with feed ends escape
    · cases h
      subst ends
      exact .unquote at_
    · cases h
      subst escape
      exact .backslash at_
    · cases h
      exact .string at_ feed ends escape
  | escaped inside =>
    rw [at_] at fits h
    cases fits with
    | escaped _ =>
      cases h
      exact .escaped at_
  | _ =>
    rw [at_] at fits
    cases fits

theorem maskStep_cases (reached : Reached s) (h : maskStep .stylesheet s c follow = .ok (shown, mode, es)) :
    es = [] ∧ Step s follow c shown mode := by
  have none_open := reached.enclosures
  have claimed (h : ((stepMode s.mode c).map fun r => (r.1, r.2, s.enclosures)) = .ok (shown, mode, es))
      (not_plain : s.mode ≠ .plain) : es = [] ∧ Step s follow c shown mode := by
    cases step : stepMode s.mode c with
    | error e =>
      rw [step] at h
      cases h
    | ok r =>
      rw [step] at h
      cases h
      exact ⟨none_open, stepMode_cases reached.mode not_plain step⟩
  unfold maskStep at h
  split at h
  next fits =>
    rw [none_open] at h
    simp only [List.head?_nil, reduceCtorEq, if_false] at h
    unfold stepCode at h
    simp only [LexicalForms.stylesheet, none_open, Bool.false_eq_true, false_and, and_false, if_false, openBrace,
      closeBrace, ite_self, Except.ok.injEq] at h
    split_ifs at h with quote star
    · cases h
      exact ⟨rfl, .quote fits quote⟩
    · cases h
      obtain ⟨rfl, star⟩ := star
      exact ⟨rfl, .slash fits star⟩
    · cases h
      exact ⟨rfl, .code fits quote⟩
  next fits =>
    have fits' := reached.mode
    rw [fits] at fits'
    cases fits'
  next not_plain _ => exact claimed h not_plain

theorem Step.fits (reached : Reached s) (step : Step s follow c shown mode) : Fits mode := by
  have fits := reached.mode
  cases step with
  | code => exact .plain
  | quote _ is_quote => exact .string is_quote
  | slash => exact .commentOpen
  | star => exact .comment
  | comment => exact .comment
  | commentEnd => exact .plain
  | string inside =>
    rwa [inside] at fits
  | backslash inside =>
    rw [inside] at fits
    cases fits with
    | string is_quote => exact .escaped is_quote
  | escaped inside =>
    rw [inside] at fits
    cases fits with
    | escaped is_quote => exact .string is_quote
  | unquote => exact .plain

/-- Every state that a reading leads to can be met. -/
theorem Reached.scans (reached : Reached s) (read : Scans .stylesheet follow s text cells t) : Reached t := by
  induction read with
  | nil => exact reached
  | cons step _ ih =>
    obtain ⟨rfl, stepped⟩ := maskStep_cases reached step
    exact ih ⟨stepped.fits reached, rfl⟩

/-! ## Code -/

theorem reached_of_isCode (h : IsCode s) : Reached s := ⟨h.mode ▸ .plain, h.enclosures⟩

theorem reached_start : Reached {} := reached_of_isCode isCode_start

/-- All states in code are alike. -/
theorem alike_of_isCode (h : IsCode s) (h' : IsCode t) : Alike .stylesheet s t :=
  ⟨by rw [h.mode, h'.mode], by rw [h.enclosures, h'.enclosures], fun on => by cases on⟩

/-- Nothing is open just in code. -/
theorem Reached.isCode (reached : Reached s) (closed : s.unterminated? = none) : IsCode s := by
  refine ⟨?_, reached.enclosures⟩
  have fits := reached.mode
  unfold MaskState.unterminated? at closed
  cases at_ : s.mode <;> rw [at_] at fits closed <;> cases fits <;> first | rfl | cases closed

/-! ## Masks -/

/-- The cells are the mask of a stylesheet: of their own characters. -/
def IsMask (cells : List Cell) : Prop := mask .stylesheet (chars cells) = .ok cells

/-- The cells lead from code to code, whatever follows. -/
def Passes (cells : List Cell) : Prop :=
  ∀ s follow, IsCode s → ∃ t, IsCode t ∧ Scans .stylesheet follow s (chars cells) cells t

theorem isMask_of_mask (h : mask .stylesheet text = .ok cells) : chars cells = text ∧ IsMask cells := by
  obtain ⟨t, read, _⟩ := maskFrom_eq_ok_iff.1 h
  have same : chars cells = text := read.chars
  exact ⟨same, by rwa [IsMask, same]⟩

/-- A mask leads from code to code at the end of a text. -/
theorem isMask_iff : IsMask cells ↔ ∀ s, IsCode s → ∃ t, IsCode t ∧ Scans .stylesheet none s (chars cells) cells t := by
  constructor
  · intro h s hs
    obtain ⟨t, read, closed⟩ := maskFrom_eq_ok_iff.1 h
    obtain ⟨t', read', alike⟩ := (alike_of_isCode isCode_start hs).scans read
    exact ⟨t', ((reached_start.scans read).isCode closed).of_alike alike, read'⟩
  · intro h
    obtain ⟨t, ht, read⟩ := h {} isCode_start
    exact maskFrom_eq_ok_iff.2 ⟨t, read, ht.closed⟩

theorem Passes.isMask (h : Passes cells) : IsMask cells := isMask_iff.2 fun s hs => h s none hs

theorem passes_nil : Passes [] := fun s _ hs => ⟨s, hs, .nil⟩

theorem Passes.append (ha : Passes a) (hb : Passes b) : Passes (a ++ b) := by
  intro s follow hs
  obtain ⟨t, ht, read⟩ := ha s ((chars b).head?.or follow) hs
  obtain ⟨u, hu, read'⟩ := hb t follow ht
  refine ⟨u, hu, ?_⟩
  rw [chars, List.map_append]
  exact read.append read'

theorem Passes.append_isMask (ha : Passes a) (hb : IsMask b) : IsMask (a ++ b) := by
  refine isMask_iff.2 fun s hs => ?_
  obtain ⟨t, ht, read⟩ := ha s ((chars b).head?.or none) hs
  obtain ⟨u, hu, read'⟩ := isMask_iff.1 hb t ht
  refine ⟨u, hu, ?_⟩
  rw [chars, List.map_append]
  exact read.append read'

/-- What is left of a mask behind a part that leads to code. -/
theorem Passes.isMask_right (ha : Passes a) (h : IsMask (a ++ b)) : IsMask b := by
  refine isMask_iff.2 fun s hs => ?_
  obtain ⟨u, hu, read⟩ := isMask_iff.1 h {} isCode_start
  obtain ⟨t, first, second⟩ := read.split
  obtain ⟨t', ht', first'⟩ := ha {} ((chars b).head?.or none) isCode_start
  obtain rfl := (first.unique first').2
  obtain ⟨u', read', alike⟩ := (alike_of_isCode ht' hs).scans second
  exact ⟨u', hu.of_alike alike, read'⟩

theorem Passes.right (ha : Passes a) (h : Passes (a ++ b)) : Passes b := by
  intro s follow hs
  obtain ⟨u, hu, read⟩ := h {} follow isCode_start
  obtain ⟨t, first, second⟩ := read.split
  obtain ⟨t', ht', first'⟩ := ha {} ((chars b).head?.or follow) isCode_start
  obtain rfl := (first.unique first').2
  obtain ⟨u', read', alike⟩ := (alike_of_isCode ht' hs).scans second
  exact ⟨u', hu.of_alike alike, read'⟩

/-- What follows a part that leads to code matters only behind a slash. -/
theorem passes_of_scans (hs : IsCode s) (ht : IsCode t) (read : Scans .stylesheet follow s (chars cells) cells t)
    (no_slash : cells.getLast? ≠ some (code '/')) : Passes cells := by
  intro s' follow' hs'
  obtain ⟨t', read', alike⟩ := (alike_of_isCode hs hs').scans (read.in_front_of ht.mode ht.enclosures no_slash follow')
  exact ⟨t', ht.of_alike alike, read'⟩

theorem passes_code (plain : IsPlain c) : Passes [code c] := by
  intro s follow hs
  refine ⟨s.after c true .plain [], ⟨rfl, rfl⟩, .cons ?_ .nil⟩
  obtain ⟨single, double, slash⟩ := plain
  simp [maskStep, hs.mode, hs.enclosures, stepCode, LexicalForms.stylesheet, openBrace, closeBrace, single, double, slash]

/-- Characters that are no quotes and no slashes are code. -/
theorem passes_map_code (plain : ∀ c ∈ text, IsPlain c) : Passes (text.map code) := by
  induction text with
  | nil => exact passes_nil
  | cons c cs ih =>
    rw [List.forall_mem_cons] at plain
    exact (passes_code plain.1).append (ih plain.2)

/-! ## Cutting masks -/

/-- A character of code that is no quote has code on both sides. -/
theorem Step.isCode (reached : Reached s) (step : Step s follow c true mode) (no_quote : ¬IsQuote c) :
    IsCode s ∧ mode = .plain := by
  cases step with
  | code plain => exact ⟨⟨plain, reached.enclosures⟩, rfl⟩
  | quote _ is_quote => exact absurd is_quote no_quote
  | unquote inside =>
    have fits := reached.mode
    rw [inside] at fits
    cases fits with
    | string is_quote => exact absurd is_quote no_quote

/-- In a stylesheet, nothing but a star matters behind a character. -/
theorem maskStep_follow {f f' : Option Char} (reached : Reached s) (hf : f ≠ some '*') (hf' : f' ≠ some '*') (c : Char) :
    maskStep .stylesheet s c f = maskStep .stylesheet s c f' := by
  unfold maskStep
  rw [reached.enclosures]
  simp only [List.head?_nil, reduceCtorEq, if_false, stepCode, LexicalForms.stylesheet, Bool.false_eq_true, false_and,
    and_false, hf, hf']

theorem scans_follow {f f' : Option Char} (reached : Reached s) (read : Scans .stylesheet f s text cells t)
    (hf : f ≠ some '*') (hf' : f' ≠ some '*') : Scans .stylesheet f' s text cells t := by
  induction read with
  | nil => exact .nil
  | @cons _ _ c cs _ _ _ _ step _ ih =>
    obtain ⟨rfl, stepped⟩ := maskStep_cases reached step
    refine .cons ?_ (ih ⟨stepped.fits reached, rfl⟩)
    cases cs with
    | nil => rwa [List.head?_nil, Option.none_or, maskStep_follow reached hf' hf]
    | cons => exact step

/-- What stands in front of a character of code. -/
theorem IsMask.scans_left (h : IsMask (a ++ code c :: b)) (no_quote : ¬IsQuote c) :
    ∃ t, IsCode t ∧ Scans .stylesheet (some c) {} (chars a) a t := by
  obtain ⟨u, -, read⟩ := isMask_iff.1 h {} isCode_start
  obtain ⟨t, first, second⟩ := read.split
  refine ⟨t, ?_, first⟩
  cases second with
  | cons step _ =>
    have reached := reached_start.scans first
    exact ((maskStep_cases reached step).2.isCode reached no_quote).1

theorem IsMask.left (h : IsMask (a ++ code c :: b)) (no_quote : ¬IsQuote c) (no_star : c ≠ '*') : IsMask a := by
  obtain ⟨t, ht, read⟩ := h.scans_left no_quote
  exact maskFrom_eq_ok_iff.2
    ⟨t, scans_follow reached_start read (by simpa using no_star) (by simp), ht.closed⟩

/-- A part up to a character of code. -/
theorem IsMask.passes_left (h : IsMask (a ++ code c :: b)) (plain : IsPlain c) : Passes (a ++ [code c]) := by
  obtain ⟨single, double, slash⟩ := plain
  obtain ⟨t, ht, read⟩ := h.scans_left (by simp [IsQuote, single, double])
  obtain ⟨u, hu, read'⟩ := passes_code ⟨single, double, slash⟩ t none ht
  have whole : Scans .stylesheet none {} (chars (a ++ [code c])) (a ++ [code c]) u := by
    rw [chars, List.map_append]
    exact read.append read'
  exact passes_of_scans isCode_start hu whole (by simpa using slash)

theorem IsMask.right (h : IsMask (a ++ code c :: b)) (plain : IsPlain c) : IsMask b := by
  have passes := h.passes_left plain
  rw [List.append_cons] at h
  exact passes.isMask_right h

/-- A mask with one more character of code leads to code, whatever follows. -/
theorem IsMask.append_code (h : IsMask a) (plain : IsPlain c) (no_star : c ≠ '*') : Passes (a ++ [code c]) := by
  obtain ⟨t, ht, read⟩ := isMask_iff.1 h {} isCode_start
  obtain ⟨u, hu, read'⟩ := passes_code plain t none ht
  have whole : Scans .stylesheet none {} (chars (a ++ [code c])) (a ++ [code c]) u := by
    rw [chars, List.map_append]
    exact (scans_follow reached_start read (by simp) (by simpa using no_star)).append read'
  exact passes_of_scans isCode_start hu whole (by simpa using plain.2.2)

/-- The same for some characters of code. -/
theorem IsMask.append_plain (h : IsMask a) (plain : ∀ c ∈ text, IsPlain c) (some_char : text ≠ [])
    (no_star : text.head? ≠ some '*') : Passes (a ++ text.map code) := by
  obtain ⟨c, cs, rfl⟩ := List.exists_cons_of_ne_nil some_char
  rw [List.forall_mem_cons] at plain
  have := (h.append_code plain.1 (by simpa using no_star)).append (passes_map_code plain.2)
  simpa using this

/-! ## Blank ends -/

/-- Inside a string. -/
def inString : MaskMode → Bool
  | .string _ _ | .escaped _ => true
  | _ => false

theorem isBlankCell_quote (is_quote : IsQuote c) : isBlankCell (code c) = false := by
  rcases is_quote with rfl | rfl <;> rfl

/-- A blank cell begins and ends no string. -/
theorem Step.inString_eq (reached : Reached s) (step : Step s follow c shown mode)
    (blank : isBlankCell ⟨c, shown⟩ = true) : inString mode = inString s.mode := by
  have fits := reached.mode
  cases step with
  | code plain => rw [plain]
  | quote _ is_quote =>
    rw [isBlankCell_quote is_quote] at blank
    cases blank
  | slash plain => rw [plain]; rfl
  | star opened => rw [opened]; rfl
  | comment inside => rw [inside]; rfl
  | commentEnd inside => rw [inside]; rfl
  | string inside => rw [inside]
  | backslash inside => rw [inside]; rfl
  | escaped inside => rw [inside]; rfl
  | unquote inside =>
    rw [inside] at fits
    cases fits with
    | string is_quote =>
      rw [isBlankCell_quote is_quote] at blank
      cases blank

theorem scans_blank (reached : Reached s) (read : Scans .stylesheet follow s text cells t)
    (blank : ∀ c ∈ cells, isBlankCell c = true) : inString t.mode = inString s.mode := by
  induction read with
  | nil => rfl
  | cons step _ ih =>
    rw [List.forall_mem_cons] at blank
    obtain ⟨rfl, stepped⟩ := maskStep_cases reached step
    rw [ih ⟨stepped.fits reached, rfl⟩ blank.2]
    exact stepped.inString_eq reached blank.1

/-- A cell that is not blank and no string is open before it, or none behind it, stands next to code. -/
theorem Step.of_not_blank (reached : Reached s) (step : Step s follow c shown mode)
    (some_face : isBlankCell ⟨c, shown⟩ = false) :
    (inString s.mode = false → IsCode s) ∧ (inString mode = false → mode = .plain) := by
  have is_shown : shown = true := shown_of_not_blank some_face
  cases step with
  | code plain => exact ⟨fun _ => ⟨plain, reached.enclosures⟩, fun _ => rfl⟩
  | quote plain => exact ⟨fun _ => ⟨plain, reached.enclosures⟩, fun outside => by cases outside⟩
  | unquote inside => exact ⟨fun outside => absurd outside (by simp [inside, inString]), fun _ => rfl⟩
  | _ => cases is_shown

/-- The blank cells in front of a mask can be cut off. -/
theorem IsMask.trimmed_start (h : IsMask (lead ++ body)) (blank : ∀ c ∈ lead, isBlankCell c = true)
    (some_face : ∃ c ∈ body.head?, isBlankCell c = false) : Passes lead ∧ IsMask body := by
  obtain ⟨⟨c, shown⟩, first_cell, some_face⟩ := some_face
  obtain ⟨more, rfl⟩ := List.head?_eq_some_iff.1 first_cell
  obtain ⟨u, hu, read⟩ := isMask_iff.1 h {} isCode_start
  obtain ⟨t, first, second⟩ := read.split
  have reached := reached_start.scans first
  have outside : inString t.mode = false := scans_blank reached_start first blank
  have ht : IsCode t := by
    cases second with
    | cons step _ => exact ((maskStep_cases reached step).2.of_not_blank reached some_face).1 outside
  have passes : Passes lead := by
    refine passes_of_scans isCode_start ht first fun slash => ?_
    have := blank _ (List.mem_of_getLast? slash)
    cases this
  exact ⟨passes, passes.isMask_right h⟩

/-- Behind a cell that is not blank, and outside of strings, there is code. -/
theorem isCode_behind (read : Scans .stylesheet follow {} (chars body) body t)
    (some_face : ∃ c ∈ body.getLast?, isBlankCell c = false) (outside : inString t.mode = false) : IsCode t := by
  obtain ⟨⟨c, shown⟩, last_cell, some_face⟩ := some_face
  obtain ⟨before, rfl⟩ := List.getLast?_eq_some_iff.1 last_cell
  obtain ⟨v, before', last⟩ := read.split
  have reached := reached_start.scans before'
  cases last with
  | cons step rest =>
    obtain ⟨rfl, stepped⟩ := maskStep_cases reached step
    cases rest
    exact ⟨(stepped.of_not_blank reached some_face).2 outside, rfl⟩

/-- What stands behind a cell that is not blank and in front of code is read from code, blank cells between them included. -/
theorem IsMask.behind_body (h : IsMask (body ++ (tail ++ code c :: b))) (no_quote : ¬IsQuote c)
    (blank : ∀ c ∈ tail, isBlankCell c = true) (some_face : ∃ c ∈ body.getLast?, isBlankCell c = false) :
    IsMask (tail ++ code c :: b) := by
  obtain ⟨u, hu, read⟩ := isMask_iff.1 h {} isCode_start
  obtain ⟨t, first, second⟩ := read.split
  have reached := reached_start.scans first
  have outside : inString t.mode = false := by
    obtain ⟨v, middle, last⟩ := second.split
    cases last with
    | cons step _ =>
      have hv := ((maskStep_cases (reached.scans middle) step).2.isCode (reached.scans middle) no_quote).1
      rw [← scans_blank reached middle blank, hv.mode]
      rfl
  have ht := isCode_behind first some_face outside
  refine isMask_iff.2 fun s hs => ?_
  obtain ⟨u', read', alike⟩ := (alike_of_isCode ht hs).scans second
  exact ⟨u', hu.of_alike alike, read'⟩

/-- In front of a blank cell, code is followed by no star. -/
theorem head?_ne_star (ht : IsCode t) (read : Scans .stylesheet follow t text cells u)
    (blank : ∀ c ∈ cells, isBlankCell c = true) : text.head? ≠ some '*' := by
  cases read with
  | nil => simp
  | @cons _ _ c cs shown mode es cells step _ =>
    intro star
    obtain rfl : c = '*' := by simpa using star
    have is_blank := blank ⟨'*', shown⟩ List.mem_cons_self
    have stepped := (maskStep_cases (reached_of_isCode ht) step).2
    cases stepped with
    | code => cases is_blank
    | quote _ is_quote => cases is_blank
    | _ => simp_all [ht.mode]

/-- The blank cells at the end of a mask can be cut off. -/
theorem IsMask.trimmed_end (h : IsMask (body ++ tail)) (blank : ∀ c ∈ tail, isBlankCell c = true)
    (some_face : ∃ c ∈ body.getLast?, isBlankCell c = false) : IsMask body ∧ IsMask tail := by
  obtain ⟨u, hu, read⟩ := isMask_iff.1 h {} isCode_start
  obtain ⟨t, first, second⟩ := read.split
  have outside : inString t.mode = false := by
    rw [← scans_blank (reached_start.scans first) second blank, hu.mode]
    rfl
  have ht := isCode_behind first some_face outside
  constructor
  · refine maskFrom_eq_ok_iff.2 ⟨t, ?_, ht.closed⟩
    refine scans_follow reached_start first ?_ (by simp)
    rw [Option.or_none]
    exact head?_ne_star ht second blank
  · refine isMask_iff.2 fun s hs => ?_
    obtain ⟨u', read', alike⟩ := (alike_of_isCode ht hs).scans second
    exact ⟨u', hu.of_alike alike, read'⟩

/-! ## White space -/

/-- White space ends no string and no comment. -/
theorem Step.code_of_space (step : Step s follow c shown mode) (reached : Reached s) (space : isSpace c = true)
    (ends : mode = .plain) : IsCode s := by
  cases step with
  | code plain => exact ⟨plain, reached.enclosures⟩
  | commentEnd => cases space
  | unquote inside =>
    have fits := reached.mode
    rw [inside] at fits
    cases fits with
    | string is_quote => rcases is_quote with rfl | rfl <;> cases space
  | _ => cases ends

/-- In front of white space that leads to code there is code. -/
theorem isCode_of_space (reached : Reached s) (read : Scans .stylesheet follow s text cells t)
    (space : ∀ c ∈ text, isSpace c = true) (ht : IsCode t) : IsCode s := by
  induction read with
  | nil => exact ht
  | cons step _ ih =>
    rw [List.forall_mem_cons] at space
    obtain ⟨rfl, stepped⟩ := maskStep_cases reached step
    exact stepped.code_of_space reached space.1 (ih ⟨stepped.fits reached, rfl⟩ space.2 ht).mode

/-- White space at the end of a mask can be cut off. -/
theorem IsMask.of_append_space (h : IsMask (a ++ b)) (space : ∀ c ∈ b, isSpace c.char = true) : IsMask a := by
  obtain ⟨u, hu, read⟩ := isMask_iff.1 h {} isCode_start
  obtain ⟨t, first, second⟩ := read.split
  have space' : ∀ c ∈ chars b, isSpace c = true := by simpa using space
  have ht := isCode_of_space (reached_start.scans first) second space' hu
  refine maskFrom_eq_ok_iff.2 ⟨t, ?_, ht.closed⟩
  refine scans_follow reached_start first ?_ (by simp)
  rw [Option.or_none]
  intro star
  have := space' _ (List.mem_of_mem_head? star)
  cases this

/-- White space at the end of blank cells that lead to code can be cut off. -/
theorem Passes.of_append_space (h : Passes (a ++ b)) (space : ∀ c ∈ b, isSpace c.char = true)
    (no_slash : a.getLast? ≠ some (code '/')) : Passes a := by
  obtain ⟨t, ht, read⟩ := isMask_iff.1 (h.isMask.of_append_space space) {} isCode_start
  exact passes_of_scans isCode_start ht read no_slash

theorem isPlain_of_isSpace (space : isSpace c = true) : IsPlain c := by
  refine ⟨?_, ?_, ?_⟩ <;> rintro rfl <;> cases space

/-- White space is code in front of everything. -/
theorem passes_space (space : ∀ c ∈ text, isSpace c = true) : Passes (text.map code) :=
  passes_map_code fun c hc => isPlain_of_isSpace (space c hc)

/-- The cells of a text that are shown, or that are not. -/
abbrev cellsOf (shown : Bool) (text : List Char) : List Cell := text.map fun c => ⟨c, shown⟩

theorem chars_cellsOf (shown : Bool) (text : List Char) : chars (cellsOf shown text) = text := by
  induction text with
  | nil => rfl
  | cons c cs ih => exact congrArg (c :: ·) ih

/-- White space at the start of a mask can be cut off. -/
theorem IsMask.of_space_append (h : IsMask (a ++ b)) (space : ∀ c ∈ a, isSpace c.char = true) : IsMask b := by
  obtain ⟨u, hu, read⟩ := isMask_iff.1 h {} isCode_start
  obtain ⟨t, first, -⟩ := read.split
  have passes : Passes ((chars a).map code) := passes_space (List.forall_mem_map.2 space)
  obtain ⟨t', ht', first'⟩ := passes {} ((chars b).head?.or none) isCode_start
  rw [chars_cellsOf true] at first'
  have same := (first.unique first').1
  rw [← same] at passes
  exact passes.isMask_right h

/-- White space may follow a mask. -/
theorem IsMask.append_space (h : IsMask a) (space : ∀ c ∈ text, isSpace c = true) : IsMask (a ++ text.map code) := by
  refine isMask_iff.2 fun s hs => ?_
  obtain ⟨t, ht, read⟩ := isMask_iff.1 h s hs
  obtain ⟨u, hu, read'⟩ := passes_space space t none ht
  have no_star : (chars (text.map code)).head?.or none ≠ some '*' := by
    rw [Option.or_none]
    intro star
    have : isSpace '*' = true := space '*' (by simpa using List.mem_of_mem_head? star)
    cases this
  refine ⟨u, hu, ?_⟩
  rw [chars, List.map_append]
  exact (scans_follow (reached_of_isCode hs) read (by simp) no_star).append read'

/-- White space leaves a comment open. -/
theorem scans_comment_space {start : Nat} (inside : s.mode = .commentOpen start ∨ ∃ star, s.mode = .comment star start)
    (none_open : s.enclosures = []) (space : ∀ c ∈ text, isSpace c = true) (some_char : text ≠ []) :
    ∃ t, t.mode = .comment false start ∧ t.enclosures = [] ∧ Scans .stylesheet follow s text (cellsOf false text) t := by
  induction text generalizing s with
  | nil => exact absurd rfl some_char
  | cons c cs ih =>
    rw [List.forall_mem_cons] at space
    have no_slash : c ≠ '/' := (isPlain_of_isSpace space.1).2.2
    have no_star : c ≠ '*' := by
      rintro rfl
      cases space.1
    have step : maskStep .stylesheet s c (cs.head?.or follow) = .ok (false, .comment false start, []) := by
      unfold maskStep
      rcases inside with inside | ⟨star, inside⟩ <;>
        simp [inside, none_open, stepMode, no_slash, no_star, Except.map]
    by_cases more : cs = []
    · subst more
      exact ⟨_, rfl, rfl, .cons step .nil⟩
    · obtain ⟨t, mode, closed, read⟩ := ih (s := s.after c false (.comment false start) []) (.inr ⟨_, rfl⟩) rfl space.2 more
      exact ⟨t, mode, closed, .cons step read⟩

/-- White space up to a line feed does not stand in a string. -/
theorem not_scans_string {quote : Char} {start : Nat} (is_quote : IsQuote quote) (inside : s.mode = .string quote start)
    (space : ∀ c ∈ text, isSpace c = true) : ¬Scans .stylesheet follow s (text ++ ['\n']) cells t := by
  induction text generalizing s cells with
  | nil =>
    intro read
    cases read with
    | cons step => simp [maskStep, inside, stepMode, Except.map] at step
  | cons c cs ih =>
    intro read
    rw [List.forall_mem_cons] at space
    have letters : c ≠ quote ∧ c ≠ '\\' := by
      constructor
      · rintro rfl
        rcases is_quote with rfl | rfl <;> cases space.1
      · rintro rfl
        cases space.1
    cases read with
    | cons step rest =>
      simp only [maskStep, inside, stepMode, if_neg letters.1, if_neg letters.2] at step
      split_ifs at step
      · cases step
      · cases step
        exact ih rfl space.2 rest

/-- Any other white space can stand in front of a line feed that has some before it. -/
theorem scans_space_feed (reached : Reached s) (space : ∀ c ∈ text, isSpace c = true) (some_char : text ≠ [])
    (read : Scans .stylesheet follow s (text ++ ['\n']) cells t) :
    ∃ shown, ∀ text', (∀ c ∈ text', isSpace c = true) → ∃ t', Alike .stylesheet t t' ∧
      Scans .stylesheet follow s (text' ++ ['\n']) (cellsOf shown (text' ++ ['\n'])) t' := by
  have with_feed {w : List Char} (space : ∀ c ∈ w, isSpace c = true) : ∀ c ∈ w ++ ['\n'], isSpace c = true :=
    List.forall_mem_append.2 ⟨space, List.all_eq_true.1 rfl⟩
  have none_open := reached.enclosures
  have in_comment {start : Nat} (inside : s.mode = .commentOpen start ∨ ∃ star, s.mode = .comment star start) :
      ∃ shown, ∀ text', (∀ c ∈ text', isSpace c = true) → ∃ t', Alike .stylesheet t t' ∧
        Scans .stylesheet follow s (text' ++ ['\n']) (cellsOf shown (text' ++ ['\n'])) t' := by
    refine ⟨false, fun text' space' => ?_⟩
    obtain ⟨u, mode, closed, read'⟩ := scans_comment_space inside none_open (with_feed space) (by simp)
    obtain ⟨-, rfl⟩ := read.unique read'
    obtain ⟨u', mode', closed', read''⟩ := scans_comment_space inside none_open (with_feed space') (by simp)
    exact ⟨u', ⟨by rw [mode, mode'], by rw [closed, closed'], fun on => by cases on⟩, read''⟩
  have fits := reached.mode
  cases at_ : s.mode with
  | plain =>
    refine ⟨true, fun text' space' => ?_⟩
    have code_here : IsCode s := ⟨at_, none_open⟩
    have passes {w : List Char} (space : ∀ c ∈ w, isSpace c = true) :
        ∃ u, IsCode u ∧ Scans .stylesheet follow s (w ++ ['\n']) (cellsOf true (w ++ ['\n'])) u := by
      obtain ⟨u, hu, read⟩ := passes_space (with_feed space) s follow code_here
      rw [chars_cellsOf true] at read
      exact ⟨u, hu, read⟩
    obtain ⟨u, hu, read'⟩ := passes space
    obtain ⟨-, rfl⟩ := read.unique read'
    obtain ⟨u', hu', read''⟩ := passes space'
    exact ⟨u', alike_of_isCode hu hu', read''⟩
  | commentOpen start => exact in_comment (.inl at_)
  | comment star start => exact in_comment (.inr ⟨star, at_⟩)
  | string quote start =>
    rw [at_] at fits
    cases fits with
    | string is_quote => exact absurd read (not_scans_string is_quote at_ space)
  | escaped inside =>
    rw [at_] at fits
    cases fits with
    | @escaped quote start is_quote =>
      obtain ⟨c, w, rfl⟩ := List.exists_cons_of_ne_nil some_char
      rw [List.forall_mem_cons] at space
      cases read with
      | cons step rest =>
        simp only [maskStep, at_, stepMode] at step
        cases step
        exact absurd rest (not_scans_string is_quote rfl space.2)
  | _ =>
    rw [at_] at fits
    cases fits

end Codewright.Css
