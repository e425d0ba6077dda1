import Codewright.Proofs.Script.Seam
import Codewright.Proofs.Text.Literal

/-!
# Literals of scripts

White space in code takes no part in literals, so a script has the same literals wherever it stands in code, and whatever its
indentation is, as long as no line ends within a literal.

* `scans_blank` – white space is within a literal at both of its ends or at none;
* `SameMode.quotes` – the literals of a script that begins plainly do not depend on what is before it;
* `IsSteady text` – no line of the text ends within a literal; `IsSteady.quotes_indentLines`.
-/

namespace Codewright.Script

open Text

variable {indent l l' w text : List Char} {c : Char} {s s' t t' u : MaskState} {follow follow' next : Option Char} {shown : Bool}
  {mode : MaskMode} {es : List Enclosure} {cells cells' : List Cell} {ls ls' : List (List Char)} {marks : List (Char × Bool)}

/-! ## White space -/

theorem ne_of_isSpace {d : Char} (space : isSpace c = true) (letter : isSpace d = false) : c ≠ d := by
  rintro rfl
  rw [space] at letter
  cases letter

/-- White space ends no literal, and closes nothing. -/
theorem Step.blank (reached : Reached s) (not_opened : s.mode ≠ .substitutionOpen) (space : isSpace c = true)
    (step : Step s next c shown mode es) : mode ≠ .substitutionOpen ∧
      ((s.after c shown mode es).inLiteral = false → s.inLiteral = false) ∧
      ((s.after c shown mode es).unterminated? = none → s.unterminated? = none) := by
  have ne {d : Char} (letter : isSpace d = false) : c ≠ d := ne_of_isSpace space letter
  cases step with
  | tick | dollar | backslash | blockComment | lineComment | regex | template | opening | closing => cases space
  | templateText plain | code plain => simp [MaskState.inLiteral, MaskState.unterminated?, MaskState.after, plain]
  | quote _ is_quote => rcases is_quote with rfl | rfl <;> cases space
  | substitution opened => exact absurd opened not_opened
  | within not_plain _ claimed =>
    have fits := reached.mode
    unfold MaskState.inLiteral MaskState.unterminated? MaskState.after
    dsimp only
    generalize s.enclosures = es, s.mode = mode' at *
    cases fits with
    | plain => exact absurd rfl not_plain
    | substitutionOpen => exact absurd rfl not_opened
    | string is_quote =>
      have not_quote := is_quote.elim (fun h => h ▸ ne (d := '\'') rfl) (fun h => h ▸ ne (d := '"') rfl)
      simp only [stepMode, not_quote, ne (d := '\\') rfl, if_false] at claimed
      split_ifs at claimed
      cases claimed
      simp
    | regex =>
      simp only [stepMode, ne (d := '/') rfl, ne (d := '\\') rfl, ne (d := '[') rfl, ne (d := ']') rfl, false_and,
        if_false] at claimed
      split_ifs at claimed
      cases claimed
      simp
    | comment =>
      simp only [stepMode, ne (d := '/') rfl, false_and, if_false] at claimed
      cases claimed
      simp
    | lineComment =>
      simp only [stepMode] at claimed
      split_ifs at claimed <;> cases claimed <;> simp
    | commentOpen | escapedString | escapedRegex | escapedTemplate =>
      cases claimed
      simp

/-- White space in front of which a literal or something else is open is followed by a place where it still is. Outside of literals
it has no mark. -/
theorem scans_blank (reached : Reached s) (not_opened : s.mode ≠ .substitutionOpen) (blank : IsBlank w)
    (read : Scans .script follow s w cells t) :
    (t.inLiteral = false → s.inLiteral = false ∧ markLiterals .script follow s w = []) ∧
      (t.unterminated? = none → s.unterminated? = none) := by
  induction read with
  | nil => exact ⟨fun outside => ⟨outside, rfl⟩, id⟩
  | @cons s t c cs shown mode es cells step rest ih =>
    obtain ⟨here, more⟩ := List.forall_mem_cons.1 blank
    have stepped := maskStep_cases step
    obtain ⟨not_opened', literal, closed⟩ := stepped.blank reached not_opened here
    obtain ⟨fits, alternate⟩ := (stepped.reached reached fun h => absurd h not_opened).1
    obtain ⟨literal', closed'⟩ := ih ⟨fits, alternate⟩ not_opened' more
    refine ⟨fun outside => ?_, closed ∘ closed'⟩
    obtain ⟨outside', none_marked⟩ := literal' outside
    rw [markLiterals_cons step, none_marked, markOf, outside', literal outside']
    exact ⟨rfl, rfl⟩

theorem inLiteral_of_closed (reached : Reached s) (closed : s.unterminated? = none) : s.inLiteral = false := by
  obtain ⟨none_open, plain | comment⟩ := reached.closed_cases closed
  · simp [MaskState.inLiteral, plain, none_open]
  · simp [MaskState.inLiteral, comment]

theorem inLiteral_of_isCode (is_code : IsCode s) : s.inLiteral = false :=
  inLiteral_of_closed (reached_of_isCode is_code) is_code.closed

/-- White space in code is code without a mark. -/
theorem quotes_space (follow : Option Char) (is_code : IsCode s) (blank : IsBlank w) :
    ∃ t, Quotes .script follow s w [] t ∧ IsCode t ∧ t.past = w.reverse ++ s.past := by
  obtain ⟨t, read, is_code', past⟩ := scans_space follow is_code blank
  have outside := inLiteral_of_isCode is_code'
  obtain ⟨marks, -⟩ := scans_blank (reached_of_isCode is_code) (not_opened_of_isCode is_code) blank read
  exact ⟨t, ⟨⟨_, read⟩, (marks outside).2⟩, is_code', past⟩

/-- A line feed can stand behind a text with a mask. -/
theorem quotes_feed_of_closed (reached : Reached s) (closed : s.unterminated? = none) (follow : Option Char) :
    ∃ t, Quotes .script follow s ['\n'] [] t ∧ IsCode t ∧ t.past = '\n' :: s.past := by
  obtain ⟨t, read, is_code, past⟩ := scans_feed_of_closed reached closed follow
  have not_opened : s.mode ≠ .substitutionOpen := by
    obtain ⟨-, plain | comment⟩ := reached.closed_cases closed
    · simp [plain]
    · simp [comment]
  obtain ⟨marks, -⟩ := scans_blank reached not_opened (List.all_eq_true.1 rfl) read
  exact ⟨t, ⟨⟨_, read⟩, (marks (inLiteral_of_isCode is_code)).2⟩, is_code, past⟩

/-! ## Lines -/

/-- A line and what indentation makes of it are the same up to white space at their ends. -/
theorem Reline.exists_core (line : Reline indent l l') : ∃ lead core x y, l ++ ['\n'] = core ++ x ∧
    l' ++ ['\n'] = lead ++ (core ++ y) ∧ (lead = [] ∨ lead = indent) ∧ (IsBlank x ∧ x ≠ []) ∧ IsBlank y ∧ y ≠ [] := by
  have feed : IsBlank ['\n'] := List.all_eq_true.1 rfl
  cases line with
  | blank _ space =>
    refine ⟨[], [], l ++ ['\n'], ['\n'], rfl, rfl, .inl rfl, ⟨?_, by simp⟩, feed, by simp⟩
    exact List.forall_mem_append.2 ⟨fun c hc => isSpace_of_isAsciiSpace (space c hc), feed⟩
  | indented => exact ⟨indent, l, ['\n'], ['\n'], rfl, by simp, .inr rfl, ⟨feed, by simp⟩, feed, by simp⟩
  | @returned l =>
    exact ⟨indent, l, ['\r', '\n'], ['\n'], by simp, by simp, .inr rfl, ⟨List.all_eq_true.1 rfl, by simp⟩, feed, by simp⟩

/-- What is read in front of white space that ends outside of literals. -/
theorem markLiterals_append_blank {x : List Char} (reached : Reached s) (not_opened : s.mode ≠ .substitutionOpen)
    (blank : IsBlank x) (some_blank : x ≠ []) (read : Scans .script follow s (text ++ x) cells t) (outside : t.inLiteral = false) :
    markLiterals .script follow s (text ++ x) = markLiterals .script none s text := by
  obtain ⟨_, _, v, -, front, behind⟩ := scans_append_iff.1 read
  obtain ⟨c, x, rfl⟩ := List.exists_cons_of_ne_nil some_blank
  have dull : IsDull ((c :: x).head?.or follow) := isDull_of_isSpace (blank c List.mem_cons_self)
  obtain ⟨reached', opened, -⟩ := scans_reached front reached fun h => absurd h not_opened
  obtain ⟨marks, -⟩ := scans_blank reached' (fun h => dull.2.2 (opened h)) blank behind
  rw [front.markLiterals_append, (marks outside).2, List.append_nil, front.markLiterals_eq (front.dull dull isDull_none)]

/-- A line that is indented has the same literals, if it begins and ends outside of literals. -/
theorem markLiterals_reline (is_indent : ∀ c ∈ indent, isAsciiSpace c = true ∧ c ≠ '\n') (line : Reline indent l l')
    (at_line : AtLine s) (at_line' : AtLine s') (alike : Alike .script s s') (outside : s.inLiteral = false)
    (read : Scans .script follow s (l ++ ['\n']) cells t) (read' : Scans .script follow' s' (l' ++ ['\n']) cells' t')
    (alike' : Alike .script t t') (outside' : t.inLiteral = false) :
    markLiterals .script follow' s' (l' ++ ['\n']) = markLiterals .script follow s (l ++ ['\n']) := by
  obtain ⟨lead, core, x, y, cut, cut', leads, ⟨blank, some_x⟩, blank', some_y⟩ := line.exists_core
  rw [cut'] at read' ⊢
  rw [cut] at read ⊢
  obtain ⟨_, _, v, -, first, rest⟩ := scans_append_iff.1 read'
  -- Behind the indentation, the state is alike.
  have ascii : ∀ c ∈ lead, isAsciiSpace c = true := by
    rcases leads with rfl | rfl
    · simp
    · exact fun c hc => (is_indent c hc).1
  have no_feed : '\n' ∉ lead := by
    rcases leads with rfl | rfl
    · simp
    · exact fun hc => (is_indent _ hc).2 rfl
  obtain ⟨_, v', first', alike_v, at_v, -⟩ := at_line'.scans_space ((core ++ y).head?.or follow') ascii no_feed
  obtain ⟨-, rfl⟩ := first.unique first'
  obtain ⟨none_marked, -⟩ := scans_blank at_line'.reached at_line'.not_opened (fun c hc => isSpace_of_isAsciiSpace (ascii c hc)) first
  have outside_v : v.inLiteral = false := by rw [← alike_v.inLiteral, ← alike.inLiteral, outside]
  rw [first.markLiterals_append, (none_marked outside_v).2, List.nil_append,
    markLiterals_append_blank at_v.reached at_v.not_opened blank' some_y rest (by rw [← alike'.inLiteral, outside']),
    markLiterals_append_blank at_line.reached at_line.not_opened blank some_x read outside',
    (alike.trans alike_v).markLiterals_eq]

/-- A line feed outside of literals leads outside of literals. -/
theorem inLiteral_of_feed (read : Scans .script follow s (l ++ ['\n']) cells t)
    (none_marked : ∀ m ∈ markLiterals .script follow s (l ++ ['\n']), m.1 ≠ '\n') :
    t.inLiteral = false := by
  obtain ⟨_, _, v, -, front, last⟩ := scans_append_iff.1 read
  by_contra inside
  rw [Bool.not_eq_false] at inside
  refine none_marked ('\n', !t.inLiteral) ?_ rfl
  rw [front.markLiterals_append, last.markLiterals_single, markOf, inside, Bool.or_true, if_pos rfl]
  simp

/-- Lines that are indented have the same literals, if no literal holds a line feed. -/
theorem markLiterals_relines (is_indent : ∀ c ∈ indent, isAsciiSpace c = true ∧ c ≠ '\n')
    (lines : List.Forall₂ (Reline indent) ls ls') (at_line : AtLine s) (at_line' : AtLine s') (alike : Alike .script s s')
    (outside : s.inLiteral = false) (read : Scans .script follow s (joinLines ls) cells t)
    (none_marked : ∀ m ∈ markLiterals .script follow s (joinLines ls), m.1 ≠ '\n') (follow' : Option Char) :
    markLiterals .script follow' s' (joinLines ls') = markLiterals .script follow s (joinLines ls) := by
  induction lines generalizing s s' cells with
  | nil => rfl
  | @cons l l' ls ls' line _ ih =>
    rw [joinLines_cons, List.append_cons] at read none_marked
    rw [joinLines_cons, List.append_cons, joinLines_cons, List.append_cons l]
    obtain ⟨c₁, c₂, v, rfl, here, behind⟩ := scans_append_iff.1 read
    rw [here.markLiterals_append, List.forall_mem_append] at none_marked
    obtain ⟨at_v, c₁', v', here', at_v', alike', -⟩ :=
      scans_reline is_indent line at_line at_line' alike here ((joinLines ls').head?.or follow')
    have outside' := inLiteral_of_feed here none_marked.1
    rw [here.markLiterals_append, here'.markLiterals_append, ih at_v at_v' alike' outside' behind none_marked.2,
      markLiterals_reline is_indent line at_line at_line' alike outside here here' alike' outside']

/-! ## Texts -/

/-- A text that has a mask, no line of which ends within a literal, and whose blank lines have no blanks but those of ASCII. -/
structure IsSteady (text : List Char) : Prop where
  masked : ∃ cells, mask .script text = .ok cells
  oneLine : ∀ l ∈ literals .script text, '\n' ∉ l
  blank : ∀ l ∈ lines text, isBlankList l = true → ∀ c ∈ l, isAsciiSpace c = true

/-- A text with a mask, read up to a place where a line feed can stand. -/
theorem exists_scans_of_mask (masked : mask .script text = .ok cells) (dull : IsDull follow) :
    ∃ t, Quotes .script follow {} text (markLiterals .script none {} text) t ∧ Reached t ∧ t.unterminated? = none := by
  obtain ⟨t, read, closed⟩ := maskFrom_eq_ok_iff.1 masked
  exact ⟨t, (Quotes.of_scans read).dull isDull_none dull, (scans_reached read reached_start nofun).1, closed⟩

/-- The literals of a text with a line feed behind it. -/
theorem exists_quotes_feed (masked : mask .script text = .ok cells) :
    ∃ t, Quotes .script none {} (text ++ ['\n']) (markLiterals .script none {} text) t ∧ IsCode t := by
  obtain ⟨t, read, reached, closed⟩ := exists_scans_of_mask masked (isDull_of_isSpace (c := '\n') rfl)
  obtain ⟨u, feed, is_code, -⟩ := quotes_feed_of_closed reached closed none
  have whole := read.append feed
  rw [List.append_nil] at whole
  exact ⟨u, whole, is_code⟩

/-- A steady text that is indented has the same literals. -/
theorem IsSteady.markLiterals_indentLines (steady : IsSteady text) (is_indent : ∀ c ∈ indent, isAsciiSpace c = true ∧ c ≠ '\n') :
    markLiterals .script none {} (indentLines text indent) = markLiterals .script none {} text := by
  obtain ⟨cells, masked⟩ := steady.masked
  by_cases some_char : text = []
  · subst some_char
    rfl
  have none_marked : ∀ m ∈ markLiterals .script none {} text, m.1 ≠ '\n' :=
    (forall_mem_pieces (p := (· ≠ '\n'))).1 fun l hl c hc feed => steady.oneLine l hl (feed ▸ hc)
  obtain ⟨ls, ls', whole, each, indented⟩ := exists_relines indent some_char steady.blank
  obtain ⟨cells', masked', -⟩ := mask_indentLines is_indent some_char steady.blank masked
  obtain ⟨t', read', -⟩ := exists_quotes_feed masked'
  -- A line feed may be missing behind the last line.
  obtain ⟨t, read⟩ : ∃ t, Quotes .script none {} (joinLines ls) (markLiterals .script none {} text) t := by
    rcases whole with whole | whole
    · obtain ⟨t, read, -⟩ := exists_scans_of_mask masked isDull_none
      exact ⟨t, whole ▸ read⟩
    · obtain ⟨t, read, -⟩ := exists_quotes_feed masked
      exact ⟨t, whole ▸ read⟩
  obtain ⟨cells, lines_read⟩ := read.scans
  rw [← read.marks_eq] at none_marked
  have same := markLiterals_relines is_indent each atLine_start atLine_start (.refl _) rfl lines_read none_marked none
  rw [← indented, read'.marks_eq, read.marks_eq] at same
  exact same

/-! ## Trimmed texts -/

theorem mem_dropReturn (hc : c ∈ l) (letter : isSpace c = false) : c ∈ dropReturn l := by
  unfold dropReturn
  split_ifs with carriage
  · obtain ⟨l, rfl⟩ := List.getLast?_eq_some_iff.1 carriage
    rw [List.dropLast_concat]
    rcases List.mem_append.1 hc with hc | hc
    · exact hc
    · rw [List.mem_singleton.1 hc] at letter
      cases letter
  · exact hc

/-- In front of a letter, white space makes no other line blank. -/
theorem mem_lines_append_left {lead : List Char} (letter : isSpace c = false) (hl : l ∈ lines (c :: text))
    (blank : isBlankList l = true) : l ∈ lines (lead ++ c :: text) := by
  induction lead using lines_induction with
  | nil => exact hl
  | line l₀ rest one ih =>
    rw [List.append_assoc, List.cons_append, lines_append_feed one]
    exact List.mem_cons_of_mem _ ih
  | last lead one =>
    have no_feed : '\n' ≠ c := by
      rintro rfl
      cases letter
    by_cases feed : '\n' ∈ text
    · obtain ⟨first, rest, rfl, one'⟩ := List.eq_append_cons_of_mem feed
      have one' : '\n' ∉ c :: first := by simpa using ⟨no_feed, one'⟩
      have whole : lead ++ c :: (first ++ '\n' :: rest) = (lead ++ c :: first) ++ '\n' :: rest := by simp
      rw [whole, lines_append_feed (by simp only [List.mem_append, not_or]; exact ⟨one, one'⟩)]
      rw [← List.cons_append, lines_append_feed one', List.mem_cons] at hl
      rcases hl with rfl | hl
      · rw [not_isBlankList (mem_dropReturn List.mem_cons_self letter) letter] at blank
        cases blank
      · exact List.mem_cons_of_mem _ hl
    · have one' : '\n' ∉ c :: text := by simpa using ⟨no_feed, feed⟩
      rw [lines_of_no_feed one' (by simp), List.mem_singleton] at hl
      subst hl
      rw [not_isBlankList List.mem_cons_self letter] at blank
      cases blank

/-- Behind a letter, neither does it. -/
theorem mem_lines_append_right {tail : List Char} (ends : ∃ c ∈ text.getLast?, isSpace c = false) (hl : l ∈ lines text)
    (blank : isBlankList l = true) : l ∈ lines (text ++ tail) := by
  induction text using lines_induction with
  | nil => cases hl
  | last l' one some_char =>
    obtain ⟨c, last, letter⟩ := ends
    rw [lines_of_no_feed one some_char, List.mem_singleton] at hl
    subst hl
    rw [not_isBlankList (List.mem_of_getLast? last) letter] at blank
    cases blank
  | line l' rest one ih =>
    obtain ⟨-, ends⟩ := ends_behind_feed ends (by decide)
    rw [List.append_assoc, List.cons_append, lines_append_feed one]
    rw [lines_append_feed one, List.mem_cons] at hl
    rcases hl with rfl | hl
    · exact List.mem_cons_self
    · exact List.mem_cons_of_mem _ (ih ends hl)

/-- A body whose literals indentation keeps: a steady text without white space other than ASCII's at its start. -/
structure IsSteadyBody (body : List Char) : Prop extends IsSteady body where
  start : ∀ c ∈ body.takeWhile isSpace, isAsciiSpace c = true

/-- A script behind white space of ASCII is read as if it stood at the start. -/
theorem exists_quotes_start (space : ∀ c ∈ w, isAsciiSpace c = true) (follow : Option Char) :
    ∃ t, Quotes .script follow {} w [] t ∧ Alike .script {} t := by
  obtain ⟨t, read, is_code, past⟩ := quotes_space follow isCode_start fun c hc => isSpace_of_isAsciiSpace (space c hc)
  refine ⟨t, read, is_code.mode ▸ rfl, is_code.enclosures ▸ rfl, fun _ => ?_⟩
  rw [past]
  have short := slashOpensRegex_space_append (w := w.reverse) (fun c hc => space c (List.mem_reverse.1 hc)) []
  refine samePast_of_bounded isBounded_nil ?_ short.symm
  cases rev : w.reverse with
  | nil => exact isBounded_nil
  | cons c w' =>
    have mem : c ∈ w := List.mem_reverse.1 (rev ▸ List.mem_cons_self)
    obtain ⟨word, dot⟩ := bounded_face (isSpace_of_isAsciiSpace (space c mem))
    exact isBounded_cons word dot _

/-- White space shows no brackets. -/
theorem brackets_of_blank (read : Scans .script follow s w cells t) (blank : IsBlank w) : brackets cells = [] := by
  refine brackets_of_space fun cell hc => ?_
  have space := blank cell.char (read.chars ▸ List.mem_map_of_mem hc)
  unfold Cell.face
  split_ifs
  · exact space
  · rfl

/-- A script behind white space of ASCII has a mask without the white space at its ends, with the same brackets and literals. -/
theorem exists_mask_trim {body : List Char} (masked : mask .script body = .ok cells)
    (start : ∀ c ∈ body.takeWhile isSpace, isAsciiSpace c = true) : ∃ cells', mask .script (trim body) = .ok cells' ∧
      brackets cells' = brackets cells ∧ markLiterals .script none {} (trim body) = markLiterals .script none {} body := by
  obtain ⟨t, read, closed⟩ := maskFrom_eq_ok_iff.1 masked
  rcases exists_trimmed isSpace body with blank | ⟨lead, core, tail, rfl, trimmed⟩
  · rw [trim_of_space blank]
    obtain ⟨u, read', -⟩ := quotes_space none isCode_start blank
    exact ⟨[], rfl, (brackets_of_blank read blank).symm, read'.marks_eq.symm⟩
  · rw [trimmed.trim]
    rw [trimmed.takeWhile] at start
    rw [List.append_assoc] at read
    obtain ⟨c₁, _, v, rfl, first, rest⟩ := scans_append_iff.1 read
    obtain ⟨v', first', alike⟩ := exists_quotes_start start ((core ++ tail).head?.or none)
    obtain ⟨no_marks, rfl⟩ := (Quotes.of_scans first).unique first'
    obtain ⟨u, rest', alike'⟩ := alike.symm.scans rest
    obtain ⟨c₂, c₃, x, rfl, middle, last⟩ := scans_append_iff.1 rest'
    -- Only white space stands behind the core, so nothing is open there.
    have dull : IsDull (tail.head?.or none) := isDull_or trimmed.tail isDull_none
    obtain ⟨reached', opened, -⟩ := scans_reached middle reached_start nofun
    have not_opened : x.mode ≠ .substitutionOpen := fun h => dull.2.2 (opened h)
    obtain ⟨outside, closed'⟩ := scans_blank reached' not_opened trimmed.tail last
    have closed_u := alike'.unterminated? closed
    have reached_u : Reached u := (scans_reached last reached' fun h => absurd h not_opened).1
    have none_marked := (outside (inLiteral_of_closed reached_u closed_u)).2
    have core_read := middle.dull dull isDull_none
    refine ⟨c₂, maskFrom_eq_ok_iff.2 ⟨x, core_read, closed' closed_u⟩, ?_, ?_⟩
    · rw [brackets_append, brackets_append, brackets_of_blank first trimmed.lead, brackets_of_blank last trimmed.tail,
        List.append_nil, List.nil_append]
    · rw [List.append_assoc, first.markLiterals_append, no_marks, List.nil_append, ← alike.markLiterals_eq, middle.markLiterals_append,
        none_marked, List.append_nil, core_read.markLiterals_eq middle]

/-- A line of a trimmed text that is blank is a line of the text. -/
theorem mem_lines_of_mem_lines_trim (hl : l ∈ lines (trim text)) (blank : isBlankList l = true) : l ∈ lines text := by
  rcases exists_trimmed isSpace text with space | ⟨lead, core, tail, rfl, trimmed⟩
  · rw [trim_of_space space] at hl
    cases hl
  · rw [trimmed.trim] at hl
    obtain ⟨c, first, letter⟩ := trimmed.first
    obtain ⟨core, rfl⟩ := List.head?_eq_some_iff.1 first
    rw [List.append_assoc, List.cons_append]
    exact mem_lines_append_left letter (mem_lines_append_right trimmed.last hl blank) blank

/-- A steady body is steady without the white space at its ends, and has the same literals. -/
theorem IsSteadyBody.trim {body : List Char} (steady : IsSteadyBody body) :
    IsSteady (trim body) ∧ markLiterals .script none {} (Text.trim body) = markLiterals .script none {} body := by
  obtain ⟨cells, masked⟩ := steady.masked
  obtain ⟨cells', masked', -, same⟩ := exists_mask_trim masked steady.start
  refine ⟨⟨⟨cells', masked'⟩, ?_, fun l hl blank => steady.blank l (mem_lines_of_mem_lines_trim hl blank) blank⟩, same⟩
  rw [literals, same]
  exact steady.oneLine

end Codewright.Script
