import Codewright.Proofs.Script.Insertion
import Codewright.Proofs.Script.Literals

/-!
# Literals in generated scripts

The body of a function or a method is written between braces, indented once in a function and twice in a class. Its strings,
patterns and templates come out as they are, if no line of it ends within one of them.

* `EndsInCode head` – a text behind which a body is code;
* `exists_quotes_bodyText` – a head with a body has the literals of the head and then those of the body;
* `literals_generated` – the literals of functions and classes that are created, and of methods that are added.
-/

namespace Codewright.Script

open Text Json

variable {text w : List Char} {c : Char} {s t u : MaskState} {follow next : Option Char} {mode : MaskMode}
  {es : List Enclosure} {cells ci : List Cell} {marks marks' : List (Char × Bool)} {unit body : String}

/-! ## Heads -/

/-- The text ends with a space of code. -/
def EndsInCode (text : List Char) : Prop := ∃ cells, mask .script text = .ok (cells ++ [code ' '])

theorem mode_of_shown_space (step : Step s next ' ' true mode es) : mode = .plain := by
  cases step with
  | quote _ is_quote => simp at is_quote
  | code | substitution => rfl
  | within _ _ claimed =>
    unfold stepMode at claimed
    split at claimed <;> (try split_ifs at claimed) <;> cases claimed <;> rfl

/-- Such a text leads to code, whatever follows. -/
theorem EndsInCode.quotes {head : List Char} (ends : EndsInCode head) (follow : Option Char) :
    ∃ t, Quotes .script follow {} head (markLiterals .script none {} head) t ∧ IsCode t := by
  obtain ⟨cells, masked⟩ := ends
  obtain ⟨t, read, closed⟩ := maskFrom_eq_ok_iff.1 masked
  have reached := (scans_reached read reached_start nofun).1
  obtain ⟨v, -, last⟩ := read.split
  have is_code : IsCode t := by
    refine ⟨?_, (reached.closed_cases closed).1⟩
    cases last with
    | cons step rest =>
      cases rest
      exact mode_of_shown_space (maskStep_cases step)
  have everywhere := read.in_front_of is_code.mode is_code.enclosures (by simp) follow
  exact ⟨t, (Quotes.of_scans read).in_front_of everywhere, is_code⟩

/-! ## Bodies -/

/-- A brace of code has no mark. -/
theorem quotes_brace (is_code : IsCode s) (brace : c = '\x7b' ∨ c = '\x7d') (follow : Option Char) :
    ∃ t, Quotes .script follow s [c] [] t ∧ IsCode t ∧ t.past = c :: s.past := by
  have step : maskStep .script s c follow = .ok (true, .plain, []) := by
    rcases brace with rfl | rfl <;> simp [maskStep, is_code.mode, is_code.enclosures, stepCode, openBrace, closeBrace]
  have read : Scans .script follow s [c] [code c] (s.after c true .plain []) := .cons step .nil
  have is_code' : IsCode (s.after c true .plain []) := ⟨rfl, rfl⟩
  refine ⟨_, ⟨⟨_, read⟩, ?_⟩, is_code', rfl⟩
  rw [read.markLiterals_single, markOf, inLiteral_of_isCode is_code, inLiteral_of_isCode is_code']
  rfl

/-- On the line behind an opening brace, a script is read as at the start. -/
theorem exists_quotes_open (is_code : IsCode s) (follow : Option Char) :
    ∃ t, Quotes .script follow s ['\x7b', '\n'] [] t ∧ IsCode t ∧ IsBounded t.past ∧ Alike .script {} t := by
  obtain ⟨t, brace, is_code', past⟩ := quotes_brace is_code (.inl rfl) (some '\n')
  obtain ⟨u, feed, is_code'', past'⟩ := quotes_space follow is_code' (w := ['\n']) (List.all_eq_true.1 rfl)
  have bounded : IsBounded u.past := past' ▸ isBounded_cons rfl (by decide) _
  refine ⟨u, brace.append (b := ['\n']) feed, is_code'', bounded, is_code''.mode ▸ rfl, is_code''.enclosures ▸ rfl, fun _ => ?_⟩
  refine samePast_of_bounded isBounded_nil bounded ?_
  rw [past', past]
  have behind := slashOpensRegex_space_append (w := ['\n']) (List.all_eq_true.1 rfl) ('\x7b' :: s.past)
  exact Eq.symm behind

theorem toList_bodyText_of_blank (blank : trim body.toList = []) : (bodyText unit (some body)).toList = ['\x7b', '\x7d'] := by
  simp [bodyText, trimmed, blank]

theorem toList_bodyText (some_char : trim body.toList ≠ []) : (bodyText unit (some body)).toList =
    ['\x7b', '\n'] ++ (indentLines (trim body.toList) unit.toList ++ (['\n'] ++ ['\x7d'])) := by
  simp [bodyText, trimmed, some_char, braced, indentText]

/-- A head with a body has the literals of the head and then those of the body. -/
theorem exists_quotes_bodyText {head : List Char} (ends : EndsInCode head) (is_indent : IsIndent unit.toList)
    (steady : IsSteadyBody body.toList) (follow : Option Char) : ∃ t, Quotes .script follow {} (head ++ (bodyText unit (some body)).toList)
      (markLiterals .script none {} head ++ markLiterals .script none {} body.toList) t ∧ IsCode t := by
  obtain ⟨steady', same⟩ := steady.trim
  rw [← same]
  by_cases empty : trim body.toList = []
  · rw [toList_bodyText_of_blank empty, empty]
    obtain ⟨t, front, is_code⟩ := ends.quotes (some '\x7b')
    obtain ⟨u, opened, is_code', -⟩ := quotes_brace is_code (.inl rfl) (some '\x7d')
    obtain ⟨v, closed, is_code'', -⟩ := quotes_brace is_code' (.inr rfl) follow
    exact ⟨v, front.append (b := ['\x7b', '\x7d']) (opened.append (b := ['\x7d']) closed), is_code''⟩
  · obtain ⟨cells, masked⟩ := steady'.masked
    obtain ⟨cells', masked', -⟩ := mask_indentLines is_indent.ascii empty steady'.blank masked
    rw [toList_bodyText empty, ← steady'.markLiterals_indentLines is_indent.ascii]
    -- Behind the head and its brace, the indented body is read as alone, and then the closing brace as one of code.
    obtain ⟨t₁, front, is_code₁⟩ := ends.quotes (some '\x7b')
    obtain ⟨t₂, opened, is_code₂, -, alike⟩ := exists_quotes_open is_code₁ _
    obtain ⟨v, inside, -, closed⟩ := exists_scans_of_mask masked' (isDull_of_isSpace (c := '\n') rfl)
    obtain ⟨t₃, inside, alike'⟩ := alike.quotes inside
    obtain ⟨_, read⟩ := inside.scans
    have reached := (scans_reached read (reached_of_isCode is_code₂) fun h => absurd h (not_opened_of_isCode is_code₂)).1
    obtain ⟨t₄, feed, is_code₄, -⟩ := quotes_feed_of_closed reached (alike'.unterminated? closed) (some '\x7d')
    obtain ⟨t₅, brace, is_code₅, -⟩ := quotes_brace is_code₄ (.inr rfl) follow
    have whole := front.append (opened.append (inside.append (feed.append (b := ['\x7d']) brace)))
    refine ⟨t₅, ?_, is_code₅⟩
    simpa only [List.nil_append, List.append_nil] using whole

/-- What a function says before its body. -/
def Function.head (d : Dialect) (f : Function) : String :=
  exportText f.exported f.exportedAsDefault ++ textIf f.isAsync "async " ++ "function " ++ f.name ++ paramsText d f.params ++
    returnText d f.returnType ++ " "

/-- What a method says before its body. -/
def Method.head (d : Dialect) (m : Method) : String :=
  accessText d m.access ++ textIf m.isStatic "static " ++ textIf m.isAsync "async " ++ m.name ++ paramsText d m.params ++
    returnText d m.returnType ++ " "

theorem Function.print_eq (s : Style) (f : Function) : f.print s = f.head s.dialect ++ bodyText s.unit f.body ++ "\n" := rfl

theorem Method.print_eq (s : Style) (m : Method) : m.print s = m.head s.dialect ++ bodyText s.unit m.body := rfl

theorem literals_append (read : Quotes .script none {} text (marks ++ marks') u) (front : Quotes .script follow s w marks t)
    (outside : t.inLiteral = false) : literals .script text = pieces marks ++ pieces marks' := by
  rw [read.literals_eq, pieces_append (front.atEnd outside)]

theorem literals_function {f : Function} {s : Style} (ends : EndsInCode (f.head s.dialect).toList) (is_indent : IsIndent s.unit.toList)
    (steady : IsSteadyBody body.toList) (has_body : f.body = some body) :
    literals .script (f.print s).toList = literals .script (f.head s.dialect).toList ++ literals .script body.toList := by
  obtain ⟨t, front, is_code⟩ := ends.quotes none
  obtain ⟨u, read, is_code'⟩ := exists_quotes_bodyText ends is_indent steady (some '\n')
  obtain ⟨v, feed, -⟩ := quotes_space none is_code' (w := ['\n']) (List.all_eq_true.1 rfl)
  have whole := read.append (b := ['\n']) feed
  rw [List.append_nil] at whole
  rw [Function.print_eq, has_body, String.toList_append, String.toList_append]
  exact literals_append whole front (inLiteral_of_isCode is_code)

theorem literals_method {m : Method} {s : Style} (ends : EndsInCode (m.head s.dialect).toList) (is_indent : IsIndent s.unit.toList)
    (steady : IsSteadyBody body.toList) (has_body : m.body = some body) :
    literals .script (m.print s).toList = literals .script (m.head s.dialect).toList ++ literals .script body.toList := by
  obtain ⟨t, front, is_code⟩ := ends.quotes none
  obtain ⟨u, read, -⟩ := exists_quotes_bodyText ends is_indent steady none
  rw [Method.print_eq, has_body, String.toList_append]
  exact literals_append read front (inLiteral_of_isCode is_code)

/-! ## Members -/

/-- A script that begins as a member does, whose blank lines have no blanks but those of ASCII. -/
structure IsMemberText (text : List Char) : Prop where
  starts : ∃ c ∈ text.head?, startsMember c = true
  masked : ∃ cells, mask .script text = .ok cells
  blank : ∀ l ∈ lines text, isBlankList l = true → ∀ c ∈ l, isAsciiSpace c = true

theorem IsMemberText.isPlainScript {indent : List Char} (member : IsMemberText text) (is_indent : IsIndent indent) :
    ∃ ci, IsPlainScript (indentLines text indent) ci := by
  obtain ⟨cells, masked⟩ := member.masked
  have some_char : text ≠ [] := by
    obtain ⟨c, first, -⟩ := member.starts
    rintro rfl
    cases first
  obtain ⟨ci, masked', -⟩ := mask_indentLines is_indent.ascii some_char member.blank masked
  exact ⟨ci, isPlainScript_indented member.starts is_indent.isBlank masked'⟩

/-- A script that begins plainly has the same literals wherever it stands in code. -/
theorem IsPlainScript.quotes (plain : IsPlainScript text ci) (is_code : IsCode s) (bounded : IsBounded s.past) :
    ∃ t, Quotes .script (some '\n') s text (markLiterals .script none {} text) t ∧ Reached t ∧ t.unterminated? = none := by
  obtain ⟨u, read, closed⟩ := maskFrom_eq_ok_iff.1 plain.mask
  have dull := isDull_of_isSpace (c := '\n') rfl
  have same : SameMode {} s := ⟨by rw [is_code.mode], by rw [is_code.enclosures]⟩
  obtain ⟨t, read', alike, marks⟩ := same.scans bounded (read.dull isDull_none dull) plain.begins
  rw [(read.dull isDull_none dull).markLiterals_eq read] at marks
  have reached := (scans_reached read' (reached_of_isCode is_code) fun h => absurd h (not_opened_of_isCode is_code)).1
  exact ⟨t, ⟨⟨_, read'⟩, marks⟩, reached, alike.unterminated? closed⟩

/-- Scripts that begin plainly, with empty lines between them, have the literals of each. -/
theorem exists_quotes_parts {parts : List (List Char)} (plain : ∀ p ∈ parts, ∃ ci, IsPlainScript p ci) (is_code : IsCode s)
    (bounded : IsBounded s.past) : ∃ t, Quotes .script (some '\n') s (['\n', '\n'].intercalate parts)
      (parts.flatMap (markLiterals .script none {})) t ∧ Reached t ∧ t.unterminated? = none := by
  induction parts generalizing s with
  | nil => exact ⟨s, .nil, reached_of_isCode is_code, is_code.closed⟩
  | cons p parts ih =>
    obtain ⟨⟨ci, here⟩, more⟩ := List.forall_mem_cons.1 plain
    obtain ⟨t, read, reached, closed⟩ := here.quotes is_code bounded
    cases parts with
    | nil => exact ⟨t, by simpa [List.intercalate] using read, reached, closed⟩
    | cons q parts =>
      obtain ⟨u, feed, is_code', past⟩ := quotes_feed_of_closed reached closed (some '\n')
      obtain ⟨v, feed', is_code'', past'⟩ :=
        quotes_space ((['\n', '\n'].intercalate (q :: parts)).head?.or (some '\n')) is_code' (w := ['\n']) (List.all_eq_true.1 rfl)
      have bounded' : IsBounded v.past := past' ▸ isBounded_cons rfl (by decide) _
      obtain ⟨x, rest, reached', closed'⟩ := ih more is_code'' bounded'
      refine ⟨x, ?_, reached', closed'⟩
      rw [List.intercalate_cons_cons]
      have whole := read.append (b := ['\n', '\n'] ++ ['\n', '\n'].intercalate (q :: parts)) ((feed.append (b := ['\n']) feed').append rest)
      simpa using whole

theorem pieces_flatMap {parts : List (List Char)} (masked : ∀ p ∈ parts, ∃ cells, mask .script p = .ok cells) :
    pieces (parts.flatMap (markLiterals .script none {})) = parts.flatMap (literals .script) := by
  induction parts with
  | nil => rfl
  | cons p parts ih =>
    obtain ⟨⟨cells, here⟩, more⟩ := List.forall_mem_cons.1 masked
    obtain ⟨t, read, reached, closed⟩ := exists_scans_of_mask here isDull_none
    rw [List.flatMap_cons, List.flatMap_cons, pieces_append (read.atEnd (inLiteral_of_closed reached closed)), ih more]
    rfl

/-- A class has the literals of its head and then those of its indented parts. -/
theorem literals_class {c : Class} {s : Style} (ends : EndsInCode (c.head s.dialect ++ " ").toList) (is_indent : IsIndent s.unit.toList)
    (members : ∀ part ∈ c.sections s, IsMemberText part.toList) : literals .script (c.print s).toList =
      literals .script (c.head s.dialect ++ " ").toList ++
        (c.sections s).flatMap fun part => literals .script (indentText part s.unit).toList := by
  obtain ⟨t₀, alone, is_code₀⟩ := ends.quotes none
  obtain ⟨t₁, front, is_code₁⟩ := ends.quotes (some '\x7b')
  by_cases empty : c.sections s = []
  · obtain ⟨t₂, opened, is_code₂, -⟩ := quotes_brace is_code₁ (.inl rfl) (some '\x7d')
    obtain ⟨t₃, closed, is_code₃, -⟩ := quotes_brace is_code₂ (.inr rfl) (some '\n')
    obtain ⟨t₄, feed, -⟩ := quotes_space none is_code₃ (w := ['\n']) (List.all_eq_true.1 rfl)
    have whole := front.append (opened.append (closed.append (b := ['\n']) feed))
    have text : (c.print s).toList = (c.head s.dialect ++ " ").toList ++ (['\x7b'] ++ (['\x7d'] ++ ['\n'])) := by
      simp [Class.print, empty]
    rw [text, empty]
    exact literals_append whole alone (inLiteral_of_isCode is_code₀)
  · have plain : ∀ p ∈ (c.sections s).map fun part => (indentText part s.unit).toList, ∃ ci, IsPlainScript p ci := by
      refine List.forall_mem_map.2 fun part hp => ?_
      rw [indentText, String.toList_ofList]
      exact (members part hp).isPlainScript is_indent
    have text : (c.print s).toList = (c.head s.dialect ++ " ").toList ++ (['\x7b', '\n'] ++
        (['\n', '\n'].intercalate ((c.sections s).map fun part => (indentText part s.unit).toList) ++
          (['\n'] ++ (['\x7d'] ++ ['\n'])))) := by
      simp [Class.print, empty, String.toList_intercalate, Function.comp_def]
    rw [text, ← List.flatMap_map]
    generalize (c.sections s).map (fun part => (indentText part s.unit).toList) = parts at *
    obtain ⟨t₂, opened, is_code₂, bounded, -⟩ := exists_quotes_open is_code₁ _
    obtain ⟨t₃, inside, reached, closed⟩ := exists_quotes_parts plain is_code₂ bounded
    obtain ⟨t₄, feed, is_code₄, -⟩ := quotes_feed_of_closed reached closed (some '\x7d')
    obtain ⟨t₅, brace, is_code₅, -⟩ := quotes_brace is_code₄ (.inr rfl) (some '\n')
    obtain ⟨t₆, feed', -⟩ := quotes_space none is_code₅ (w := ['\n']) (List.all_eq_true.1 rfl)
    have whole := front.append (opened.append (inside.append (feed.append (brace.append (b := ['\n']) feed'))))
    rw [List.nil_append, List.nil_append, List.nil_append, List.append_nil] at whole
    rw [literals_append whole alone (inLiteral_of_isCode is_code₀), pieces_flatMap fun p hp => (plain p hp).imp fun _ h => h.mask]
    rfl

/-! ## Methods -/

/-- The blank lines of an indented text are empty. -/
theorem eq_nil_of_mem_lines_indentLines {indent tail l : List Char} (indent_line : '\n' ∉ indent)
    (hl : l ∈ lines (indentLines text indent ++ '\n' :: tail)) (blank : isBlankList l = true) : l = [] ∨ l ∈ lines tail := by
  have one_line {l : List Char} (one : '\n' ∉ l) : '\n' ∉ indentLine indent l := by
    unfold indentLine
    split_ifs
    · exact List.not_mem_nil
    · exact fun feed => (List.mem_append.1 feed).elim indent_line one
  -- A line that is not blank has a letter when it is indented.
  have here {l' : List Char} (hl : l = dropReturn (indentLine indent l')) : l = [] := by
    unfold indentLine at hl
    split_ifs at hl with blank_line
    · exact hl
    · obtain ⟨c, hc, letter⟩ : ∃ c ∈ l', isSpace c = false := by simpa [isBlankList] using blank_line
      rw [hl, not_isBlankList (mem_dropReturn (List.mem_append_right _ hc) letter) letter] at blank
      cases blank
  have first {l' rest : List Char} (one : '\n' ∉ l') (hl : l ∈ lines (indentLine indent l' ++ '\n' :: rest)) :
      l = [] ∨ l ∈ lines rest := by
    rw [lines_append_feed (one_line one), List.mem_cons] at hl
    exact hl.imp_left here
  have one_dropped {l' : List Char} (one : '\n' ∉ l') : '\n' ∉ dropReturn l' := by
    unfold dropReturn
    split_ifs
    · exact fun feed => one (List.dropLast_subset _ feed)
    · exact one
  induction text using lines_induction with
  | nil => exact first (List.not_mem_nil : '\n' ∉ []) hl
  | last l' one some_char =>
    rw [indentLines_of_no_feed one some_char] at hl
    exact first one hl
  | line l' rest one ih =>
    by_cases more : rest = []
    · subst more
      have alone : indentLines (l' ++ ['\n']) indent = indentLine indent (dropReturn l') := by
        rw [indentLines, lines_append_feed one]
        simp [lines, linesWithEnds, List.intercalate, indentLine]
      rw [alone] at hl
      exact first (one_dropped one) hl
    · rw [indentLines_append_feed one more, List.append_assoc, List.cons_append] at hl
      exact (first (one_dropped one) hl).elim .inl ih

/-- A method whose text before its body is one line of code that begins as a member does. -/
structure Method.IsPlain (d : Dialect) (m : Method) : Prop where
  starts : ∃ c ∈ (m.head d).toList.head?, startsMember c = true
  oneLine : '\n' ∉ (m.head d).toList
  endsInCode : EndsInCode (m.head d).toList

theorem exists_letter_of_starts (starts : ∃ c ∈ text.head?, startsMember c = true) :
    ∃ c more, text = c :: more ∧ isSpace c = false := by
  obtain ⟨c, first, starts⟩ := starts
  obtain ⟨more, rfl⟩ := List.head?_eq_some_iff.1 first
  exact ⟨c, more, rfl, isSpace_of_startsMember starts⟩

/-- A plain method with a steady body is written as a member, no line of which ends within a literal. -/
theorem Method.IsPlain.print {s : Style} {m : Method} (plain : m.IsPlain s.dialect) (is_indent : IsIndent s.unit.toList)
    (steady : IsSteadyBody body.toList) (has_body : m.body = some body) :
    IsMemberText (m.print s).toList ∧ IsSteady (m.print s).toList := by
  obtain ⟨c, more, head_eq, letter⟩ := exists_letter_of_starts plain.starts
  have text : (m.print s).toList = (m.head s.dialect).toList ++ (bodyText s.unit (some body)).toList := by
    rw [Method.print_eq, has_body, String.toList_append]
  obtain ⟨t, read, is_code⟩ := exists_quotes_bodyText plain.endsInCode is_indent steady none
  rw [← text] at read
  obtain ⟨cells, scanned⟩ := read.scans
  have masked : ∃ cells, mask .script (m.print s).toList = .ok cells := ⟨cells, maskFrom_eq_ok_iff.2 ⟨t, scanned, is_code.closed⟩⟩
  have blank : ∀ l ∈ lines (m.print s).toList, isBlankList l = true → ∀ c ∈ l, isAsciiSpace c = true := by
    intro l hl blank_line
    -- The first line has a letter, and the last one a brace; what is between is indented.
    have letter_here : c ∈ (m.head s.dialect).toList := head_eq ▸ List.mem_cons_self
    have feed_here {w : List Char} (one : '\n' ∉ w) : '\n' ∉ (m.head s.dialect).toList ++ w :=
      fun feed => (List.mem_append.1 feed).elim plain.oneLine one
    have contra {d : Char} (hd : d ∈ l) (letter : isSpace d = false) : False := by
      rw [not_isBlankList hd letter] at blank_line
      cases blank_line
    rw [text] at hl
    by_cases empty : trim body.toList = []
    · rw [toList_bodyText_of_blank empty, lines_of_no_feed (feed_here (by decide)) (by simp), List.mem_singleton] at hl
      exact (contra (hl ▸ List.mem_append_left _ letter_here) letter).elim
    · have cut : (m.head s.dialect).toList ++ (bodyText s.unit (some body)).toList = ((m.head s.dialect).toList ++ ['\x7b']) ++
          '\n' :: (indentLines (trim body.toList) s.unit.toList ++ '\n' :: ['\x7d']) := by simp [toList_bodyText empty]
      rw [cut, lines_append_feed (feed_here (by decide)), List.mem_cons] at hl
      rcases hl with hl | hl
      · exact (contra (hl ▸ mem_dropReturn (List.mem_append_left _ letter_here) letter) letter).elim
      · rcases eq_nil_of_mem_lines_indentLines (fun feed => (is_indent.ascii _ feed).2 rfl) hl blank_line with rfl | hl
        · exact nofun
        · rw [lines_of_no_feed (by decide) (by simp), List.mem_singleton] at hl
          exact (contra (hl ▸ List.mem_singleton_self _) (d := '\x7d') rfl).elim
  refine ⟨⟨?_, masked, blank⟩, masked, ?_, blank⟩
  · obtain ⟨c, first, starts⟩ := plain.starts
    refine ⟨c, ?_, starts⟩
    rw [text, List.head?_append, first]
    rfl
  · rw [literals_method plain.endsInCode is_indent steady has_body]
    intro l hl
    rcases List.mem_append.1 hl with hl | hl
    · exact fun feed => plain.oneLine (mem_of_mem_literals hl feed)
    · exact steady.oneLine l hl

/-! ## Insertion -/

/-- What is put into a gap keeps its literals. -/
theorem Gap.exists_literals {source inserted lead x : List Char} {a b : List Cell} (gap : Gap source a w b) (blank : IsBlank lead)
    (ends : (chars a ++ lead).getLast? = some '\n') (plain : IsPlainScript inserted ci) (blank' : IsBlank x) :
    ∃ l r, literals .script (chars a ++ lead ++ (inserted ++ ('\n' :: x ++ chars b))) = l ++ (literals .script inserted ++ r) := by
  obtain ⟨s, front, is_code⟩ := gap.front
  have first : (inserted ++ ('\n' :: x ++ chars b)).head? = inserted.head? := List.head?_append_of_ne_nil _ plain.some_char
  have dull : IsDull (lead.head?.or ((inserted ++ ('\n' :: x ++ chars b)).head?.or none)) :=
    isDull_or blank (by rw [first, Option.or_none]; exact plain.dull)
  obtain ⟨t, seam, is_code', -⟩ := quotes_space ((inserted ++ ('\n' :: x ++ chars b)).head?.or none) is_code blank
  have left := ((Quotes.of_scans front).dull isDull_none dull).append seam
  have bounded : IsBounded t.past := by
    obtain ⟨_, read⟩ := left.scans
    exact isBounded_of_feed read ends
  obtain ⟨u, middle, reached, closed⟩ := plain.quotes is_code' bounded
  obtain ⟨v, right, -⟩ := gap.scans_behind reached closed blank'
  have whole := left.append (middle.append (Quotes.of_scans right))
  have same := whole.literals_eq
  rw [pieces_append (left.atEnd (inLiteral_of_isCode is_code')), pieces_append (middle.atEnd (inLiteral_of_closed reached closed))] at same
  exact ⟨_, _, same⟩

/-- A method that is added to a class in code keeps its literals. -/
theorem exists_literals_addMethod {s s' : Style} {source : String} {o : MethodAddition} {block : Block}
    (masked : mask .script source.toList = .ok cells)
    (found : findBlock ((Reading.ofText source.toList).blocks Shape.cls) o.cls "class" = .ok block)
    (outside : ∃ cells, mask .script (source.toList.take block.opening) = .ok cells) (is_indent : IsIndent s'.unit.toList)
    (style : s' = { s with unit := unitIn source.toList block s.unit })
    (member : IsMemberText (o.method.print s').toList) (steady : IsSteady (o.method.print s').toList) :
    ∃ result l r, addMethod s source o = .ok result ∧
      literals .script result.toList = l ++ (literals .script (o.method.print s').toList ++ r) := by
  have is_found : IsFound source.toList block := ⟨Shape.cls, rfl, mem_of_findBlock found⟩
  obtain ⟨front, body, back, rfl, opening, closing, nests⟩ := exists_block is_found masked
  obtain ⟨outer, outside⟩ := outside
  rw [opening] at outside
  have indent : IsIndent (lineIndent source.toList front.length ++ s'.unit.toList) :=
    List.forall_mem_append.2 ⟨isIndent_indentOf _, is_indent⟩
  obtain ⟨a, w, b, lead, x, gap, blank_lead, seam, blank, result⟩ :=
    exists_gap_insertLast (o.method.print s').toList s'.unit.toList masked nests outside
  obtain ⟨ci, plain⟩ := member.isPlainScript indent
  obtain ⟨l, r, same⟩ := gap.exists_literals blank_lead seam plain blank
  rw [← result, ← closing, ← opening] at same
  rw [← opening] at indent
  refine ⟨.ofList (insertLast source.toList block.opening block.closing (o.method.print s').toList s'.unit.toList true), l, r, ?_, ?_⟩
  · subst style
    unfold addMethod
    dsimp only [bind, Except.bind]
    rw [found]
    rfl
  · rw [String.toList_ofList, same, literals, steady.markLiterals_indentLines indent.ascii]
    rfl

/-! ## Generated scripts -/

/-- The body of a function or a method, no line of which ends within a literal, comes out with its literals: in a function and in a class
that are created, and in a method that is added to a class. -/
theorem literals_generated (settings : Settings) (d : Dialect) (steady : IsSteadyBody body.toList) :
    (∀ f : Function, f.body = some body → EndsInCode (f.head d).toList → literals .script (f.print ⟨d, settings.unit⟩).toList =
        literals .script (f.head d).toList ++ literals .script body.toList) ∧
      (∀ c : Class, ∀ m ∈ c.methods, m.body = some body → m.IsPlain d → EndsInCode (c.head d ++ " ").toList →
        (∀ part ∈ c.sections ⟨d, settings.unit⟩, IsMemberText part.toList) →
        literals .script body.toList <:+: literals .script (c.print ⟨d, settings.unit⟩).toList) ∧
      ∀ (source : String) (o : MethodAddition) (block : Block), isValid source = true → o.method.body = some body → o.method.IsPlain d →
        findBlock ((Reading.ofText source.toList).blocks Shape.cls) o.cls "class" = .ok block →
        (∃ cells, mask .script (source.toList.take block.opening) = .ok cells) →
        ∃ result, addMethod ⟨d, settings.unit⟩ source o = .ok result ∧
          literals .script body.toList <:+: literals .script result.toList := by
  have is_indent : IsIndent settings.unit.toList := isIndent_unit settings
  refine ⟨fun f has_body ends => literals_function ends is_indent steady has_body,
    fun c m hm has_body plain ends members => ?_, fun source o block valid has_body plain found outside => ?_⟩
  · obtain ⟨-, steady'⟩ := plain.print (s := ⟨d, settings.unit⟩) is_indent steady has_body
    obtain ⟨before, after, cut⟩ : ∃ before after, c.sections ⟨d, settings.unit⟩ = before ++ m.print ⟨d, settings.unit⟩ :: after :=
      List.append_of_mem (List.mem_append_right _ (List.mem_map_of_mem hm))
    rw [literals_class (s := ⟨d, settings.unit⟩) ends is_indent members, cut, List.flatMap_append, List.flatMap_cons]
    have same : literals .script (indentText (m.print ⟨d, settings.unit⟩) settings.unit).toList =
        literals .script (m.head d).toList ++ literals .script body.toList := by
      rw [indentText, String.toList_ofList, literals, steady'.markLiterals_indentLines is_indent.ascii]
      exact literals_method (s := ⟨d, settings.unit⟩) plain.endsInCode is_indent steady has_body
    rw [same]
    exact ((List.suffix_append _ _).isInfix.trans (List.infix_append' _ _ _)).trans (List.suffix_append _ _).isInfix
  · rw [← String.ofList_toList (s := source)] at valid
    obtain ⟨cells, masked, -⟩ := exists_of_isValid valid
    obtain ⟨s, style⟩ : ∃ s : Style, s = ⟨d, unitIn source.toList block settings.unit⟩ := ⟨_, rfl⟩
    have is_indent' : IsIndent s.unit.toList := by
      rw [style]
      exact isIndent_unitIn _ _ is_indent
    have plain' : o.method.IsPlain s.dialect := by rwa [style]
    obtain ⟨member, steady'⟩ := plain'.print is_indent' steady has_body
    obtain ⟨result, l, r, added, same⟩ :=
      exists_literals_addMethod (s := ⟨d, settings.unit⟩) masked found outside is_indent' style member steady'
    refine ⟨result, added, ?_⟩
    rw [same, literals_method plain'.endsInCode is_indent' steady has_body]
    exact (List.suffix_append _ _).isInfix.trans (List.infix_append' _ _ _)

/-- A body with a template, a pattern with a quote in it, and a string with an escaped quote, on two lines. -/
theorem literals_generated_body :
    literals .script "if (x) return \x60a$\x7bx\x7d\x60;\nreturn /'/.test('\\'');".toList =
        ["\x60a$\x7b".toList, "\x7d\x60".toList, "/'/".toList, "'\\''".toList] ∧
      literals .script (Function.print ⟨.javascript, Settings.unit {}⟩
        { name := "f", body := some "if (x) return \x60a$\x7bx\x7d\x60;\nreturn /'/.test('\\'');" }).toList =
        literals .script "export function f() ".toList ++
          literals .script "if (x) return \x60a$\x7bx\x7d\x60;\nreturn /'/.test('\\'');".toList ∧
      literals .script "if (x) return \x60a$\x7bx\x7d\x60;\nreturn /'/.test('\\'');".toList <:+:
        literals .script (Class.print ⟨.javascript, Settings.unit {}⟩ { name := "C", methods :=
          [{ name := "m", body := some "if (x) return \x60a$\x7bx\x7d\x60;\nreturn /'/.test('\\'');" }] }).toList ∧
      ∃ result, addMethod ⟨.javascript, Settings.unit {}⟩ "class A \x7b\n\x7d\n"
          ⟨none, { name := "m", body := some "if (x) return \x60a$\x7bx\x7d\x60;\nreturn /'/.test('\\'');" }⟩ = .ok result ∧
        literals .script "if (x) return \x60a$\x7bx\x7d\x60;\nreturn /'/.test('\\'');".toList <:+: literals .script result.toList := by
  have steady : IsSteadyBody "if (x) return \x60a$\x7bx\x7d\x60;\nreturn /'/.test('\\'');".toList :=
    ⟨⟨⟨_, rfl⟩, by decide +kernel, by decide +kernel⟩, List.all_eq_true.1 (by decide +kernel)⟩
  obtain ⟨function, cls, added⟩ := literals_generated {} .javascript steady
  have plain : Method.IsPlain .javascript
      { name := "m", body := some "if (x) return \x60a$\x7bx\x7d\x60;\nreturn /'/.test('\\'');" } :=
    ⟨⟨'m', by decide +kernel, by decide +kernel⟩, by decide +kernel, ⟨"m()".toList.map code, by decide +kernel⟩⟩
  refine ⟨by decide +kernel, function _ rfl ⟨"export function f()".toList.map code, by decide +kernel⟩, ?_, ?_⟩
  · refine cls _ _ (List.mem_singleton_self _) rfl plain ⟨"export class C".toList.map code, by decide +kernel⟩ ?_
    exact List.forall_mem_singleton.2 (plain.print (s := ⟨.javascript, Settings.unit {}⟩) (isIndent_unit {}) steady rfl).1
  · exact added "class A \x7b\n\x7d\n" ⟨none, _⟩ ⟨"A", 8, 10⟩ (by decide +kernel) rfl plain (by decide +kernel) ⟨_, rfl⟩

/-- Indentation goes into a template that goes on on the next line. -/
theorem not_literals_generated : ¬∀ (settings : Settings) (d : Dialect) (f : Function) (body : String), isValid body = true →
    f.body = some body → literals .script body.toList <:+: literals .script (f.print ⟨d, settings.unit⟩).toList := by
  intro claim
  have cut := claim {} .javascript { name := "f", body := some "return \x60a\nb\x60;" } _ (by decide +kernel) rfl
  revert cut
  decide +kernel

end Codewright.Script
