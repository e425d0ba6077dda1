import Codewright.Proofs.Script.Mask
import Codewright.Proofs.Text.Indent

/-!
# Indentation of scripts

White space at the start of a line changes nothing in the mask of a script but itself, wherever the line stands: in code, in
a template, in a comment, or behind a backslash at the end of the line before.

* `AtLine s` – a state behind a line feed;
* `Reline indent l l'` – a line and what indentation makes of it;
* `mask_indentLines` – an indented script has a mask with the same brackets.
-/

namespace Codewright.Script

open Text

variable {indent l l' w text : List Char} {c : Char} {s s' t : MaskState} {follow : Option Char} {shown : Bool}
  {mode : MaskMode} {es : List Enclosure} {cells : List Cell} {ls ls' : List (List Char)}

/-! ## Behind a line feed -/

/-- A mode in which a line can begin. -/
inductive LineMode : MaskMode → Prop
  | plain : LineMode .plain
  | string {quote : Char} {start : Nat} (is_quote : quote = '\'' ∨ quote = '"') : LineMode (.string quote start)
  | regex {inClass : Bool} {start : Nat} : LineMode (.regex inClass start)
  | comment {start : Nat} : LineMode (.comment false start)

/-- A state in which a line can begin. -/
structure AtLine (s : MaskState) : Prop where
  reached : Reached s
  mode : LineMode s.mode
  bounded : IsBounded s.past

theorem atLine_start : AtLine {} := ⟨reached_start, .plain, isBounded_nil⟩

theorem lineMode_feed (fits : Fits mode es) (not_plain : mode ≠ .plain) (not_opened : mode ≠ .substitutionOpen)
    {mode' : MaskMode} (claimed : stepMode mode '\n' = .ok (shown, mode')) : LineMode mode' := by
  cases fits with
  | plain => exact absurd rfl not_plain
  | substitutionOpen => exact absurd rfl not_opened
  | string | regex => cases claimed
  | commentOpen | comment =>
    cases claimed
    exact .comment
  | lineComment | escapedTemplate =>
    cases claimed
    exact .plain
  | escapedString is_quote =>
    cases claimed
    exact .string is_quote
  | escapedRegex =>
    cases claimed
    exact .regex

/-- Behind a line feed, a line can begin. -/
theorem atLine_feed (reached : Reached s) (not_opened : s.mode ≠ .substitutionOpen)
    (step : maskStep .script s '\n' follow = .ok (shown, mode, es)) : AtLine (s.after '\n' shown mode es) := by
  have stepped := maskStep_cases step
  obtain ⟨⟨fits, alternate⟩, -⟩ := stepped.reached reached fun h => absurd h not_opened
  have line : LineMode mode := by
    cases stepped with
    | templateText => exact .plain
    | quote _ is_quote => simp at is_quote
    | code => exact .plain
    | substitution opened => exact absurd opened not_opened
    | within not_plain _ claimed => exact lineMode_feed reached.mode not_plain not_opened claimed
  have face : (Cell.mk '\n' shown).face = '\n' := by cases shown <;> rfl
  refine ⟨⟨fits, alternate⟩, line, ?_⟩
  change IsBounded ((Cell.mk '\n' shown).face :: s.past)
  rw [face]
  exact isBounded_cons rfl (by decide) _

/-- White space at the start of a line leaves the mode as it is. -/
theorem AtLine.step_space (at_line : AtLine s) (space : isAsciiSpace c = true) (no_feed : c ≠ '\n') (next : Option Char) :
    ∃ shown, maskStep .script s c next = .ok (shown, s.mode, s.enclosures) := by
  have ne {d : Char} (letter : isSpace d = false) : c ≠ d := by
    rintro rfl
    rw [isSpace_of_isAsciiSpace space] at letter
    cases letter
  have line := at_line.mode
  unfold maskStep
  cases at_ : s.mode <;> rw [at_] at line <;> cases line
  case plain.plain =>
    dsimp only
    split_ifs
    · exact ⟨false, by simp [stepTemplate, ne (d := '\x60') rfl, ne (d := '$') rfl, ne (d := '\\') rfl]⟩
    · exact ⟨true, by simp [stepCode, ne (d := '\'') rfl, ne (d := '"') rfl, ne (d := '/') rfl, ne (d := '\x60') rfl,
        ne (d := '\x7b') rfl, ne (d := '\x7d') rfl]⟩
  case string.string quote start is_quote =>
    have not_quote : c ≠ quote := by rcases is_quote with rfl | rfl <;> exact ne rfl
    exact ⟨false, by simp [stepMode, Except.map, no_feed, not_quote, ne (d := '\\') rfl]⟩
  case regex.regex =>
    exact ⟨false, by simp [stepMode, Except.map, no_feed, ne (d := '/') rfl, ne (d := '\\') rfl, ne (d := '[') rfl,
      ne (d := ']') rfl]⟩
  case comment.comment => exact ⟨false, by simp [stepMode, Except.map, ne (d := '*') rfl]⟩

/-- White space at the start of a line leaves the state alike. -/
theorem AtLine.scans_space (follow : Option Char) (at_line : AtLine s) (space : ∀ c ∈ w, isAsciiSpace c = true) (no_feed : '\n' ∉ w) :
    ∃ cells t, Scans .script follow s w cells t ∧ Alike .script s t ∧ AtLine t ∧ brackets cells = [] := by
  induction w generalizing s with
  | nil => exact ⟨[], s, .nil, .refl s, at_line, rfl⟩
  | cons c w ih =>
    rw [List.forall_mem_cons] at space
    rw [List.mem_cons, not_or] at no_feed
    have no_feed' : c ≠ '\n' := Ne.symm no_feed.1
    obtain ⟨shown, step⟩ := at_line.step_space space.1 no_feed' (w.head?.or follow)
    have face : isAsciiSpace (Cell.mk c shown).face = true := by
      cases shown with
      | true => exact space.1
      | false => simp [Cell.face, no_feed', isAsciiSpace]
    obtain ⟨word, dot⟩ := bounded_face (isSpace_of_isAsciiSpace face)
    have bounded : IsBounded ((Cell.mk c shown).face :: s.past) := isBounded_cons word dot s.past
    have behind : AtLine (s.after c shown s.mode s.enclosures) := ⟨⟨at_line.reached.mode, at_line.reached.alternate⟩, at_line.mode, bounded⟩
    have alike : Alike .script s (s.after c shown s.mode s.enclosures) := by
      refine ⟨rfl, rfl, fun _ => samePast_of_bounded at_line.bounded bounded ?_⟩
      exact (slashOpensRegex_space_append (w := [_]) (by simpa using face) s.past).symm
    obtain ⟨cells, t, read, alike', at_line', none⟩ := ih behind space.2 no_feed.2
    refine ⟨_, t, .cons step read, alike.trans alike', at_line', ?_⟩
    rw [← List.singleton_append, brackets_append, none, brackets_of_space (by simp [isSpace_of_isAsciiSpace face])]
    rfl

/-- A carriage return in front of a line feed changes nothing. -/
theorem maskStep_return {v : MaskState} {shown₁ shown₂ : Bool} {mode₁ mode₂ : MaskMode} {es₁ es₂ : List Enclosure}
    (reached : Reached v) (not_opened : v.mode ≠ .substitutionOpen)
    (first : maskStep .script v '\r' (some '\n') = .ok (shown₁, mode₁, es₁))
    (second : maskStep .script (v.after '\r' shown₁ mode₁ es₁) '\n' follow = .ok (shown₂, mode₂, es₂)) (next : Option Char) :
    ∃ shown mode, maskStep .script v '\n' next = .ok (shown, mode, es₂) ∧ mode.unplaced = mode₂.unplaced := by
  obtain ⟨fits, -⟩ := reached
  obtain ⟨mode, es, past, byte, backtick⟩ := v
  change Fits mode es at fits
  cases fits with
  | substitutionOpen => exact absurd rfl not_opened
  | plain =>
    by_cases inside : es.head? = some .template
    · simp only [maskStep, inside, if_true] at first
      cases first
      simp only [maskStep, MaskState.after, inside, if_true] at second
      cases second
      exact ⟨false, .plain, by simp [maskStep, inside, stepTemplate], rfl⟩
    · simp only [maskStep, inside, if_false] at first
      cases first
      simp only [maskStep, MaskState.after, inside, if_false] at second
      cases second
      exact ⟨true, .plain, by simp [maskStep, inside, stepCode], rfl⟩
  | string is_quote =>
    rcases is_quote with rfl | rfl
    · cases first
      cases second
    · cases first
      cases second
  | regex | escapedString | escapedRegex =>
    cases first
    cases second
  | commentOpen | comment | escapedTemplate =>
    cases first
    cases second
    exact ⟨false, _, rfl, rfl⟩
  | lineComment =>
    cases first
    cases second
    exact ⟨true, _, rfl, rfl⟩

/-! ## Lines -/

/-- A line, and what it is in an indented text: blank lines are empty there, and a carriage return at the end is gone. -/
inductive Reline (indent : List Char) : List Char → List Char → Prop
  | blank {l : List Char} (one : '\n' ∉ l) (space : ∀ c ∈ l, isAsciiSpace c = true) : Reline indent l []
  | indented {l : List Char} (one : '\n' ∉ l) : Reline indent l (indent ++ l)
  | returned {l : List Char} (one : '\n' ∉ l) : Reline indent (l ++ ['\r']) (indent ++ l)

theorem brackets_feed (shown : Bool) : brackets [⟨'\n', shown⟩] = [] := by cases shown <;> rfl

/-- What a reading up to the end of a line is made of. -/
theorem exists_feed (reached : Reached s) (not_opened : s.mode ≠ .substitutionOpen) {more : List Char}
    (read : Scans .script follow s (l ++ '\n' :: more) cells t) : ∃ cl v shown mode es cm,
      cells = cl ++ ⟨'\n', shown⟩ :: cm ∧ Scans .script (some '\n') s l cl v ∧ Reached v ∧ v.mode ≠ .substitutionOpen ∧
      maskStep .script v '\n' (more.head?.or follow) = .ok (shown, mode, es) ∧
      Scans .script follow (v.after '\n' shown mode es) more cm t := by
  obtain ⟨cl, _, v, rfl, front, behind⟩ := scans_append_iff.1 read
  cases behind with
  | cons step rest =>
    obtain ⟨reached', opened, -⟩ := scans_reached front reached fun h => absurd h not_opened
    exact ⟨cl, v, _, _, _, _, rfl, front, reached', fun h => absurd (opened h) (by simp), step, rest⟩

theorem maskStep_feed (s : MaskState) (next next' : Option Char) :
    maskStep .script s '\n' next = maskStep .script s '\n' next' := by
  simp [maskStep, stepTemplate, stepCode]

theorem AtLine.not_opened (at_line : AtLine s) : s.mode ≠ .substitutionOpen := by
  intro opened
  have line := at_line.mode
  rw [opened] at line
  cases line

/-- A line feed is read alike from a state that is alike. -/
theorem scans_feed {v v' : MaskState} (alike : Alike .script v v') (reached : Reached v') (not_opened : v'.mode ≠ .substitutionOpen)
    (step : maskStep .script v '\n' follow = .ok (shown, mode, es)) (follow' : Option Char) :
    ∃ t', Scans .script follow' v' ['\n'] [⟨'\n', shown⟩] t' ∧ AtLine t' ∧ Alike .script (v.after '\n' shown mode es) t' := by
  rw [maskStep_feed v _ follow'] at step
  have single : Scans .script follow' v ['\n'] [⟨'\n', shown⟩] (v.after '\n' shown mode es) := .cons step .nil
  obtain ⟨t', read', alike'⟩ := alike.scans single
  refine ⟨t', read', ?_, alike'⟩
  cases read' with
  | cons step' rest' =>
    cases rest'
    exact atLine_feed reached not_opened step'

/-- A text behind an indentation is read alike. -/
theorem scans_indent (is_indent : ∀ c ∈ indent, isAsciiSpace c = true ∧ c ≠ '\n') (at_line' : AtLine s')
    (alike : Alike .script s s') (read : Scans .script follow s l cells t)
    (no_brace : follow ≠ some '\x7b') : ∃ cells' t', Scans .script follow s' (indent ++ l) cells' t' ∧ Alike .script t t' ∧
      Reached t' ∧ t'.mode ≠ .substitutionOpen ∧ brackets cells' = brackets cells := by
  obtain ⟨ci, s'', indent_read, alike', at_line'', none⟩ := at_line'.scans_space (l.head?.or follow)
    (fun c hc => (is_indent c hc).1) (fun feed => (is_indent '\n' feed).2 rfl)
  obtain ⟨t', read', alike''⟩ := (alike.trans alike').scans read
  obtain ⟨reached, opened, -⟩ := scans_reached read' at_line''.reached fun h => absurd h at_line''.not_opened
  refine ⟨ci ++ cells, t', indent_read.append read', alike'', reached, fun h => no_brace (opened h), ?_⟩
  rw [brackets_append, none, List.nil_append]

/-- A line that is indented is read with the same brackets, and leaves the state alike. -/
theorem scans_reline (is_indent : ∀ c ∈ indent, isAsciiSpace c = true ∧ c ≠ '\n') (line : Reline indent l l')
    (at_line : AtLine s) (at_line' : AtLine s') (alike : Alike .script s s')
    (read : Scans .script follow s (l ++ ['\n']) cells t) (follow' : Option Char) :
    AtLine t ∧ ∃ cells' t', Scans .script follow' s' (l' ++ ['\n']) cells' t' ∧ AtLine t' ∧ Alike .script t t' ∧
      brackets cells' = brackets cells := by
  obtain ⟨cl, v, shown, mode, es, cm, rfl, front, reached, not_opened, step, rest⟩ :=
    exists_feed at_line.reached at_line.not_opened read
  cases rest
  refine ⟨atLine_feed reached not_opened step, ?_⟩
  cases line with
  | blank one space =>
    obtain ⟨cells', v', front', alike', -, none⟩ := at_line.scans_space (some '\n') space one
    obtain ⟨rfl, rfl⟩ := front.unique front'
    obtain ⟨t', read', at_line'', alike''⟩ := scans_feed (alike'.symm.trans alike) at_line'.reached at_line'.not_opened step follow'
    refine ⟨_, t', read', at_line'', alike'', ?_⟩
    rw [brackets_append, none, List.nil_append]
  | indented one =>
    obtain ⟨cells', v', front', alike', reached', not_opened', same⟩ :=
      scans_indent is_indent at_line' alike front (by simp)
    obtain ⟨t', read', at_line'', alike''⟩ := scans_feed alike' reached' not_opened' step follow'
    refine ⟨_, t', front'.append read', at_line'', alike'', ?_⟩
    rw [brackets_append, brackets_append, same]
  | @returned l one =>
    -- The reading of the line up to the carriage return.
    obtain ⟨c₀, c₁, v₀, rfl, front₀, last⟩ := scans_append_iff.1 front
    have front₀ := front₀.dull (isDull_of_isSpace rfl) (isDull_of_isSpace (c := '\n') rfl)
    cases last with
    | @cons _ _ _ _ shown₁ mode₁ es₁ cells step₁ rest₁ =>
      cases rest₁
      obtain ⟨reached₀, opened₀, -⟩ := scans_reached front₀ at_line.reached fun h => absurd h at_line.not_opened
      have not_opened₀ : v₀.mode ≠ .substitutionOpen := fun h => absurd (opened₀ h) (by simp)
      obtain ⟨shown', mode', step', same_mode⟩ := maskStep_return reached₀ not_opened₀ step₁ step none
      obtain ⟨cells', v', front', alike', reached', not_opened', same⟩ :=
        scans_indent is_indent at_line' alike front₀ (by simp)
      obtain ⟨t', read', at_line'', alike''⟩ := scans_feed alike' reached' not_opened' step' follow'
      have behind : Alike .script ((v₀.after '\r' shown₁ mode₁ es₁).after '\n' shown mode es)
          (v₀.after '\n' shown' mode' es) := by
        refine ⟨same_mode.symm, rfl, fun _ => ?_⟩
        have feed (shown : Bool) : (Cell.mk '\n' shown).face = '\n' := by cases shown <;> rfl
        have carriage : isAsciiSpace (Cell.mk '\r' shown₁).face = true := by cases shown₁ <;> rfl
        change SamePast ((Cell.mk '\n' shown).face :: (Cell.mk '\r' shown₁).face :: v₀.past)
          ((Cell.mk '\n' shown').face :: v₀.past)
        rw [feed, feed]
        refine samePast_of_bounded (isBounded_cons rfl (by decide) _) (isBounded_cons rfl (by decide) _) ?_
        have short := slashOpensRegex_space_append (w := ['\n']) (List.all_eq_true.1 rfl) v₀.past
        have long := slashOpensRegex_space_append (w := ['\n', (Cell.mk '\r' shown₁).face]) (by simpa using ⟨rfl, carriage⟩) v₀.past
        exact long.trans short.symm
      refine ⟨_, t', front'.append read', at_line'', behind.trans alike'', ?_⟩
      have carriage : brackets [⟨'\r', shown₁⟩] = [] := by cases shown₁ <;> rfl
      simp only [brackets_append, same, carriage, brackets_feed, List.append_nil]

/-- Lines that are indented are read with the same brackets, and leave the state alike. -/
theorem scans_relines (is_indent : ∀ c ∈ indent, isAsciiSpace c = true ∧ c ≠ '\n') (lines : List.Forall₂ (Reline indent) ls ls')
    (at_line : AtLine s) (at_line' : AtLine s') (alike : Alike .script s s')
    (read : Scans .script follow s (joinLines ls) cells t) (follow' : Option Char) : AtLine t ∧
    ∃ cells' t', Scans .script follow' s' (joinLines ls') cells' t' ∧ Alike .script t t' ∧ brackets cells' = brackets cells := by
  induction lines generalizing s s' cells with
  | nil =>
    cases read
    exact ⟨at_line, [], s', .nil, alike, rfl⟩
  | @cons l l' ls ls' line _ ih =>
    rw [joinLines_cons, List.append_cons] at read
    obtain ⟨c₁, c₂, v, rfl, here, behind⟩ := scans_append_iff.1 read
    obtain ⟨at_v, c₁', v', here', at_v', alike', same⟩ :=
      scans_reline is_indent line at_line at_line' alike here ((joinLines ls').head?.or follow')
    obtain ⟨at_t, c₂', t', behind', alike'', same'⟩ := ih at_v at_v' alike' behind
    refine ⟨at_t, c₁' ++ c₂', t', ?_, alike'', by rw [brackets_append, brackets_append, same, same']⟩
    rw [joinLines_cons, List.append_cons]
    exact here'.append behind'

/-- The lines of a text, blank ones of which have only ASCII blanks, and those of the indented text. -/
theorem exists_relines (indent : List Char) (some_char : text ≠ []) (blank : ∀ l ∈ lines text, isBlankList l = true → ∀ c ∈ l, isAsciiSpace c = true) :
    ∃ ls ls', (joinLines ls = text ∨ joinLines ls = text ++ ['\n']) ∧ List.Forall₂ (Reline indent) ls ls' ∧
      indentLines text indent ++ ['\n'] = joinLines ls' := by
  have kept {l : List Char} (one : '\n' ∉ l) (blank : isBlankList l = true → ∀ c ∈ l, isAsciiSpace c = true) :
      Reline indent l (indentLine indent l) := by
    unfold indentLine
    split_ifs with blank_line
    · exact .blank one (blank blank_line)
    · exact .indented one
  have returned {l : List Char} (one : '\n' ∉ l)
      (blank : isBlankList (dropReturn l) = true → ∀ c ∈ dropReturn l, isAsciiSpace c = true) :
      Reline indent l (indentLine indent (dropReturn l)) := by
    unfold dropReturn at blank ⊢
    split_ifs at blank ⊢ with carriage
    · obtain ⟨front, rfl⟩ := List.getLast?_eq_some_iff.1 carriage
      rw [List.dropLast_concat] at blank ⊢
      unfold indentLine
      split_ifs with blank_line
      · refine .blank one ?_
        rw [List.forall_mem_append]
        exact ⟨blank blank_line, List.all_eq_true.1 rfl⟩
      · exact .returned fun feed => one (by simp [feed])
    · exact kept one blank
  induction text using lines_induction with
  | nil => exact absurd rfl some_char
  | last l one some_char =>
    rw [lines_of_no_feed one some_char, List.forall_mem_singleton] at blank
    exact ⟨[l], [indentLine indent l], .inr (by simp), .cons (kept one blank) .nil, by
      rw [indentLines_of_no_feed one some_char]
      simp⟩
  | line l rest one ih =>
    rw [lines_append_feed one, List.forall_mem_cons] at blank
    by_cases more : rest = []
    · subst more
      refine ⟨[l], [indentLine indent (dropReturn l)], .inl (by simp), .cons (returned one blank.1) .nil, ?_⟩
      rw [indentLines, lines_append_feed one]
      simp [lines, linesWithEnds, List.intercalate, indentLine]
    · obtain ⟨ls, ls', whole, each, indented⟩ := ih more blank.2
      refine ⟨l :: ls, _ :: ls', ?_, .cons (returned one blank.1) each, ?_⟩
      · rcases whole with whole | whole <;> simp [whole]
      · rw [indentLines_append_feed one more, joinLines_cons, ← indented]
        simp

/-- Where a line feed leads to code, nothing is open before it. -/
theorem closed_of_feed (reached : Reached s) (not_opened : s.mode ≠ .substitutionOpen)
    (step : maskStep .script s '\n' follow = .ok (shown, .plain, [])) : s.unterminated? = none := by
  generalize mode_eq : MaskMode.plain = mode, es_eq : ([] : List Enclosure) = es at step
  cases maskStep_cases step with
  | templateText _ inside =>
    rw [← es_eq] at inside
    cases inside
  | quote _ is_quote => simp at is_quote
  | code plain => simp [MaskState.unterminated?, plain, ← es_eq]
  | substitution opened => exact absurd opened not_opened
  | within not_plain _ claimed =>
    have fits := reached.mode
    unfold MaskState.unterminated?
    rw [← es_eq] at fits ⊢
    subst mode_eq
    generalize s.mode = mode, es_eq' : ([] : List Enclosure) = es at *
    cases fits with
    | plain => exact absurd rfl not_plain
    | lineComment => rw [← es_eq']; rfl
    | substitutionOpen | escapedTemplate => cases es_eq'
    | _ => cases claimed

/-- A line feed can stand behind a text with a mask. -/
theorem scans_feed_of_closed (reached : Reached s) (closed : s.unterminated? = none) (follow : Option Char) :
    ∃ t, Scans .script follow s ['\n'] [⟨'\n', true⟩] t ∧ IsCode t ∧ t.past = '\n' :: s.past := by
  obtain ⟨none_open, plain | comment⟩ := reached.closed_cases closed
  · exact ⟨s.after '\n' true .plain [], .cons (by simp [maskStep, plain, none_open, stepCode]) .nil, ⟨rfl, rfl⟩, rfl⟩
  · exact ⟨s.after '\n' true .plain [], .cons (by simp [maskStep, comment, none_open, stepMode, Except.map]) .nil, ⟨rfl, rfl⟩, rfl⟩

/-- A script that is indented has a mask with the same brackets. -/
theorem mask_indentLines (is_indent : ∀ c ∈ indent, isAsciiSpace c = true ∧ c ≠ '\n') (some_char : text ≠ [])
    (blank : ∀ l ∈ lines text, isBlankList l = true → ∀ c ∈ l, isAsciiSpace c = true) (masked : mask .script text = .ok cells) :
    ∃ cells', mask .script (indentLines text indent) = .ok cells' ∧ brackets cells' = brackets cells := by
  obtain ⟨u, read, closed⟩ := maskFrom_eq_ok_iff.1 masked
  have reached := (scans_reached read reached_start nofun).1
  obtain ⟨ls, ls', whole, each, indented⟩ := exists_relines indent some_char blank
  -- A line feed may be missing behind the last line.
  obtain ⟨c, t, read_lines, closed, same⟩ : ∃ c t, Scans .script none {} (joinLines ls) c t ∧ t.unterminated? = none ∧
      brackets c = brackets cells := by
    rcases whole with whole | whole
    · exact ⟨cells, u, whole ▸ read, closed, rfl⟩
    · obtain ⟨t, feed, code, -⟩ := scans_feed_of_closed reached closed none
      have front := read.dull isDull_none (isDull_of_isSpace (c := '\n') rfl)
      refine ⟨_, t, whole ▸ front.append feed, code.closed, ?_⟩
      rw [brackets_append, brackets_feed, List.append_nil]
  obtain ⟨at_line, c', t', read', alike, same'⟩ :=
    scans_relines is_indent each atLine_start atLine_start (.refl _) read_lines none
  have code : IsCode t := by
    obtain ⟨none_open, plain | comment⟩ := at_line.reached.closed_cases closed
    · exact ⟨plain, none_open⟩
    · have line := at_line.mode
      rw [comment] at line
      cases line
  have code' := code.of_alike alike
  rw [← indented] at read'
  obtain ⟨cl, v, shown, mode, es, cm, rfl, front, reached', not_opened, step, rest⟩ := exists_feed reached_start nofun read'
  cases rest
  obtain ⟨rfl, rfl⟩ : mode = .plain ∧ es = [] := ⟨code'.mode, code'.enclosures⟩
  refine ⟨cl, maskFrom_eq_ok_iff.2 ⟨v, front.dull (by simp [IsDull]) (by simp [IsDull]), closed_of_feed reached' not_opened step⟩, ?_⟩
  rw [← same, ← same', brackets_append, brackets_feed, List.append_nil]

end Codewright.Script
