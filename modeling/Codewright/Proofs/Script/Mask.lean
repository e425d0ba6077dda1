import Mathlib.Data.List.Chain
import Codewright.Proofs.Text.Bracket
import Codewright.Proofs.Text.Literal
import Codewright.Proofs.Text.Space

/-!
# Masks of scripts

* `IsBounded past` – no word and no member name goes on behind the past; `samePast_of_bounded`;
* `Step` – what reading a character of a script can do; `maskStep_cases`;
* `Reached` – the states in which a reader of scripts can be; `openIn` – the braces that are open in substitutions;
  `scans_reached` says what a reading does with them.
-/

namespace Codewright.Script

open Text

variable {p q more w text : List Char} {c : Char} {s t u : MaskState} {next follow : Option Char} {shown : Bool} {mode : MaskMode}
  {es : List Enclosure} {cells cells' : List Cell} {n m : Nat}

/-! ## Slashes -/

/-- Neither a word nor the name of a member goes on behind these characters, of which the last one comes first. -/
def IsBounded (past : List Char) : Prop := ∀ c ∈ past.head?, isPlainWord c = false ∧ c ≠ '.'

theorem isBounded_nil : IsBounded [] := by simp [IsBounded]

theorem isBounded_cons (word : isPlainWord c = false) (dot : c ≠ '.') (p : List Char) : IsBounded (c :: p) := by
  intro d hd
  obtain rfl : c = d := by simpa using hd
  exact ⟨word, dot⟩

theorem slashOpensRegex_space_append (space : ∀ c ∈ w, isAsciiSpace c = true) (p : List Char) :
    slashOpensRegex (w ++ p) = slashOpensRegex p := by
  rw [slashOpensRegex, List.dropWhile_append_of_pos space, slashOpensRegex]

theorem takeWhile_isPlainWord_append (hp : IsBounded p) (more : List Char) :
    (more ++ p).takeWhile isPlainWord = more.takeWhile isPlainWord := by
  induction more with
  | nil =>
    cases p with
    | nil => rfl
    | cons c p => exact List.takeWhile_cons_of_neg (by simp [(hp c rfl).1])
  | cons c more ih => rw [List.cons_append, List.takeWhile_cons, List.takeWhile_cons, ih]

theorem dropWhile_isPlainWord_append (hp : IsBounded p) (more : List Char) :
    (((more ++ p).dropWhile isPlainWord).head? != some '.') = ((more.dropWhile isPlainWord).head? != some '.') := by
  induction more with
  | nil =>
    cases p with
    | nil => rfl
    | cons c p =>
      rw [List.nil_append, List.dropWhile_cons_of_neg (by simp [(hp c rfl).1])]
      exact bne_iff_ne.2 (by simpa using (hp c rfl).2)
  | cons c more ih =>
    rw [List.cons_append, List.dropWhile_cons, List.dropWhile_cons]
    split_ifs
    · exact ih
    · rfl

/-- A slash behind something else than white space does not depend on what comes before a bound. -/
theorem slashOpensRegex_append (hp : IsBounded p) (hq : IsBounded q) (letter : ∃ c ∈ more, isAsciiSpace c = false) :
    slashOpensRegex (more ++ p) = slashOpensRegex (more ++ q) := by
  obtain ⟨w, c, cs, rfl, space, letter⟩ := exists_first letter
  have behind (p : List Char) : ((w ++ c :: cs) ++ p).dropWhile isAsciiSpace = c :: (cs ++ p) := by
    rw [List.append_assoc, List.dropWhile_append_of_pos space, List.cons_append,
      List.dropWhile_cons_of_neg (by simp [letter])]
  unfold slashOpensRegex
  rw [behind, behind]
  dsimp only
  rw [← List.cons_append, ← List.cons_append, takeWhile_isPlainWord_append hp, takeWhile_isPlainWord_append hq,
    dropWhile_isPlainWord_append hp, dropWhile_isPlainWord_append hq]

theorem samePast_of_bounded (hp : IsBounded p) (hq : IsBounded q) (same : slashOpensRegex p = slashOpensRegex q) :
    SamePast p q := by
  intro more
  by_cases letter : ∃ c ∈ more, isAsciiSpace c = false
  · exact slashOpensRegex_append hp hq letter
  · have space : ∀ c ∈ more, isAsciiSpace c = true := by simpa using letter
    rw [slashOpensRegex_space_append space, slashOpensRegex_space_append space, same]

/-- Behind a bound, something else than white space is all that counts. -/
theorem samePast_cons (hp : IsBounded p) (hq : IsBounded q) (letter : isAsciiSpace c = false) : SamePast (c :: p) (c :: q) := by
  intro more
  have same : slashOpensRegex (more ++ [c] ++ p) = slashOpensRegex (more ++ [c] ++ q) :=
    slashOpensRegex_append hp hq ⟨c, by simp, letter⟩
  simpa using same

/-! ## Reading one character -/

/-- What reading a character of a script can do. -/
inductive Step (s : MaskState) (next : Option Char) : Char → Bool → MaskMode → List Enclosure → Prop
  | tick {es : List Enclosure} (plain : s.mode = .plain) (inside : s.enclosures = .template :: es) :
      Step s next '\x60' true .plain es
  | dollar (plain : s.mode = .plain) (inside : s.enclosures.head? = some .template) (brace : next = some '\x7b') :
      Step s next '$' true .substitutionOpen s.enclosures
  | backslash (plain : s.mode = .plain) (inside : s.enclosures.head? = some .template) :
      Step s next '\\' false (.escaped .plain) s.enclosures
  | templateText {c : Char} (plain : s.mode = .plain) (inside : s.enclosures.head? = some .template) :
      Step s next c false .plain s.enclosures
  | quote {c : Char} (plain : s.mode = .plain) (is_quote : c = '\'' ∨ c = '"') :
      Step s next c true (.string c s.byte) s.enclosures
  | blockComment (plain : s.mode = .plain) (star : next = some '*') :
      Step s next '/' false (.commentOpen s.byte) s.enclosures
  | lineComment (plain : s.mode = .plain) (slash : next = some '/') : Step s next '/' false .lineComment s.enclosures
  | regex (plain : s.mode = .plain) : Step s next '/' true (.regex false s.byte) s.enclosures
  | template (plain : s.mode = .plain) (outside : s.enclosures.head? ≠ some .template) :
      Step s next '\x60' true .plain (.template :: s.enclosures)
  | opening (plain : s.mode = .plain) (outside : s.enclosures.head? ≠ some .template) :
      Step s next '\x7b' true .plain (openBrace s.enclosures)
  | closing (plain : s.mode = .plain) (outside : s.enclosures.head? ≠ some .template) :
      Step s next '\x7d' true .plain (closeBrace s.enclosures)
  | code {c : Char} (plain : s.mode = .plain) (opening : c ≠ '\x7b') (closing : c ≠ '\x7d') :
      Step s next c true .plain s.enclosures
  | substitution {c : Char} (opened : s.mode = .substitutionOpen) :
      Step s next c true .plain (.substitution 0 :: s.enclosures)
  /-- In a quoted text, a pattern or a comment, and behind a backslash. -/
  | within {c : Char} {shown : Bool} {mode : MaskMode} (not_plain : s.mode ≠ .plain)
      (not_opened : s.mode ≠ .substitutionOpen) (claimed : stepMode s.mode c = .ok (shown, mode)) :
      Step s next c shown mode s.enclosures

theorem step_template (plain : s.mode = .plain) (inside : s.enclosures.head? = some .template) (c : Char) :
    Step s next c (stepTemplate s.enclosures c next).1 (stepTemplate s.enclosures c next).2.1
      (stepTemplate s.enclosures c next).2.2 := by
  unfold stepTemplate
  split_ifs with tick dollar backslash
  · subst tick
    obtain ⟨es, at_⟩ := List.head?_eq_some_iff.1 inside
    rw [at_]
    exact .tick plain at_
  · obtain ⟨rfl, brace⟩ := dollar
    exact .dollar plain inside brace
  · subst backslash
    exact .backslash plain inside
  · exact .templateText plain inside

theorem step_code (plain : s.mode = .plain) (outside : s.enclosures.head? ≠ some .template) (c : Char) :
    Step s next c (stepCode .script s c next).1 (stepCode .script s c next).2.1 (stepCode .script s c next).2.2 := by
  unfold stepCode
  split_ifs with quote comment line regex tick opening closing
  · exact .quote plain quote
  · obtain ⟨rfl, star⟩ := comment
    exact .blockComment plain star
  · obtain ⟨rfl, -, slash⟩ := line
    exact .lineComment plain slash
  · obtain ⟨rfl, -⟩ := regex
    exact .regex plain
  · obtain ⟨rfl, -⟩ := tick
    exact .template plain outside
  · subst opening
    exact .opening plain outside
  · subst closing
    exact .closing plain outside
  · exact .code plain opening closing

theorem maskStep_cases (h : maskStep .script s c next = .ok (shown, mode, es)) : Step s next c shown mode es := by
  have within (not_plain : s.mode ≠ .plain) (not_opened : s.mode ≠ .substitutionOpen)
      (h : (stepMode s.mode c).map (fun r => (r.1, r.2, s.enclosures)) = .ok (shown, mode, es)) :
      Step s next c shown mode es := by
    cases step : stepMode s.mode c with
    | error e =>
      rw [step] at h
      cases h
    | ok r =>
      rw [step] at h
      cases h
      exact .within not_plain not_opened step
  unfold maskStep at h
  split at h
  next plain =>
    split_ifs at h with inside
    · have step : Step s next c _ _ _ := step_template plain inside c
      rw [Except.ok.inj h] at step
      exact step
    · have step : Step s next c _ _ _ := step_code plain inside c
      rw [Except.ok.inj h] at step
      exact step
  next opened =>
    cases h
    exact .substitution opened
  next not_plain not_opened => exact within not_plain not_opened h

/-! ## States -/

/-- A mode with the enclosures in which it can be. -/
inductive Fits : MaskMode → List Enclosure → Prop
  | plain {es : List Enclosure} : Fits .plain es
  | substitutionOpen {es : List Enclosure} : Fits .substitutionOpen (.template :: es)
  | string {quote : Char} {start : Nat} {es : List Enclosure} (is_quote : quote = '\'' ∨ quote = '"') :
      Fits (.string quote start) es
  | regex {inClass : Bool} {start : Nat} {es : List Enclosure} : Fits (.regex inClass start) es
  | commentOpen {start : Nat} {es : List Enclosure} : Fits (.commentOpen start) es
  | comment {star : Bool} {start : Nat} {es : List Enclosure} : Fits (.comment star start) es
  | lineComment {es : List Enclosure} : Fits .lineComment es
  | escapedString {quote : Char} {start : Nat} {es : List Enclosure} (is_quote : quote = '\'' ∨ quote = '"') :
      Fits (.escaped (.string quote start)) es
  | escapedRegex {inClass : Bool} {start : Nat} {es : List Enclosure} : Fits (.escaped (.regex inClass start)) es
  | escapedTemplate {es : List Enclosure} : Fits (.escaped .plain) (.template :: es)

/-- No template stands directly in a template. -/
def Alternate (es : List Enclosure) : Prop := es.IsChain fun a b => a = .template → b ≠ .template

/-- A state in which a reader of scripts can be. -/
structure Reached (s : MaskState) : Prop where
  mode : Fits s.mode s.enclosures
  alternate : Alternate s.enclosures

theorem reached_start : Reached {} := ⟨.plain, .nil⟩

/-- The braces that are open in substitutions. -/
def openIn : List Enclosure → Nat
  | [] => 0
  | .substitution depth :: es => depth + 1 + openIn es
  | .template :: es => openIn es

/-- A mode leads to modes that can stand in the same enclosures, and shows no braces. -/
theorem fits_stepMode (fits : Fits s.mode es) (not_plain : s.mode ≠ .plain) (not_opened : s.mode ≠ .substitutionOpen)
    (claimed : stepMode s.mode c = .ok (shown, mode)) :
    Fits mode es ∧ mode ≠ .substitutionOpen ∧ (shown = true → c ≠ '\x7b' ∧ c ≠ '\x7d') := by
  generalize s.mode = from_ at *
  cases fits with
  | plain => exact absurd rfl not_plain
  | substitutionOpen => exact absurd rfl not_opened
  | string is_quote =>
    simp only [stepMode] at claimed
    split_ifs at claimed with feed ends <;> cases claimed
    · refine ⟨.plain, by simp, fun _ => ?_⟩
      rcases is_quote with rfl | rfl <;> simp [ends]
    · exact ⟨.escapedString is_quote, by simp, by simp⟩
    · exact ⟨.string is_quote, by simp, by simp⟩
  | regex =>
    simp only [stepMode] at claimed
    split_ifs at claimed with feed ends <;> cases claimed
    · exact ⟨.plain, by simp, fun _ => by simp [ends.1]⟩
    · exact ⟨.escapedRegex, by simp, by simp⟩
    all_goals exact ⟨.regex, by simp, by simp⟩
  | commentOpen =>
    cases claimed
    exact ⟨.comment, by simp, by simp⟩
  | comment =>
    simp only [stepMode] at claimed
    split_ifs at claimed <;> cases claimed
    · exact ⟨.plain, by simp, by simp⟩
    · exact ⟨.comment, by simp, by simp⟩
  | lineComment =>
    simp only [stepMode] at claimed
    split_ifs at claimed with feed <;> cases claimed
    · exact ⟨.plain, by simp, fun _ => by simp [feed]⟩
    · exact ⟨.lineComment, by simp, by simp⟩
  | escapedString is_quote =>
    cases claimed
    exact ⟨.string is_quote, by simp, by simp⟩
  | escapedRegex =>
    cases claimed
    exact ⟨.regex, by simp, by simp⟩
  | escapedTemplate =>
    cases claimed
    exact ⟨.plain, by simp, by simp⟩


theorem openIn_openBrace (es : List Enclosure) : openIn (openBrace es) ≤ openIn es + 1 := by
  cases es with
  | nil => exact Nat.zero_le 1
  | cons e es =>
    cases e with
    | template => exact Nat.le_succ _
    | substitution depth =>
      rw [openBrace, openIn, openIn]
      omega

/-- A brace of code that is closed is one of a substitution, or stands outside of all templates. -/
theorem openIn_closeBrace (outside : es.head? ≠ some .template) (enough : openIn es ≤ n) : openIn (closeBrace es) ≤ n - 1 := by
  cases es with
  | nil => exact Nat.zero_le _
  | cons e es =>
    cases e with
    | template => exact absurd rfl outside
    | substitution depth =>
      rw [openIn] at enough
      cases depth with
      | zero =>
        rw [closeBrace]
        omega
      | succ depth =>
        rw [closeBrace, openIn]
        omega

theorem alternate_openBrace (alternate : Alternate es) : Alternate (openBrace es) := by
  cases es with
  | nil => exact alternate
  | cons e es =>
    cases e with
    | template => exact alternate
    | substitution depth =>
      cases es with
      | nil => exact .singleton _
      | cons e' es =>
        obtain ⟨-, rest⟩ := List.isChain_cons_cons.1 alternate
        exact List.isChain_cons_cons.2 ⟨nofun, rest⟩

theorem alternate_closeBrace (alternate : Alternate es) : Alternate (closeBrace es) := by
  cases es with
  | nil => exact alternate
  | cons e es =>
    cases e with
    | template => exact alternate
    | substitution depth =>
      cases depth with
      | zero => exact (List.isChain_cons.1 alternate).2
      | succ depth =>
        cases es with
        | nil => exact .singleton _
        | cons e' es =>
          obtain ⟨-, rest⟩ := List.isChain_cons_cons.1 alternate
          exact List.isChain_cons_cons.2 ⟨nofun, rest⟩

theorem bracesBehind_single (n : Nat) (c : Char) (shown : Bool) : bracesBehind n [⟨c, shown⟩] =
    if shown = true ∧ c = '\x7b' then some (n + 1)
    else if shown = true ∧ c = '\x7d' then if n = 0 then none else some (n - 1)
    else some n := by
  have face : (Cell.mk c shown).face = if shown || c == '\n' then c else ' ' := rfl
  cases shown with
  | true => simp [bracesBehind, face]
  | false =>
    by_cases feed : c = '\n'
    · subst feed
      rfl
    · simp [bracesBehind, face, feed]

/-- What one character does with the state. A brace opens or closes a substitution only where it is seen. -/
theorem Step.reached (reached : Reached s) (step : Step s next c shown mode es)
    (opened : s.mode = .substitutionOpen → c = '\x7b') :
    (Fits mode es ∧ Alternate es) ∧ (mode = .substitutionOpen → next = some '\x7b') ∧
      ∀ n m, openIn s.enclosures ≤ n → bracesBehind n [⟨c, shown⟩] = some m → openIn es ≤ m := by
  have alternate := reached.alternate
  have same {n m : Nat} (enough : openIn s.enclosures ≤ n) (behind : some n = some m) : openIn s.enclosures ≤ m :=
    Option.some.inj behind ▸ enough
  have quoted {quote : Char} (is_quote : quote = '\'' ∨ quote = '"') : quote ≠ '\x7b' ∧ quote ≠ '\x7d' := by
    rcases is_quote with rfl | rfl <;> decide
  simp only [bracesBehind_single]
  cases step with
  | tick plain inside =>
    rw [inside] at alternate ⊢
    exact ⟨⟨.plain, (List.isChain_cons.1 alternate).2⟩, nofun, fun n m enough behind => Option.some.inj behind ▸ enough⟩
  | dollar plain inside brace =>
    obtain ⟨es, at_⟩ := List.head?_eq_some_iff.1 inside
    exact ⟨⟨at_ ▸ .substitutionOpen, alternate⟩, fun _ => brace, fun n m enough behind => same enough (by simpa using behind)⟩
  | backslash plain inside =>
    obtain ⟨es, at_⟩ := List.head?_eq_some_iff.1 inside
    exact ⟨⟨at_ ▸ .escapedTemplate, alternate⟩, nofun, fun n m enough behind => same enough (by simpa using behind)⟩
  | templateText plain inside =>
    exact ⟨⟨.plain, alternate⟩, nofun, fun n m enough behind => same enough (by simpa using behind)⟩
  | quote plain is_quote =>
    obtain ⟨opening, closing⟩ := quoted is_quote
    exact ⟨⟨.string is_quote, alternate⟩, nofun, fun n m enough behind =>
      same enough (by simpa [opening, closing] using behind)⟩
  | blockComment plain star =>
    exact ⟨⟨.commentOpen, alternate⟩, nofun, fun n m enough behind => same enough (by simpa using behind)⟩
  | lineComment plain slash =>
    exact ⟨⟨.lineComment, alternate⟩, nofun, fun n m enough behind => same enough (by simpa using behind)⟩
  | regex plain =>
    exact ⟨⟨.regex, alternate⟩, nofun, fun n m enough behind => same enough (by simpa using behind)⟩
  | template plain outside =>
    refine ⟨⟨.plain, List.isChain_cons.2 ⟨fun e he _ => ?_, alternate⟩⟩, nofun, fun n m enough behind =>
      same enough (by simpa using behind)⟩
    rintro rfl
    exact outside he
  | opening plain outside =>
    refine ⟨⟨.plain, alternate_openBrace alternate⟩, nofun, fun n m enough behind => ?_⟩
    obtain rfl : n + 1 = m := by simpa using behind
    exact (openIn_openBrace _).trans (Nat.succ_le_succ enough)
  | closing plain outside =>
    refine ⟨⟨.plain, alternate_closeBrace alternate⟩, nofun, fun n m enough behind => ?_⟩
    obtain ⟨-, rfl⟩ : n ≠ 0 ∧ n - 1 = m := by simpa using behind
    exact openIn_closeBrace outside enough
  | code plain opening closing =>
    exact ⟨⟨.plain, alternate⟩, nofun, fun n m enough behind => same enough (by simpa [opening, closing] using behind)⟩
  | substitution opened' =>
    obtain rfl := opened opened'
    refine ⟨⟨.plain, ?_⟩, nofun, fun n m enough behind => ?_⟩
    · exact List.isChain_cons.2 ⟨fun _ _ => nofun, alternate⟩
    · obtain rfl : n + 1 = m := by simpa using behind
      rw [openIn]
      omega
  | within not_plain not_opened claimed =>
    obtain ⟨fits, no_substitution, unseen⟩ := fits_stepMode reached.mode not_plain not_opened claimed
    refine ⟨⟨fits, alternate⟩, fun h => absurd h no_substitution, fun n m enough behind => same enough ?_⟩
    rw [if_neg, if_neg] at behind
    · exact behind
    · exact fun h => (unseen h.1).2 h.2
    · exact fun h => (unseen h.1).1 h.2

/-- What a reading does with the state. -/
theorem scans_reached (read : Scans .script follow s text cells t) (reached : Reached s)
    (opened : s.mode = .substitutionOpen → text.head?.or follow = some '\x7b') :
    Reached t ∧ (t.mode = .substitutionOpen → follow = some '\x7b') ∧
      ∀ n m, openIn s.enclosures ≤ n → bracesBehind n cells = some m → openIn t.enclosures ≤ m := by
  induction read with
  | nil => exact ⟨reached, fun h => by simpa using opened h, fun n m enough behind => Option.some.inj behind ▸ enough⟩
  | @cons s t c cs shown mode es cells step _ ih =>
    obtain ⟨⟨fits, alternate⟩, opened', braces⟩ :=
      (maskStep_cases step).reached reached (fun h => by simpa using opened h)
    obtain ⟨reached', opened'', braces'⟩ := ih ⟨fits, alternate⟩ opened'
    refine ⟨reached', opened'', fun n m enough behind => ?_⟩
    rw [← List.singleton_append, bracesBehind_append] at behind
    obtain ⟨k, first, rest⟩ := Option.bind_eq_some_iff.1 behind
    exact braces' k m (braces n k enough first) rest

/-! ## Code -/

/-- At the end of a script, nothing but a comment up to the end of the line can be open. -/
theorem Reached.closed_cases (reached : Reached s) (closed : s.unterminated? = none) :
    s.enclosures = [] ∧ (s.mode = .plain ∨ s.mode = .lineComment) := by
  have fits := reached.mode
  unfold MaskState.unterminated? at closed
  generalize s.enclosures = es, s.mode = mode at *
  cases fits with
  | plain => exact ⟨by simpa using closed, .inl rfl⟩
  | lineComment => exact ⟨by simpa using closed, .inr rfl⟩
  | _ => simp at closed

theorem openIn_eq_zero (alternate : Alternate es) (none_open : openIn es = 0) (outside : es.head? ≠ some .template) :
    es = [] := by
  cases es with
  | nil => rfl
  | cons e es =>
    cases e with
    | template => exact absurd rfl outside
    | substitution depth =>
      rw [openIn] at none_open
      omega

/-- A closing brace that is seen while none is open in a substitution is code outside of all templates. -/
theorem Step.isCode_closing (reached : Reached s) (step : Step s next '\x7d' true mode es)
    (not_opened : s.mode ≠ .substitutionOpen) (none_open : openIn s.enclosures = 0) : IsCode s := by
  cases step with
  | quote _ is_quote => simp at is_quote
  | closing plain outside => exact ⟨plain, openIn_eq_zero reached.alternate none_open outside⟩
  | code _ _ closing => exact absurd rfl closing
  | substitution opened => exact absurd opened not_opened
  | within not_plain not_opened claimed =>
    exact absurd rfl ((fits_stepMode reached.mode not_plain not_opened claimed).2.2 rfl).2

/-- What follows a character matters only for a slash in front of a slash or a star, and for a dollar sign in front of a
brace. -/
theorem maskStep_brace (s : MaskState) (c : Char) : maskStep .script s c (some '\x7b') = maskStep .script s c none ∨
    s.enclosures.head? = some .template ∧ s.mode = .plain ∧ c = '$' := by
  by_cases inside : s.mode = .plain ∧ s.enclosures.head? = some .template
  · by_cases dollar : c = '$'
    · exact .inr ⟨inside.2, inside.1, dollar⟩
    · simp [maskStep, inside, stepTemplate, dollar]
  · left
    unfold maskStep stepCode
    split
    next plain =>
      have outside : s.enclosures.head? ≠ some .template := fun h => inside ⟨plain, h⟩
      simp [outside]
    next => rfl
    next => rfl

/-- A brace that is seen behind a text with a mask is code outside of all templates. -/
theorem isCode_of_masked (masked : mask .script text = .ok cells) (read : Scans .script (some '\x7b') {} text cells' t)
    (seen : maskStep .script t '\x7b' next = .ok (true, mode, es)) : cells' = cells ∧ IsCode t := by
  obtain ⟨u, read', closed⟩ := maskFrom_eq_ok_iff.1 masked
  have reached := (scans_reached read' reached_start nofun).1
  obtain ⟨none_open, code⟩ := reached.closed_cases closed
  obtain ⟨rfl, rfl⟩ : cells' = cells ∧ t = u := by
    rcases List.eq_nil_or_concat text with rfl | ⟨front, c, rfl⟩
    · cases read
      cases read'
      exact ⟨rfl, rfl⟩
    · rw [List.concat_eq_append] at read read'
      obtain ⟨_, _, v, rfl, front_read, last⟩ := scans_append_iff.1 read
      obtain ⟨_, _, v', rfl, front_read', last'⟩ := scans_append_iff.1 read'
      obtain ⟨rfl, rfl⟩ := front_read.unique front_read'
      cases last with
      | cons step rest =>
        cases last' with
        | cons step' rest' =>
          cases rest
          cases rest'
          rcases maskStep_brace v c with same | ⟨inside, plain, rfl⟩
          · have step : maskStep .script v c (some '\x7b') = _ := step
            rw [same] at step
            cases step.symm.trans step'
            exact ⟨rfl, rfl⟩
          · -- A dollar sign of a template leaves the template open.
            have step' : maskStep .script v '$' none = _ := step'
            simp only [maskStep, plain, inside] at step'
            cases step'
            have none_open : v.enclosures = [] := none_open
            rw [none_open] at inside
            cases inside
  refine ⟨rfl, ?_, none_open⟩
  rcases code with plain | comment
  · exact plain
  · simp [maskStep, comment, stepMode, Except.map] at seen

/-- White space in code is code. -/
theorem scans_space (follow : Option Char) (is_code : IsCode s) (space : ∀ c ∈ w, isSpace c = true) :
    ∃ t, Scans .script follow s w (w.map code) t ∧ IsCode t ∧ t.past = w.reverse ++ s.past := by
  induction w generalizing s with
  | nil => exact ⟨s, .nil, is_code, rfl⟩
  | cons c w ih =>
    rw [List.forall_mem_cons] at space
    have ne {d : Char} (letter : isSpace d = false) : c ≠ d := by
      rintro rfl
      rw [space.1] at letter
      cases letter
    have step (f : Option Char) : maskStep .script s c f = .ok (true, .plain, []) := by
      simp [maskStep, is_code.mode, is_code.enclosures, stepCode, ne (d := '\'') rfl, ne (d := '"') rfl, ne (d := '/') rfl,
        ne (d := '\x60') rfl, ne (d := '\x7b') rfl, ne (d := '\x7d') rfl]
    obtain ⟨t, read, is_code', past⟩ := ih (s := s.after c true .plain []) ⟨rfl, rfl⟩ space.2
    refine ⟨t, .cons (step _) read, is_code', ?_⟩
    rw [past, List.reverse_cons, List.append_assoc]
    rfl

/-! ## States that differ in their past -/

/-- The mode and the enclosures are the same. -/
structure SameMode (s t : MaskState) : Prop where
  mode : s.mode.unplaced = t.mode.unplaced
  enclosures : s.enclosures = t.enclosures

theorem stepCode_past (past : List Char) (comment : c = '/' → next = some '*' ∨ next = some '/') :
    stepCode .script { s with past := past } c next = stepCode .script s c next := by
  unfold stepCode
  by_cases slash : c = '/'
  · rcases comment slash with rfl | rfl <;> simp [slash, LexicalForms.script]
  · simp [slash]

theorem stepCode_seen (s : MaskState) (no_comment : next ≠ some '*' ∧ next ≠ some '/') :
    (stepCode .script s '/' next).1 = true := by
  unfold stepCode
  simp only [no_comment, and_false, if_false]
  split_ifs <;> rfl

/-- The past matters for no character but a slash that is seen. -/
theorem maskStep_past (h : maskStep .script s c next = .ok (shown, mode, es)) (no_slash : (Cell.mk c shown).face ≠ '/')
    (past : List Char) : maskStep .script { s with past := past } c next = .ok (shown, mode, es) := by
  unfold maskStep at h ⊢
  cases at_ : s.mode <;> simp only [at_] at h ⊢
  case plain =>
    split_ifs at h ⊢ with inside
    · exact h
    · by_cases comment : c = '/' → next = some '*' ∨ next = some '/'
      · have same := stepCode_past (s := s) past comment
        rw [at_] at same
        exact (congrArg Except.ok same).trans h
      · rw [Classical.not_imp, not_or] at comment
        obtain ⟨rfl, no_comment⟩ := comment
        have seen := stepCode_seen s no_comment
        rw [Except.ok.inj h] at seen
        obtain rfl : shown = true := seen
        exact absurd rfl no_slash
  all_goals exact h

/-- The first cell that is no white space shows no slash, and it begins no word within another one. -/
def BeginsPlainly (past : List Char) (cells : List Cell) : Prop :=
  ∃ c ∈ cells.find? fun c => !isSpace c.face,
    c.face ≠ '/' ∧ (IsBounded past ∨ isPlainWord c.face = false ∧ c.face ≠ '.')

theorem bounded_face (space : isSpace c = true) : isPlainWord c = false ∧ c ≠ '.' := by
  have no_letter : c.isAlphanum = false := by
    cases letter : c.isAlphanum with
    | false => rfl
    | true =>
      rw [isSpace_of_isAlphanum letter] at space
      cases space
  have ne {d : Char} (letter : isSpace d = false) : c ≠ d := by
    rintro rfl
    rw [space] at letter
    cases letter
  exact ⟨by simp [isPlainWord, no_letter, ne (d := '_') rfl, ne (d := '$') rfl], ne rfl⟩

/-- A character behind different pasts. -/
theorem samePast_behind (letter : isAsciiSpace c = false)
    (bounded : IsBounded p ∧ IsBounded q ∨ isPlainWord c = false ∧ c ≠ '.') : SamePast (c :: p) (c :: q) := by
  rcases bounded with ⟨hp, hq⟩ | ⟨word, dot⟩
  · exact samePast_cons hp hq letter
  · refine samePast_of_bounded (isBounded_cons word dot p) (isBounded_cons word dot q) ?_
    unfold slashOpensRegex
    rw [List.dropWhile_cons_of_neg (by simp [letter]), List.dropWhile_cons_of_neg (by simp [letter])]
    simp [word]

/-- A character that is no slash is read alike behind different pasts. -/
theorem SameMode.scans_single (same : SameMode s t) (step : maskStep .script s c next = .ok (shown, mode, es))
    (face : (Cell.mk c shown).face ≠ '/') : ∃ t', Scans .script next t [c] [⟨c, shown⟩] t' ∧
      SameMode (s.after c shown mode es) t' ∧ t'.past = (Cell.mk c shown).face :: t.past := by
  have alike : Alike .script { s with past := t.past } t := ⟨same.mode, same.enclosures, fun _ => .refl _⟩
  have single : Scans .script next { s with past := t.past } [c] [⟨c, shown⟩]
      (({ s with past := t.past } : MaskState).after c shown mode es) := .cons (maskStep_past step face t.past) .nil
  obtain ⟨t', read', alike'⟩ := alike.scans single
  refine ⟨t', read', ⟨alike'.mode, alike'.enclosures⟩, ?_⟩
  cases read' with
  | cons _ rest' =>
    cases rest'
    rfl

theorem SameMode.inLiteral (same : SameMode s t) : s.inLiteral = t.inLiteral := by
  have alike : Alike .script { s with past := t.past } t := ⟨same.mode, same.enclosures, fun _ => .refl _⟩
  exact alike.inLiteral

/-- A text that begins plainly is read alike behind different pasts, and has the same literals there. -/
theorem SameMode.scans (same : SameMode s t) (bounded : IsBounded t.past) (read : Scans .script follow s text cells u)
    (begins : BeginsPlainly s.past cells) : ∃ v, Scans .script follow t text cells v ∧ Alike .script u v ∧
      markLiterals .script follow t text = markLiterals .script follow s text := by
  induction read generalizing t with
  | nil => simp [BeginsPlainly] at begins
  | @cons s u c cs shown mode es cells step rest ih =>
    obtain ⟨first, found, no_slash, plainly⟩ := begins
    -- What is said of the first character and of the rest is said of both.
    have whole {t' v : MaskState} (first : Scans .script (cs.head?.or follow) t [c] [⟨c, shown⟩] t')
        (same' : SameMode (s.after c shown mode es) t') (more : Scans .script follow t' cs cells v)
        (marks : markLiterals .script follow t' cs = markLiterals .script follow (s.after c shown mode es) cs) :
        Scans .script follow t (c :: cs) (⟨c, shown⟩ :: cells) v ∧
          markLiterals .script follow t (c :: cs) = markLiterals .script follow s (c :: cs) := by
      refine ⟨first.append more, ?_⟩
      rw [first.markLiterals_first, markLiterals_cons step, marks, markOf_congr same.inLiteral same'.inLiteral]
    cases space : isSpace (Cell.mk c shown).face with
    | true =>
      have face : (Cell.mk c shown).face ≠ '/' := by
        intro slash
        rw [slash] at space
        cases space
      obtain ⟨word, dot⟩ := bounded_face space
      obtain ⟨t', read', same', past'⟩ := same.scans_single step face
      obtain ⟨v, read'', alike, marks⟩ := ih same' (past' ▸ isBounded_cons word dot _)
        ⟨first, by simpa [space] using found, no_slash, .inl (isBounded_cons word dot _)⟩
      obtain ⟨read, marks⟩ := whole read' same' read'' marks
      exact ⟨v, read, alike, marks⟩
    | false =>
      obtain rfl : ⟨c, shown⟩ = first := by simpa [space] using found
      obtain ⟨t', read', same', past'⟩ := same.scans_single step no_slash
      have letter : isAsciiSpace (Cell.mk c shown).face = false := by
        cases letter : isAsciiSpace (Cell.mk c shown).face with
        | false => rfl
        | true =>
          rw [isSpace_of_isAsciiSpace letter] at space
          cases space
      have alike : Alike .script (s.after c shown mode es) t' := by
        refine ⟨same'.mode, same'.enclosures, fun _ => ?_⟩
        rw [past']
        exact samePast_behind letter (plainly.imp_left fun h => ⟨h, bounded⟩)
      obtain ⟨v, read'', alike'⟩ := alike.scans rest
      obtain ⟨read, marks⟩ := whole read' same' read'' (alike.markLiterals_eq follow cs).symm
      exact ⟨v, read, alike', marks⟩

end Codewright.Script
