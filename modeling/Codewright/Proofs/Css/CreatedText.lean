import Codewright.Proofs.Css.AddedBlock
import Codewright.Proofs.Json.Entries

/-!
# The text of new stylesheets

What `create` writes for options of simple texts, and what is read of it.

* `Options.IsSimple` – options whose texts are trimmed, not empty, and without marks that mean something in a stylesheet;
* `Forms content text outlines` – a text with its content, which may have strings in it;
* `exists_import`, `exists_indented_rule`, `exists_media` – the parts of a stylesheet;
* `Options.exists_sheet` – the text is a stylesheet, and consists of what the options say (`Options.outlines`).
-/

namespace Codewright.Css

open Text Json

/-! ## Simple texts -/

/-- A trimmed text that is not empty, without quotes, brackets, braces, semicolons, colons, slashes, backslashes, at signs and
line feeds. -/
structure IsSimpleText (t : String) : Prop where
  some_char : t ≠ ""
  trimmed : Text.trimmed t = t
  simple : ∀ c ∈ t.toList, c ∉ "'\"()\x7b\x7d;:/\\@\n".toList

instance (t : String) : Decidable (IsSimpleText t) :=
  -- The characters of the text are tried, not all characters.
  have : Decidable (∀ c ∈ t.toList, c ∉ "'\"()\x7b\x7d;:/\\@\n".toList) := List.decidableBAll _ _
  decidable_of_iff (t ≠ "" ∧ Text.trimmed t = t ∧ ∀ c ∈ t.toList, c ∉ "'\"()\x7b\x7d;:/\\@\n".toList)
    ⟨fun ⟨some_char, trimmed, simple⟩ => ⟨some_char, trimmed, simple⟩, fun h => ⟨h.some_char, h.trimmed, h.simple⟩⟩

/-- What numerals are made of. -/
def IsNumeralChar (c : Char) : Prop := c.isDigit = true ∨ c ∈ "+-.eE".toList

/-- A simple text, a number, a truth value or null. -/
def IsSimpleValue : Json → Prop
  | .string t => IsSimpleText t
  | .number t => ∀ c ∈ t.toList, IsNumeralChar c
  | .bool _ | .null => True
  | .array _ | .object _ => False

/-- Keys and values are simple. -/
def AreSimple (entries : Entries) : Prop := ∀ e ∈ entries, IsSimpleText e.1 ∧ IsSimpleValue e.2

/-- A rule of simple texts. -/
structure Rule.IsSimple (r : Rule) : Prop where
  selector : IsSimpleText r.selector
  properties : AreSimple r.properties

/-- A media query of a simple text with simple rules. -/
structure Media.IsSimple (m : Media) : Prop where
  query : IsSimpleText m.query
  rules : ∀ r ∈ m.rules, r.IsSimple

/-- Options of simple texts. -/
structure Options.IsSimple (o : Options) : Prop where
  imports : ∀ t ∈ o.imports.getD [], IsSimpleText t
  customProperties : AreSimple (o.customProperties.getD [])
  rules : ∀ r ∈ o.rules.getD [], r.IsSimple
  media : ∀ m ∈ o.media.getD [], m.IsSimple

variable {text t t' w : List Char} {content other : Content} {os os' : List Outline} {s unit : String} {v : Json}
  {entries : Entries} {o : Options}

theorem parensBehind_map_code (plain : ∀ c ∈ text, c ∉ "(){};".toList) (n : Nat) :
    parensBehind n (text.map code) = some n := by
  induction text with
  | nil => rfl
  | cons c text ih =>
    rw [List.forall_mem_cons] at plain
    have face : (code c).face = c := rfl
    have ne {d : Char} (special : d ∈ "(){};".toList) : c ≠ d := fun same => plain.1 (same ▸ special)
    rw [List.map_cons, parensBehind, face, if_neg (ne (by decide)), if_neg (ne (by decide)), if_neg, ih plain.2]
    rintro ⟨h | h | h, -⟩
    · exact ne (by decide) h
    · exact ne (by decide) h
    · exact ne (by decide) h

/-- A text without special characters is plain. -/
theorem isPlainText_of_simple (simple : ∀ c ∈ s.toList, c ∉ "'\"()\x7b\x7d;:/\\@\n".toList) : IsPlainText s := by
  have marks : "'\"\x7b\x7d;/\\@".toList ⊆ "'\"()\x7b\x7d;:/\\@\n".toList := by decide
  have brackets : "()\x7b\x7d;".toList ⊆ "'\"()\x7b\x7d;:/\\@\n".toList := by decide
  exact ⟨fun c hc special => simple c hc (marks special),
    parensBehind_map_code (fun c hc special => simple c hc (brackets special)) 0⟩

namespace IsSimpleText

theorem isPlainText (h : IsSimpleText s) : IsPlainText s := isPlainText_of_simple h.simple

theorem not_mem (h : IsSimpleText s) {c : Char} (special : c ∈ "'\"()\x7b\x7d;:/\\@\n".toList) : c ∉ s.toList :=
  fun here => h.simple c here special

theorem toList_ne_nil (h : IsSimpleText s) : s.toList ≠ [] := fun none => h.some_char (by simpa using none)

theorem trim_toList (h : IsSimpleText s) : trim s.toList = s.toList := by
  have := congrArg String.toList h.trimmed
  rwa [Text.trimmed, String.toList_ofList] at this

/-- No white space stands at the ends. -/
theorem ends (h : IsSimpleText s) : Trimmed isSpace [] s.toList [] := by
  rcases exists_trimmed isSpace s.toList with blank | ⟨lead, body, tail, cut, parts⟩
  · have := h.trim_toList
    rw [trim_of_space blank] at this
    exact absurd this.symm h.toList_ne_nil
  · have := h.trim_toList
    rw [cut, parts.trim] at this
    rw [cut, ← this]
    exact ⟨by simp, parts.first, parts.last, by simp⟩

end IsSimpleText

theorem IsNumeralChar.simple {c : Char} (h : IsNumeralChar c) : c ∉ "'\"()\x7b\x7d;:/\\@\n".toList := by
  intro special
  have none : ∀ c ∈ "'\"()\x7b\x7d;:/\\@\n".toList, (!decide (c.isDigit = true ∨ c ∈ "+-.eE".toList)) = true :=
    List.all_eq_true.1 (by decide)
  exact absurd h (by simpa [IsNumeralChar] using none c special)

/-- The text of a simple value has no special characters. -/
theorem IsSimpleValue.simple (h : IsSimpleValue v) : ∀ c ∈ (valueText v).toList, c ∉ "'\"()\x7b\x7d;:/\\@\n".toList := by
  cases v with
  | string t => exact h.simple
  | number t =>
    have same : (valueText (.number t)).toList = t.toList := by
      simp [valueText, compact, compactChars, scalarChars]
    rw [same]
    exact fun c hc => (h c hc).simple
  | bool b => cases b <;> exact IsSimpleText.simple (by decide)
  | null => exact IsSimpleText.simple (by decide)
  | array _ => cases h
  | object _ => cases h

/-! ## Indented rules -/

/-- A block of lines that end in letters is indented line by line. -/
theorem indentLines_block {indent l : List Char} {ls : List (List Char)} (one : '\n' ∉ l)
    (ends : ∃ c ∈ l.getLast?, isSpace c = false) (ones : ∀ m ∈ ls, '\n' ∉ m ∧ ∃ c ∈ m.getLast?, isSpace c = false) :
    indentLines (l ++ (stacked ['\n'] ['\n'] ls ++ ['\n', '\x7d'])) indent =
      indent ++ (l ++ (stacked ('\n' :: indent) ('\n' :: indent) ls ++ ('\n' :: indent ++ ['\x7d']))) := by
  induction ls generalizing l with
  | nil =>
    have last : indentLines ['\x7d'] indent = indent ++ ['\x7d'] := by
      rw [indentLines_of_no_feed (by decide) (by decide)]
      exact indentLine_dropReturn (l := ['\x7d']) ⟨'\x7d', rfl, rfl⟩
    rw [stacked, List.nil_append, indentLines_append_feed one (by simp), indentLine_dropReturn ends, last]
    simp [stacked]
  | cons m ls ih =>
    rw [List.forall_mem_cons] at ones
    have front : l ++ (stacked ['\n'] ['\n'] (m :: ls) ++ ['\n', '\x7d']) =
        l ++ '\n' :: (m ++ (stacked ['\n'] ['\n'] ls ++ ['\n', '\x7d'])) := by simp [stacked]
    rw [front, indentLines_append_feed one (by simp), indentLine_dropReturn ends, ih ones.1.1 ones.1.2 ones.2]
    simp [stacked]

/-- A rule stands indented with what it says. -/
theorem exists_indented_rule {r : Rule} (is_unit : ∀ c ∈ unit.toList, isSpace c = true) (no_feed : '\n' ∉ unit.toList)
    (simple : r.IsSimple) : ∃ content, Writes content (indentText (r.print unit) unit).toList [r.outline] := by
  have head := simple.selector.isPlainText.isHead (by rw [simple.selector.trimmed]; exact simple.selector.some_char)
  rw [simple.selector.trimmed] at head
  -- The lines between the braces.
  let body := (r.properties.map fun e => unit ++ propertyText e).map String.toList
  have lines : ∀ m ∈ body, '\n' ∉ m ∧ ∃ c ∈ m.getLast?, isSpace c = false := by
    rw [List.forall_mem_map, List.forall_mem_map]
    intro e he
    obtain ⟨name, value⟩ := simple.properties e he
    have value_feed : '\n' ∉ (valueText e.2).toList := fun here => value.simple '\n' here (by decide)
    refine ⟨?_, ';', by simp [propertyText, ← List.append_assoc], rfl⟩
    simp [propertyText, no_feed, name.not_mem (c := '\n') (by decide), value_feed]
  have text_eq : (indentText (r.print unit) unit).toList = unit.toList ++ (r.selector.toList ++ ' ' :: '\x7b' ::
      (stacked ('\n' :: unit.toList) ('\n' :: unit.toList) body ++ (('\n' :: unit.toList) ++ ['\x7d']))) := by
    have one : '\n' ∉ r.selector.toList ++ [' ', '\x7b'] := by
      simp [simple.selector.not_mem (c := '\n') (by decide)]
    have indented : indentLines _ unit.toList = _ := indentLines_block one ⟨'\x7b', by simp, rfl⟩ lines
    have feed : "\n".toList = ['\n'] := rfl
    rw [indentText, String.toList_ofList, Rule.print, toList_blockText, simple.selector.trimmed, feed]
    simpa [body] using indented
  have feed : ∀ c ∈ '\n' :: unit.toList, isSpace c = true := List.forall_mem_cons.2 ⟨rfl, is_unit⟩
  have each : List.Forall₂ (fun t os => ∃ content, Writes content t os) body
      (r.properties.map fun e => [propertyOutline e]) := by
    rw [List.forall₂_map_left_iff, List.forall₂_map_left_iff, List.forall₂_map_right_iff, List.forall₂_same]
    intro e he
    obtain ⟨name, value⟩ := simple.properties e he
    rw [String.toList_append]
    exact exists_entry is_unit name.isPlainText (isPlainText_of_simple value.simple)
  have flat : (r.properties.map fun e => [propertyOutline e]).flatten = r.properties.map propertyOutline := by
    rw [← List.flatMap_def, List.map_eq_flatMap]
  rw [text_eq, Rule.outline, ← flat]
  exact exists_spaced_block head is_unit feed feed feed each

/-! ## Strings -/

/-- A text with its content, behind which more can stand. There may be strings in it. -/
structure Forms (content : Content) (text : List Char) (os : List Outline) : Prop where
  chars : chars content.cells = text
  passes : Passes content.cells
  sound : content.Sound
  closed : ∀ c ∈ content.lastRun, isBlankCell c = true
  outlines : content.outlines = os

theorem Writes.forms (h : Writes content text os) : Forms content text os where
  chars := by rw [h.cells]; exact chars_cellsOf true text
  passes := by rw [h.cells]; exact passes_map_code h.plain
  sound := h.sound
  closed := h.closed
  outlines := h.outlines

theorem Forms.append (h : Forms content t os) (h' : Forms other t' os') :
    Forms (content.append other) (t ++ t') (os ++ os') where
  chars := by rw [Content.cells_append, Text.chars, List.map_append, ← Text.chars, ← Text.chars, h.chars, h'.chars]
  passes := by rw [Content.cells_append]; exact h.passes.append h'.passes
  sound := h.sound.append h.closed h'.sound
  closed c hc := (Content.lastRun_append content other c hc).elim (h.closed c) (h'.closed c)
  outlines := by rw [Content.outlines_append h.closed, h.outlines, h'.outlines]

/-- In a string, characters are hidden up to the quote that ends it. -/
theorem exists_scans_string {s : MaskState} {quote : Char} {start : Nat} (follow : Option Char)
    (inside : s.mode = .string quote start) (none_open : s.enclosures = [])
    (no_feed : quote ≠ '\n') (letters : ∀ c ∈ text, c ≠ quote ∧ c ≠ '\\' ∧ c ≠ '\n') :
    ∃ t, IsCode t ∧ Scans .stylesheet follow s (text ++ [quote]) (cellsOf false text ++ [code quote]) t := by
  induction text generalizing s with
  | nil =>
    refine ⟨s.after quote true .plain [], ⟨rfl, rfl⟩, .cons ?_ .nil⟩
    simp [maskStep, inside, none_open, stepMode, no_feed, Except.map]
  | cons c text ih =>
    rw [List.forall_mem_cons] at letters
    obtain ⟨t, ht, read⟩ := ih (s := s.after c false (.string quote start) []) rfl rfl letters.2
    refine ⟨t, ht, .cons ?_ read⟩
    simp [maskStep, inside, none_open, stepMode, letters.1, Except.map]

/-- A string leads from code to code. -/
theorem passes_string {quote : Char} (is_quote : IsQuote quote) (letters : ∀ c ∈ text, c ≠ quote ∧ c ≠ '\\' ∧ c ≠ '\n') :
    Passes (code quote :: (cellsOf false text ++ [code quote])) := by
  intro s follow hs
  have no_feed : quote ≠ '\n' := by rcases is_quote with rfl | rfl <;> decide
  obtain ⟨t, ht, read⟩ := exists_scans_string (s := s.after quote true (.string quote s.byte) []) follow rfl rfl no_feed letters
  refine ⟨t, ht, ?_⟩
  have chars_eq : chars (code quote :: (cellsOf false text ++ [code quote])) = quote :: (text ++ [quote]) := by
    rw [chars, List.map_cons, List.map_append, ← chars, chars_cellsOf]
    rfl
  rw [chars_eq]
  refine .cons ?_ read
  have here : quote = '\'' ∨ quote = '"' := is_quote
  simp [maskStep, hs.mode, hs.enclosures, stepCode, here]

/-- What an import of an address is to say. -/
def importOutline (target : String) : Outline := .statement (collapseSpace ("@import url('" ++ target ++ "')"))

/-- An import stands with its semicolon. -/
theorem exists_import (simple : IsSimpleText s) : ∃ content, Forms content (importText s).toList [importOutline s] := by
  let run := ("@import url(".toList.map code ++ (code '\'' :: (cellsOf false s.toList ++ [code '\'']))) ++ [code ')']
  have letters : ∀ c ∈ s.toList, c ≠ '\'' ∧ c ≠ '\\' ∧ c ≠ '\n' := by
    refine fun c hc => ⟨?_, ?_, ?_⟩ <;> rintro rfl <;> exact simple.simple _ hc (by decide)
  have chars_run : chars run = ("@import url('" ++ s ++ "')").toList := by
    simp [run, chars, Function.comp_def]
  have text_eq : (importText s).toList = chars run ++ [';'] := by
    have no_start {start : String} {d : Char} (here : d ∈ start.toList) (special : d ∈ "'\"()\x7b\x7d;:/\\@\n".toList) :
        startsWith start s = false := by
      rw [startsWith, ← Bool.not_eq_true, List.isPrefixOf_iff_prefix]
      exact fun starts => simple.simple d (starts.subset here) special
    have unquoted : (startsWith "url(" s || startsWith "\"" s || startsWith "'" s) = false := by
      rw [no_start (d := '(') (by decide) (by decide), no_start (d := '"') (by decide) (by decide),
        no_start (d := '\'') (by decide) (by decide)]
      rfl
    rw [importText, simple.trimmed, chars_run]
    simp only [unquoted, Bool.false_eq_true, if_false]
    simp
  have ends : Trimmed isBlankCell [] run [] := ⟨by simp, ⟨code '@', rfl, rfl⟩, ⟨code ')', List.getLast?_concat, rfl⟩, by simp⟩
  have said : runOutlines run = some [importOutline s] := by
    have := runOutlines_of_trimmed ends
    rw [List.nil_append, List.append_nil] at this
    rw [this, chars_run, said?, if_pos (by simp), String.ofList_toList]
    rfl
  refine ⟨.ended run (.last []), ?_, ?_, .ended ?_ (by rw [said]; rfl) (writes_space (w := []) (by simp)).sound, ?_, ?_⟩
  · rw [Content.cells, Content.cells, text_eq]
    simp [chars]
  · have front : Passes ("@import url(".toList.map code) := passes_map_code (by simp [IsPlain])
    have quoted := passes_string (.inl rfl) letters
    have back : Passes ([')', ';'].map code) := passes_map_code (by simp [IsPlain])
    have whole : (Content.ended run (.last [])).cells = "@import url(".toList.map code ++
        ((code '\'' :: (cellsOf false s.toList ++ [code '\''])) ++ [')', ';'].map code) := by
      simp [Content.cells, run]
    rw [whole]
    exact front.append (quoted.append back)
  · have hidden : ∀ c ∈ cellsOf false s.toList, isBlankCell c = true := List.forall_mem_map.2 fun c _ => isBlankCell_hidden c
    have front : parensBehind 0 ("@import url(".toList.map code ++ [code '\'']) = some 1 := rfl
    have whole : run = ("@import url(".toList.map code ++ [code '\'']) ++ (cellsOf false s.toList ++ [code '\'', code ')']) := by
      simp [run]
    rw [whole, parensBehind_append, front, Option.bind_some, parensBehind_append, parensBehind_blank 1 hidden]
    rfl
  · simp [Content.lastRun]
  · rw [Content.outlines, said]
    rfl

/-! ## Media queries -/

/-- A media query stands with its rules. -/
theorem exists_media {m : Media} (is_unit : ∀ c ∈ unit.toList, isSpace c = true) (no_feed : '\n' ∉ unit.toList)
    (simple : m.IsSimple) : ∃ content, Writes content (m.print unit).toList
      [.block (collapseSpace ("@media " ++ m.query)) (m.rules.map Rule.outline)] := by
  have each : List.Forall₂ (fun l os => ∃ content, Writes content (String.toList l) os)
      (m.rules.map fun r => indentText (r.print unit) unit) (m.rules.map fun r => [r.outline]) := by
    rw [List.forall₂_map_left_iff, List.forall₂_map_right_iff, List.forall₂_same]
    exact fun r hr => exists_indented_rule is_unit no_feed (simple.rules r hr)
  have space : ∀ c ∈ "\n\n".toList, isSpace c = true := List.all_eq_true.1 rfl
  have block := exists_block simple.query.isPlainText.isHead_media space each
  have flat : (m.rules.map fun r => [r.outline]).flatten = m.rules.map Rule.outline := by
    rw [← List.flatMap_def, List.map_eq_flatMap]
  rw [flat, simple.query.trimmed] at block
  rwa [Media.print, simple.query.trimmed]

/-! ## Custom properties -/

/-- A simple name with dashes in front of it is simple. -/
theorem IsSimpleText.customName (h : IsSimpleText s) : IsSimpleText (customName s) := by
  unfold Css.customName
  split_ifs
  · exact h
  · have whole : ("--" ++ s).toList = ['-', '-'] ++ s.toList := by simp
    have ends : Trimmed isSpace [] ("--" ++ s).toList [] := by
      obtain ⟨c, last, letter⟩ := h.ends.last
      rw [whole]
      exact ⟨by simp, ⟨'-', rfl, rfl⟩, ⟨c, by rw [List.getLast?_append, Option.mem_def.1 last]; rfl, letter⟩, by simp⟩
    refine ⟨by simp [← String.toList_inj], ?_, ?_⟩
    · have := ends.trim
      rw [List.nil_append, List.append_nil] at this
      rw [Text.trimmed, this, String.ofList_toList]
    · rw [whole, List.forall_mem_append]
      have dash : '-' ∉ "'\"()\x7b\x7d;:/\\@\n".toList := by decide
      exact ⟨List.forall_mem_cons.2 ⟨dash, List.forall_mem_singleton.2 dash⟩, h.simple⟩

theorem AreSimple.mapKeys_customName (simple : AreSimple entries) : AreSimple (mapKeys customName entries) := by
  intro e he
  obtain ⟨entry, here, rfl⟩ := List.mem_map.1 (Entries.mem_of_mem_ofPairs he)
  exact ⟨(simple entry here).1.customName, (simple entry here).2⟩

theorem isPlain_customRule (simple : AreSimple entries) : (customRule entries).IsPlain where
  selector := show IsPlainText ":root" from ⟨by simp, rfl⟩
  named := show trimmed ":root" ≠ "" by decide
  properties e he :=
    have := simple.mapKeys_customName e he
    ⟨this.1.isPlainText, isPlainText_of_simple this.2.simple⟩

theorem Rule.IsSimple.isPlain {r : Rule} (simple : r.IsSimple) : r.IsPlain where
  selector := simple.selector.isPlainText
  named := by rw [simple.selector.trimmed]; exact simple.selector.some_char
  properties e he := ⟨(simple.properties e he).1.isPlainText, isPlainText_of_simple (simple.properties e he).2.simple⟩

/-! ## Sections -/

/-- The outline of a media query with its rules. -/
def Media.outline (m : Media) : Outline := .block (collapseSpace ("@media " ++ m.query)) (m.rules.map Rule.outline)

namespace Options

/-- The text that is made of options. -/
def print (unit : String) (o : Options) : String :=
  if (o.sections unit).isEmpty then "" else String.intercalate "\n\n" (o.sections unit) ++ "\n"

/-- What a stylesheet made of the options is to consist of. -/
def outlines (o : Options) : List Outline :=
  (o.imports.getD []).map importOutline ++
    (if (o.customProperties.getD []).isEmpty then [] else [(customRule (o.customProperties.getD [])).outline]) ++
    (o.rules.getD []).map Rule.outline ++ (o.media.getD []).map Media.outline

theorem create_eq (read : readOptions record v = .ok o) (present : o.isEmpty = false) :
    create unit v = .ok (o.print unit) := by
  unfold create
  rw [read]
  change (if o.isEmpty then _ else _) = _
  rw [present]
  rfl

end Options

/-- A section of lines stands with what each of them says. -/
theorem exists_sectionOf {ls : List String} {os : List Outline}
    (each : List.Forall₂ (fun l o => ∃ content, Forms content (String.toList l) [o]) ls os) :
    ∃ oss : List (List Outline), oss.flatten = os ∧
      List.Forall₂ (fun l os => ∃ content, Forms content (String.toList l) os) (sectionOf ls) oss := by
  cases each with
  | nil => exact ⟨[], rfl, .nil⟩
  | @cons l o ls os first behind =>
    refine ⟨[o :: os], by simp, .cons ?_ .nil⟩
    have feed : ∀ c ∈ ['\n'], isSpace c = true := List.all_eq_true.1 rfl
    have lines : List.Forall₂ (fun t os => ∃ content, Forms content t os) ((l :: ls).map String.toList)
        ((o :: os).map fun o => [o]) := by
      rw [List.forall₂_map_left_iff, List.forall₂_map_right_iff]
      exact .cons first behind
    have flat : ((o :: os).map fun o => [o]).flatten = o :: os := by
      rw [← List.flatMap_def]
      simp
    rw [String.toList_intercalate, intercalate_eq_stacked, ← flat]
    refine stacked_of_forall₂ (P := fun t os => ∃ content, Forms content t os) ?_ ?_ (by simp) feed lines
    · exact fun w hw => ⟨_, (writes_space hw).forms⟩
    · rintro t t' os os' ⟨content, h⟩ ⟨other, h'⟩
      exact ⟨_, h.append h'⟩

/-- The sections of options stand with what they say. -/
theorem Options.exists_sections (is_unit : ∀ c ∈ unit.toList, isSpace c = true) (no_feed : '\n' ∉ unit.toList)
    (simple : o.IsSimple) : ∃ oss : List (List Outline), oss.flatten = o.outlines ∧
      List.Forall₂ (fun l os => ∃ content, Forms content (String.toList l) os) (o.sections unit) oss := by
  have imports : List.Forall₂ (fun l o => ∃ content, Forms content (String.toList l) [o])
      ((o.imports.getD []).map importText) ((o.imports.getD []).map importOutline) := by
    rw [List.forall₂_map_left_iff, List.forall₂_map_right_iff, List.forall₂_same]
    exact fun t ht => exists_import (simple.imports t ht)
  obtain ⟨oss, flat, each⟩ := exists_sectionOf imports
  let properties := o.customProperties.getD []
  have custom : List.Forall₂ (fun l os => ∃ content, Forms content (String.toList l) os)
      (if properties.isEmpty then [] else [(customRule properties).print unit])
      (if properties.isEmpty then [] else [[(customRule properties).outline]]) := by
    split_ifs
    · exact .nil
    · obtain ⟨content, h⟩ := exists_rule is_unit (isPlain_customRule simple.customProperties)
      exact .cons ⟨content, h.forms⟩ .nil
  have rules : List.Forall₂ (fun l os => ∃ content, Forms content (String.toList l) os)
      ((o.rules.getD []).map (Rule.print unit)) ((o.rules.getD []).map fun r => [r.outline]) := by
    rw [List.forall₂_map_left_iff, List.forall₂_map_right_iff, List.forall₂_same]
    intro r hr
    obtain ⟨content, h⟩ := exists_rule is_unit (simple.rules r hr).isPlain
    exact ⟨content, h.forms⟩
  have media : List.Forall₂ (fun l os => ∃ content, Forms content (String.toList l) os)
      ((o.media.getD []).map (Media.print unit)) ((o.media.getD []).map fun m => [m.outline]) := by
    rw [List.forall₂_map_left_iff, List.forall₂_map_right_iff, List.forall₂_same]
    intro m hm
    obtain ⟨content, h⟩ := exists_media is_unit no_feed (simple.media m hm)
    exact ⟨content, h.forms⟩
  refine ⟨_, ?_, List.rel_append (List.rel_append (List.rel_append each custom) rules) media⟩
  have singles {α : Type} (f : α → Outline) (l : List α) : (l.map fun a => [f a]).flatten = l.map f := by
    rw [← List.flatMap_def, List.map_eq_flatMap]
  rw [List.flatten_append, List.flatten_append, List.flatten_append, flat, singles, singles, Options.outlines]
  congr 3
  split_ifs <;> rfl

theorem outline_ne_declaration (o : Options) : ∀ line ∈ o.outlines, line.isDeclaration = false := by
  simp only [Options.outlines, List.forall_mem_append, List.forall_mem_map]
  refine ⟨⟨⟨fun _ _ => rfl, ?_⟩, fun _ _ => rfl⟩, fun _ _ => rfl⟩
  split_ifs <;> simp [Rule.outline, Outline.isDeclaration]

/-- The text that is made of simple options is a stylesheet, and consists of what they say. -/
theorem Options.exists_sheet (is_unit : ∀ c ∈ unit.toList, isSpace c = true) (no_feed : '\n' ∉ unit.toList)
    (simple : o.IsSimple) : ∃ content, IsSheet (o.print unit).toList content ∧ content.outlines = o.outlines := by
  obtain ⟨oss, flat, each⟩ := exists_sections is_unit no_feed simple
  have feeds : ∀ c ∈ ['\n', '\n'], isSpace c = true := List.all_eq_true.1 rfl
  have written : ∃ content, Forms content (stacked [] ['\n', '\n'] ((o.sections unit).map String.toList)) oss.flatten := by
    refine stacked_of_forall₂ (P := fun t os => ∃ content, Forms content t os) ?_ ?_ (by simp) feeds
      (List.forall₂_map_left_iff.2 each)
    · exact fun w hw => ⟨_, (writes_space hw).forms⟩
    · rintro t t' os os' ⟨content, h⟩ ⟨other, h'⟩
      exact ⟨_, h.append h'⟩
  obtain ⟨content, h⟩ := written
  -- A line feed comes at the end, unless there is nothing.
  obtain ⟨w, space, text_eq⟩ : ∃ w : List Char, (∀ c ∈ w, isSpace c = true) ∧
      (o.print unit).toList = stacked [] ['\n', '\n'] ((o.sections unit).map String.toList) ++ w := by
    rw [Options.print]
    cases o.sections unit with
    | nil => exact ⟨[], by simp, rfl⟩
    | cons l ls =>
      refine ⟨['\n'], List.all_eq_true.1 rfl, ?_⟩
      rw [← intercalate_eq_stacked]
      simp [String.toList_intercalate]
  have whole := h.append (writes_space space).forms
  rw [List.append_nil, flat, ← text_eq] at whole
  refine ⟨_, ⟨whole.chars, whole.passes.isMask, whole.sound, ?_⟩, whole.outlines⟩
  rw [whole.outlines]
  exact outline_ne_declaration o

end Codewright.Css
