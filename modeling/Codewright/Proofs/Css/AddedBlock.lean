import Mathlib.Data.List.Forall2
import Codewright.Css.Revision
import Codewright.Css.Summary
import Codewright.Proofs.Css.Respace
import Codewright.Proofs.Text.Indent

/-!
# Adding blocks

What is added to a stylesheet that ends with a semicolon, a block or nothing is one more item behind the others.

* `Addition` – a rule, or rules under a media query; `Addition.outline` – the block that it is to be;
* `IsClosed source` – a stylesheet that does not end within a statement;
* `Writes content text outlines` – a text of plain code with its content;
* `addBlock_exact` – adding to a stylesheet that is closed.
-/

namespace Codewright.Css

open Text Json
open Relation (ReflTransGen)

/-! ## Additions -/

/-- A rule, or a media query with rules. -/
inductive Addition where
  | rule (r : Rule)
  | media (m : Media)

namespace Addition

/-- The text that is added. -/
def print (unit : String) : Addition → String
  | rule r => r.print unit
  | media m => m.print unit

/-- The rules that are added. -/
def rules : Addition → List Rule
  | rule r => [r]
  | media m => m.rules

/-- The media queries that are added. -/
def queries : Addition → List String
  | rule _ => []
  | media m => [m.query]

end Addition

/-- The outline of the declaration of a property. The property is what stands in front of the first colon. -/
def propertyOutline (entry : String × Json) : Outline :=
  let text := trimmed (entry.1 ++ ": " ++ valueText entry.2)
  .declaration (String.ofList (trim (text.toList.takeWhile (· != ':')))) text

/-- The outline of a rule. -/
def Rule.outline (r : Rule) : Outline := .block (collapseSpace r.selector) (r.properties.map propertyOutline)

/-- The outline of an addition. -/
def Addition.outline : Addition → Outline
  | rule r => r.outline
  | media m => .block (collapseSpace ("@media " ++ m.query)) (m.rules.map Rule.outline)

/-- A text without quotes, braces, semicolons, slashes, backslashes and at signs, in which round brackets are closed. -/
structure IsPlainText (t : String) : Prop where
  plain : ∀ c ∈ t.toList, c ∉ "'\"\x7b\x7d;/\\@".toList
  nests : parensBehind 0 (t.toList.map code) = some 0

/-- A rule of plain texts with a selector. -/
structure Rule.IsPlain (r : Rule) : Prop where
  selector : IsPlainText r.selector
  named : trimmed r.selector ≠ ""
  properties : ∀ e ∈ r.properties, IsPlainText e.1 ∧ IsPlainText (valueText e.2)

/-- An addition of plain texts. -/
def Addition.IsPlain : Addition → Prop
  | rule r => r.IsPlain
  | media m => IsPlainText m.query ∧ ∀ r ∈ m.rules, r.IsPlain

/-- A stylesheet that ends with a semicolon, a block or nothing, up to white space and comments. -/
def IsClosed (source : String) : Prop :=
  ∃ content, IsSheet source.toList content ∧ ∀ c ∈ content.lastRun, isBlankCell c = true

variable {text t t' u w : List Char} {run : List Cell} {content other added : Content} {os os' : List Outline} {s : String}
  {place : Nat}

/-! ## Items of contents put together -/

theorem runItems_blank_append {v : List Cell} (blank : ∀ c ∈ v, isBlankCell c = true) (place : Nat) (run : List Cell)
    (terminated : Bool) : runItems place (v ++ run) terminated = runItems (place + v.length) run terminated := by
  simp only [runItems, segment, trimRun_eq, runBody_blank_append blank, List.takeWhile_append_of_pos blank,
    List.length_append, Nat.add_assoc]

theorem runItems_append_blank {v : List Cell} (blank : ∀ c ∈ v, isBlankCell c = true) (place : Nat) (run : List Cell)
    (terminated : Bool) : runItems place (run ++ v) terminated = runItems place run terminated := by
  rcases exists_trimmed isBlankCell run with all | ⟨lead, body, tail, rfl, h⟩
  · rw [runItems_of_blank all, runItems_of_blank (List.forall_mem_append.2 ⟨all, blank⟩)]
  · have more := h.append_right blank
    rw [List.append_assoc, runItems, segment, trimRun_eq, runBody_of_trimmed more, more.takeWhile, runItems, segment,
      trimRun_eq, runBody_of_trimmed h, h.takeWhile]

namespace Content

theorem items_prepend {v : List Cell} (blank : ∀ c ∈ v, isBlankCell c = true) (content : Content) (place : Nat) :
    (content.prepend v).items place = content.items (place + v.length) := by
  cases content <;>
    simp only [prepend, items, runItems_blank_append blank, selectorOf, runBody_blank_append blank,
      List.takeWhile_append_of_pos blank, List.length_append, Nat.add_assoc]

/-- The items of a content do not depend on what stands behind it, if it ends with a semicolon, a block or nothing. -/
theorem items_append (closed : ∀ c ∈ content.lastRun, isBlankCell c = true) (other : Content) (place : Nat) :
    (content.append other).items place = content.items place ++ other.items (place + content.cells.length) := by
  induction content generalizing place with
  | last run =>
    have closed : ∀ c ∈ run, isBlankCell c = true := closed
    rw [append, items_prepend closed, items, runItems_of_blank closed]
    rfl
  | ended run rest ih =>
    rw [append, items, ih closed, items, List.append_assoc, cells, List.length_append, List.length_cons]
    congr 3
    omega
  | block prelude body rest _ ih =>
    rw [append, items, ih closed, items, List.cons_append, cells]
    simp only [List.length_append, List.length_cons]
    congr 3
    omega

theorem items_append_blank {v : List Cell} (blank : ∀ c ∈ v, isBlankCell c = true) (content : Content) (place : Nat) :
    (content.append (last v)).items place = content.items place := by
  induction content generalizing place with
  | last run => exact runItems_append_blank blank place run false
  | ended run rest ih => rw [append, items, ih, items]
  | block prelude body rest _ ih => rw [append, items, ih, items]

end Content

/-! ## Behind a stylesheet -/

/-- A block of plain code that is put behind a closed stylesheet stands behind its items. -/
theorem exists_added (sheet : IsSheet text content) (closed : ∀ c ∈ content.lastRun, isBlankCell c = true)
    (cells : added.cells = t.map code) (plain : ∀ c ∈ t, IsPlain c) (sound : added.Sound)
    (no_declaration : ∀ o ∈ added.outlines, o.isDeclaration = false) (ends : trimEnd t = t) :
    ∃ result place, IsSheet (appendBlock text t) result ∧ result.items 0 = content.items 0 ++ added.items place ∧
      result.outlines = content.outlines ++ added.outlines := by
  obtain ⟨tail, cut, space⟩ := exists_dropped isSpace text
  -- The text without the white space at its end has the same items.
  obtain ⟨v, w, whole, front, rfl⟩ := List.map_eq_append_iff.1 (sheet.chars.trans cut)
  have space : ∀ c ∈ w, isSpaceCell c = true := List.forall_mem_map.1 space
  obtain ⟨other, rfl, rfl⟩ := Content.exists_append_blank (isBlankCell_of_isSpaceCell space) whole
  have masked := sheet.mask
  rw [whole] at masked
  have masked := masked.of_append_space space
  have blank := isBlankCell_of_isSpaceCell space
  have closed : ∀ c ∈ other.lastRun, isBlankCell c = true := by
    rw [Content.lastRun_append_blank, List.forall_mem_append] at closed
    exact closed.1
  have gap : ∃ gap : List Char, (∀ c ∈ gap, isSpace c = true) ∧ (gap = [] → other.cells = []) ∧
      appendBlock text t = Text.chars other.cells ++ (gap ++ (t ++ ['\n'])) := by
    unfold appendBlock
    rw [ends, trimEnd, ← front]
    dsimp only
    split_ifs with nothing
    · have none : other.cells = [] := by simpa using nothing
      exact ⟨[], by simp, fun _ => none, by simp [none]⟩
    · exact ⟨['\n', '\n'], List.all_eq_true.1 rfl, by simp, by simp⟩
  obtain ⟨gap, is_gap, no_gap, text_eq⟩ := gap
  have is_gap' := isBlankCell_map_code is_gap
  have feed : ∀ c ∈ [code '\n'], isBlankCell c = true := by decide
  have all_plain : ∀ c ∈ gap ++ (t ++ ['\n']), IsPlain c := by
    simp only [List.forall_mem_append, List.forall_mem_singleton]
    exact ⟨fun c hc => isPlain_of_isSpace (is_gap c hc), plain, isPlain_of_isSpace rfl⟩
  have added_cells : gap.map code ++ (added.cells ++ [code '\n']) = (gap ++ (t ++ ['\n'])).map code := by simp [cells]
  have outlines : (other.append ((added.append (.last [code '\n'])).prepend (gap.map code))).outlines =
      (other.append (.last w)).outlines ++ added.outlines := by
    rw [Content.outlines_append closed, Content.outlines_prepend is_gap', Content.outlines_append_blank feed,
      Content.outlines_append_blank blank]
  refine ⟨other.append ((added.append (.last [code '\n'])).prepend (gap.map code)), 0 + other.cells.length + gap.length,
    ⟨?_, ?_, ?_, ?_⟩, ?_, outlines⟩
  · rw [text_eq, Content.cells_append, Content.cells_prepend, Content.cells_append, Content.cells, added_cells, Text.chars,
      List.map_append]
    exact congrArg _ (chars_cellsOf true _)
  · rw [Content.cells_append, Content.cells_prepend, Content.cells_append, Content.cells, added_cells]
    cases gap with
    | nil =>
      rw [no_gap rfl]
      exact (passes_map_code all_plain).isMask
    | cons c gap =>
      refine (masked.append_plain all_plain (by simp) ?_).isMask
      intro star
      obtain rfl : c = '*' := by simpa using star
      cases is_gap '*' List.mem_cons_self
  · have sound' := (Content.sound_append_blank blank).1 sheet.sound
    exact sound'.append closed ((Content.sound_prepend is_gap').2 ((Content.sound_append_blank feed).2 sound))
  · rw [outlines, List.forall_mem_append]
    exact ⟨sheet.no_declaration, no_declaration⟩
  · rw [Content.items_append closed, Content.items_prepend is_gap', Content.items_append_blank feed,
      Content.items_append_blank blank, List.length_map]

/-! ## Text of plain code -/

/-- A text of plain code with its content, behind which more can stand. -/
structure Writes (content : Content) (text : List Char) (os : List Outline) : Prop where
  cells : content.cells = text.map code
  plain : ∀ c ∈ text, IsPlain c
  sound : content.Sound
  nests : bracesBehind 0 content.cells = some 0
  closed : ∀ c ∈ content.lastRun, isBlankCell c = true
  outlines : content.outlines = os

theorem writes_space (space : ∀ c ∈ w, isSpace c = true) : Writes (.last (w.map code)) w [] := by
  have blank := isBlankCell_map_code space
  refine ⟨rfl, fun c hc => isPlain_of_isSpace (space c hc), ?_, bracesBehind_blank 0 blank, blank, ?_⟩
  · exact .last ⟨0, parensBehind_blank 0 blank⟩ (by rw [runOutlines_of_blank blank]; rfl)
  · rw [Content.outlines, runOutlines_of_blank blank]
    rfl

theorem Content.lastRun_append (content other : Content) :
    ∀ c ∈ (content.append other).lastRun, c ∈ content.lastRun ∨ c ∈ other.lastRun := by
  induction content with
  | last run =>
    intro c hc
    cases other with
    | last run' => exact List.mem_append.1 hc
    | ended => exact .inr hc
    | block => exact .inr hc
  | ended run rest ih => exact ih
  | block prelude body rest _ ih => exact ih

theorem Writes.append (h : Writes content t os) (h' : Writes other t' os') :
    Writes (content.append other) (t ++ t') (os ++ os') where
  cells := by rw [Content.cells_append, h.cells, h'.cells, List.map_append]
  plain := List.forall_mem_append.2 ⟨h.plain, h'.plain⟩
  sound := h.sound.append h.closed h'.sound
  nests := by rw [Content.cells_append, bracesBehind_append, h.nests, Option.bind_some, h'.nests]
  closed c hc := (Content.lastRun_append content other c hc).elim (h.closed c) (h'.closed c)
  outlines := by rw [Content.outlines_append h.closed, h.outlines, h'.outlines]

theorem chars_runBody_map_code (t : List Char) : chars (runBody (t.map code)) = trim t := by
  rcases exists_trimmed isSpace t with space | ⟨lead, body, tail, rfl, h⟩
  · rw [runBody_of_blank (isBlankCell_map_code space), trim_of_space space]
    rfl
  · have parts : Trimmed isBlankCell (lead.map code) (body.map code) (tail.map code) := by
      obtain ⟨c, first, stays⟩ := h.first
      obtain ⟨d, last, stays'⟩ := h.last
      refine ⟨isBlankCell_map_code h.lead, ⟨code c, ?_, stays⟩, ⟨code d, ?_, stays'⟩, isBlankCell_map_code h.tail⟩
      · rw [List.head?_map, Option.mem_def.1 first]
        rfl
      · rw [List.getLast?_map, Option.mem_def.1 last]
        rfl
    rw [List.map_append, List.map_append, runBody_of_trimmed parts, h.trim]
    exact chars_cellsOf true body

theorem selectorOf_map_code (t : List Char) : selectorOf (t.map code) = collapseSpace (String.ofList t) := by
  rw [selectorOf, chars_runBody_map_code]
  exact collapseSpace_congr (words_trim t)

/-! ### Texts one behind another -/

/-- Texts with white space in front of each. -/
def stacked (first between : List Char) : List (List Char) → List Char
  | [] => []
  | t :: ts => first ++ (t ++ stacked between between ts)

theorem intercalate_eq_stacked (sep : List Char) (ts : List (List Char)) : sep.intercalate ts = stacked [] sep ts := by
  have behind (ts : List (List Char)) (some_text : ts ≠ []) : sep ++ sep.intercalate ts = stacked sep sep ts := by
    induction ts with
    | nil => exact absurd rfl some_text
    | cons t ts ih =>
      cases ts with
      | nil => simp [List.intercalate, stacked]
      | cons t' ts =>
        rw [List.intercalate_cons_cons, stacked, ← ih (by simp)]
        simp
  cases ts with
  | nil => rfl
  | cons t ts =>
    cases ts with
    | nil => simp [List.intercalate, stacked]
    | cons t' ts =>
      rw [List.intercalate_cons_cons, stacked, ← behind _ (by simp)]
      simp

theorem toList_blockText (head : String) (body : List String) (separator : String) :
    (blockText head body separator).toList =
      head.toList ++ ' ' :: '\x7b' :: (stacked ['\n'] separator.toList (body.map String.toList) ++ ['\n', '\x7d']) := by
  cases body with
  | nil => simp [blockText, stacked]
  | cons l ls =>
    rw [blockText]
    simp [String.toList_intercalate, intercalate_eq_stacked, stacked]

theorem getLast?_blockText (head : String) (body : List String) (separator : String) :
    (blockText head body separator).toList.getLast? = some '\x7d' := by
  have last (front behind : List Char) : (front ++ ' ' :: '\x7b' :: (behind ++ ['\n', '\x7d'])).getLast? = some '\x7d' := by
    have whole : front ++ ' ' :: '\x7b' :: (behind ++ ['\n', '\x7d']) =
        (front ++ ' ' :: '\x7b' :: (behind ++ ['\n'])) ++ ['\x7d'] := by simp
    rw [whole, List.getLast?_concat]
  rw [toList_blockText, last]

/-- What holds of white space and of each text holds of the texts one behind another. -/
theorem stacked_of_forall₂ {P : List Char → List Outline → Prop} {ts : List (List Char)} {oss : List (List Outline)}
    (space : ∀ w, (∀ c ∈ w, isSpace c = true) → P w []) (append : ∀ t t' os os', P t os → P t' os' → P (t ++ t') (os ++ os'))
    (hu : ∀ c ∈ u, isSpace c = true) (hw : ∀ c ∈ w, isSpace c = true) (each : List.Forall₂ P ts oss) :
    P (stacked u w ts) oss.flatten := by
  induction each generalizing u with
  | nil => exact space [] (by simp)
  | cons first _ ih => exact append u _ [] _ (space u hu) (append _ _ _ _ first (ih hw))

theorem exists_stacked {ts : List (List Char)} {oss : List (List Outline)} (hu : ∀ c ∈ u, isSpace c = true)
    (hw : ∀ c ∈ w, isSpace c = true) (each : List.Forall₂ (fun t os => ∃ content, Writes content t os) ts oss) :
    ∃ content, Writes content (stacked u w ts) oss.flatten := by
  refine stacked_of_forall₂ (P := fun t os => ∃ content, Writes content t os) (fun w hw => ⟨_, writes_space hw⟩) ?_ hu hw each
  rintro t t' os os' ⟨content, h⟩ ⟨other, h'⟩
  exact ⟨_, h.append h'⟩

theorem respace_stacked {indent : List Char} (blank : ∀ c ∈ indent, isSpace c = true) (first between : List Char)
    {ts : List (List Char)} (ends : ∀ t ∈ ts, ∃ c ∈ t.getLast?, c ≠ '\n') :
    ReflTransGen (Respace isSpace) (stacked (first ++ ['\n']) (between ++ ['\n']) ts)
      (stacked (first ++ ['\n']) (between ++ ['\n']) (ts.map (indentLines · indent))) := by
  induction ts generalizing first with
  | nil => exact .refl
  | cons t ts ih =>
    rw [List.forall_mem_cons] at ends
    have here := respace_append_left (respace_indentLines blank t ends.1) first
    have behind := respace_append_left (ih between ends.2) ((first ++ ['\n']) ++ indentLines t indent)
    have := (respace_append_right here (stacked (between ++ ['\n']) (between ++ ['\n']) ts)).trans (by simpa using behind)
    simpa [stacked] using this

/-! ### Rules -/

namespace IsPlainText

variable {s : String}

theorem isPlain (h : IsPlainText s) : ∀ c ∈ s.toList, IsPlain c := by
  intro c hc
  refine ⟨?_, ?_, ?_⟩ <;> rintro rfl <;> exact h.plain _ hc (by decide)

theorem no_brace (h : IsPlainText s) : ∀ c ∈ s.toList, c ≠ '\x7b' ∧ c ≠ '\x7d' := by
  intro c hc
  refine ⟨?_, ?_⟩ <;> rintro rfl <;> exact h.plain _ hc (by decide)

theorem no_at (h : IsPlainText s) : '@' ∉ s.toList := fun at_ => h.plain '@' at_ (by decide)

theorem nests_trimmed (h : IsPlainText s) : parensBehind 0 ((trimmed s).toList.map code) = some 0 := by
  have nests := h.nests
  rw [trimmed, String.toList_ofList]
  rcases exists_trimmed isSpace s.toList with blank | ⟨lead, body, tail, cut, parts⟩
  · rw [trim_of_space blank]
    rfl
  · rw [cut, List.map_append, List.map_append, List.append_assoc, parensBehind_append,
      parensBehind_blank 0 (isBlankCell_map_code parts.lead), Option.bind_some, parensBehind_append] at nests
    rw [cut, parts.trim]
    cases behind : parensBehind 0 (body.map code) with
    | none =>
      rw [behind] at nests
      cases nests
    | some n =>
      rw [behind, Option.bind_some, parensBehind_blank n (isBlankCell_map_code parts.tail)] at nests
      exact nests

end IsPlainText

theorem mem_trimmed {c : Char} (hc : c ∈ (trimmed s).toList) : c ∈ s.toList := by
  rw [trimmed, String.toList_ofList] at hc
  rcases exists_trimmed isSpace s.toList with blank | ⟨lead, body, tail, cut, parts⟩
  · rw [trim_of_space blank] at hc
    cases hc
  · rw [cut, parts.trim] at hc
    rw [cut]
    simp [hc]

/-- A property stands in a block with its semicolon. -/
theorem exists_entry {e : String × Json} (space : ∀ c ∈ w, isSpace c = true) (name : IsPlainText e.1)
    (value : IsPlainText (valueText e.2)) :
    ∃ content, Writes content (w ++ (propertyText e).toList) [propertyOutline e] := by
  have text_eq : (propertyText e).toList = (e.1 ++ ": " ++ valueText e.2).toList ++ [';'] := by simp [propertyText]
  have parts : (e.1 ++ ": " ++ valueText e.2).toList = e.1.toList ++ ([':', ' '] ++ (valueText e.2).toList) := by simp
  have colon : ':' ∈ trim (e.1 ++ ": " ++ valueText e.2).toList := (mem_trim_iff rfl).2 (by simp)
  have said : runOutlines ((w ++ (e.1 ++ ": " ++ valueText e.2).toList).map code) = some [propertyOutline e] := by
    have same : chars (runBody ((w ++ (e.1 ++ ": " ++ valueText e.2).toList).map code)) =
        trim (e.1 ++ ": " ++ valueText e.2).toList := by
      rw [chars_runBody_map_code, trim_space_append space]
    have some_cell : ¬(runBody ((w ++ (e.1 ++ ": " ++ valueText e.2).toList).map code)).isEmpty = true := by
      intro none
      rw [List.isEmpty_iff.1 none] at same
      rw [← same] at colon
      cases colon
    have no_at : (trim (e.1 ++ ": " ++ valueText e.2).toList).head? ≠ some '@' := by
      intro at_
      have := (mem_trim_iff rfl).1 (List.mem_of_head? at_)
      simp [name.no_at, value.no_at] at this
    rw [runOutlines, if_neg some_cell, same, said?, if_neg no_at, if_pos (List.contains_iff_mem.2 colon)]
    simp [propertyOutline, trimmed]
  refine ⟨.ended ((w ++ (e.1 ++ ": " ++ valueText e.2).toList).map code) (.last []), ?_, ?_, ?_, ?_, by simp [Content.lastRun], ?_⟩
  · rw [text_eq]
    simp [Content.cells]
  · rw [text_eq, parts]
    simp only [List.forall_mem_append, List.forall_mem_singleton]
    exact ⟨fun c hc => isPlain_of_isSpace (space c hc), ⟨name.isPlain, by simp [IsPlain], value.isPlain⟩, isPlain_semicolon⟩
  · refine .ended ?_ (by rw [said]; rfl) (writes_space (w := []) (by simp)).sound
    rw [parts]
    have colon : parensBehind 0 ([':', ' '].map code) = some 0 := rfl
    simp only [List.map_append, parensBehind_append, parensBehind_blank 0 (isBlankCell_map_code space), Option.bind_some,
      name.nests, colon, value.nests]
  · rw [Content.cells, Content.cells, parts]
    simp only [List.map_append, bracesBehind_append, bracesBehind_blank 0 (isBlankCell_map_code space), Option.bind_some,
      bracesBehind_map_code name.no_brace, bracesBehind_map_code value.no_brace]
    rfl
  · rw [Content.outlines, said, Content.outlines]
    rfl

/-- A block of what has been written. -/
theorem Writes.block {p : List Char} (h : Writes content t os) (plain : ∀ c ∈ p, IsPlain c)
    (nests : parensBehind 0 (p.map code) = some 0) (no_brace : ∀ c ∈ p, c ≠ '\x7b' ∧ c ≠ '\x7d') (named : trim p ≠ []) :
    Writes (.block (p.map code) content (.last [])) (p ++ '\x7b' :: (t ++ ['\x7d']))
      [.block (collapseSpace (String.ofList p)) os] where
  cells := by simp [Content.cells, h.cells]
  plain := by
    simp only [List.forall_mem_append, List.forall_mem_cons]
    exact ⟨plain, isPlain_opening, h.plain, isPlain_closing, by simp⟩
  sound := by
    refine .block nests ?_ h.nests h.sound (writes_space (w := []) (by simp)).sound
    intro none
    have := chars_runBody_map_code p
    rw [none] at this
    exact named this.symm
  nests := by
    have inside : bracesBehind 1 content.cells = some 1 := bracesBehind_add h.nests 1
    rw [Content.cells, bracesBehind_append, bracesBehind_map_code no_brace, Option.bind_some, bracesBehind,
      if_pos rfl, bracesBehind_append, inside]
    rfl
  closed := by simp [Content.lastRun]
  outlines := by
    rw [Content.outlines, selectorOf_map_code, h.outlines]
    rfl

/-- A text that can stand in front of a block. -/
structure IsHead (p : String) : Prop where
  plain : ∀ c ∈ p.toList, IsPlain c
  nests : parensBehind 0 (p.toList.map code) = some 0
  no_brace : ∀ c ∈ p.toList, c ≠ '\x7b' ∧ c ≠ '\x7d'
  named : trim p.toList ≠ []

/-- A block of texts that have been written, with any white space between them. -/
theorem exists_spaced_block {head : String} {lead first between tail : List Char} {body : List (List Char)}
    {oss : List (List Outline)} (h : IsHead head) (hl : ∀ c ∈ lead, isSpace c = true) (hf : ∀ c ∈ first, isSpace c = true)
    (hb : ∀ c ∈ between, isSpace c = true) (ht : ∀ c ∈ tail, isSpace c = true)
    (each : List.Forall₂ (fun t os => ∃ content, Writes content t os) body oss) :
    ∃ content, Writes content (lead ++ (head.toList ++ ' ' :: '\x7b' :: (stacked first between body ++ (tail ++ ['\x7d']))))
      [.block (collapseSpace head) oss.flatten] := by
  obtain ⟨inner, written⟩ := exists_stacked hf hb each
  have lines := written.append (writes_space ht)
  rw [List.append_nil] at lines
  have nests : parensBehind 0 ((head.toList ++ [' ']).map code) = some 0 := by
    rw [List.map_append, parensBehind_append, h.nests]
    rfl
  have block := lines.block (p := head.toList ++ [' '])
    (List.forall_mem_append.2 ⟨h.plain, by simp [IsPlain]⟩) nests (List.forall_mem_append.2 ⟨h.no_brace, by simp⟩)
    (by rw [trim_append_space (List.all_eq_true.1 rfl)]; exact h.named)
  have same : collapseSpace (String.ofList (head.toList ++ [' '])) = collapseSpace head := by
    rw [collapseSpace_congr (words_append_space (w := [' ']) (List.all_eq_true.1 rfl)), String.ofList_toList]
  have whole : head.toList ++ ' ' :: '\x7b' :: (stacked first between body ++ (tail ++ ['\x7d'])) = (head.toList ++ [' ']) ++
      '\x7b' :: ((stacked first between body ++ tail) ++ ['\x7d']) := by simp
  rw [whole, ← same]
  exact ⟨_, (writes_space hl).append block⟩

/-- A block of lines that have been written. -/
theorem exists_block {head separator : String} {body : List String} {oss : List (List Outline)} (h : IsHead head)
    (space : ∀ c ∈ separator.toList, isSpace c = true)
    (each : List.Forall₂ (fun l os => ∃ content, Writes content l.toList os) body oss) :
    ∃ content, Writes content (blockText head body separator).toList [.block (collapseSpace head) oss.flatten] := by
  have feed : ∀ c ∈ ['\n'], isSpace c = true := List.all_eq_true.1 rfl
  have nothing : ∀ c ∈ ([] : List Char), isSpace c = true := by simp
  rw [toList_blockText]
  exact exists_spaced_block h nothing feed space feed (List.forall₂_map_left_iff.2 each)

theorem IsPlainText.isHead (h : IsPlainText s) (named : trimmed s ≠ "") : IsHead (trimmed s) where
  plain c hc := h.isPlain c (mem_trimmed hc)
  nests := h.nests_trimmed
  no_brace c hc := h.no_brace c (mem_trimmed hc)
  named := by
    intro none
    rw [trimmed, String.toList_ofList, trim_trim] at none
    exact named (by rw [trimmed, none])

theorem collapseSpace_trimmed (s : String) : collapseSpace (trimmed s) = collapseSpace s := by
  rw [trimmed, collapseSpace_congr (words_trim s.toList), String.ofList_toList]

theorem IsPlainText.isHead_media (h : IsPlainText s) : IsHead ("@media " ++ trimmed s) where
  plain := by
    rw [String.toList_append, List.forall_mem_append]
    refine ⟨?_, fun c hc => h.isPlain c (mem_trimmed hc)⟩
    intro c hc
    refine ⟨?_, ?_, ?_⟩ <;> rintro rfl <;> exact absurd hc (by decide)
  nests := by
    have front : parensBehind 0 ("@media ".toList.map code) = some 0 := rfl
    rw [String.toList_append, List.map_append, parensBehind_append, front, Option.bind_some, h.nests_trimmed]
  no_brace := by
    rw [String.toList_append, List.forall_mem_append]
    exact ⟨by simp, fun c hc => h.no_brace c (mem_trimmed hc)⟩
  named := by
    intro none
    have : '@' ∈ trim ("@media " ++ trimmed s).toList := (mem_trim_iff rfl).2 (by simp)
    rw [none] at this
    cases this

theorem exists_rule {unit : String} {r : Rule} (is_unit : ∀ c ∈ unit.toList, isSpace c = true) (plain : r.IsPlain) :
    ∃ content, Writes content (r.print unit).toList [r.outline] := by
  have each : List.Forall₂ (fun l os => ∃ content, Writes content (String.toList l) os)
      (r.properties.map fun e => unit ++ propertyText e) (r.properties.map fun e => [propertyOutline e]) := by
    rw [List.forall₂_map_left_iff, List.forall₂_map_right_iff, List.forall₂_same]
    intro e he
    rw [String.toList_append]
    exact exists_entry is_unit (plain.properties e he).1 (plain.properties e he).2
  have space : ∀ c ∈ "\n".toList, isSpace c = true := List.all_eq_true.1 rfl
  have block := exists_block (plain.selector.isHead plain.named) space each
  have flat : (r.properties.map fun e => [propertyOutline e]).flatten = r.properties.map propertyOutline := by
    rw [← List.flatMap_def, List.map_eq_flatMap]
  rwa [collapseSpace_trimmed, flat] at block

/-- The text of a media query is that of its rules, indented. -/
theorem respace_media {unit : String} {m : Media} (is_unit : ∀ c ∈ unit.toList, isSpace c = true) :
    ReflTransGen (Respace isSpace) (blockText ("@media " ++ trimmed m.query) (m.rules.map (Rule.print unit)) "\n\n").toList
      (m.print unit).toList := by
  have ends : ∀ t ∈ m.rules.map fun r => (r.print unit).toList, ∃ c ∈ t.getLast?, c ≠ '\n' := by
    rw [List.forall_mem_map]
    intro r _
    exact ⟨'\x7d', getLast?_blockText _ _ _, by decide⟩
  have lines := respace_stacked is_unit [] ['\n'] ends
  rw [Media.print, toList_blockText, toList_blockText]
  have behind := respace_append_left (respace_append_right lines ['\n', '\x7d'])
    (("@media " ++ trimmed m.query).toList ++ [' ', '\x7b'])
  simpa [indentText, Function.comp_def] using behind

theorem respace_map_code (h : Respace isSpace t t') : Respace isSpaceCell (t.map code) (t'.map code) := by
  obtain ⟨blank, blank', some_blank, some_blank'⟩ := h
  simp only [List.map_append]
  exact .mk (List.forall_mem_map.2 blank) (List.forall_mem_map.2 blank') (by simpa using some_blank)
    (by simpa using some_blank')

/-- Plain code in which other white space stands in the place of some. -/
theorem exists_respaced (sound : content.Sound) (cells : content.cells = t.map code) (plain : ∀ c ∈ t, IsPlain c)
    (steps : ReflTransGen (Respace isSpace) t t') : ∃ other : Content, other.cells = t'.map code ∧
      (∀ c ∈ t', IsPlain c) ∧ other.Sound ∧ collapsedAll other.outlines = collapsedAll content.outlines := by
  induction steps with
  | refl => exact ⟨content, cells, plain, sound, rfl⟩
  | @tail u v _ step ih =>
    obtain ⟨middle, cells, plain, sound, same⟩ := ih
    have plain' : ∀ c ∈ v, IsPlain c := fun c hc => by
      cases space : isSpace c with
      | true => exact isPlain_of_isSpace space
      | false => exact plain c ((step.mem_iff space).1 hc)
    have step' : Respace isSpaceCell middle.cells (v.map code) := by
      rw [cells]
      exact respace_map_code step
    obtain ⟨other, cells', sound', same'⟩ := sound.respace step'
    exact ⟨other, cells', plain', sound', same'.trans same⟩

/-- The text of an addition is plain code with the block that it is to be. -/
theorem exists_addition {unit : String} {a : Addition} (is_unit : ∀ c ∈ unit.toList, isSpace c = true) (plain : a.IsPlain) :
    ∃ added : Content, added.cells = (a.print unit).toList.map code ∧ (∀ c ∈ (a.print unit).toList, IsPlain c) ∧
      added.Sound ∧ collapsedAll added.outlines = [a.outline.collapsed] := by
  cases a with
  | rule r =>
    obtain ⟨content, h⟩ := exists_rule is_unit plain
    exact ⟨content, h.cells, h.plain, h.sound, congrArg collapsedAll h.outlines⟩
  | media m =>
    have each : List.Forall₂ (fun l os => ∃ content, Writes content (String.toList l) os)
        (m.rules.map (Rule.print unit)) (m.rules.map fun r => [r.outline]) := by
      rw [List.forall₂_map_left_iff, List.forall₂_map_right_iff, List.forall₂_same]
      exact fun r hr => exists_rule is_unit (plain.2 r hr)
    have space : ∀ c ∈ "\n\n".toList, isSpace c = true := List.all_eq_true.1 rfl
    obtain ⟨content, h⟩ := exists_block plain.1.isHead_media space each
    obtain ⟨other, cells, plain', sound, same⟩ := exists_respaced h.sound h.cells h.plain (respace_media is_unit)
    have flat : (m.rules.map fun r => [r.outline]).flatten = m.rules.map Rule.outline := by
      rw [← List.flatMap_def, List.map_eq_flatMap]
    have selector : collapseSpace ("@media " ++ trimmed m.query) = collapseSpace ("@media " ++ m.query) := by
      have front (q : String) : words ("@media " ++ q).toList = words "@media".toList ++ words q.toList := by
        rw [← words_append (w := [' ']) (List.all_eq_true.1 rfl) (by simp)]
        simp
      simp only [collapseSpace, front, trimmed, String.toList_ofList, words_trim]
    refine ⟨other, cells, plain', sound, ?_⟩
    rw [same, h.outlines, flat, selector]
    rfl

/-! ## What is told of it -/

mutual

/-- What an item with this outline tells. -/
def Outline.facts (inAnimation : Bool) : Outline → List Fact
  | .block selector children =>
    blockFacts inAnimation selector ++ outlineFacts (inAnimation || isAnimation selector) children
  | .statement text => statementFacts text
  | .declaration property _ => [.declared property]

/-- What items with these outlines tell. -/
def outlineFacts (inAnimation : Bool) : List Outline → List Fact
  | [] => []
  | o :: os => o.facts inAnimation ++ outlineFacts inAnimation os

end

mutual

theorem facts_outline (text : List Char) (inAnimation : Bool) (i : Item) :
    (i.outline text).facts inAnimation = i.facts inAnimation := by
  cases i with
  | block selector start opening closing children =>
    rw [Item.outline, Outline.facts, Item.facts, outlineFacts_outlinesOf]
  | statement t => rw [Item.outline, Outline.facts, Item.facts]
  | declaration property start stop terminated => rw [Item.outline, Outline.facts, Item.facts]

theorem outlineFacts_outlinesOf (text : List Char) (inAnimation : Bool) (is : List Item) :
    outlineFacts inAnimation (outlinesOf text is) = factsOf inAnimation is := by
  cases is with
  | nil => rw [outlinesOf, outlineFacts, factsOf]
  | cons i is => rw [outlinesOf, outlineFacts, factsOf, facts_outline, outlineFacts_outlinesOf]

end

/-- What is told besides declarations. -/
def besidesDeclarations (facts : List Fact) : List Fact :=
  facts.filter fun
    | .declared _ => false
    | _ => true

theorem besidesDeclarations_append (fs gs : List Fact) :
    besidesDeclarations (fs ++ gs) = besidesDeclarations fs ++ besidesDeclarations gs := List.filter_append ..

mutual

/-- White space concerns the declarations only. -/
theorem facts_collapsed (inAnimation : Bool) (o : Outline) :
    besidesDeclarations (o.collapsed.facts inAnimation) = besidesDeclarations (o.facts inAnimation) := by
  cases o with
  | block selector children =>
    rw [Outline.collapsed, Outline.facts, Outline.facts, besidesDeclarations_append, besidesDeclarations_append,
      outlineFacts_collapsedAll]
  | statement t => rw [Outline.collapsed]
  | declaration property t => rfl

theorem outlineFacts_collapsedAll (inAnimation : Bool) (os : List Outline) :
    besidesDeclarations (outlineFacts inAnimation (collapsedAll os)) = besidesDeclarations (outlineFacts inAnimation os) := by
  cases os with
  | nil => rfl
  | cons o os =>
    rw [collapsedAll, outlineFacts, outlineFacts, besidesDeclarations_append, besidesDeclarations_append, facts_collapsed,
      outlineFacts_collapsedAll]

end

theorem atRule?_eq_none (no_at : '@' ∉ s.toList) : atRule? (collapseSpace s) = none := by
  unfold atRule?
  split
  next first =>
    have : '@' ∈ (collapseSpace s).toList := by simp [first]
    rcases mem_collapseSpace this with space | here
    · cases space
    · exact absurd here no_at
  next => rfl

theorem outlineFacts_properties (inAnimation : Bool) (entries : Entries) :
    besidesDeclarations (outlineFacts inAnimation (entries.map propertyOutline)) = [] := by
  induction entries with
  | nil => rfl
  | cons e entries ih =>
    rw [List.map_cons, outlineFacts, besidesDeclarations_append, ih]
    rfl

theorem Rule.facts_outline {r : Rule} (plain : r.IsPlain) :
    besidesDeclarations (r.outline.facts false) = [.rule (collapseSpace r.selector) false] := by
  have none := atRule?_eq_none plain.selector.no_at
  rw [Rule.outline, Outline.facts, besidesDeclarations_append, outlineFacts_properties, blockFacts, none]
  rfl

theorem toList_collapseSpace_media (query : String) : ∃ behind, (collapseSpace ("@media " ++ query)).toList =
    "@media".toList ++ behind ∧ trim behind = (collapseSpace query).toList ∧ (behind = [] ∨ behind.head? = some ' ') := by
  have split : words ("@media " ++ query).toList = "@media".toList :: words query.toList := by
    have word : words "@media".toList = ["@media".toList] := by decide
    have parts : ("@media " ++ query).toList = "@media".toList ++ ([' '] ++ query.toList) := by simp
    rw [parts, words_append (List.all_eq_true.1 rfl) (by simp), word]
    rfl
  rw [toList_collapseSpace, split, ← trim_collapseSpace query, toList_collapseSpace]
  cases words query.toList with
  | nil => exact ⟨[], rfl, rfl, .inl rfl⟩
  | cons w ws =>
    refine ⟨[' '] ++ [' '].intercalate (w :: ws), ?_, trim_space_append (List.all_eq_true.1 rfl), .inr rfl⟩
    rw [List.intercalate_cons_cons, List.append_assoc]

theorem atRule?_media (query : String) : atRule? (collapseSpace ("@media " ++ query)) = some "@media" := by
  obtain ⟨behind, text_eq, -, ends⟩ := toList_collapseSpace_media query
  have name : ("media".toList ++ behind).takeWhile (fun c => !isSpace c && c != '(') = "media".toList := by
    rw [List.takeWhile_append_of_pos (List.all_eq_true.1 rfl)]
    rcases ends with rfl | first
    · rfl
    · obtain ⟨more, rfl⟩ := List.head?_eq_some_iff.1 first
      rw [List.takeWhile_cons_of_neg (by decide), List.append_nil]
  unfold atRule?
  rw [text_eq]
  change some (asciiLower (String.ofList ('@' :: ("media".toList ++ behind).takeWhile _))) = _
  rw [name]
  decide

theorem blockFacts_media (query : String) :
    blockFacts false (collapseSpace ("@media " ++ query)) = [.media (collapseSpace query)] := by
  obtain ⟨behind, text_eq, same, -⟩ := toList_collapseSpace_media query
  rw [blockFacts, atRule?_media]
  change [Fact.media (String.ofList (trim ((collapseSpace ("@media " ++ query)).toList.drop 6)))] = _
  rw [text_eq, List.drop_left' (by decide), same, String.ofList_toList]

theorem outlineFacts_rules {rules : List Rule} (plain : ∀ r ∈ rules, r.IsPlain) :
    besidesDeclarations (outlineFacts false (rules.map Rule.outline)) =
      rules.map fun r => .rule (collapseSpace r.selector) false := by
  induction rules with
  | nil => rfl
  | cons r rs ih =>
    rw [List.forall_mem_cons] at plain
    rw [List.map_cons, outlineFacts, besidesDeclarations_append, Rule.facts_outline plain.1, ih plain.2]
    rfl

/-- An addition tells of its queries and its rules. -/
theorem Addition.facts_outline {a : Addition} (plain : a.IsPlain) : besidesDeclarations (a.outline.facts false) =
    a.queries.map (fun q => .media (collapseSpace q)) ++ a.rules.map fun r => .rule (collapseSpace r.selector) false := by
  cases a with
  | rule r => exact Rule.facts_outline plain
  | media m =>
    have no_animation : isAnimation (collapseSpace ("@media " ++ m.query)) = false := by
      rw [isAnimation, atRule?_media]
      decide
    rw [outline, Outline.facts, besidesDeclarations_append, blockFacts_media, no_animation, Bool.or_false,
      outlineFacts_rules plain.2]
    rfl

/-! ## Adding -/

theorem filterMap_besidesDeclarations {α : Type} (g : Fact → Option α) (none : ∀ p, g (.declared p) = none) (fs : List Fact) :
    (besidesDeclarations fs).filterMap g = fs.filterMap g := by
  rw [besidesDeclarations, List.filterMap_filter]
  congr 1
  funext f
  cases f <;> simp [none]

theorem countP_besidesDeclarations (p : Fact → Bool) (no : ∀ name, p (.declared name) = false) (fs : List Fact) :
    (besidesDeclarations fs).countP p = fs.countP p := by
  rw [besidesDeclarations, List.countP_filter]
  congr 1
  funext f
  cases f <;> simp [no]

theorem trimEnd_print (unit : String) (a : Addition) : trimEnd (a.print unit).toList = (a.print unit).toList := by
  have last : (a.print unit).toList.getLast? = some '\x7d' := by
    cases a with
    | rule r => exact getLast?_blockText _ _ _
    | media m => exact getLast?_blockText _ _ _
  obtain ⟨front, cut⟩ := List.getLast?_eq_some_iff.1 last
  rw [cut]
  exact dropWhileEnd_append_cons (b := []) rfl

theorem factsOf_append (inAnimation : Bool) (is js : List Item) :
    factsOf inAnimation (is ++ js) = factsOf inAnimation is ++ factsOf inAnimation js := by
  induction is with
  | nil => rfl
  | cons i is ih => rw [List.cons_append, factsOf, ih, factsOf, List.append_assoc]

theorem length_outlinesOf (text : List Char) (items : List Item) : (outlinesOf text items).length = items.length := by
  induction items with
  | nil => rfl
  | cons i is ih => rw [outlinesOf, List.length_cons, List.length_cons, ih]

/-- Behind the items of a closed stylesheet, an addition stands as the block that it is to be, and the summary tells of it
behind what it told before. -/
theorem addBlock_exact (settings : Settings) {source : String} {items : List Item} (a : Addition)
    (parsed : parse source.toList = .ok items) (closed : IsClosed source) (plain : a.IsPlain) :
    ∃ block, parse (addBlock source (a.print settings.unit)).toList = .ok (items ++ [block]) ∧
      outlinesOf (addBlock source (a.print settings.unit)).toList items = outlinesOf source.toList items ∧
      (block.outline (addBlock source (a.print settings.unit)).toList).collapsed = a.outline.collapsed ∧
      (Summary.ofItems (items ++ [block])).ruleCount = (Summary.ofItems items).ruleCount + a.rules.length ∧
      (Summary.ofItems (items ++ [block])).selectors =
        (Summary.ofItems items).selectors ++ a.rules.map (collapseSpace ·.selector) ∧
      (Summary.ofItems (items ++ [block])).mediaQueries =
        (Summary.ofItems items).mediaQueries ++ a.queries.map collapseSpace ∧
      (Summary.ofItems (items ++ [block])).imports = (Summary.ofItems items).imports := by
  obtain ⟨content, sheet, closed⟩ := closed
  obtain rfl : content.items 0 = items := Except.ok.inj (sheet.parse.symm.trans parsed)
  obtain ⟨added, cells, is_plain, sound, same⟩ := exists_addition (isSpace_unit settings) plain
  obtain ⟨o, outlines, collapsed⟩ : ∃ o, added.outlines = [o] ∧ o.collapsed = a.outline.collapsed := by
    rw [collapsedAll_eq_map, List.map_eq_singleton_iff] at same
    exact same
  have no_declaration : ∀ o ∈ added.outlines, o.isDeclaration = false := by
    rw [outlines, List.forall_mem_singleton, ← isDeclaration_collapsed, collapsed, isDeclaration_collapsed]
    cases a <;> rfl
  obtain ⟨result, place, sheet', items_eq, outlines_eq⟩ :=
    exists_added sheet closed cells is_plain sound no_declaration (trimEnd_print settings.unit a)
  have text_eq : (addBlock source (a.print settings.unit)).toList = appendBlock source.toList (a.print settings.unit).toList :=
    String.toList_ofList
  rw [text_eq]
  generalize appendBlock source.toList (a.print settings.unit).toList = text at sheet'
  have told := Content.outlinesOf_whole sheet'.chars
  rw [items_eq, outlines_eq, ← Content.outlinesOf_whole sheet.chars, outlinesOf_append] at told
  obtain ⟨old, new⟩ := List.append_inj told (by rw [length_outlinesOf, length_outlinesOf])
  obtain ⟨block, alone⟩ : ∃ block, added.items place = [block] := by
    rw [← List.length_eq_one_iff, ← length_outlinesOf text, new, outlines]
    rfl
  rw [alone, outlines] at new
  have new : block.outline text = o := List.head_eq_of_cons_eq new
  rw [alone] at items_eq
  -- What is told of the new block, declarations apart.
  have facts : besidesDeclarations (block.facts false) =
      a.queries.map (fun q => .media (collapseSpace q)) ++ a.rules.map fun r => .rule (collapseSpace r.selector) false := by
    rw [← facts_outline text, new, ← facts_collapsed, collapsed, facts_collapsed, a.facts_outline plain]
  have all_facts : factsOf false (content.items 0 ++ [block]) = factsOf false (content.items 0) ++ block.facts false := by
    rw [factsOf_append, factsOf, factsOf, List.append_nil]
  refine ⟨block, items_eq ▸ sheet'.parse, old, by rw [new, collapsed], ?_, ?_, ?_, ?_⟩
  all_goals simp only [Summary.ofItems, Summary.ofFacts, all_facts, List.countP_append, List.filterMap_append]
  · rw [← countP_besidesDeclarations _ (by simp) (block.facts false), facts]
    simp [Function.comp_def]
  · rw [← filterMap_besidesDeclarations _ (by simp) (block.facts false), facts]
    simp
  · rw [← filterMap_besidesDeclarations _ (by simp) (block.facts false), facts]
    simp
  · rw [← filterMap_besidesDeclarations _ (by simp) (block.facts false), facts]
    simp

/-- A media query with a rule, behind an import. -/
theorem addBlock_exact_media :
    ∃ items block, parse "@import 'a.css';".toList = .ok items ∧ IsClosed "@import 'a.css';" ∧
      (Addition.media ⟨"print", [⟨"b", [("c", .string "d")]⟩]⟩).IsPlain ∧
      addBlock "@import 'a.css';" ((Addition.media ⟨"print", [⟨"b", [("c", .string "d")]⟩]⟩).print (Settings.unit {})) =
        "@import 'a.css';\n\n@media print \x7b\n    b \x7b\n        c: d;\n    \x7d\n\x7d\n" ∧
      parse "@import 'a.css';\n\n@media print \x7b\n    b \x7b\n        c: d;\n    \x7d\n\x7d\n".toList =
        .ok (items ++ [block]) ∧
      (Summary.ofItems (items ++ [block])).ruleCount = (Summary.ofItems items).ruleCount + 1 ∧
      (Summary.ofItems (items ++ [block])).imports = (Summary.ofItems items).imports := by
  have sheet : IsSheet "@import 'a.css';".toList
      (.ended ("@import '".toList.map code ++ cellsOf false "a.css".toList ++ [code '\'']) (.last [])) := by
    refine ⟨rfl, rfl, .ended rfl rfl (.last ⟨0, rfl⟩ rfl), by decide⟩
  have closed : IsClosed "@import 'a.css';" := ⟨_, sheet, by decide⟩
  have plain : (Addition.media ⟨"print", [⟨"b", [("c", .string "d")]⟩]⟩).IsPlain := by
    refine ⟨⟨by simp, rfl⟩, ?_⟩
    rw [List.forall_mem_singleton]
    refine ⟨⟨by simp, rfl⟩, by decide, ?_⟩
    rw [List.forall_mem_singleton]
    exact ⟨⟨by simp, rfl⟩, show IsPlainText "d" from ⟨by simp, rfl⟩⟩
  obtain ⟨block, parsed, -, -, count, -, -, imports⟩ := addBlock_exact {} _ sheet.parse closed plain
  have text : addBlock "@import 'a.css';" ((Addition.media ⟨"print", [⟨"b", [("c", .string "d")]⟩]⟩).print (Settings.unit {})) =
      "@import 'a.css';\n\n@media print \x7b\n    b \x7b\n        c: d;\n    \x7d\n\x7d\n" := by
    decide +kernel
  rw [text] at parsed
  exact ⟨_, block, sheet.parse, closed, plain, text, parsed, count, imports⟩

/-- An import at the end of a stylesheet has no semicolon, and takes up the rule that is put behind it. -/
theorem not_addBlock_exact : ¬∀ (settings : Settings) (source : String) (items : List Item) (a : Addition),
    parse source.toList = .ok items → a.IsPlain →
      ∃ block, parse (addBlock source (a.print settings.unit)).toList = .ok (items ++ [block]) := by
  intro claim
  have sheet : IsSheet "@import 'a.css'".toList
      (.last ("@import '".toList.map code ++ cellsOf false "a.css".toList ++ [code '\''])) := by
    refine ⟨rfl, rfl, .last ⟨0, rfl⟩ rfl, by decide⟩
  have plain : (Addition.rule ⟨"b", []⟩).IsPlain := ⟨⟨by simp, rfl⟩, by decide, by simp⟩
  have sheet' : IsSheet (addBlock "@import 'a.css'" ((Addition.rule ⟨"b", []⟩).print (Settings.unit {}))).toList
      (.block ("@import '".toList.map code ++ cellsOf false "a.css".toList ++ "'\n\nb ".toList.map code) (.last [code '\n'])
        (.last [code '\n'])) := by
    refine ⟨rfl, rfl, .block rfl (by decide) rfl (.last ⟨0, rfl⟩ rfl) (.last ⟨0, rfl⟩ rfl), by decide⟩
  obtain ⟨block, parsed⟩ := claim {} _ _ _ sheet.parse plain
  -- One item, where there should be two.
  have counts := congrArg List.length (Except.ok.inj (sheet'.parse.symm.trans parsed))
  have counts : 1 = 1 + 1 := counts
  exact absurd counts (by decide)

end Codewright.Css
