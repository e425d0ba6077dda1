import Codewright.Css.Revision
import Codewright.Proofs.Css.Respace
import Codewright.Proofs.Text.Indent

/-!
# Updated properties

A change of a rule takes the first top-level block with its selector, and leaves everything around the content of the block
as it is.

* `Content.firstBody?`, `Content.replaceFirst` – the content of that block, and another one in its place;
* `changeFirst` – the same of outlines;
* `exists_around` – the cells around the content of the block, and the places that an edit is told.

`updateProperty` sets a property in the first top-level block with a selector: the first declaration of the property is written
anew, or a declaration is put behind the last item of the block.

* `IsEntry property value` – a property and a value that a declaration can be written of;
* `setProperty` – what happens to the outlines of the block;
* `Content.accepts` – what a block must look like for that;
* `updateProperty_exact`.
-/

namespace Codewright.Css

open Text

/-- The outlines with the children of the first block of a selector changed. -/
def changeFirst (selector : String) (f : List Outline → List Outline) : List Outline → List Outline
  | [] => []
  | .block s children :: os =>
    if s = selector then .block s (f children) :: os else .block s children :: changeFirst selector f os
  | o :: os => o :: changeFirst selector f os

namespace Content

/-- The content of the first block with a selector. -/
def firstBody? (selector : String) : Content → Option Content
  | last _ => none
  | ended _ rest => rest.firstBody? selector
  | block prelude body rest => if selectorOf prelude = selector then some body else rest.firstBody? selector

/-- Another content for the first block with a selector. -/
def replaceFirst (selector : String) : Content → Content → Content
  | last run, _ => last run
  | ended run rest, body' => ended run (rest.replaceFirst selector body')
  | block prelude body rest, body' =>
    if selectorOf prelude = selector then block prelude body' rest
    else block prelude body (rest.replaceFirst selector body')

end Content

variable {selector : String} {content body body' : Content} {place : Nat}

/-! ## What changes and what does not -/

theorem changeFirst_runOutlines (f : List Outline → List Outline) (run : List Cell) (os : List Outline) :
    changeFirst selector f ((runOutlines run).getD [] ++ os) = (runOutlines run).getD [] ++ changeFirst selector f os := by
  unfold runOutlines said?
  split_ifs <;> rfl

theorem outlines_replaceFirst (f : List Outline → List Outline) (found : content.firstBody? selector = some body)
    (changed : body'.outlines = f body.outlines) :
    (content.replaceFirst selector body').outlines = changeFirst selector f content.outlines := by
  induction content with
  | last run => cases found
  | ended run rest ih =>
    rw [Content.replaceFirst, Content.outlines, Content.outlines, changeFirst_runOutlines, ih found]
  | block prelude inner rest _ ih =>
    rw [Content.firstBody?] at found
    rw [Content.replaceFirst, Content.outlines, changeFirst]
    split_ifs at found ⊢ with same
    · cases found
      rw [Content.outlines, changed]
    · rw [Content.outlines, ih found]

/-- No top-level item becomes a declaration. -/
theorem isDeclaration_changeFirst {f : List Outline → List Outline} {os : List Outline}
    (rules : ∀ o ∈ os, o.isDeclaration = false) : ∀ o ∈ changeFirst selector f os, o.isDeclaration = false := by
  induction os with
  | nil => exact rules
  | cons o os ih =>
    rw [List.forall_mem_cons] at rules
    cases o with
    | block s children =>
      rw [changeFirst]
      split_ifs
      · exact List.forall_mem_cons.2 ⟨rfl, rules.2⟩
      · exact List.forall_mem_cons.2 ⟨rfl, ih rules.2⟩
    | statement t => exact List.forall_mem_cons.2 ⟨rfl, ih rules.2⟩
    | declaration p t => cases rules.1

theorem Content.Sound.replaceFirst (sound : content.Sound) (inner : body'.Sound)
    (nests : bracesBehind 0 body'.cells = some 0) : (content.replaceFirst selector body').Sound := by
  induction sound with
  | last free told => exact .last free told
  | ended free told _ ih => exact .ended free told ih
  | block free named nests' inner' sound _ ih =>
    rw [Content.replaceFirst]
    split_ifs
    · exact .block free named nests inner sound
    · exact .block free named nests' inner' ih

/-! ## Cells around -/

theorem findSome?_blockWith?_runItems (place : Nat) (run : List Cell) (terminated : Bool) :
    (runItems place run terminated).findSome? (blockWith? selector) = none := by
  unfold runItems segment
  split
  · rfl
  · split_ifs <;> rfl

/-- The cells in front of the content of the block and behind it; an edit is told where they meet. -/
theorem exists_around (found : content.firstBody? selector = some body) : ∃ u v,
    content.cells = u ++ code '\x7b' :: (body.cells ++ code '\x7d' :: v) ∧
    (∀ body', (content.replaceFirst selector body').cells = u ++ code '\x7b' :: (body'.cells ++ code '\x7d' :: v)) ∧
    ∀ place, ∃ start, (content.items place).findSome? (blockWith? selector) =
      some (start, place + u.length, place + u.length + body.cells.length + 1, body.items (place + u.length + 1)) := by
  induction content with
  | last run => cases found
  | ended run rest ih =>
    obtain ⟨u, v, cells, replaced, told⟩ := ih found
    refine ⟨run ++ code ';' :: u, v, by simp [Content.cells, cells], fun body' => ?_, fun place => ?_⟩
    · simp [Content.replaceFirst, Content.cells, replaced]
    · obtain ⟨start, told⟩ := told (place + run.length + 1)
      refine ⟨start, ?_⟩
      have further : place + (run ++ code ';' :: u).length = place + run.length + 1 + u.length := by
        simp
        omega
      rw [Content.items, List.findSome?_append, findSome?_blockWith?_runItems, Option.none_or, told, further]
  | block prelude inner rest _ ih =>
    rw [Content.firstBody?] at found
    split_ifs at found with same
    · cases found
      refine ⟨prelude, rest.cells, rfl, fun body' => by rw [Content.replaceFirst, if_pos same]; rfl, fun place => ?_⟩
      refine ⟨place + (prelude.takeWhile isBlankCell).length, ?_⟩
      rw [Content.items, List.findSome?_cons, blockWith?, if_pos same]
    · obtain ⟨u, v, cells, replaced, told⟩ := ih found
      refine ⟨prelude ++ code '\x7b' :: (inner.cells ++ code '\x7d' :: u), v, by simp [Content.cells, cells],
        fun body' => by simp [Content.replaceFirst, same, Content.cells, replaced], fun place => ?_⟩
      obtain ⟨start, told⟩ := told (place + prelude.length + inner.cells.length + 2)
      refine ⟨start, ?_⟩
      have further : place + (prelude ++ code '\x7b' :: (inner.cells ++ code '\x7d' :: u)).length =
          place + prelude.length + inner.cells.length + 2 + u.length := by
        simp
        omega
      rw [Content.items, List.findSome?_cons, blockWith?, if_neg same, told, further]

/-- Without such a block, an edit finds none. -/
theorem findSome?_blockWith?_eq_none (none_found : content.firstBody? selector = none) (place : Nat) :
    (content.items place).findSome? (blockWith? selector) = none := by
  induction content generalizing place with
  | last run => exact findSome?_blockWith?_runItems ..
  | ended run rest ih =>
    rw [Content.items, List.findSome?_append, findSome?_blockWith?_runItems, Option.none_or]
    exact ih none_found _
  | block prelude inner rest _ ih =>
    rw [Content.firstBody?] at none_found
    split_ifs at none_found with same
    rw [Content.items, List.findSome?_cons, blockWith?, if_neg same]
    exact ih none_found _

/-- The content of the block is sound, and leads from code to code. -/
theorem sound_firstBody (sound : content.Sound) (masked : IsMask content.cells)
    (found : content.firstBody? selector = some body) :
    body.Sound ∧ bracesBehind 0 body.cells = some 0 ∧ Passes (body.cells ++ [code '\x7d']) := by
  induction sound with
  | last => cases found
  | ended _ _ _ ih => exact ih (IsMask.right masked isPlain_semicolon) found
  | @block prelude inner rest free named nests sound _ _ ih =>
    rw [Content.firstBody?] at found
    have behind : IsMask (inner.cells ++ code '\x7d' :: rest.cells) := IsMask.right masked isPlain_opening
    split_ifs at found with same
    · cases found
      exact ⟨sound, nests, behind.passes_left isPlain_closing⟩
    · exact ih (behind.right isPlain_closing) found

/-- Another content may stand in the block, if it leads from code to code. -/
theorem mask_replaceFirst (masked : IsMask content.cells) (found : content.firstBody? selector = some body)
    (passes : Passes (body'.cells ++ [code '\x7d'])) : IsMask (content.replaceFirst selector body').cells := by
  obtain ⟨u, v, cells, replaced, -⟩ := exists_around found
  rw [cells] at masked
  have front := masked.passes_left isPlain_opening
  have behind := (masked.right isPlain_opening).right isPlain_closing
  have := front.append_isMask (passes.append_isMask behind)
  rw [replaced]
  simpa using this

end Codewright.Css

/-! ## Updated properties -/

namespace Codewright.Css

open Text

/-! ## Declarations -/

/-- A letter, a digit, a dash or an underscore. -/
def isNameChar (c : Char) : Bool := c.isAlphanum || c == '-' || c == '_'

/-- A property and a value that a declaration can be written of as they are. -/
structure IsEntry (property value : String) : Prop where
  name : ∀ c ∈ property.toList, isNameChar c = true
  trimmed : trimmed value = value
  some_value : value ≠ ""
  plain : ∀ c ∈ value.toList, c ∉ "'\"()\x7b\x7d;/\\\n".toList

/-- The text of a declaration without its semicolon. -/
def declarationText (property value : String) : String := property ++ ": " ++ value

/-- The outline of a declaration. -/
def entryOutline (property value : String) : Outline := .declaration property (declarationText property value)

/-- The outline tells of a declaration of this property, whatever its case. -/
def Outline.declares (property : String) : Outline → Bool
  | .declaration p _ => sameIgnoringCase p property
  | _ => false

/-- Outlines with a declaration in the place of the first one of its property, or else at the end. -/
def setProperty (property value : String) : List Outline → List Outline
  | [] => [entryOutline property value]
  | o :: os =>
    if o.declares property then entryOutline property value :: os else o :: setProperty property value os

/-- A run declares the property. -/
def runDeclares (property : String) (run : List Cell) : Bool :=
  ((runOutlines run).getD []).any (Outline.declares property)

/-- A property can be set in a block of this content: in the declaration that is replaced, braces nest; where there is none,
what stands behind the last semicolon and the last block leaves no round bracket open and is no at-rule. -/
def Content.accepts (property : String) : Content → Bool
  | last run =>
    if runDeclares property run then bracesBehind 0 run == some 0
    else parensBehind 0 run == some 0 && (chars (runBody run)).head? != some '@'
  | ended run rest => if runDeclares property run then bracesBehind 0 run == some 0 else rest.accepts property
  | block _ _ rest => rest.accepts property

variable {property value selector p t : String} {text x y : List Char} {run lead middle tail cells : List Cell} {content body : Content}
  {place start stop : Nat} {c d : Char}

/-! ## Characters that nothing is made of -/

/-- A character that is neither a round bracket nor a brace nor a semicolon. -/
def IsInert (c : Char) : Prop := c ≠ '(' ∧ c ≠ ')' ∧ c ≠ '\x7b' ∧ c ≠ '\x7d' ∧ c ≠ ';'

theorem parensBehind_inert (inert : ∀ c ∈ text, IsInert c) (n : Nat) : parensBehind n (text.map code) = some n := by
  induction text with
  | nil => rfl
  | cons c cs ih =>
    rw [List.forall_mem_cons] at inert
    obtain ⟨⟨opens, closes, brace, brace', semicolon⟩, inert⟩ := inert
    have face : (code c).face = c := rfl
    rw [List.map_cons, parensBehind, face, if_neg opens, if_neg closes, if_neg (by simp [brace, brace', semicolon]),
      ih inert]

theorem bracesBehind_congr {a b : List Cell} (same : ∀ n, bracesBehind n a = bracesBehind n b) (run : List Cell) (n : Nat) :
    bracesBehind n (run ++ a) = bracesBehind n (run ++ b) := by
  simp only [bracesBehind_append, same]

theorem isSpace_of_isNameChar (h : isNameChar c = true) : isSpace c = false := by
  have : (c.isAlphanum = true ∨ c = '-') ∨ c = '_' := by simpa [isNameChar] using h
  rcases this with (letter | rfl) | rfl
  · exact isSpace_of_isAlphanum letter
  · rfl
  · rfl

theorem ne_of_isNameChar (h : isNameChar c = true) (hd : isNameChar d = false) : c ≠ d := by
  rintro rfl
  rw [h] at hd
  cases hd

theorem isPlain_of_isNameChar (h : isNameChar c = true) : IsPlain c :=
  ⟨ne_of_isNameChar h rfl, ne_of_isNameChar h rfl, ne_of_isNameChar h rfl⟩

theorem isInert_of_isNameChar (h : isNameChar c = true) : IsInert c :=
  ⟨ne_of_isNameChar h rfl, ne_of_isNameChar h rfl, ne_of_isNameChar h rfl, ne_of_isNameChar h rfl, ne_of_isNameChar h rfl⟩

theorem toList_declarationText :
    (declarationText property value).toList = property.toList ++ ':' :: ' ' :: value.toList := by
  simp [declarationText]

namespace IsEntry

variable (h : IsEntry property value)

include h

theorem forall_chars {P : Char → Prop} (name : ∀ c, isNameChar c = true → P c) (colon : P ':') (space : P ' ')
    (char : ∀ c, c ∉ "'\"()\x7b\x7d;/\\\n".toList → P c) : ∀ c ∈ (declarationText property value).toList, P c := by
  rw [toList_declarationText, List.forall_mem_append, List.forall_mem_cons, List.forall_mem_cons]
  exact ⟨fun c hc => name c (h.name c hc), colon, space, fun c hc => char c (h.plain c hc)⟩

theorem isPlain : ∀ c ∈ (declarationText property value).toList, IsPlain c := by
  refine h.forall_chars (fun c => isPlain_of_isNameChar) (by simp [IsPlain]) (by simp [IsPlain]) fun c hc => ?_
  refine ⟨?_, ?_, ?_⟩ <;> rintro rfl <;> exact hc (by decide)

theorem isInert : ∀ c ∈ (declarationText property value).toList, IsInert c := by
  refine h.forall_chars (fun c => isInert_of_isNameChar) (by simp [IsInert]) (by simp [IsInert]) fun c hc => ?_
  refine ⟨?_, ?_, ?_, ?_, ?_⟩ <;> rintro rfl <;> exact hc (by decide)

theorem no_brace : ∀ c ∈ (declarationText property value).toList, c ≠ '\x7b' ∧ c ≠ '\x7d' := fun c hc =>
  ⟨(h.isInert c hc).2.2.1, (h.isInert c hc).2.2.2.1⟩

theorem no_feed : '\n' ∉ (declarationText property value).toList := by
  intro feed
  refine h.forall_chars (P := (· ≠ '\n')) (fun c hc => ne_of_isNameChar hc rfl) (by decide) (by decide) (fun c hc => ?_) _
    feed rfl
  rintro rfl
  exact hc (by decide)

/-- What begins a declaration: a character of the name, or the colon. -/
theorem first_char : ∃ c ∈ (declarationText property value).toList.head?, isSpace c = false ∧ c ≠ '@' ∧ c ≠ '*' := by
  rw [toList_declarationText]
  cases chars : property.toList with
  | nil => exact ⟨':', rfl, rfl, by decide, by decide⟩
  | cons c cs =>
    have name : isNameChar c = true := h.name c (by simp [chars])
    exact ⟨c, rfl, isSpace_of_isNameChar name, ne_of_isNameChar name rfl, ne_of_isNameChar name rfl⟩

/-- What ends a declaration is the end of the value. -/
theorem last_char : ∃ c ∈ (declarationText property value).toList.getLast?, isSpace c = false := by
  have some_char : value.toList ≠ [] := by simpa using h.some_value
  have trimmed_eq : trim value.toList = value.toList := by
    have := congrArg String.toList h.trimmed
    rwa [Text.trimmed, String.toList_ofList] at this
  rcases exists_trimmed isSpace value.toList with blank | ⟨lead, body, tail, cut, parts⟩
  · rw [trim_of_space blank] at trimmed_eq
    exact absurd trimmed_eq.symm some_char
  · rw [cut, parts.trim] at trimmed_eq
    obtain ⟨c, last, stays⟩ := parts.last
    obtain ⟨before, rfl⟩ := List.getLast?_eq_some_iff.1 last
    refine ⟨c, ?_, stays⟩
    have shape : property.toList ++ ':' :: ' ' :: (before ++ [c]) = (property.toList ++ ':' :: ' ' :: before) ++ [c] := by
      simp
    rw [toList_declarationText, cut, ← trimmed_eq, shape]
    exact List.getLast?_concat

theorem trimmed_cells : Trimmed isBlankCell [] ((declarationText property value).toList.map code) [] := by
  obtain ⟨c, first, stays, -, -⟩ := h.first_char
  obtain ⟨d, last, stays'⟩ := h.last_char
  refine ⟨by simp, ⟨code c, ?_, stays⟩, ⟨code d, ?_, stays'⟩, by simp⟩
  · rw [List.head?_map, Option.mem_def.1 first]
    rfl
  · rw [List.getLast?_map, Option.mem_def.1 last]
    rfl

theorem said : said? (declarationText property value).toList = some (entryOutline property value) := by
  have no_at : (declarationText property value).toList.head? ≠ some '@' := by
    obtain ⟨c, first, -, no_at, -⟩ := h.first_char
    rw [Option.mem_def.1 first]
    simpa using no_at
  have colon : (declarationText property value).toList.contains ':' = true := by
    rw [toList_declarationText]
    simp
  have name : (declarationText property value).toList.takeWhile (· != ':') = property.toList := by
    rw [toList_declarationText, List.takeWhile_append_of_pos fun c hc => by simpa using ne_of_isNameChar (h.name c hc) rfl]
    simp
  have no_space : trim property.toList = property.toList :=
    trim_of_no_space fun c hc => isSpace_of_isNameChar (h.name c hc)
  rw [said?, if_neg no_at, if_pos colon, name, no_space, String.ofList_toList, String.ofList_toList, entryOutline]

end IsEntry

/-! ## Runs that declare a property -/

theorem runItems_of_trimmed (h : Trimmed isBlankCell lead middle tail) (place : Nat) (terminated : Bool) :
    runItems place (lead ++ middle ++ tail) terminated =
      match said? (chars middle) with
      | some (.statement t) => [.statement t]
      | some (.declaration p _) => [.declaration p (place + lead.length) (place + lead.length + middle.length) terminated]
      | _ => [] := by
  rw [runItems, segment, trimRun_eq, runBody_of_trimmed h, h.takeWhile, if_neg (by simpa using h.ne_nil)]
  dsimp only
  unfold said?
  split_ifs
  · rfl
  · simp [Except.toOption]
  · rfl

/-- A run that declares a property is a declaration of it between blank cells. -/
theorem exists_declaration (declares : runDeclares property run = true) : ∃ lead middle tail p,
    run = lead ++ middle ++ tail ∧ Trimmed isBlankCell lead middle tail ∧ sameIgnoringCase p property = true ∧
      ∀ place terminated, runItems place run terminated =
        [.declaration p (place + lead.length) (place + lead.length + middle.length) terminated] := by
  unfold runDeclares at declares
  rcases exists_trimmed isBlankCell run with blank | ⟨lead, middle, tail, rfl, h⟩
  · rw [runOutlines_of_blank blank] at declares
    cases declares
  · rw [runOutlines_of_trimmed h] at declares
    cases said : said? (chars middle) with
    | none =>
      rw [said] at declares
      cases declares
    | some o =>
      rw [said] at declares
      have declares : o.declares property = true := by simpa using declares
      cases o with
      | declaration p t => exact ⟨lead, middle, tail, p, rfl, h, declares, fun place terminated => by
          rw [runItems_of_trimmed h, said]⟩
      | _ => cases declares

/-- In a run that does not declare the property, an edit finds no declaration of it. -/
theorem findSome?_declarationOf?_runItems (no : runDeclares property run = false) (place : Nat) (terminated : Bool) :
    (runItems place run terminated).findSome? (declarationOf? property) = none := by
  unfold runDeclares at no
  rcases exists_trimmed isBlankCell run with blank | ⟨lead, middle, tail, rfl, h⟩
  · rw [runItems_of_blank blank]
    rfl
  · rw [runOutlines_of_trimmed h] at no
    rw [runItems_of_trimmed h]
    cases said : said? (chars middle) with
    | none => rfl
    | some o =>
      rw [said] at no
      have no : o.declares property = false := by simpa using no
      cases o with
      | declaration p t =>
        rw [Outline.declares] at no
        simp [declarationOf?, no]
      | _ => rfl

theorem setProperty_append (value : String) {os : List Outline} (no : os.any (Outline.declares property) = false)
    (ps : List Outline) :
    setProperty property value (os ++ ps) = os ++ setProperty property value ps := by
  induction os with
  | nil => rfl
  | cons o os ih =>
    rw [List.any_cons, Bool.or_eq_false_iff] at no
    rw [List.cons_append, setProperty, if_neg (by simp [no.1]), ih no.2, List.cons_append]

/-- In the place of its first declaration, a property is declared anew. -/
theorem setProperty_runOutlines (value : String) (declares : runDeclares property run = true) (ps : List Outline) :
    setProperty property value ((runOutlines run).getD [] ++ ps) = entryOutline property value :: ps := by
  unfold runDeclares runOutlines at declares
  unfold runOutlines
  split_ifs at declares ⊢ with blank
  · cases declares
  · cases said : said? (chars (runBody run)) with
    | none =>
      rw [said] at declares
      cases declares
    | some o =>
      rw [said] at declares
      have declares : o.declares property = true := by simpa using declares
      simp [setProperty, declares]

/-! ## Declarations in the place of others -/

/-- A declaration between blank cells. -/
def declarationRun (lead tail : List Cell) (property value : String) : List Cell :=
  lead ++ (declarationText property value).toList.map code ++ tail

namespace IsEntry

variable (h : IsEntry property value)

include h

theorem runOutlines (blank : ∀ c ∈ lead, isBlankCell c = true) (blank' : ∀ c ∈ tail, isBlankCell c = true) :
    runOutlines (declarationRun lead tail property value) = some [entryOutline property value] := by
  have parts : Trimmed isBlankCell lead ((declarationText property value).toList.map code) tail := by
    simpa using (h.trimmed_cells.append_left blank).append_right blank'
  have same : chars ((declarationText property value).toList.map code) = (declarationText property value).toList :=
    chars_cellsOf true _
  rw [declarationRun, runOutlines_of_trimmed parts, same, h.said]
  rfl

theorem parensBehind (blank : ∀ c ∈ lead, isBlankCell c = true) (blank' : ∀ c ∈ tail, isBlankCell c = true) (n : Nat) :
    parensBehind n (declarationRun lead tail property value) = some n := by
  simp only [declarationRun, parensBehind_append, parensBehind_blank _ blank, parensBehind_blank _ blank',
    parensBehind_inert h.isInert, Option.bind_some]

theorem bracesBehind (blank : ∀ c ∈ lead, isBlankCell c = true) (blank' : ∀ c ∈ tail, isBlankCell c = true) (n : Nat) :
    bracesBehind n (declarationRun lead tail property value) = some n := by
  simp only [declarationRun, bracesBehind_append, bracesBehind_blank _ blank, bracesBehind_blank _ blank',
    bracesBehind_map_code h.no_brace, Option.bind_some]

/-- In the place of what stands between the blank cells, the declaration leads from code to code. -/
theorem passes (parts : Trimmed isBlankCell lead middle tail) (passes : Passes (lead ++ middle ++ tail ++ [code d]))
    (plain : IsPlain d) : Passes (declarationRun lead tail property value ++ [code d]) := by
  obtain ⟨c, first, stays⟩ := parts.first
  have masked : IsMask (lead ++ (middle ++ (tail ++ [code d]))) := by simpa using passes.isMask
  obtain ⟨front, rest⟩ := masked.trimmed_start parts.lead ⟨c, by simp [Option.mem_def.1 first], stays⟩
  have behind : IsMask (tail ++ [code d]) :=
    rest.behind_body (by simp [IsQuote, plain.1, plain.2.1]) parts.tail parts.last
  have := (front.append (passes_map_code h.isPlain)).append (behind.passes_left plain)
  simpa only [declarationRun, List.append_assoc] using this

end IsEntry

/-- A text in which a declaration takes the place of what stands between blank cells. -/
theorem take_declaration_drop (whole : text = x ++ (chars (lead ++ middle ++ tail ++ cells) ++ y)) :
    text.take (x.length + lead.length) ++ (declarationText property value).toList ++
      text.drop (x.length + lead.length + middle.length) =
    x ++ (chars (declarationRun lead tail property value ++ cells) ++ y) := by
  have same : ((declarationText property value).toList.map code).map Cell.char = (declarationText property value).toList :=
    chars_cellsOf true _
  have whole : text = (x ++ chars lead) ++ (chars middle ++ (chars tail ++ (chars cells ++ y))) := by
    rw [whole]
    simp
  have front : text.take (x.length + lead.length) = x ++ chars lead := by
    rw [whole]
    exact List.take_left' (by simp)
  have behind : text.drop (x.length + lead.length + middle.length) = chars tail ++ (chars cells ++ y) := by
    rw [whole, ← List.append_assoc]
    exact List.drop_left' (by simp [Nat.add_assoc])
  have run : chars (declarationRun lead tail property value ++ cells) =
      chars lead ++ ((declarationText property value).toList ++ (chars tail ++ chars cells)) := by
    simp only [chars, declarationRun, List.map_append, same, List.append_assoc]
  rw [front, behind, run]
  simp

/-- The part of a content that leads from code to code, up to a semicolon in it. -/
theorem passes_ended {rest : List Cell} (passes : Passes (run ++ code ';' :: rest)) :
    Passes (run ++ [code ';']) ∧ Passes rest := by
  have front := passes.isMask.passes_left isPlain_semicolon
  rw [List.append_cons] at passes
  exact ⟨front, front.right passes⟩

/-- The same of a block in it. -/
theorem passes_block {rest : List Cell} (passes : Passes (run ++ code '\x7b' :: (cells ++ code '\x7d' :: rest))) :
    Passes (run ++ code '\x7b' :: (cells ++ [code '\x7d'])) ∧ Passes rest := by
  have whole : run ++ code '\x7b' :: (cells ++ code '\x7d' :: rest) = (run ++ code '\x7b' :: cells) ++ code '\x7d' :: rest := by
    simp
  rw [whole] at passes
  have front := passes.isMask.passes_left isPlain_closing
  rw [List.append_cons] at passes
  exact ⟨by simpa using front, front.right passes⟩

/-- The first declaration of a property is written anew: the text changes there, and the content is sound again. -/
theorem exists_replaced (entry : IsEntry property value) (sound : content.Sound)
    (passes : Passes (content.cells ++ [code '\x7d'])) (accepts : content.accepts property = true)
    (found : (content.items x.length).findSome? (declarationOf? property) = some (start, stop))
    (whole : text = x ++ (chars content.cells ++ y)) : ∃ other : Content, other.Sound ∧
      Passes (other.cells ++ [code '\x7d']) ∧ (∀ n, bracesBehind n other.cells = bracesBehind n content.cells) ∧
      other.outlines = setProperty property value content.outlines ∧
      text.take start ++ (declarationText property value).toList ++ text.drop stop = x ++ (chars other.cells ++ y) := by
  have nests {run : List Cell} (h : bracesBehind 0 run = some 0) (n : Nat) : bracesBehind n run = some n := by
    simpa using bracesBehind_add h n
  induction sound generalizing x with
  | @last run free told =>
    rw [Content.items] at found
    rw [Content.accepts] at accepts
    by_cases declares : runDeclares property run = true
    · rw [if_pos declares, beq_iff_eq] at accepts
      obtain ⟨lead, middle, tail, p, rfl, parts, same, items⟩ := exists_declaration declares
      rw [items] at found
      obtain ⟨rfl, rfl⟩ : x.length + lead.length = start ∧ x.length + lead.length + middle.length = stop := by
        simpa [declarationOf?, same] using found
      have outlines := setProperty_runOutlines value declares []
      rw [List.append_nil] at outlines
      have told' := entry.runOutlines parts.lead parts.tail
      refine ⟨.last (declarationRun lead tail property value),
        .last ⟨0, entry.parensBehind parts.lead parts.tail 0⟩ (by rw [told']; rfl),
        entry.passes parts passes isPlain_closing, fun n => ?_, ?_, ?_⟩
      · rw [Content.cells, Content.cells, entry.bracesBehind parts.lead parts.tail, nests accepts]
      · rw [Content.outlines, told', Content.outlines, outlines]
        rfl
      · have whole : text = x ++ (chars (lead ++ middle ++ tail ++ []) ++ y) := by rw [whole, Content.cells, List.append_nil]
        rw [take_declaration_drop whole, List.append_nil]
        rfl
    · rw [findSome?_declarationOf?_runItems (by simpa using declares)] at found
      cases found
  | @ended run rest free told sound ih =>
    rw [Content.items, List.findSome?_append] at found
    rw [Content.accepts] at accepts
    rw [Content.cells, List.append_assoc, List.cons_append] at passes
    obtain ⟨front, behind⟩ := passes_ended passes
    by_cases declares : runDeclares property run = true
    · rw [if_pos declares, beq_iff_eq] at accepts
      obtain ⟨lead, middle, tail, p, rfl, parts, same, items⟩ := exists_declaration declares
      rw [items] at found
      obtain ⟨rfl, rfl⟩ : x.length + lead.length = start ∧ x.length + lead.length + middle.length = stop := by
        simpa [declarationOf?, same] using found
      have told' := entry.runOutlines parts.lead parts.tail
      refine ⟨.ended (declarationRun lead tail property value) rest,
        .ended (entry.parensBehind parts.lead parts.tail 0) (by rw [told']; rfl) sound, ?_, fun n => ?_, ?_, ?_⟩
      · have := (entry.passes parts front isPlain_semicolon).append behind
        simpa [Content.cells] using this
      · simp only [Content.cells, bracesBehind_append _ (declarationRun lead tail property value),
          bracesBehind_append _ (lead ++ middle ++ tail), entry.bracesBehind parts.lead parts.tail, nests accepts]
      · rw [Content.outlines, told', Content.outlines, setProperty_runOutlines value declares]
        rfl
      · exact take_declaration_drop whole
    · rw [if_neg declares] at accepts
      have no : runDeclares property run = false := by simpa using declares
      rw [findSome?_declarationOf?_runItems no, Option.none_or] at found
      have place : (x ++ (chars run ++ [';'])).length = x.length + run.length + 1 := by simp [Nat.add_assoc]
      rw [← place] at found
      obtain ⟨other, sound', passes', braces, outlines, text_eq⟩ :=
        ih behind accepts found (by rw [whole, Content.cells]; simp)
      refine ⟨.ended run other, .ended free told sound', ?_, fun n => ?_, ?_, ?_⟩
      · have := front.append passes'
        simpa [Content.cells] using this
      · have := bracesBehind_congr braces (run ++ [code ';']) n
        simpa [Content.cells] using this
      · rw [Content.outlines, Content.outlines, setProperty_append value no, outlines]
      · rw [text_eq, Content.cells]
        simp
  | @block prelude body rest free named inner_nests inner sound _ ih =>
    rw [Content.items, List.findSome?_cons] at found
    rw [Content.accepts] at accepts
    have passes : Passes (prelude ++ code '\x7b' :: (body.cells ++ code '\x7d' :: (rest.cells ++ [code '\x7d']))) := by
      simpa [Content.cells] using passes
    obtain ⟨front, behind⟩ := passes_block passes
    have place : (x ++ (chars prelude ++ '\x7b' :: (chars body.cells ++ ['\x7d']))).length =
        x.length + prelude.length + body.cells.length + 2 := by
      simp
      omega
    rw [← place] at found
    obtain ⟨other, sound', passes', braces, outlines, text_eq⟩ :=
      ih behind accepts found (by rw [whole, Content.cells]; simp)
    refine ⟨.block prelude body other, .block free named inner_nests inner sound', ?_, fun n => ?_, ?_, ?_⟩
    · have := front.append passes'
      simpa [Content.cells] using this
    · have := bracesBehind_congr braces (prelude ++ code '\x7b' :: (body.cells ++ [code '\x7d'])) n
      simpa [Content.cells] using this
    · rw [Content.outlines, Content.outlines, setProperty, outlines]
      rfl
    · rw [text_eq, Content.cells]
      simp

/-! ## Declarations behind others -/

theorem openEnd?_runItems {terminated : Bool} (ended : terminated = true) (place : Nat) (run : List Cell) :
    ∀ i ∈ runItems place run terminated, openEnd? i = none := by
  subst ended
  unfold runItems segment
  split
  · simp [Except.toOption]
  · split_ifs <;> simp [Except.toOption, openEnd?]

/-- Whether the last item is open depends on the items behind those that are not. -/
theorem getLast?_bind_openEnd? {is js : List Item} (closed : ∀ i ∈ is, openEnd? i = none) :
    (is ++ js).getLast?.bind openEnd? = js.getLast?.bind openEnd? := by
  rcases List.eq_nil_or_concat js with rfl | ⟨js, j, rfl⟩
  · rw [List.append_nil]
    cases last : is.getLast? with
    | none => rfl
    | some i => exact closed i (List.mem_of_getLast? last)
  · rw [List.concat_eq_append, ← List.append_assoc, List.getLast?_concat, List.getLast?_concat]

/-- A run that declares the property is found by an edit. -/
theorem runDeclares_eq_false {terminated : Bool} {is : List Item}
    (none_found : (runItems place run terminated ++ is).findSome? (declarationOf? property) = none) :
    runDeclares property run = false ∧ is.findSome? (declarationOf? property) = none := by
  rw [List.findSome?_append, Option.or_eq_none_iff] at none_found
  refine ⟨?_, none_found.2⟩
  cases declares : runDeclares property run with
  | false => rfl
  | true =>
    obtain ⟨lead, middle, tail, p, rfl, -, same, items⟩ := exists_declaration declares
    rw [items] at none_found
    simp [declarationOf?, same] at none_found

/-- What does not begin with an at sign is a declaration. -/
theorem eq_declaration {o : Outline} (said : said? text = some o) (no_statement : text.head? ≠ some '@') :
    ∃ p t, o = .declaration p t := by
  rw [said?, if_neg no_statement] at said
  split_ifs at said
  cases said
  exact ⟨_, _, rfl⟩

/-- A text with a semicolon at a place, if there is one to be closed. -/
def closeAt (text : List Char) : Option Nat → List Char
  | some stop => text.take stop ++ ';' :: text.drop stop
  | none => text

/-- The content with a semicolon behind its last declaration, if that is open: a declaration can follow. -/
structure IsClosing (text x y : List Char) (content other : Content) : Prop where
  sound : other.Sound
  passes : Passes (other.cells ++ [code '\x7d'])
  braces : ∀ n, bracesBehind n other.cells = bracesBehind n content.cells
  outlines : other.outlines = content.outlines
  closed : ∀ c ∈ other.lastRun, isBlankCell c = true
  length : other.cells.length =
    content.cells.length + ((content.items x.length).getLast?.bind openEnd?).isSome.toNat
  text_eq : closeAt text ((content.items x.length).getLast?.bind openEnd?) = x ++ (chars other.cells ++ y)

/-- A declaration at the end is closed in front of the blank cells behind it. -/
theorem IsClosing.last (free : parensBehind 0 (lead ++ middle ++ tail) = some 0) (h : Trimmed isBlankCell lead middle tail)
    (said : said? (chars middle) = some (.declaration p t)) (passes : Passes (lead ++ middle ++ tail ++ [code '\x7d']))
    (whole : text = x ++ (chars (lead ++ middle ++ tail) ++ y)) :
    IsClosing text x y (.last (lead ++ middle ++ tail)) (.ended (lead ++ middle) (.last tail)) := by
  have stem : Trimmed isBlankCell lead middle [] := { h with tail := by simp }
  have told : runOutlines (lead ++ middle) = some [.declaration p t] := by
    have := runOutlines_of_trimmed stem
    rw [List.append_nil] at this
    rw [this, said]
    rfl
  have stop_eq : ((Content.last (lead ++ middle ++ tail)).items x.length).getLast?.bind openEnd? =
      some (x.length + lead.length + middle.length) := by
    rw [Content.items, runItems_of_trimmed h, said]
    rfl
  have last_cell : ∃ c ∈ (lead ++ middle).getLast?, isBlankCell c = false := by
    obtain ⟨c, last, stays⟩ := h.last
    exact ⟨c, by simp [Option.mem_def.1 last], stays⟩
  have masked : IsMask ((lead ++ middle) ++ (tail ++ [code '\x7d'])) := by simpa using passes.isMask
  constructor
  · refine .ended ?_ (by rw [told]; rfl) (.last ⟨0, parensBehind_blank 0 h.tail⟩ (by rw [runOutlines_of_blank h.tail]; rfl))
    rw [parensBehind_append] at free
    cases front : parensBehind 0 (lead ++ middle) with
    | none => simp [front] at free
    | some m => simpa [front, parensBehind_blank m h.tail] using free
  · have front : IsMask (lead ++ middle) :=
      (IsMask.trimmed_end (passes.isMask.left (by simp [IsQuote]) (by simp)) h.tail last_cell).1
    have behind : IsMask (tail ++ [code '\x7d']) := masked.behind_body (by simp [IsQuote]) h.tail last_cell
    have := (front.append_code isPlain_semicolon (by simp)).append (behind.passes_left isPlain_closing)
    simpa [Content.cells] using this
  · intro n
    have neutral (m : Nat) : bracesBehind m (code ';' :: tail) = bracesBehind m tail := rfl
    exact bracesBehind_congr neutral (lead ++ middle) n
  · have same := runOutlines_of_trimmed h
    rw [said] at same
    simp only [Content.outlines, told, runOutlines_of_blank h.tail, same]
    rfl
  · exact h.tail
  · rw [stop_eq]
    simp [Content.cells]
    omega
  · rw [stop_eq, closeAt]
    have whole : text = (x ++ chars (lead ++ middle)) ++ (chars tail ++ y) := by
      rw [whole]
      simp
    have place : x.length + lead.length + middle.length = (x ++ chars (lead ++ middle)).length := by simp [Nat.add_assoc]
    rw [place, whole, List.take_left, List.drop_left]
    simp [Content.cells]

/-- Where a declaration that is not there yet can be put, the last one can be closed. -/
theorem exists_closing (sound : content.Sound) (passes : Passes (content.cells ++ [code '\x7d']))
    (accepts : content.accepts property = true)
    (none_found : (content.items x.length).findSome? (declarationOf? property) = none)
    (whole : text = x ++ (chars content.cells ++ y)) : ∃ other, IsClosing text x y content other := by
  induction sound generalizing x with
  | @last run free told =>
    have none_found : (runItems x.length run false ++ []).findSome? (declarationOf? property) = none := by
      rwa [List.append_nil]
    rw [Content.accepts, (runDeclares_eq_false none_found).1] at accepts
    obtain ⟨free, no_statement⟩ : parensBehind 0 run = some 0 ∧ (chars (runBody run)).head? ≠ some '@' := by
      simpa using accepts
    rcases exists_trimmed isBlankCell run with blank | ⟨lead, middle, tail, rfl, h⟩
    · have no_items : (Content.last run).items x.length = [] := runItems_of_blank blank _ _
      refine ⟨.last run, .last ⟨0, free⟩ told, passes, fun n => rfl, rfl, blank, ?_, ?_⟩
      · rw [no_items]
        rfl
      · rw [no_items]
        exact whole
    · rw [runBody_of_trimmed h] at no_statement
      rw [runOutlines_of_trimmed h] at told
      cases said : said? (chars middle) with
      | none => simp [said] at told
      | some o =>
        obtain ⟨p, t, rfl⟩ := eq_declaration said no_statement
        exact ⟨_, .last free h said passes whole⟩
  | @ended run rest free told sound ih =>
    rw [Content.items] at none_found
    rw [Content.accepts] at accepts
    rw [Content.cells, List.append_assoc, List.cons_append] at passes
    obtain ⟨front, behind⟩ := passes_ended passes
    obtain ⟨no, none_found⟩ := runDeclares_eq_false none_found
    rw [no] at accepts
    have place : (x ++ (chars run ++ [';'])).length = x.length + run.length + 1 := by simp [Nat.add_assoc]
    rw [← place] at none_found
    obtain ⟨other, h⟩ := ih behind accepts none_found (by rw [whole, Content.cells]; simp)
    have stop_eq : ((Content.ended run rest).items x.length).getLast?.bind openEnd? =
        (rest.items (x ++ (chars run ++ [';'])).length).getLast?.bind openEnd? := by
      rw [Content.items, getLast?_bind_openEnd? (openEnd?_runItems rfl _ _), place]
    refine ⟨.ended run other, .ended free told h.sound, ?_, fun n => ?_, ?_, h.closed, ?_, ?_⟩
    · have := front.append h.passes
      simpa [Content.cells] using this
    · have := bracesBehind_congr h.braces (run ++ [code ';']) n
      simpa [Content.cells] using this
    · rw [Content.outlines, Content.outlines, h.outlines]
    · have := h.length
      rw [stop_eq, Content.cells, Content.cells, List.length_append, List.length_append, List.length_cons, List.length_cons,
        this]
      omega
    · rw [stop_eq, h.text_eq, Content.cells]
      simp
  | @block prelude body rest free named inner_nests inner sound _ ih =>
    rw [Content.items, List.findSome?_cons] at none_found
    rw [Content.accepts] at accepts
    have passes : Passes (prelude ++ code '\x7b' :: (body.cells ++ code '\x7d' :: (rest.cells ++ [code '\x7d']))) := by
      simpa [Content.cells] using passes
    obtain ⟨front, behind⟩ := passes_block passes
    have place : (x ++ (chars prelude ++ '\x7b' :: (chars body.cells ++ ['\x7d']))).length =
        x.length + prelude.length + body.cells.length + 2 := by
      simp
      omega
    rw [← place] at none_found
    obtain ⟨other, h⟩ := ih behind accepts none_found (by rw [whole, Content.cells]; simp)
    have stop_eq : ((Content.block prelude body rest).items x.length).getLast?.bind openEnd? =
        (rest.items (x ++ (chars prelude ++ '\x7b' :: (chars body.cells ++ ['\x7d']))).length).getLast?.bind openEnd? := by
      rw [Content.items, ← List.singleton_append, getLast?_bind_openEnd? (by simp [openEnd?]), place]
    refine ⟨.block prelude body other, .block free named inner_nests inner h.sound, ?_, fun n => ?_, ?_, h.closed, ?_, ?_⟩
    · have := front.append h.passes
      simpa [Content.cells] using this
    · have := bracesBehind_congr h.braces (prelude ++ code '\x7b' :: (body.cells ++ [code '\x7d'])) n
      simpa [Content.cells] using this
    · rw [Content.outlines, Content.outlines, h.outlines]
    · have := h.length
      rw [stop_eq]
      simp only [Content.cells, List.length_append, List.length_cons, this]
      omega
    · rw [stop_eq, h.text_eq, Content.cells]
      simp

/-- A declaration is put behind a content, in the place of the white space at its end. -/
theorem exists_appended {front space lead space' : List Char} (entry : IsEntry property value) (sound : content.Sound)
    (passes : Passes (content.cells ++ [code '\x7d'])) (nests : bracesBehind 0 content.cells = some 0)
    (closed : ∀ c ∈ content.lastRun, isBlankCell c = true) (cut : chars content.cells = front ++ space)
    (is_space : ∀ c ∈ space, isSpace c = true) (is_lead : ∀ c ∈ lead, isSpace c = true)
    (is_space' : ∀ c ∈ space', isSpace c = true) : ∃ other : Content, other.Sound ∧
      Passes (other.cells ++ [code '\x7d']) ∧ bracesBehind 0 other.cells = some 0 ∧
      other.outlines = content.outlines ++ [entryOutline property value] ∧
      chars other.cells = front ++ (lead ++ ((declarationText property value).toList ++ ';' :: space')) := by
  obtain ⟨cells, gone, ends, rfl, rfl⟩ := List.map_eq_append_iff.1 cut
  have is_space : ∀ c ∈ gone, isSpaceCell c = true := List.forall_mem_map.1 is_space
  have blank := isBlankCell_of_isSpaceCell is_space
  obtain ⟨stem, rfl, rfl⟩ := Content.exists_append_blank blank ends
  have closed' : ∀ c ∈ stem.lastRun, isBlankCell c = true := fun c hc =>
    closed c (by rw [Content.lastRun_append_blank]; exact List.mem_append_left _ hc)
  have blank_lead := isBlankCell_map_code is_lead
  have blank_space' := isBlankCell_map_code is_space'
  have none_blank : ∀ c ∈ ([] : List Cell), isBlankCell c = true := by simp
  have told := entry.runOutlines blank_lead none_blank
  let added : Content := .ended (declarationRun (lead.map code) [] property value) (.last (space'.map code))
  have text_eq : added.cells = (lead ++ ((declarationText property value).toList ++ ';' :: space')).map code := by
    simp [added, Content.cells, declarationRun]
  have sound' : added.Sound := .ended (entry.parensBehind blank_lead none_blank 0) (by rw [told]; rfl)
    (.last ⟨0, parensBehind_blank 0 blank_space'⟩ (by rw [runOutlines_of_blank blank_space']; rfl))
  rw [Content.cells_append, Content.cells] at passes nests
  refine ⟨stem.append added, ((Content.sound_append_blank blank).1 sound).append closed' sound', ?_, ?_, ?_, ?_⟩
  · have masked : IsMask stem.cells := (passes.isMask.left (by simp [IsQuote]) (by simp)).of_append_space is_space
    have plain : ∀ c ∈ lead ++ ((declarationText property value).toList ++ ';' :: space') ++ ['\x7d'], IsPlain c := by
      simp only [List.forall_mem_append, List.forall_mem_cons]
      refine ⟨⟨fun c hc => isPlain_of_isSpace (is_lead c hc), entry.isPlain, isPlain_semicolon, fun c hc => ?_⟩,
        isPlain_closing, by simp⟩
      exact isPlain_of_isSpace (is_space' c hc)
    have no_star : (lead ++ ((declarationText property value).toList ++ ';' :: space') ++ ['\x7d']).head? ≠ some '*' := by
      cases lead with
      | nil =>
        obtain ⟨c, first, -, -, no_star⟩ := entry.first_char
        obtain ⟨more, starts⟩ := List.head?_eq_some_iff.1 first
        simpa [starts] using no_star
      | cons c lead =>
        have : isSpace c = true := is_lead c List.mem_cons_self
        simp only [List.cons_append, List.head?_cons, ne_eq, Option.some.injEq]
        rintro rfl
        cases this
    have := masked.append_plain plain (by simp) no_star
    rw [Content.cells_append, text_eq, List.append_assoc]
    simpa only [List.map_append, List.map_cons, List.map_nil] using this
  · rw [bracesBehind_append] at nests
    cases braces : bracesBehind 0 stem.cells with
    | none => simp [braces] at nests
    | some n =>
      obtain rfl : n = 0 := by simpa [braces, bracesBehind_blank n blank] using nests
      have neutral : bracesBehind 0 (code ';' :: space'.map code) = bracesBehind 0 (space'.map code) := rfl
      rw [Content.cells_append, bracesBehind_append, braces, Option.bind_some, Content.cells, bracesBehind_append,
        entry.bracesBehind blank_lead none_blank, Option.bind_some, Content.cells, neutral, bracesBehind_blank 0 blank_space']
  · have added_outlines : added.outlines = [entryOutline property value] := by
      simp only [added, Content.outlines, told, runOutlines_of_blank blank_space']
      rfl
    rw [Content.outlines_append closed', Content.outlines_append_blank blank, added_outlines]
  · rw [Content.cells_append, text_eq, chars, List.map_append]
    exact congrArg _ (chars_cellsOf true _)

/-! ## Doing it again -/

/-- The outlines in the first block with a selector. -/
def firstChildren? (selector : String) : List Outline → Option (List Outline)
  | [] => none
  | .block s children :: os => if s = selector then some children else firstChildren? selector os
  | _ :: os => firstChildren? selector os

theorem firstChildren?_changeFirst (f : List Outline → List Outline) (os : List Outline) :
    firstChildren? selector (changeFirst selector f os) = (firstChildren? selector os).map f := by
  induction os with
  | nil => rfl
  | cons o os ih =>
    cases o with
    | block s children =>
      rw [changeFirst, firstChildren?]
      split_ifs with same <;> simp [firstChildren?, same, ih]
    | _ => exact ih

theorem find?_setProperty (property value : String) (os : List Outline) :
    (setProperty property value os).find? (Outline.declares property) = some (entryOutline property value) := by
  have here (ps : List Outline) : (entryOutline property value :: ps).find? (Outline.declares property) =
      some (entryOutline property value) :=
    List.find?_cons_of_pos (beq_self_eq_true (asciiLower property))
  induction os with
  | nil => exact here []
  | cons o os ih =>
    rw [setProperty]
    split_ifs with declares
    · exact here os
    · rw [List.find?_cons_of_neg declares, ih]

/-- What an edit is told of the first block with a selector. -/
theorem findSome?_blockWith? (selector : String) (text : List Char) (items : List Item) :
    (items.findSome? (blockWith? selector)).map (fun block => outlinesOf text block.2.2.2) =
      firstChildren? selector (outlinesOf text items) := by
  induction items with
  | nil => rfl
  | cons i is ih =>
    rw [outlinesOf, List.findSome?_cons]
    cases i with
    | block s start opening closing children =>
      rw [blockWith?, Item.outline, firstChildren?]
      split_ifs
      · rfl
      · exact ih
    | _ => exact ih

/-- What an edit is told of the first declaration of a property. -/
theorem findSome?_declarationOf? (property : String) (text : List Char) (items : List Item) :
    (items.findSome? (declarationOf? property)).map (fun range => String.ofList (slice text range.1 range.2)) =
      ((outlinesOf text items).find? (Outline.declares property)).bind fun
        | .declaration _ t => some t
        | _ => none := by
  induction items with
  | nil => rfl
  | cons i is ih =>
    rw [outlinesOf, List.findSome?_cons, List.find?_cons]
    cases i with
    | declaration p start stop terminated =>
      simp only [declarationOf?, Item.outline, Outline.declares]
      cases sameIgnoringCase p property with
      | true => rfl
      | false => exact ih
    | _ => exact ih

theorem find?_declares_eq_none {items : List Item} (none_found : items.findSome? (declarationOf? property) = none)
    (text : List Char) : (outlinesOf text items).find? (Outline.declares property) = none := by
  have told := findSome?_declarationOf? property text items
  rw [none_found] at told
  cases found : (outlinesOf text items).find? (Outline.declares property) with
  | none => rfl
  | some o =>
    have declares := List.find?_some found
    cases o with
    | declaration p t =>
      rw [found] at told
      cases told
    | _ => cases declares

theorem take_slice_drop (text : List Char) (h : start ≤ stop) :
    text.take start ++ slice text start stop ++ text.drop stop = text := by
  have behind : text.drop stop = (text.drop start).drop (stop - start) := by
    rw [List.drop_drop]
    congr 1
    omega
  rw [slice, behind, List.append_assoc, List.take_append_drop, List.take_append_drop]

/-! ## Updating -/

theorem itemsOf_eq {source : String} {items : List Item} (parsed : parse source.toList = .ok items) :
    itemsOf source = .ok items := by
  rw [itemsOf, parsed]
  rfl

/-- The new text of a block that an edit is told of. -/
theorem updateProperty_eq {source unit : String} {change : PropertyChange} {items children : List Item}
    {opening closing : Nat} (parsed : parse source.toList = .ok items)
    (found : items.findSome? (blockWith? (collapseSpace change.selector)) = some (start, opening, closing, children)) :
    updateProperty unit source change = .ok (String.ofList
      (match children.findSome? (declarationOf? change.property) with
      | some (start, stop) => source.toList.take start ++
          (declarationText change.property (valueText change.value)).toList ++ source.toList.drop stop
      | none =>
        insertLast (closeAt source.toList (children.getLast?.bind openEnd?)) opening
          (closing + (children.getLast?.bind openEnd?).isSome.toNat)
          ((declarationText change.property (valueText change.value)).toList ++ [';']) unit.toList false)) := by
  unfold updateProperty
  rw [itemsOf_eq parsed]
  dsimp only [bind, Except.bind]
  rw [found]
  dsimp only
  cases children.findSome? (declarationOf? change.property) with
  | some range => rfl
  | none =>
    dsimp only
    cases children.getLast?.bind openEnd? <;> rfl

/-- Where the property is declared as it is to be, nothing changes. -/
theorem updateProperty_again {source unit : String} {change : PropertyChange} {items : List Item} {os : List Outline}
    (parsed : parse source.toList = .ok items)
    (block : firstChildren? (collapseSpace change.selector) (outlinesOf source.toList items) = some os)
    (declared : os.find? (Outline.declares change.property) =
      some (entryOutline change.property (valueText change.value))) :
    updateProperty unit source change = .ok source := by
  rw [← findSome?_blockWith?, Option.map_eq_some_iff] at block
  obtain ⟨⟨start, opening, closing, children⟩, found, rfl⟩ := block
  have range := findSome?_declarationOf? change.property source.toList children
  rw [declared] at range
  obtain ⟨⟨start, stop⟩, at_, text_eq⟩ := Option.map_eq_some_iff.1 range
  have text_eq : slice source.toList start stop = (declarationText change.property (valueText change.value)).toList := by
    rw [← text_eq, String.toList_ofList]
  have ordered : start ≤ stop := by
    by_contra backward
    have none : slice source.toList start stop = [] := by
      rw [slice, Nat.sub_eq_zero_of_le (by omega), List.take_zero]
    rw [none, toList_declarationText] at text_eq
    simp at text_eq
  rw [updateProperty_eq parsed found, at_]
  dsimp only
  rw [← text_eq, take_slice_drop _ ordered, String.ofList_toList]

/-- The block that a change concerns accepts it. -/
def Accepts (source : String) (change : PropertyChange) : Prop :=
  ∃ content, IsSheet source.toList content ∧
    ∀ body ∈ content.firstBody? (collapseSpace change.selector), body.accepts change.property = true

/-- Without a declaration of the property, it is set behind the other outlines. -/
theorem setProperty_of_none {os : List Outline} (none_found : os.find? (Outline.declares property) = none) :
    setProperty property value os = os ++ [entryOutline property value] := by
  have no : os.any (Outline.declares property) = false := by
    rw [List.any_eq_false]
    exact List.find?_eq_none.1 none_found
  have := setProperty_append value no []
  rwa [List.append_nil] at this

/-- The block with the property set, in the text and in the content of a stylesheet. -/
theorem exists_updated {unit : String} (is_unit : ∀ c ∈ unit.toList, isSpace c = true) (entry : IsEntry property value)
    (sound : body.Sound) (nests : bracesBehind 0 body.cells = some 0) (passes : Passes (body.cells ++ [code '\x7d']))
    (accepts : body.accepts property = true) (whole : text = x ++ '\x7b' :: (chars body.cells ++ y)) :
    ∃ other : Content, other.Sound ∧ bracesBehind 0 other.cells = some 0 ∧ Passes (other.cells ++ [code '\x7d']) ∧
      other.outlines = setProperty property value body.outlines ∧
      (match (body.items (x.length + 1)).findSome? (declarationOf? property) with
      | some (start, stop) => text.take start ++ (declarationText property value).toList ++ text.drop stop
      | none =>
        insertLast (closeAt text ((body.items (x.length + 1)).getLast?.bind openEnd?)) x.length
          (x.length + body.cells.length + 1 + ((body.items (x.length + 1)).getLast?.bind openEnd?).isSome.toNat)
          ((declarationText property value).toList ++ [';']) unit.toList false) =
        x ++ '\x7b' :: (chars other.cells ++ y) := by
  have place : x.length + 1 = (x ++ ['\x7b']).length := by simp
  have whole : text = (x ++ ['\x7b']) ++ (chars body.cells ++ y) := by
    rw [whole]
    simp
  rw [place]
  cases at_ : (body.items (x ++ ['\x7b']).length).findSome? (declarationOf? property) with
  | some range =>
    obtain ⟨other, sound', passes', braces, outlines, text_eq⟩ := exists_replaced entry sound passes accepts at_ whole
    refine ⟨other, sound', by rw [braces, nests], passes', outlines, ?_⟩
    dsimp only
    rw [text_eq]
    simp
  | none =>
    obtain ⟨closed, h⟩ := exists_closing sound passes accepts at_ whole
    have closes : x.length + body.cells.length + 1 +
        ((body.items (x ++ ['\x7b']).length).getLast?.bind openEnd?).isSome.toNat = x.length + (chars closed.cells).length + 1 := by
      rw [List.length_map, h.length]
      omega
    have text_eq : closeAt text ((body.items (x ++ ['\x7b']).length).getLast?.bind openEnd?) =
        x ++ '\x7b' :: (chars closed.cells ++ y) := by
      rw [h.text_eq]
      simp
    obtain ⟨front, space, separator, space', cut, is_space, is_separator, -, is_space', inserted⟩ :=
      insertLast_eq (d := '\x7b') ((declarationText property value).toList ++ [';']) unit.toList false rfl text_eq rfl closes
    have one : '\n' ∉ (declarationText property value).toList ++ [';'] := by simp [entry.no_feed]
    rw [indentLines_line one ⟨';', by simp, rfl⟩] at inserted
    have is_outer := lineIndent_isSpace (closeAt text ((body.items (x ++ ['\x7b']).length).getLast?.bind openEnd?)) x.length
    generalize lineIndent _ _ = outer at inserted is_outer
    have is_lead : ∀ c ∈ separator ++ (outer ++ unit.toList), isSpace c = true :=
      List.forall_mem_append.2 ⟨is_separator, List.forall_mem_append.2 ⟨is_outer, is_unit⟩⟩
    have is_behind : ∀ c ∈ '\n' :: space', isSpace c = true := List.forall_mem_cons.2 ⟨rfl, is_space'⟩
    obtain ⟨other, sound', passes', nests', outlines, chars_eq⟩ :=
      exists_appended entry h.sound h.passes (by rw [h.braces, nests]) h.closed cut (fun c hc => (is_space c hc).1) is_lead is_behind
    have none_found := find?_declares_eq_none at_ text
    rw [Content.outlinesOf_items whole] at none_found
    refine ⟨other, sound', nests', passes', by rw [outlines, h.outlines, setProperty_of_none none_found], ?_⟩
    dsimp only
    rw [inserted, chars_eq]
    simp

/-- A change that is made concerns a block. -/
theorem exists_firstBody {unit source result : String} {change : PropertyChange} (sheet : IsSheet source.toList content)
    (updated : updateProperty unit source change = .ok result) :
    ∃ body, content.firstBody? (collapseSpace change.selector) = some body := by
  cases found : content.firstBody? (collapseSpace change.selector) with
  | some body => exact ⟨body, rfl⟩
  | none =>
    unfold updateProperty at updated
    rw [itemsOf_eq sheet.parse] at updated
    dsimp only [bind, Except.bind] at updated
    rw [findSome?_blockWith?_eq_none found] at updated
    cases updated

/-- A property that is set in a block that accepts it is the first declaration of it there, written anew, or else the last
item; nothing else changes, and setting it again changes nothing at all. -/
theorem updateProperty_exact (settings : Settings) {source result : String} {change : PropertyChange} {items : List Item}
    (parsed : parse source.toList = .ok items) (entry : IsEntry change.property (valueText change.value))
    (accepts : Accepts source change) (updated : updateProperty settings.unit source change = .ok result) :
    (∃ items', parse result.toList = .ok items' ∧ outlinesOf result.toList items' =
      changeFirst (collapseSpace change.selector) (setProperty change.property (valueText change.value))
        (outlinesOf source.toList items)) ∧
    updateProperty settings.unit result change = .ok result := by
  obtain ⟨content, sheet, accepts⟩ := accepts
  obtain rfl : content.items 0 = items := Except.ok.inj (sheet.parse.symm.trans parsed)
  obtain ⟨body, found⟩ := exists_firstBody sheet updated
  obtain ⟨u, v, cells, replaced, told⟩ := exists_around found
  obtain ⟨inner, nests, passes⟩ := sound_firstBody sheet.sound sheet.mask found
  obtain ⟨start, told⟩ := told 0
  have whole : source.toList = chars u ++ '\x7b' :: (chars body.cells ++ '\x7d' :: chars v) := by
    rw [← sheet.chars, cells]
    simp
  obtain ⟨other, sound', nests', passes', outlines, text_eq⟩ :=
    exists_updated (isSpace_unit settings) entry inner nests passes (accepts body found) whole
  rw [List.length_map] at text_eq
  rw [updateProperty_eq parsed told, Nat.zero_add, text_eq] at updated
  obtain rfl := Except.ok.inj updated
  have outlines' := outlines_replaceFirst _ found outlines
  have sheet' : IsSheet (String.ofList (chars u ++ '\x7b' :: (chars other.cells ++ '\x7d' :: chars v))).toList
      (content.replaceFirst (collapseSpace change.selector) other) := by
    refine ⟨?_, mask_replaceFirst sheet.mask found passes', sheet.sound.replaceFirst sound' nests', ?_⟩
    · rw [replaced, String.toList_ofList]
      simp
    · rw [outlines']
      exact isDeclaration_changeFirst sheet.no_declaration
  rw [Content.outlinesOf_whole sheet.chars]
  have same := Content.outlinesOf_whole sheet'.chars
  refine ⟨⟨_, sheet'.parse, by rw [same, outlines']⟩, ?_⟩
  have block := findSome?_blockWith? (collapseSpace change.selector) source.toList (content.items 0)
  rw [told, Content.outlinesOf_whole sheet.chars] at block
  refine updateProperty_again sheet'.parse ?_ (find?_setProperty _ _ (outlinesOf source.toList (body.items (0 + u.length + 1))))
  rw [same, outlines', firstChildren?_changeFirst, ← block]
  rfl

/-- The only declaration of a block has no semicolon; another one is put behind it. -/
theorem updateProperty_exact_open :
    ∃ items, parse "a \x7b b: c \x7d".toList = .ok items ∧ IsEntry "d" (valueText (.string "e")) ∧
      Accepts "a \x7b b: c \x7d" ⟨"a", "d", .string "e"⟩ ∧
      updateProperty (Settings.unit {}) "a \x7b b: c \x7d" ⟨"a", "d", .string "e"⟩ = .ok "a \x7b b: c;\n    d: e;\n\x7d" ∧
      (∃ items', parse "a \x7b b: c;\n    d: e;\n\x7d".toList = .ok items' ∧ outlinesOf "a \x7b b: c;\n    d: e;\n\x7d".toList items' =
        changeFirst (collapseSpace "a") (setProperty "d" (valueText (.string "e"))) (outlinesOf "a \x7b b: c \x7d".toList items)) ∧
      updateProperty (Settings.unit {}) "a \x7b b: c;\n    d: e;\n\x7d" ⟨"a", "d", .string "e"⟩ =
        .ok "a \x7b b: c;\n    d: e;\n\x7d" := by
  have sheet : IsSheet "a \x7b b: c \x7d".toList
      (.block (cellsOf true "a ".toList) (.last (cellsOf true " b: c ".toList)) (.last [])) := by
    refine ⟨rfl, rfl, .block rfl (by decide) rfl (.last ⟨0, rfl⟩ rfl) (.last ⟨0, rfl⟩ rfl), by decide⟩
  have entry : IsEntry "d" "e" := ⟨List.all_eq_true.1 rfl, by decide, by decide, by simp⟩
  have accepts : Accepts "a \x7b b: c \x7d" ⟨"a", "d", .string "e"⟩ := by
    refine ⟨_, sheet, fun body found => ?_⟩
    cases found
    decide
  have updated : updateProperty (Settings.unit {}) "a \x7b b: c \x7d" ⟨"a", "d", .string "e"⟩ =
      .ok "a \x7b b: c;\n    d: e;\n\x7d" := by
    rw [updateProperty_eq sheet.parse rfl]
    rfl
  exact ⟨_, sheet.parse, entry, accepts, updated, updateProperty_exact {} sheet.parse entry accepts updated⟩

/-- An at-rule at the end of a block has no semicolon either, and takes up the declaration that is put behind it. -/
theorem not_updateProperty_exact : ¬∀ (settings : Settings) (source result : String) (change : PropertyChange)
    (items : List Item), parse source.toList = .ok items → IsEntry change.property (valueText change.value) →
      updateProperty settings.unit source change = .ok result →
      ∃ items', parse result.toList = .ok items' ∧ outlinesOf result.toList items' =
        changeFirst (collapseSpace change.selector) (setProperty change.property (valueText change.value))
          (outlinesOf source.toList items) := by
  intro claim
  have sheet : IsSheet "a \x7b @apply foo \x7d".toList
      (.block (cellsOf true "a ".toList) (.last (cellsOf true " @apply foo ".toList)) (.last [])) := by
    refine ⟨rfl, rfl, .block rfl (by decide) rfl (.last ⟨0, rfl⟩ rfl) (.last ⟨0, rfl⟩ rfl), by decide⟩
  have entry : IsEntry "color" "red" := ⟨List.all_eq_true.1 rfl, by decide, by decide, by simp⟩
  have updated : updateProperty (Settings.unit {}) "a \x7b @apply foo \x7d" ⟨"a", "color", .string "red"⟩ =
      .ok "a \x7b @apply foo\n    color: red;\n\x7d" := by
    rw [updateProperty_eq sheet.parse rfl]
    rfl
  have sheet' : IsSheet "a \x7b @apply foo\n    color: red;\n\x7d".toList
      (.block (cellsOf true "a ".toList)
        (.ended (cellsOf true " @apply foo\n    color: red".toList) (.last [code '\n'])) (.last [])) := by
    refine ⟨rfl, rfl, .block rfl (by decide) rfl ?_ (.last ⟨0, rfl⟩ rfl), by decide⟩
    exact .ended rfl rfl (.last ⟨0, rfl⟩ rfl)
  obtain ⟨items', parsed, same⟩ := claim {} _ _ _ _ sheet.parse entry updated
  obtain rfl := Except.ok.inj (sheet'.parse.symm.trans parsed)
  rw [Content.outlinesOf_whole sheet.chars, Content.outlinesOf_whole sheet'.chars] at same
  -- One item in the block, where there should be two.
  have counts := congrArg (fun os => (firstChildren? "a" os).map List.length) same
  exact absurd counts (by decide)

end Codewright.Css
