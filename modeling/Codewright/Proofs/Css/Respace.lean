import Codewright.Proofs.Css.Content
import Codewright.Proofs.Text.Lines

/-!
# White space in stylesheets

* `Outline.collapsed` – an outline without what white space can change;
* `Content.prepend`, `Content.append` – blank cells in front of a content, another content behind it;
* `Content.Sound.respace` – other white space in its place leaves a content sound and its outlines alike.
-/

namespace Codewright.Css

open Text

/-! ## Outlines up to white space -/

mutual

/-- An outline in which each run of white space is one space. Selectors and statements are so in every outline. -/
def Outline.collapsed : Outline → Outline
  | .block selector children => .block selector (collapsedAll children)
  | .statement text => .statement text
  | .declaration property text => .declaration (collapseSpace property) (collapseSpace text)

/-- Outlines in which each run of white space is one space. -/
def collapsedAll : List Outline → List Outline
  | [] => []
  | o :: os => o.collapsed :: collapsedAll os

end

theorem collapsedAll_eq_map (os : List Outline) : collapsedAll os = os.map Outline.collapsed := by
  induction os with
  | nil => rfl
  | cons o os ih => rw [collapsedAll, ih, List.map_cons]

theorem isDeclaration_collapsed (o : Outline) : o.collapsed.isDeclaration = o.isDeclaration := by
  cases o <;> rfl

theorem collapsedAll_append (os ps : List Outline) : collapsedAll (os ++ ps) = collapsedAll os ++ collapsedAll ps := by
  simp only [collapsedAll_eq_map, List.map_append]

variable {text text' : List Char} {run run' w cells lead body tail a b : List Cell} {n m : Nat} {content other : Content}

/-! ## Blank cells in front and behind -/

theorem runBody_blank_append (blank : ∀ c ∈ w, isBlankCell c = true) (run : List Cell) : runBody (w ++ run) = runBody run := by
  rw [runBody, List.dropWhile_append_of_pos blank, runBody]

theorem runBody_append_blank (blank : ∀ c ∈ w, isBlankCell c = true) (run : List Cell) : runBody (run ++ w) = runBody run := by
  rcases exists_trimmed isBlankCell run with all | ⟨lead, body, tail, rfl, h⟩
  · rw [runBody_blank_append all, runBody_of_blank blank, runBody_of_blank all]
  · rw [List.append_assoc, runBody_of_trimmed (h.append_right blank), runBody_of_trimmed h]

namespace Content

/-- A content with more cells in front. -/
def prepend (w : List Cell) : Content → Content
  | last run => last (w ++ run)
  | ended run rest => ended (w ++ run) rest
  | block prelude body rest => block (w ++ prelude) body rest

/-- A content with another one behind it, whose cells go on the last run. -/
def append : Content → Content → Content
  | last run, other => other.prepend run
  | ended run rest, other => ended run (rest.append other)
  | block prelude body rest, other => block prelude body (rest.append other)

/-- The cells behind the last semicolon and the last block. -/
def lastRun : Content → List Cell
  | last run => run
  | ended _ rest => rest.lastRun
  | block _ _ rest => rest.lastRun

@[simp] theorem cells_prepend (w : List Cell) (content : Content) : (content.prepend w).cells = w ++ content.cells := by
  cases content <;> simp [prepend, cells]

@[simp] theorem cells_append (content other : Content) : (content.append other).cells = content.cells ++ other.cells := by
  induction content with
  | last run => rw [append, cells_prepend, cells]
  | ended run rest ih => simp [append, cells, ih]
  | block prelude body rest _ ih => simp [append, cells, ih]

theorem outlines_prepend (blank : ∀ c ∈ w, isBlankCell c = true) (content : Content) :
    (content.prepend w).outlines = content.outlines := by
  cases content <;> simp only [prepend, outlines, runOutlines, selectorOf, runBody_blank_append blank]

theorem sound_prepend (blank : ∀ c ∈ w, isBlankCell c = true) : (content.prepend w).Sound ↔ content.Sound := by
  have free (run : List Cell) : parensBehind 0 (w ++ run) = parensBehind 0 run := by
    rw [parensBehind_append, parensBehind_blank 0 blank]
    rfl
  have told (run : List Cell) : runOutlines (w ++ run) = runOutlines run := by
    rw [runOutlines, runBody_blank_append blank, runOutlines]
  constructor
  · intro sound
    cases content <;> cases sound
    case last free' told' => exact .last (by rwa [← free]) (by rwa [← told])
    case ended free' told' sound => exact .ended (by rwa [← free]) (by rwa [← told]) sound
    case block free' named nests inner sound =>
      exact .block (by rwa [← free]) (by rwa [← runBody_blank_append blank]) nests inner sound
  · intro sound
    cases sound
    case last free' told' => exact .last (by rwa [free]) (by rwa [told])
    case ended free' told' sound => exact .ended (by rwa [free]) (by rwa [told]) sound
    case block free' named nests inner sound =>
      exact .block (by rwa [free]) (by rwa [runBody_blank_append blank]) nests inner sound

/-- Blank cells in front of a content belong to its first run. -/
theorem exists_prepend (blank : ∀ c ∈ w, isBlankCell c = true) (starts : content.cells = w ++ cells) :
    ∃ other, content = prepend w other ∧ other.cells = cells := by
  have within {run rest : List Cell} {c : Char} (whole : run ++ code c :: rest = w ++ cells)
      (letter : isSpace c = false) : ∃ more, run = w ++ more ∧ more ++ code c :: rest = cells := by
    rcases List.append_eq_append_iff.1 whole with ⟨more, rfl, same⟩ | ⟨more, rfl, same⟩
    · cases more with
      | nil => exact ⟨[], by simp, same⟩
      | cons d more =>
        cases same
        have := blank (code c) (by simp)
        rw [isBlankCell] at this
        exact absurd this (by simp [Cell.face, letter])
    · exact ⟨more, rfl, same.symm⟩
  cases content with
  | last run => exact ⟨last cells, by rw [prepend, ← starts, Content.cells], rfl⟩
  | ended run rest =>
    obtain ⟨more, rfl, rfl⟩ := within starts rfl
    exact ⟨ended more rest, rfl, rfl⟩
  | block prelude body rest =>
    obtain ⟨more, rfl, rfl⟩ := within starts rfl
    exact ⟨block more body rest, rfl, rfl⟩

/-- Another content may follow one that ends with a semicolon, a block or nothing. -/
theorem outlines_append (closed : ∀ c ∈ content.lastRun, isBlankCell c = true) (other : Content) :
    (content.append other).outlines = content.outlines ++ other.outlines := by
  induction content with
  | last run =>
    have closed : ∀ c ∈ run, isBlankCell c = true := closed
    rw [append, outlines_prepend closed, outlines, runOutlines_of_blank closed]
    rfl
  | ended run rest ih => rw [append, outlines, ih closed, outlines, List.append_assoc]
  | block prelude body rest _ ih => rw [append, outlines, ih closed, outlines, List.cons_append]

theorem Sound.append (sound : content.Sound) (closed : ∀ c ∈ content.lastRun, isBlankCell c = true)
    (sound' : other.Sound) : (content.append other).Sound := by
  induction sound with
  | last => exact (sound_prepend closed).2 sound'
  | ended free told _ ih => exact .ended free told (ih closed)
  | block free named nests inner _ _ ih => exact .block free named nests inner (ih closed)

/-- Blank cells may follow every content. -/
theorem outlines_append_blank (blank : ∀ c ∈ w, isBlankCell c = true) (content : Content) :
    (content.append (last w)).outlines = content.outlines := by
  induction content with
  | last run => simp only [append, prepend, outlines, runOutlines, runBody_append_blank blank]
  | ended run rest ih => rw [append, outlines, ih, outlines]
  | block prelude body rest _ ih => rw [append, outlines, ih, outlines]

theorem sound_append_blank (blank : ∀ c ∈ w, isBlankCell c = true) :
    (content.append (last w)).Sound ↔ content.Sound := by
  have same (run : List Cell) : parensBehind 0 (run ++ w) = parensBehind 0 run := by
    rw [parensBehind_append]
    cases parensBehind 0 run with
    | none => rfl
    | some m => exact parensBehind_blank m blank
  have told (run : List Cell) : runOutlines (run ++ w) = runOutlines run := by
    rw [runOutlines, runBody_append_blank blank, runOutlines]
  induction content with
  | last run =>
    constructor
    · intro sound
      cases sound with
      | last free spoken => exact .last (by rwa [← same]) (by rwa [← told])
    · intro sound
      cases sound with
      | last free spoken => exact .last (by rwa [same]) (by rwa [told])
  | ended run rest ih =>
    constructor
    · intro sound
      cases sound with
      | ended free told sound => exact .ended free told (ih.1 sound)
    · intro sound
      cases sound with
      | ended free told sound => exact .ended free told (ih.2 sound)
  | block prelude body rest _ ih =>
    constructor
    · intro sound
      cases sound with
      | block free named nests inner sound => exact .block free named nests inner (ih.1 sound)
    · intro sound
      cases sound with
      | block free named nests inner sound => exact .block free named nests inner (ih.2 sound)

theorem lastRun_append_blank (w : List Cell) (content : Content) : (content.append (last w)).lastRun = content.lastRun ++ w := by
  induction content with
  | last run => rfl
  | ended run rest ih => exact ih
  | block prelude body rest _ ih => exact ih

/-- Blank cells at the end of a content belong to its last run. -/
theorem exists_append_blank (blank : ∀ c ∈ w, isBlankCell c = true) (ends : content.cells = cells ++ w) :
    ∃ other, content = append other (last w) ∧ other.cells = cells := by
  have within {front rest cells : List Cell} {c : Char} (whole : front ++ code c :: rest = cells ++ w)
      (letter : isSpace c = false) : ∃ more, cells = front ++ code c :: more ∧ rest = more ++ w := by
    rcases List.append_eq_append_iff.1 whole with ⟨more, rfl, same⟩ | ⟨more, rfl, same⟩
    · cases more with
      | nil =>
        have := blank (code c) (by rw [List.nil_append] at same; rw [← same]; simp)
        rw [isBlankCell] at this
        exact absurd this (by simp [Cell.face, letter])
      | cons d more =>
        cases same
        exact ⟨more, rfl, rfl⟩
    · have := blank (code c) (by rw [same]; simp)
      rw [isBlankCell] at this
      exact absurd this (by simp [Cell.face, letter])
  induction content generalizing cells with
  | last run => exact ⟨last cells, congrArg last ends, rfl⟩
  | ended run rest ih =>
    obtain ⟨more, rfl, rest_ends⟩ := within ends rfl
    obtain ⟨other, rfl, rfl⟩ := ih rest_ends
    exact ⟨ended run other, rfl, rfl⟩
  | block prelude body rest _ ih =>
    obtain ⟨more, rfl, behind⟩ := within ends rfl
    obtain ⟨more, rfl, rest_ends⟩ := within behind rfl
    obtain ⟨other, rfl, rfl⟩ := ih rest_ends
    exact ⟨block prelude body other, rfl, rfl⟩

end Content

/-! ## Other white space in its place -/

/-- A cell of white space: of code, of a comment or of a string. -/
def isSpaceCell (c : Cell) : Bool := isSpace c.char

theorem isBlankCell_of_isSpaceCell (blank : ∀ c ∈ w, isSpaceCell c = true) : ∀ c ∈ w, isBlankCell c = true :=
  fun c hc => isBlankCell_of_isSpace (blank c hc)

theorem parensBehind_respace (h : Respace isSpaceCell run run') (n : Nat) : parensBehind n run' = parensBehind n run := by
  obtain ⟨blank, blank', -, -⟩ := h
  simp only [parensBehind_append, parensBehind_blank _ (isBlankCell_of_isSpaceCell blank),
    parensBehind_blank _ (isBlankCell_of_isSpaceCell blank'), Option.bind_some]

theorem bracesBehind_respace (h : Respace isSpaceCell run run') (n : Nat) : bracesBehind n run' = bracesBehind n run := by
  obtain ⟨blank, blank', -, -⟩ := h
  simp only [bracesBehind_append, bracesBehind_blank _ (isBlankCell_of_isSpaceCell blank),
    bracesBehind_blank _ (isBlankCell_of_isSpaceCell blank'), Option.bind_some]

theorem chars_respace (h : Respace isSpaceCell run run') : Respace isSpace (chars run) (chars run') := by
  obtain ⟨blank, blank', some_blank, some_blank'⟩ := h
  simp only [chars, List.map_append]
  exact .mk (List.forall_mem_map.2 blank) (List.forall_mem_map.2 blank') (by simpa using some_blank)
    (by simpa using some_blank')

/-- White space at an end of a run does not matter; elsewhere other white space stands in its place. -/
theorem runBody_respace (h : Respace isSpaceCell run run') :
    runBody run' = runBody run ∨ Respace isSpaceCell (runBody run) (runBody run') := by
  obtain @⟨a, b, w, w', blank, blank', some_blank, some_blank'⟩ := h
  have gone := isBlankCell_of_isSpaceCell blank
  have gone' := isBlankCell_of_isSpaceCell blank'
  rcases exists_trimmed isBlankCell a with all | ⟨lead, body, tail, rfl, h⟩
  · left
    rw [runBody_blank_append all, runBody_blank_append all, runBody_blank_append gone, runBody_blank_append gone']
  · rcases exists_trimmed isBlankCell b with all | ⟨lead', body', tail', rfl, h'⟩
    · left
      rw [runBody_append_blank (List.forall_mem_append.2 ⟨gone', all⟩),
        runBody_append_blank (List.forall_mem_append.2 ⟨gone, all⟩)]
    · right
      have between (v : List Cell) : runBody (lead ++ body ++ tail ++ (v ++ (lead' ++ body' ++ tail'))) =
          (body ++ tail) ++ (v ++ (lead' ++ body')) := by
        have := runBody_of_trimmed (h.join h' (tail ++ (v ++ lead')))
        simpa only [List.append_assoc] using this
      rw [between, between]
      exact .mk blank blank' some_blank some_blank'

/-- What a text says does not depend on its white space, if it begins with something else. -/
theorem said?_respace {s t : List Char} (h : Respace isSpace s t) (first : ∃ c ∈ s.head?, isSpace c = false) :
    (said? t).map Outline.collapsed = (said? s).map Outline.collapsed := by
  have colon : t.contains ':' = s.contains ':' := by
    rw [Bool.eq_iff_iff, List.contains_iff_mem, List.contains_iff_mem, h.mem_iff rfl]
  unfold said?
  rw [h.head?_eq first, colon]
  split_ifs with at_ found
  · exact congrArg (fun t => some (Outline.statement t)) (collapseSpace_congr h.words.symm)
  · have name := h.words_takeWhile (d := ':') rfl (List.contains_iff_mem.1 found)
    rw [← words_trim, ← words_trim (s.takeWhile _)] at name
    simp only [Option.map_some, Outline.collapsed, collapseSpace_congr name, collapseSpace_congr h.words]
  · rfl

theorem head?_runBody (some_cell : runBody run ≠ []) : ∃ c ∈ (chars (runBody run)).head?, isSpace c = false := by
  rcases exists_trimmed isBlankCell run with blank | ⟨lead, body, tail, rfl, h⟩
  · exact absurd (runBody_of_blank blank) some_cell
  · rw [runBody_of_trimmed h]
    obtain ⟨c, first, stays⟩ := h.first
    refine ⟨c.char, by simp [Option.mem_def.1 first], ?_⟩
    cases space : isSpace c.char with
    | false => rfl
    | true =>
      rw [isBlankCell_of_isSpace space] at stays
      cases stays

theorem runOutlines_respace (h : Respace isSpaceCell run run') :
    (runOutlines run').map collapsedAll = (runOutlines run).map collapsedAll := by
  rcases runBody_respace h with same | inside
  · rw [runOutlines, same, runOutlines]
  · have said := said?_respace (chars_respace inside) (head?_runBody inside.ne_nil)
    unfold runOutlines
    rw [if_neg (by simpa using inside.ne_nil'), if_neg (by simpa using inside.ne_nil)]
    have each (o : Option Outline) : (o.map fun o => [o]).map collapsedAll = (o.map Outline.collapsed).map fun o => [o] := by
      cases o <;> rfl
    rw [each, each, said]

theorem selectorOf_respace (h : Respace isSpaceCell run run') : selectorOf run' = selectorOf run := by
  rcases runBody_respace h with same | inside
  · rw [selectorOf, same, selectorOf]
  · exact (collapseSpace_congr (chars_respace inside).words).symm

/-- A content in which other white space stands in the place of some is sound, and its outlines are alike. -/
theorem Content.Sound.respace (sound : content.Sound) (h : Respace isSpaceCell content.cells cells) :
    ∃ other : Content, other.cells = cells ∧ other.Sound ∧ collapsedAll other.outlines = collapsedAll content.outlines := by
  have told {run run' : List Cell} (h : Respace isSpaceCell run run') (told : (runOutlines run).isSome) :
      (runOutlines run').isSome ∧
        collapsedAll ((runOutlines run').getD []) = collapsedAll ((runOutlines run).getD []) := by
    have same := runOutlines_respace h
    obtain ⟨os, told⟩ := Option.isSome_iff_exists.1 told
    rw [told, Option.map_some, Option.map_eq_some_iff] at same
    obtain ⟨os', told', same⟩ := same
    simp [told, told', same]
  induction sound generalizing cells with
  | @last run free spoken =>
    have h : Respace isSpaceCell run cells := h
    obtain ⟨m, free⟩ := free
    obtain ⟨spoken', same⟩ := told h spoken
    exact ⟨.last cells, rfl, .last ⟨m, by rw [parensBehind_respace h, free]⟩ spoken', same⟩
  | @ended run rest free spoken sound ih =>
    rcases h.cases_append_cons rfl with ⟨run', rfl, inside⟩ | ⟨rest', rfl, inside⟩
    · obtain ⟨spoken', same⟩ := told inside spoken
      refine ⟨.ended run' rest, rfl, .ended (by rw [parensBehind_respace inside, free]) spoken' sound, ?_⟩
      rw [outlines, outlines, collapsedAll_append, collapsedAll_append, same]
    · obtain ⟨rest', rfl, sound', same⟩ := ih inside
      refine ⟨.ended run rest', rfl, .ended free spoken sound', ?_⟩
      rw [outlines, outlines, collapsedAll_append, collapsedAll_append, same]
  | @block prelude body rest free named nests inner sound ih ih' =>
    rcases h.cases_append_cons rfl with ⟨prelude', rfl, inside⟩ | ⟨behind, rfl, inside⟩
    · have named' : runBody prelude' ≠ [] := by
        rcases runBody_respace inside with same | inside
        · rwa [same]
        · exact inside.ne_nil'
      refine ⟨.block prelude' body rest, rfl,
        .block (by rw [parensBehind_respace inside, free]) named' nests inner sound, ?_⟩
      rw [outlines, outlines, selectorOf_respace inside]
    · rcases inside.cases_append_cons rfl with ⟨body', rfl, within⟩ | ⟨rest', rfl, within⟩
      · have nests' := bracesBehind_respace within 0
        obtain ⟨body', rfl, inner', same⟩ := ih within
        refine ⟨.block prelude body' rest, rfl, .block free named (by rw [nests', nests]) inner' sound, ?_⟩
        rw [outlines, outlines, collapsedAll, Outline.collapsed, same, collapsedAll, Outline.collapsed]
      · obtain ⟨rest', rfl, sound', same⟩ := ih' within
        refine ⟨.block prelude body rest', rfl, .block free named nests inner sound', ?_⟩
        rw [outlines, outlines, collapsedAll, same, collapsedAll]

/-! ## Stylesheets -/

/-- In a mask, other white space can stand in front of a line feed that has some before it. -/
theorem IsMask.reflow {feed : Cell} (h : IsMask (a ++ ((w ++ [feed]) ++ b))) (is_feed : feed.char = '\n')
    (space : ∀ c ∈ w, isSpaceCell c = true) (some_cell : w ≠ []) {text : List Char} (space' : ∀ c ∈ text, isSpace c = true) :
    ∃ cells, IsMask cells ∧ chars cells = chars a ++ (text ++ '\n' :: chars b) ∧
      Respace isSpaceCell (a ++ ((w ++ [feed]) ++ b)) cells := by
  obtain ⟨u, hu, read⟩ := isMask_iff.1 h {} isCode_start
  obtain ⟨s, front, read⟩ := read.split
  obtain ⟨t, middle, back⟩ := read.split
  have reached : Reached s := reached_start.scans front
  have split : (w ++ [feed]).map Cell.char = chars w ++ ['\n'] := by simp [chars, is_feed]
  rw [split] at middle
  obtain ⟨shown, spaced⟩ := scans_space_feed reached (List.forall_mem_map.2 space) (by simpa using some_cell) middle
  obtain ⟨t', alike, middle'⟩ := spaced text space'
  obtain ⟨u', back', alike'⟩ := alike.scans back
  have dull {w : List Char} (space : ∀ c ∈ w, isSpace c = true) (more : List Char) :
      ((w ++ ['\n']) ++ more).head?.or none ≠ some '*' := by
    rw [Option.or_none]
    intro star
    have : isSpace '*' = true := by
      cases w with
      | nil => simp at star
      | cons c w =>
        obtain rfl : c = '*' := by simpa using star
        exact space '*' List.mem_cons_self
    cases this
  have front' : Scans .stylesheet (((text ++ ['\n']) ++ chars b).head?.or none) {} (chars a) a s :=
    scans_follow reached_start front (by rw [List.map_append, split]; exact dull (List.forall_mem_map.2 space) _) (dull space' _)
  have whole := front'.append (middle'.append back')
  have faces : (cellsOf shown (text ++ ['\n'])).map Cell.char = text ++ ['\n'] := chars_cellsOf shown _
  have same : chars (a ++ (cellsOf shown (text ++ ['\n']) ++ b)) = chars a ++ ((text ++ ['\n']) ++ chars b) := by
    rw [chars, List.map_append, List.map_append, faces]
  refine ⟨a ++ (cellsOf shown (text ++ ['\n']) ++ b), ?_, by rw [same]; simp, ?_⟩
  · refine maskFrom_eq_ok_iff.2 ⟨u', ?_, alike'.unterminated? hu.closed⟩
    rw [same]
    exact whole
  · refine .mk ?_ ?_ (by simp) (by simp)
    · exact List.forall_mem_append.2 ⟨space, by simp [isSpaceCell, is_feed, isSpace]⟩
    · have with_feed : ∀ c ∈ text ++ ['\n'], isSpace c = true := List.forall_mem_append.2 ⟨space', List.all_eq_true.1 rfl⟩
      exact List.forall_mem_map.2 with_feed

/-- A text with other white space in front of a line feed is a stylesheet alike. -/
theorem IsSheet.reflow (sheet : IsSheet text content) (h : Reflow text text') :
    ∃ other, IsSheet text' other ∧ collapsedAll other.outlines = collapsedAll content.outlines := by
  obtain @⟨front, back, w, w', space, space', some_char⟩ := h
  obtain ⟨same, masked, sound, no_declaration⟩ := sheet
  obtain ⟨a, rest, cut, rfl, rest_chars⟩ := List.map_eq_append_iff.1 same
  obtain ⟨v, rest', rfl, rfl, feed_chars⟩ := List.map_eq_append_iff.1 rest_chars
  obtain ⟨feed, b, rfl, is_feed, rfl⟩ := List.map_eq_cons_iff.1 feed_chars
  have whole : content.cells = a ++ ((v ++ [feed]) ++ b) := by rw [cut]; simp
  rw [whole] at masked
  obtain ⟨cells, masked', chars_eq, respaced⟩ :=
    masked.reflow is_feed (List.forall_mem_map.1 space) (by simpa using some_char) space'
  rw [← whole] at respaced
  obtain ⟨other, rfl, sound', alike⟩ := sound.respace respaced
  refine ⟨other, ⟨chars_eq, masked', sound', ?_⟩, alike⟩
  rw [collapsedAll_eq_map, collapsedAll_eq_map] at alike
  intro o ho
  obtain ⟨o', ho', same⟩ := List.mem_map.1 (alike ▸ List.mem_map_of_mem ho)
  rw [← isDeclaration_collapsed, ← same, isDeclaration_collapsed]
  exact no_declaration o' ho'

/-- White space may follow a stylesheet. -/
theorem IsSheet.append_space (sheet : IsSheet text content) (space : ∀ c ∈ text', isSpace c = true) :
    ∃ other, IsSheet (text ++ text') other ∧ other.outlines = content.outlines := by
  obtain ⟨rfl, masked, sound, no_declaration⟩ := sheet
  have blank := isBlankCell_map_code space
  have same := Content.outlines_append_blank blank content
  refine ⟨content.append (.last (text'.map code)), ⟨?_, ?_, (Content.sound_append_blank blank).2 sound, same ▸ no_declaration⟩, same⟩
  · rw [Content.cells_append, Content.cells, Text.chars, List.map_append]
    exact congrArg _ (chars_cellsOf true text')
  · rw [Content.cells_append]
    exact masked.append_space space

/-- White space at the start of a stylesheet can be left out. -/
theorem IsSheet.of_space_append (sheet : IsSheet (text' ++ text) content) (space : ∀ c ∈ text', isSpace c = true) :
    ∃ other, IsSheet text other ∧ other.outlines = content.outlines := by
  obtain ⟨same, masked, sound, no_declaration⟩ := sheet
  obtain ⟨w, cells, cut, rfl, rfl⟩ := List.map_eq_append_iff.1 same
  have space : ∀ c ∈ w, isSpaceCell c = true := List.forall_mem_map.1 space
  have blank := isBlankCell_of_isSpaceCell space
  rw [cut] at masked
  obtain ⟨other, rfl, rfl⟩ := Content.exists_prepend blank cut
  rw [Content.outlines_prepend blank] at no_declaration ⊢
  exact ⟨other, ⟨rfl, masked.of_space_append space, (Content.sound_prepend blank).1 sound, no_declaration⟩, rfl⟩

end Codewright.Css
