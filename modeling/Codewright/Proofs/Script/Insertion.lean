import Codewright.Language.Settings
import Codewright.Proofs.Language.Operations
import Codewright.Proofs.Script.Seam
import Codewright.Proofs.Text.Pattern
import Codewright.Proofs.Text.Search

/-!
# Insertion of members

A member is put into the body of a class or of an interface. Where the body is one in code, the rest of the script is read as
before: nothing that is quoted, no comment and no template is cut or read otherwise.

* `Insertion` – a member with the block for it; `insertion` is what an operation asks for;
* `StandsInCode` – the mask of the result consists of the masks of its parts;
* `editOne_insertion` – when a member stands in code, and the script stays valid.
-/

namespace Codewright.Script

open Text Json

/-! ## Insertions -/

/-- A member, the block that it is for, and the unit of indentation there. -/
structure Insertion where
  block : Block
  member : List Char
  unit : List Char
  /-- It is put at the start of the block. -/
  first : Bool
deriving DecidableEq

namespace Insertion

/-- The indentation of the member in a text. -/
def indent (text : List Char) (i : Insertion) : List Char := lineIndent text i.block.opening ++ i.unit

/-- The member as it stands in a text. -/
def inserted (text : List Char) (i : Insertion) : List Char := indentLines i.member (i.indent text)

/-- The text with the member. -/
def apply (text : List Char) (i : Insertion) : List Char :=
  if i.first then insertFirst text i.block.opening i.block.closing i.member i.unit
  else insertLast text i.block.opening i.block.closing i.member i.unit true

end Insertion

/-- The insertion of a method for which an operation asks. -/
def methodInsertion (s : Style) (source : String) (o : MethodAddition) : Except CraftError Insertion := do
  let r := Reading.ofText source.toList
  let block ← findBlock (r.blocks Shape.cls) o.cls "class"
  let unit := unitIn r.text block s.unit
  return ⟨block, (o.method.print { s with unit }).toList, unit.toList, false⟩

/-- The insertion of a property for which an operation asks. -/
def propertyInsertion (s : Style) (source : String) (o : PropertyAddition) : Except CraftError Insertion := do
  let r := Reading.ofText source.toList
  match o.iface, o.cls with
  | some name, none =>
    let property ← readOptions InterfaceProperty.record o.property
    let block ← findBlock (r.blocks Shape.iface) (some name) "interface"
    return ⟨block, property.print.toList, (unitIn r.text block s.unit).toList, false⟩
  | none, some name =>
    let property ← readOptions ClassField.record o.property
    let block ← findBlock (r.blocks Shape.cls) (some name) "class"
    return ⟨block, (property.print s.dialect).toList, (unitIn r.text block s.unit).toList, true⟩
  | _, _ => .error (.invalidOptions .noSingleTarget)

/-- The insertion for which an operation asks. -/
def insertion (s : Style) (source : String) (operation : Json) : Except CraftError Insertion := do
  match ← operationTag operation, s.dialect with
  | "add_method", _ => methodInsertion s source (← readOptions MethodAddition.record operation)
  | "add_property", .typescript => propertyInsertion s source (← readOptions PropertyAddition.record operation)
  | other, d => .error (.unknownOperation d.name other)

theorem addMethod_eq (s : Style) (source : String) (o : MethodAddition) : addMethod s source o =
    (methodInsertion s source o).map fun i => String.ofList (i.apply source.toList) := by
  unfold addMethod methodInsertion
  dsimp only [bind, Except.bind]
  cases findBlock ((Reading.ofText source.toList).blocks Shape.cls) o.cls "class" <;> rfl

theorem addProperty_eq (s : Style) (source : String) (o : PropertyAddition) : addProperty s source o =
    (propertyInsertion s source o).map fun i => String.ofList (i.apply source.toList) := by
  obtain ⟨iface, cls, property⟩ := o
  unfold addProperty propertyInsertion
  cases iface with
  | some name =>
    cases cls with
    | some _ => rfl
    | none =>
      dsimp only [bind, Except.bind]
      cases readOptions InterfaceProperty.record property with
      | error => rfl
      | ok p =>
        dsimp only
        cases findBlock ((Reading.ofText source.toList).blocks Shape.iface) (some name) "interface" <;> rfl
  | none =>
    cases cls with
    | none => rfl
    | some name =>
      dsimp only [bind, Except.bind]
      cases readOptions ClassField.record property with
      | error => rfl
      | ok p =>
        dsimp only
        cases findBlock ((Reading.ofText source.toList).blocks Shape.cls) (some name) "class" <;> rfl

/-- An operation that adds a method or a property inserts a member. -/
theorem editOne_eq {s : Style} {source : String} {operation : Json}
    (tag : operationTag operation = .ok "add_method" ∨ operationTag operation = .ok "add_property") :
    editOne s source operation = (insertion s source operation).map fun i => String.ofList (i.apply source.toList) := by
  unfold editOne insertion
  rcases tag with tag | tag
  · rw [tag]
    dsimp only [bind, Except.bind]
    cases readOptions MethodAddition.record operation with
    | error => rfl
    | ok o => exact addMethod_eq s source o
  · rw [tag]
    dsimp only [bind, Except.bind]
    cases s.dialect with
    | javascript => rfl
    | typescript =>
      cases readOptions PropertyAddition.record operation with
      | error => rfl
      | ok o => exact addProperty_eq s source o

variable {source text w : List Char} {front body back cells ci : List Cell} {b : Block} {i : Insertion} {s t : MaskState} {c : Char}

theorem mem_of_findBlock {blocks : List Block} {name : Option String} {kind : String} (found : findBlock blocks name kind = .ok b) :
    b ∈ blocks := by
  unfold findBlock at found
  split at found
  · split at found
    next here =>
      cases found
      exact List.mem_of_find?_eq_some here
    next => cases found
  · split at found
    next =>
      cases found
      exact List.mem_cons_self
    next => cases found

/-- A block that a pattern up to an opening brace finds. -/
def IsFound (source : List Char) (b : Block) : Prop :=
  ∃ pattern : Pattern, pattern.EndsWith (· == '\x7b') ∧ b ∈ (Reading.ofText source).blocks pattern

/-- A member is for a block of the source, in its unit of indentation. -/
theorem isFound_of_insertion {style : Style} {source : String} {operation : Json} (asked : insertion style source operation = .ok i) :
    IsFound source.toList i.block ∧ i.unit = (unitIn source.toList i.block style.unit).toList := by
  have of_cls {name : Option String} {b : Block}
      (found : findBlock ((Reading.ofText source.toList).blocks Shape.cls) name "class" = .ok b) : IsFound source.toList b :=
    ⟨Shape.cls, rfl, mem_of_findBlock found⟩
  have of_iface {name : Option String} {b : Block}
      (found : findBlock ((Reading.ofText source.toList).blocks Shape.iface) name "interface" = .ok b) : IsFound source.toList b :=
    ⟨Shape.iface, rfl, mem_of_findBlock found⟩
  unfold insertion at asked
  obtain ⟨tag, -, asked⟩ := exists_ok_of_bind asked
  split at asked
  · obtain ⟨o, -, asked⟩ := exists_ok_of_bind asked
    obtain ⟨b, found, asked⟩ := exists_ok_of_bind asked
    cases asked
    exact ⟨of_cls found, rfl⟩
  · obtain ⟨⟨iface, cls, property⟩, -, asked⟩ := exists_ok_of_bind asked
    unfold propertyInsertion at asked
    dsimp only at asked
    split at asked
    · obtain ⟨p, -, asked⟩ := exists_ok_of_bind asked
      obtain ⟨b, found, asked⟩ := exists_ok_of_bind asked
      cases asked
      exact ⟨of_iface found, rfl⟩
    · obtain ⟨p, -, asked⟩ := exists_ok_of_bind asked
      obtain ⟨b, found, asked⟩ := exists_ok_of_bind asked
      cases asked
      exact ⟨of_cls found, rfl⟩
    · cases asked
  · cases asked

/-! ## Blocks -/

/-- A block is the part of what is searched between an opening brace and the one that closes it. -/
theorem exists_cells (found : IsFound text b) :
    ∃ front body back, maskOrAll .script text = front ++ code '\x7b' :: (body ++ code '\x7d' :: back) ∧ b.opening = front.length ∧
      b.closing = front.length + body.length + 1 ∧ bracesBehind 0 body = some 0 := by
  obtain ⟨pattern, ends, found⟩ := found
  have faces : (Reading.ofText text).faces = (maskOrAll .script text).map Cell.face := rfl
  generalize maskOrAll .script text = cells at faces ⊢
  obtain ⟨m, hm, named⟩ := List.mem_filterMap.1 found
  obtain ⟨name, -, named⟩ := Option.bind_eq_some_iff.1 named
  dsimp only at named
  obtain ⟨closing, closed, same⟩ := Option.bind_eq_some_iff.1 named
  cases same
  have hm : m ∈ pattern.findAll (Reading.ofText text).faces := List.mem_of_mem_filter hm
  obtain ⟨x, c, y, whole, is_brace, stop⟩ := Pattern.findAll_ends ends hm
  rw [faces] at whole
  obtain ⟨front, rest, rfl, rfl, rest_eq⟩ := List.map_eq_append_iff.1 whole
  obtain ⟨brace, behind, rfl, face, rfl⟩ := List.map_eq_cons_iff.1 rest_eq
  obtain rfl : brace = code '\x7b' := eq_code_of_face (face.trans (by simpa using is_brace)) rfl
  have opening : m.stop - 1 = front.length := by simp [stop]
  rw [matchingBrace?, opening, faces, List.map_append, List.drop_left' (by simp), closingBrace?_map_face] at closed
  obtain ⟨place, braces, rfl⟩ := Option.map_eq_some_iff.1 closed
  rw [closingBrace?, if_pos (by rfl)] at braces
  obtain ⟨place, inner, rfl⟩ := Option.map_eq_some_iff.1 braces
  obtain ⟨body, d, back, rfl, rfl, nests, closes⟩ := closingBrace?_eq_some_iff.1 inner
  obtain rfl : d = code '\x7d' := eq_code_of_face closes rfl
  exact ⟨front, body, back, rfl, opening, by dsimp only; omega, nests⟩

/-- A block is the part of a mask between an opening brace and the one that closes it. -/
theorem exists_block (found : IsFound text b) (masked : mask .script text = .ok cells) :
    ∃ front body back, cells = front ++ code '\x7b' :: (body ++ code '\x7d' :: back) ∧ b.opening = front.length ∧
      b.closing = front.length + body.length + 1 ∧ bracesBehind 0 body = some 0 := by
  have block := exists_cells found
  rwa [maskOrAll, masked] at block

/-- A block stands between two braces of the text, whether it has a mask or not. -/
theorem exists_braces (found : IsFound text b) :
    ∃ x inner y, text = x ++ '\x7b' :: (inner ++ '\x7d' :: y) ∧ b.opening = x.length ∧ b.closing = x.length + inner.length + 1 := by
  have whole : chars (maskOrAll .script text) = text := by
    unfold maskOrAll
    cases masked : mask .script text with
    | ok cells =>
      obtain ⟨t, read, -⟩ := maskFrom_eq_ok_iff.1 masked
      exact read.chars
    | error e => simp [Function.comp_def]
  obtain ⟨front, body, back, cells, opening, closing, -⟩ := exists_cells found
  refine ⟨chars front, chars body, chars back, ?_, by simpa using opening, by simpa using closing⟩
  rw [← whole, cells]
  simp

/-- How a script is read around a block in front of which nothing is open: the block is one in code. -/
theorem exists_scans_block (masked : mask .script text = .ok (front ++ code '\x7b' :: (body ++ code '\x7d' :: back)))
    (nests : bracesBehind 0 body = some 0) (outside : mask .script (text.take front.length) = .ok cells) :
    ∃ s₁ s₂ t, Scans .script none {} (chars (front ++ [code '\x7b'])) (front ++ [code '\x7b']) s₁ ∧ IsCode s₁ ∧
      IsBounded s₁.past ∧ Scans .script (some '\x7d') s₁ (chars body) body s₂ ∧ IsCode s₂ ∧
      Scans .script none s₂ (chars (code '\x7d' :: back)) (code '\x7d' :: back) t ∧ t.unterminated? = none := by
  obtain ⟨t, read, closed⟩ := maskFrom_eq_ok_iff.1 masked
  have text_eq := read.chars
  rw [← text_eq, List.map_append, List.take_left' (by simp)] at outside
  obtain ⟨s₀, front_read, behind⟩ := read.split
  cases behind with
  | @cons _ _ _ _ _ mode es _ step behind =>
    obtain ⟨-, is_code⟩ := isCode_of_masked outside front_read step
    have opened (next : Option Char) : maskStep .script s₀ '\x7b' next = .ok (true, .plain, []) := by
      simp [maskStep, is_code.mode, is_code.enclosures, stepCode, openBrace]
    obtain ⟨rfl, rfl⟩ : mode = .plain ∧ es = [] := by
      rw [opened] at step
      cases step
      exact ⟨rfl, rfl⟩
    have in_block : IsCode (s₀.after '\x7b' true .plain []) := ⟨rfl, rfl⟩
    obtain ⟨s₂, body_read, behind⟩ := behind.split
    -- In the block, braces nest; so the brace behind it closes none of a substitution.
    have reached := reached_of_isCode in_block
    obtain ⟨reached', opened', none_open⟩ :=
      scans_reached body_read reached fun h => absurd h (not_opened_of_isCode in_block)
    have none_open := none_open 0 0 le_rfl nests
    cases behind with
    | cons closing rest =>
      have is_code' : IsCode s₂ :=
        (maskStep_cases closing).isCode_closing reached' (fun h => absurd (opened' h) (by simp)) (Nat.le_zero.1 none_open)
      refine ⟨_, s₂, t, ?_, in_block, isBounded_cons rfl (by decide) _, body_read, is_code', .cons closing rest, closed⟩
      have whole := front_read.append (b := ['\x7b']) (.cons (opened _) .nil)
      rwa [chars, List.map_append]

/-- White space of one line at the end of a block is a gap. -/
theorem exists_gap_last {x : List Char} (masked : mask .script text = .ok (front ++ code '\x7b' :: (body ++ code '\x7d' :: back)))
    (nests : bracesBehind 0 body = some 0) (outside : mask .script (text.take front.length) = .ok cells)
    (cut : chars body = x ++ w) (blank : ∀ c ∈ w, isSpace c = true ∧ c ≠ '\n') :
    ∃ a, chars a = chars front ++ '\x7b' :: x ∧ Gap text a w (code '\x7d' :: back) := by
  obtain ⟨s₁, s₂, t, opened, is_code, -, inside, is_code₂, behind, closed⟩ := exists_scans_block masked nests outside
  obtain ⟨a, v, rfl, rfl, rfl⟩ := List.map_eq_append_iff.1 cut
  obtain ⟨s₃, first, last⟩ := inside.split
  obtain ⟨reached, opened₃, -⟩ := 
    scans_reached first (reached_of_isCode is_code) fun h => absurd h (not_opened_of_isCode is_code)
  have dull : IsDull ((v.map Cell.char).head?.or (some '\x7d')) := isDull_or (fun c hc => (blank c hc).1) (by simp [IsDull])
  have not_opened₃ : s₃.mode ≠ .substitutionOpen := fun h => dull.2.2 (opened₃ h)
  have is_code₃ := isCode_of_scans_blank reached not_opened₃ blank last is_code₂
  obtain ⟨s₄, space, -⟩ := scans_space (some '\x7d') is_code₃ fun c hc => (blank c hc).1
  obtain ⟨same, -⟩ := last.unique space
  refine ⟨front ++ code '\x7b' :: a, by simp, ?_, fun c hc => (blank c hc).1, ⟨s₃, ?_, is_code₃⟩, s₂, t, behind, is_code₂, closed, ?_⟩
  · rw [← same]
    simpa using masked
  · have whole := (opened.in_front_of is_code.mode is_code.enclosures (by simp) _).append (first.dull dull isDull_none)
    simpa using whole
  · exact ⟨code '\x7d', rfl, by decide, .inr (by decide)⟩

/-- White space at the start of a block is a gap, if no slash follows it. -/
theorem exists_gap_first {y : List Char} (masked : mask .script text = .ok (front ++ code '\x7b' :: (body ++ code '\x7d' :: back)))
    (nests : bracesBehind 0 body = some 0) (outside : mask .script (text.take front.length) = .ok cells)
    (cut : chars (body ++ code '\x7d' :: back) = w ++ y) (blank : IsBlank w)
    (no_slash : ((body ++ code '\x7d' :: back).map Cell.face).find? (fun c => !isSpace c) ≠ some '/') :
    ∃ b, chars b = y ∧ Gap text (front ++ [code '\x7b']) w b := by
  obtain ⟨s₁, s₂, t, opened, is_code, bounded, inside, is_code₂, behind, closed⟩ := exists_scans_block masked nests outside
  have read := inside.append behind
  have some_letter : ∃ c ∈ body ++ code '\x7d' :: back, isSpace c.face = false := ⟨code '\x7d', by simp, rfl⟩
  generalize body ++ code '\x7d' :: back = rest at *
  obtain ⟨v, b, rfl, rfl, rfl⟩ := List.map_eq_append_iff.1 cut
  obtain ⟨s₃, first, last⟩ := read.split
  obtain ⟨s₄, space, is_code₃, past⟩ := scans_space ((chars b).head?.or none) is_code blank
  obtain ⟨same, rfl⟩ := first.unique space
  have bounded : IsBounded s₃.past := by
    rw [past]
    cases v with
    | nil => exact bounded
    | cons c v => exact isBounded_append (fun c hc => blank c (List.mem_reverse.1 hc)) (by simp) _
  have found : (v ++ b).find? (fun c => !isSpace c.face) = b.find? fun c => !isSpace c.face := by
    rw [List.find?_append, same, find?_code blank, Option.none_or]
  obtain ⟨c, here⟩ : ∃ c, b.find? (fun c => !isSpace c.face) = some c := by
    rw [← found, ← Option.isSome_iff_exists, List.find?_isSome]
    simpa using some_letter
  refine ⟨b, rfl, ?_, blank, ⟨s₁, opened, is_code⟩, s₃, t, last, is_code₃, closed, c, here, ?_, .inl bounded⟩
  · rw [← same]
    simpa using masked
  · intro slash
    have seen : (v ++ b).find? ((fun c => !isSpace c) ∘ Cell.face) = some c := found.trans here
    rw [List.find?_map, seen, Option.map_some, slash] at no_slash
    exact no_slash rfl

/-! ## Members -/

/-- A character with which a member begins. -/
def startsMember (c : Char) : Bool := Shape.isNameStart c || c == '#'

/-- A script that begins as a member does. -/
structure Insertion.IsMember (i : Insertion) : Prop where
  starts : ∃ c ∈ i.member.head?, startsMember c = true
  valid : isValid (String.ofList i.member) = true

/-- Nothing is open in front of the block, no slash comes first in a block at whose start the member is put, and the member stays a
script when it is indented, as it does if its blank lines are those of ASCII. -/
structure Insertion.IsClean (source : List Char) (i : Insertion) : Prop where
  outside : ∃ cells, mask .script (source.take i.block.opening) = .ok cells
  no_slash : i.first = true →
    ((Reading.ofText source).faces.drop (i.block.opening + 1)).find? (fun c => !isSpace c) ≠ some '/'
  blank : (∀ l ∈ lines i.member, isBlankList l = true → ∀ c ∈ l, isAsciiSpace c = true) ∨
    isValid (String.ofList (i.inserted source)) = true

/-- A member begins with no space, quote, slash, backtick or brace. -/
theorem startsMember_ne {d : Char} (starts : startsMember c = true) (no_start : startsMember d = false) : c ≠ d := by
  rintro rfl
  rw [starts] at no_start
  cases no_start

theorem isSpace_of_startsMember (starts : startsMember c = true) : isSpace c = false := by
  have : ((c.isAlpha = true ∨ c = '_') ∨ c = '$') ∨ c = '#' := by simpa [startsMember, Shape.isNameStart] using starts
  rcases this with ((letter | rfl) | rfl) | rfl
  · exact isSpace_of_isAlphanum (by simp [Char.isAlphanum, letter])
  all_goals rfl

/-- The first line of a text that begins with a letter. -/
theorem exists_first_line (letter : isSpace c = false) (rest : List Char) : ∃ l more, lines (c :: rest) = (c :: l) :: more := by
  have no_feed : c ≠ '\n' := by
    rintro rfl
    cases letter
  by_cases feed : '\n' ∈ rest
  · obtain ⟨l, s, rfl, one⟩ := List.eq_append_cons_of_mem feed
    have one : '\n' ∉ c :: l := by simpa [eq_comm] using ⟨no_feed, one⟩
    rw [← List.cons_append, lines_append_feed one, dropReturn]
    split_ifs with carriage
    · cases l with
      | nil =>
        obtain rfl : c = '\r' := by simpa using carriage
        cases letter
      | cons d l => exact ⟨_, _, rfl⟩
    · exact ⟨l, _, rfl⟩
  · have one : '\n' ∉ c :: rest := by simpa [eq_comm] using ⟨no_feed, feed⟩
    exact ⟨rest, [], lines_of_no_feed one (by simp)⟩

/-- An indented text begins with the indentation. -/
theorem exists_indented (letter : isSpace c = false) (rest indent : List Char) :
    ∃ more, indentLines (c :: rest) indent = indent ++ c :: more := by
  obtain ⟨l, more, cut⟩ := exists_first_line letter rest
  have not_blank : isBlankList (c :: l) = false := by simp [isBlankList, letter]
  rw [indentLines, cut, List.map_cons, not_blank]
  cases more with
  | nil => exact ⟨l, by simp [List.intercalate]⟩
  | cons l' more =>
    rw [List.map_cons, List.intercalate_cons_cons]
    exact ⟨_, by rw [if_neg (by simp), List.append_assoc, List.append_assoc]; rfl⟩

/-- An indented member begins plainly. -/
theorem beginsPlainly_indented {more indent : List Char} (starts : startsMember c = true) (blank : IsBlank indent)
    (masked : mask .script (indent ++ c :: more) = .ok ci) : BeginsPlainly [] ci := by
  obtain ⟨u, read, -⟩ := maskFrom_eq_ok_iff.1 masked
  obtain ⟨c₁, c₂, s, rfl, first, last⟩ := scans_append_iff.1 read
  obtain ⟨s', space, is_code, -⟩ := scans_space ((c :: more).head?.or none) isCode_start blank
  obtain ⟨rfl, rfl⟩ := first.unique space
  cases last with
  | @cons _ _ _ _ shown mode es cells step _ =>
    have ne {d : Char} (no_start : startsMember d = false) : c ≠ d := startsMember_ne starts no_start
    have seen : shown = true := by
      have : maskStep .script s c (more.head?.or none) = .ok (true, .plain, []) := by
        simp [maskStep, is_code.mode, is_code.enclosures, stepCode, ne (d := '\'') rfl, ne (d := '"') rfl, ne (d := '/') rfl,
          ne (d := '\x60') rfl, ne (d := '\x7b') rfl, ne (d := '\x7d') rfl]
      rw [this] at step
      cases step
      rfl
    subst seen
    have face : (code c).face = c := rfl
    refine ⟨code c, ?_, ne rfl, .inl isBounded_nil⟩
    rw [List.find?_append, find?_code blank, Option.none_or, List.find?_cons_of_pos]
    · exact rfl
    · simp [face, isSpace_of_startsMember starts]

/-- Spaces and tabs. -/
def IsIndent (text : List Char) : Prop := ∀ c ∈ text, c = ' ' ∨ c = '\t'

theorem isIndent_indentOf (line : List Char) : IsIndent (indentOf line) := by
  intro c hc
  simpa using List.all_eq_true.1 List.all_takeWhile c hc

/-- The unit of indentation of a block consists of spaces and tabs. -/
theorem isIndent_unitIn {unit : String} (text : List Char) (b : Block) (is_indent : IsIndent unit.toList) :
    IsIndent (unitIn text b unit).toList := by
  unfold unitIn
  cases body : bodyIndent? text b.opening b.closing with
  | none => exact is_indent
  | some own =>
    unfold bodyIndent? at body
    obtain ⟨line, -, body⟩ := Option.bind_eq_some_iff.1 body
    obtain ⟨rest, stripped, body⟩ := Option.bind_eq_some_iff.1 body
    split_ifs at body
    cases body
    have whole := isIndent_indentOf line
    rw [stripStart?_eq_some_iff.1 stripped] at whole
    intro c hc
    rw [Option.map_some, Option.getD_some, String.toList_ofList] at hc
    exact whole c (List.mem_append_right _ hc)

theorem isIndent_unit (settings : Settings) : IsIndent settings.unit.toList := by
  intro c hc
  rw [Settings.unit, String.toList_ofList] at hc
  exact .inl (List.eq_of_mem_replicate hc)

theorem IsIndent.isBlank {indent : List Char} (h : IsIndent indent) : IsBlank indent := by
  intro c hc
  rcases h c hc with rfl | rfl <;> rfl

/-- A text that can be put into a gap: a script that begins plainly. -/
structure IsPlainScript (text : List Char) (cells : List Cell) : Prop where
  mask : mask .script text = .ok cells
  begins : BeginsPlainly [] cells
  dull : IsDull text.head?
  some_char : text ≠ []

/-- A script that is an indented text which begins as a member does can be put into a gap. -/
theorem isPlainScript_indented {member indent : List Char} (starts : ∃ c ∈ member.head?, startsMember c = true) (blank : IsBlank indent)
    (masked : mask .script (indentLines member indent) = .ok ci) : IsPlainScript (indentLines member indent) ci := by
  obtain ⟨c, first, starts⟩ := starts
  obtain ⟨rest, rfl⟩ := List.head?_eq_some_iff.1 first
  obtain ⟨more, indented⟩ := exists_indented (isSpace_of_startsMember starts) rest indent
  rw [indented] at masked ⊢
  have ne {d : Char} (no_start : startsMember d = false) : some c ≠ some d :=
    fun h => startsMember_ne starts no_start (Option.some.inj h)
  refine ⟨masked, beginsPlainly_indented starts blank masked, ?_, by simp⟩
  rw [List.head?_append]
  exact isDull_or blank ⟨ne rfl, ne rfl, ne rfl⟩

theorem IsIndent.ascii {indent : List Char} (h : IsIndent indent) : ∀ c ∈ indent, isAsciiSpace c = true ∧ c ≠ '\n' := by
  intro c hc
  rcases h c hc with rfl | rfl <;> exact ⟨rfl, by decide⟩

/-- A clean member is, once it is indented, a valid script that can be put into a gap. -/
theorem Insertion.exists_isPlainScript (is_indent : IsIndent (i.indent text)) (member : i.IsMember) (clean : i.IsClean text) :
    ∃ ci, IsPlainScript (i.inserted text) ci ∧ bracketsBalanced (brackets ci) = true := by
  obtain ⟨ci, masked, balanced⟩ : ∃ ci, mask .script (i.inserted text) = .ok ci ∧ bracketsBalanced (brackets ci) = true := by
    rcases clean.blank with blank | valid
    · obtain ⟨cm, masked, balanced⟩ := exists_of_isValid member.valid
      have some_char : i.member ≠ [] := by
        obtain ⟨c, first, -⟩ := member.starts
        rintro none
        rw [none] at first
        cases first
      obtain ⟨ci, masked', same⟩ := mask_indentLines is_indent.ascii some_char blank masked
      exact ⟨ci, masked', by rw [same, balanced]⟩
    · exact exists_of_isValid valid
  exact ⟨ci, isPlainScript_indented member.starts is_indent.isBlank masked, balanced⟩

/-- What an insertion at the end of a block in code is made of: what comes in front of a gap, a seam, what is inserted, a line feed and
white space, and what comes behind the gap. -/
theorem exists_gap_insertLast (member unit : List Char)
    (masked : mask .script text = .ok (front ++ code '\x7b' :: (body ++ code '\x7d' :: back)))
    (nests : bracesBehind 0 body = some 0) (outside : mask .script (text.take front.length) = .ok cells) :
    ∃ a w b lead x, Gap text a w b ∧ IsBlank lead ∧ (chars a ++ lead).getLast? = some '\n' ∧ IsBlank x ∧
      insertLast text front.length (front.length + body.length + 1) member unit true =
        chars a ++ lead ++ (indentLines member (lineIndent text front.length ++ unit) ++ ('\n' :: x ++ chars b)) := by
  have text_eq : text = chars front ++ '\x7b' :: (chars body ++ chars (code '\x7d' :: back)) := by
    obtain ⟨t, read, -⟩ := maskFrom_eq_ok_iff.1 masked
    rw [← read.chars]
    simp
  obtain ⟨x, w, lead, space, cut, removed, blank_lead, ends, blank, result⟩ :=
    insertLast_eq member unit true rfl text_eq (show front.length = (chars front).length by simp)
      (show front.length + body.length + 1 = (chars front).length + (chars body).length + 1 by simp)
  obtain ⟨a, front_eq, gap⟩ := exists_gap_last masked nests outside cut removed
  refine ⟨a, w, _, lead, space, gap, blank_lead, ?_, blank, ?_⟩
  · rw [front_eq, List.append_assoc, List.cons_append, List.getLast?_append, List.getLast?_cons, ends]
    rfl
  · rw [result]
    simp [front_eq]

/-- What is put at the end of a block in code stands in code. -/
theorem standsInCode_insertLast {member unit : List Char}
    (masked : mask .script text = .ok (front ++ code '\x7b' :: (body ++ code '\x7d' :: back)))
    (nests : bracesBehind 0 body = some 0) (outside : mask .script (text.take front.length) = .ok cells)
    (plain : IsPlainScript (indentLines member (lineIndent text front.length ++ unit)) ci) :
    StandsInCode text (indentLines member (lineIndent text front.length ++ unit))
      (insertLast text front.length (front.length + body.length + 1) member unit true) := by
  obtain ⟨a, w, b, lead, x, gap, blank_lead, seam, blank, result⟩ :=
    exists_gap_insertLast member unit masked nests outside
  rw [result]
  exact gap.standsInCode blank_lead seam plain.mask plain.begins plain.dull plain.some_char blank

/-- What is put at the start of a block in code stands in code, if no slash comes first there. -/
theorem standsInCode_insertFirst {member unit : List Char}
    (masked : mask .script text = .ok (front ++ code '\x7b' :: (body ++ code '\x7d' :: back)))
    (nests : bracesBehind 0 body = some 0) (outside : mask .script (text.take front.length) = .ok cells)
    (no_slash : ((body ++ code '\x7d' :: back).map Cell.face).find? (fun c => !isSpace c) ≠ some '/')
    (is_unit : IsIndent unit) (plain : IsPlainScript (indentLines member (lineIndent text front.length ++ unit)) ci) :
    StandsInCode text (indentLines member (lineIndent text front.length ++ unit))
      (insertFirst text front.length (front.length + body.length + 1) member unit) := by
  by_cases filled : blockIsBlank text front.length (front.length + body.length + 1) = true
  · rw [insertFirst, if_pos filled]
    exact standsInCode_insertLast masked nests outside plain
  · have text_eq : text = chars front ++ '\x7b' :: chars (body ++ code '\x7d' :: back) := by
      obtain ⟨t, read, -⟩ := maskFrom_eq_ok_iff.1 masked
      rw [← read.chars]
      simp
    obtain ⟨w, lead, space, y, cut, removed, blank_lead, ends, blank, result⟩ :=
      insertFirst_eq member unit text_eq (show front.length = (chars front).length by simp) (Bool.eq_false_iff.2 filled)
        is_unit.isBlank
    obtain ⟨b, rfl, gap⟩ := exists_gap_first masked nests outside cut removed no_slash
    have seam : (chars (front ++ [code '\x7b']) ++ lead).getLast? = some '\n' := by
      rw [List.getLast?_append, ends]
      rfl
    have stands := gap.standsInCode blank_lead seam plain.mask plain.begins plain.dull plain.some_char blank
    rw [result]
    simpa using stands

/-- A clean insertion of a member into a block that is found. -/
theorem Insertion.standsInCode (found : IsFound text i.block) (masked : mask .script text = .ok cells) (is_indent : IsIndent i.unit)
    (member : i.IsMember) (clean : i.IsClean text) : StandsInCode text (i.inserted text) (i.apply text) ∧
      ∃ ci, mask .script (i.inserted text) = .ok ci ∧ bracketsBalanced (brackets ci) = true := by
  have indent : IsIndent (i.indent text) := List.forall_mem_append.2 ⟨isIndent_indentOf _, is_indent⟩
  obtain ⟨ci, plain, balanced⟩ := i.exists_isPlainScript indent member clean
  refine ⟨?_, ci, plain.mask, balanced⟩
  obtain ⟨front, body, back, rfl, opening, closing, nests⟩ := exists_block found masked
  obtain ⟨outer, outside⟩ := clean.outside
  have no_slash := clean.no_slash
  rw [Reading.ofText, maskOrAll, masked] at no_slash
  unfold Insertion.inserted Insertion.indent at plain ⊢
  unfold Insertion.apply
  rw [opening] at outside no_slash plain ⊢
  rw [closing]
  split_ifs with first
  · refine standsInCode_insertFirst masked nests outside ?_ is_indent plain
    have no_slash := no_slash first
    rw [List.append_cons] at no_slash
    rwa [List.map_append, List.drop_left' (by simp)] at no_slash
  · exact standsInCode_insertLast masked nests outside plain

/-! ## Operations -/

/-- An operation that adds a method or a property puts a member into a block. Where nothing is open in front of the block, the member
stands in code, and the script stays valid. -/
theorem editOne_insertion (settings : Settings) (dialect : Dialect) {source result : String} {operation : Json}
    (valid : isValid source = true)
    (tag : operationTag operation = .ok "add_method" ∨ operationTag operation = .ok "add_property")
    (edited : editOne ⟨dialect, settings.unit⟩ source operation = .ok result) :
    ∃ i, insertion ⟨dialect, settings.unit⟩ source operation = .ok i ∧ result = String.ofList (i.apply source.toList) ∧
      (i.IsMember → i.IsClean source.toList →
        isValid result = true ∧ StandsInCode source.toList (i.inserted source.toList) result.toList) := by
  rw [editOne_eq tag] at edited
  cases asked : insertion ⟨dialect, settings.unit⟩ source operation with
  | error e =>
    rw [asked] at edited
    cases edited
  | ok i =>
    rw [asked] at edited
    obtain rfl : String.ofList (i.apply source.toList) = result := Except.ok.inj edited
    refine ⟨i, rfl, rfl, fun member clean => ?_⟩
    obtain ⟨found, unit⟩ := isFound_of_insertion asked
    have is_indent : IsIndent i.unit := unit ▸ isIndent_unitIn _ _ (isIndent_unit settings)
    rw [← String.ofList_toList (s := source)] at valid
    obtain ⟨cells, masked, -⟩ := exists_of_isValid valid
    obtain ⟨stands, ci, inserted, balanced⟩ := i.standsInCode found masked is_indent member clean
    refine ⟨stands.isValid valid inserted balanced, ?_⟩
    rwa [String.toList_ofList]

/-- A method behind one with a pattern that has a brace, in a class behind a template. -/
theorem editOne_insertion_method :
    isValid "\x60$\x7b1\x7d\x60\nclass A \x7b\n  m() \x7b /[\x7b]/ \x7d\n\x7d" = true ∧
      editOne ⟨.javascript, Settings.unit {}⟩ "\x60$\x7b1\x7d\x60\nclass A \x7b\n  m() \x7b /[\x7b]/ \x7d\n\x7d"
        (.object [("type", .string "add_method"), ("method", .object [("name", .string "go")])]) =
        .ok "\x60$\x7b1\x7d\x60\nclass A \x7b\n  m() \x7b /[\x7b]/ \x7d\n\n  go() \x7b\x7d\n\x7d" ∧
      isValid "\x60$\x7b1\x7d\x60\nclass A \x7b\n  m() \x7b /[\x7b]/ \x7d\n\n  go() \x7b\x7d\n\x7d" = true ∧
      StandsInCode "\x60$\x7b1\x7d\x60\nclass A \x7b\n  m() \x7b /[\x7b]/ \x7d\n\x7d".toList "  go() \x7b\x7d".toList
        "\x60$\x7b1\x7d\x60\nclass A \x7b\n  m() \x7b /[\x7b]/ \x7d\n\n  go() \x7b\x7d\n\x7d".toList := by
  have valid : isValid "\x60$\x7b1\x7d\x60\nclass A \x7b\n  m() \x7b /[\x7b]/ \x7d\n\x7d" = true := by decide +kernel
  have edited : editOne ⟨.javascript, Settings.unit {}⟩ "\x60$\x7b1\x7d\x60\nclass A \x7b\n  m() \x7b /[\x7b]/ \x7d\n\x7d"
      (.object [("type", .string "add_method"), ("method", .object [("name", .string "go")])]) =
      .ok "\x60$\x7b1\x7d\x60\nclass A \x7b\n  m() \x7b /[\x7b]/ \x7d\n\n  go() \x7b\x7d\n\x7d" := by decide +kernel
  obtain ⟨i, asked, -, clean⟩ := editOne_insertion {} .javascript valid (.inl rfl) edited
  have found : insertion ⟨.javascript, Settings.unit {}⟩ "\x60$\x7b1\x7d\x60\nclass A \x7b\n  m() \x7b /[\x7b]/ \x7d\n\x7d"
      (.object [("type", .string "add_method"), ("method", .object [("name", .string "go")])]) =
      .ok ⟨⟨"A", 15, 33⟩, "go() \x7b\x7d".toList, "  ".toList, false⟩ := by decide +kernel
  cases asked.symm.trans found
  obtain ⟨valid', stands⟩ := clean ⟨⟨'g', rfl, rfl⟩, by decide +kernel⟩ ⟨⟨_, rfl⟩, nofun, .inl (by decide +kernel)⟩
  exact ⟨valid, edited, valid', stands⟩

/-- A brace of a template in the head of an interface is taken for that of its body; the member goes into the substitution, and what
stands before it ends within the template. -/
theorem not_editOne_insertion : ¬∀ (settings : Settings) (dialect : Dialect) (source result : String) (operation : Json),
    isValid source = true → operationTag operation = .ok "add_method" ∨ operationTag operation = .ok "add_property" →
    editOne ⟨dialect, settings.unit⟩ source operation = .ok result →
      ∃ i, insertion ⟨dialect, settings.unit⟩ source operation = .ok i ∧ (i.IsMember → isValid result = true ∧
        ∃ l r cl ci cr, result.toList = l ++ (i.inserted source.toList ++ r) ∧ mask .script l = .ok cl ∧
          mask .script (i.inserted source.toList) = .ok ci ∧ mask .script r = .ok cr ∧
          mask .script result.toList = .ok (cl ++ (ci ++ cr))) := by
  intro claim
  have valid : isValid "interface I extends A<\x60$\x7bb\x7d\x60> \x7b\n\x7d\n" = true := by decide +kernel
  have edited : editOne ⟨.typescript, Settings.unit {}⟩ "interface I extends A<\x60$\x7bb\x7d\x60> \x7b\n\x7d\n"
      (.object [("type", .string "add_property"), ("interface", .string "I"), ("property", .object [("name", .string "x")])]) =
      .ok "interface I extends A<\x60$\x7bb\n\n    x: any;\n\x7d\x60> \x7b\n\x7d\n" := by decide +kernel
  obtain ⟨i, asked, stands⟩ := claim {} .typescript _ _ _ valid (.inr rfl) edited
  have found : insertion ⟨.typescript, Settings.unit {}⟩ "interface I extends A<\x60$\x7bb\x7d\x60> \x7b\n\x7d\n"
      (.object [("type", .string "add_property"), ("interface", .string "I"), ("property", .object [("name", .string "x")])]) =
      .ok ⟨⟨"I", 24, 26⟩, "x: any;".toList, "    ".toList, false⟩ := by decide +kernel
  cases asked.symm.trans found
  obtain ⟨-, l, r, cl, ci, cr, whole, masked, -⟩ := stands ⟨⟨'x', rfl, rfl⟩, by decide +kernel⟩
  -- Where the member stands in the result, the template is open.
  have within : ∀ k < 49, ("interface I extends A<\x60$\x7bb\n\n    x: any;\n\x7d\x60> \x7b\n\x7d\n".toList.drop k).take 11 =
      "    x: any;".toList → (mask .script
        ("interface I extends A<\x60$\x7bb\n\n    x: any;\n\x7d\x60> \x7b\n\x7d\n".toList.take k)).isOk = false := by
    decide +kernel
  have inserted : Insertion.inserted "interface I extends A<\x60$\x7bb\x7d\x60> \x7b\n\x7d\n".toList
      ⟨⟨"I", 24, 26⟩, "x: any;".toList, "    ".toList, false⟩ = "    x: any;".toList := by decide +kernel
  rw [inserted] at whole
  have short : l.length < 49 := by
    have := congrArg List.length whole
    rw [List.length_append, List.length_append] at this
    have : 48 = l.length + (11 + r.length) := this
    omega
  have open_ := within l.length short (by
    rw [whole, List.drop_left]
    exact List.take_left' (by decide))
  rw [whole, List.take_left, masked] at open_
  cases open_

end Codewright.Script
