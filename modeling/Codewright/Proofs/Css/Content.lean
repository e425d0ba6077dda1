import Codewright.Proofs.Css.Mask
import Codewright.Proofs.Text.Bracket
import Codewright.Proofs.Text.Splice

/-!
# The content of stylesheets

The cells of a stylesheet, taken apart into runs, semicolons and blocks, with nothing left out. Changes of a stylesheet are
changes of its content, and items are read off it.

* `Outline` – an item without its places: what it is and what it says; `outlinesOf` takes it from a text;
* `Content` – the runs and blocks of a stylesheet, with `Content.cells`, `Content.items` and `Content.outlines`;
* `Content.Sound` – a content that is read as it is; `itemsFrom_eq_ok_iff`;
* `IsSheet text content` – the text is a stylesheet with this content; `exists_sheet` and `IsSheet.parse` say that these are
  the texts that can be parsed.
-/

namespace Codewright.Css

open Text

/-! ## Outlines -/

/-- An item without the places where it stands. -/
inductive Outline where
  | block (selector : String) (children : List Outline)
  | statement (text : String)
  /-- A property, and the whole declaration as it is written. -/
  | declaration (property text : String)
deriving Repr

/-- The outline tells of a declaration. -/
def Outline.isDeclaration : Outline → Bool
  | .declaration _ _ => true
  | _ => false

mutual

/-- The outline of an item of a text. -/
def Item.outline (text : List Char) : Item → Outline
  | .block selector _ _ _ children => .block selector (outlinesOf text children)
  | .statement t => .statement t
  | .declaration property start stop _ => .declaration property (String.ofList (slice text start stop))

/-- The outlines of some items of a text. -/
def outlinesOf (text : List Char) : List Item → List Outline
  | [] => []
  | i :: is => i.outline text :: outlinesOf text is

end

/-! ## Runs -/

/-- How many round brackets are open behind some cells, when `n` are open before; none if a brace or a semicolon stands
outside of them. -/
def parensBehind : Nat → List Cell → Option Nat
  | n, [] => some n
  | n, c :: cs =>
    if c.face = '(' then parensBehind (n + 1) cs
    else if c.face = ')' then parensBehind (n - 1) cs
    else if (c.face = '\x7b' ∨ c.face = '\x7d' ∨ c.face = ';') ∧ n = 0 then none
    else parensBehind n cs

/-- A run without its blank ends. -/
def runBody (run : List Cell) : List Cell := dropWhileEnd isBlankCell (run.dropWhile isBlankCell)

/-- What a text between semicolons or braces says. -/
def said? (text : List Char) : Option Outline :=
  if text.head? = some '@' then some (.statement (collapseSpace (String.ofList text)))
  else if text.contains ':' then
    some (.declaration (String.ofList (trim (text.takeWhile (· != ':')))) (String.ofList text))
  else none

/-- What a run says; nothing if it is blank. -/
def runOutlines (run : List Cell) : Option (List Outline) :=
  if (runBody run).isEmpty then some [] else (said? (chars (runBody run))).map fun o => [o]

/-- The items of a run behind a place. -/
def runItems (place : Nat) (run : List Cell) (terminated : Bool) : List Item :=
  (segment place run terminated).toOption.getD []

/-- The selector in a run. -/
def selectorOf (run : List Cell) : String := collapseSpace (String.ofList (chars (runBody run)))

/-! ## Content -/

/-- What a stylesheet or a block contains: runs of cells with what ends them. -/
inductive Content where
  /-- What stands behind the last semicolon and the last block. -/
  | last (run : List Cell)
  /-- A run up to a semicolon. -/
  | ended (run : List Cell) (rest : Content)
  /-- A run with a block behind it. -/
  | block (prelude : List Cell) (body rest : Content)

namespace Content

/-- The cells that a content consists of. -/
def cells : Content → List Cell
  | last run => run
  | ended run rest => run ++ code ';' :: rest.cells
  | block prelude body rest => prelude ++ code '\x7b' :: (body.cells ++ code '\x7d' :: rest.cells)

/-- The items of a content behind a place. -/
def items (place : Nat) : Content → List Item
  | last run => runItems place run false
  | ended run rest => runItems place run true ++ rest.items (place + run.length + 1)
  | block prelude body rest =>
    .block (selectorOf prelude) (place + (prelude.takeWhile isBlankCell).length) (place + prelude.length)
        (place + prelude.length + body.cells.length + 1) (body.items (place + prelude.length + 1)) ::
      rest.items (place + prelude.length + body.cells.length + 2)

/-- The outlines of the items of a content. -/
def outlines : Content → List Outline
  | last run => (runOutlines run).getD []
  | ended run rest => (runOutlines run).getD [] ++ rest.outlines
  | block prelude body rest => .block (selectorOf prelude) body.outlines :: rest.outlines

/-- The content is read as it is: brackets nest, each run says something or is blank, and each block has a selector. -/
inductive Sound : Content → Prop
  | last {run : List Cell} (free : ∃ n, parensBehind 0 run = some n) (told : (runOutlines run).isSome) : Sound (last run)
  | ended {run : List Cell} {rest : Content} (free : parensBehind 0 run = some 0) (told : (runOutlines run).isSome)
      (sound : Sound rest) : Sound (ended run rest)
  | block {prelude : List Cell} {body rest : Content} (free : parensBehind 0 prelude = some 0)
      (named : runBody prelude ≠ []) (nests : bracesBehind 0 body.cells = some 0) (inner : Sound body)
      (sound : Sound rest) : Sound (block prelude body rest)

end Content

variable {text x y : List Char} {run rest cells lead body tail a b acc : List Cell} {c : Cell} {n m place : Nat}
  {items : List Item}

/-! ## Brackets in cells -/

theorem parensBehind_append (n : Nat) (a b : List Cell) :
    parensBehind n (a ++ b) = (parensBehind n a).bind (parensBehind · b) := by
  induction a generalizing n with
  | nil => rfl
  | cons c a ih =>
    simp only [List.cons_append, parensBehind, ih]
    split_ifs <;> rfl

/-- What blank cells show is white space. -/
theorem face_ne_of_blank (blank : isBlankCell c = true) {x : Char} (letter : isSpace x = false) : c.face ≠ x := by
  rintro rfl
  unfold isBlankCell at blank
  rw [letter] at blank
  cases blank

theorem parensBehind_blank (n : Nat) (blank : ∀ c ∈ a, isBlankCell c = true) : parensBehind n a = some n := by
  induction a with
  | nil => rfl
  | cons c a ih =>
    rw [List.forall_mem_cons] at blank
    have ne {x : Char} (letter : isSpace x = false) := face_ne_of_blank blank.1 letter
    rw [parensBehind, if_neg (ne rfl), if_neg (ne rfl), if_neg (by simp [ne (x := '\x7b') rfl, ne (x := '\x7d') rfl, ne (x := ';') rfl]),
      ih blank.2]

theorem bracesBehind_blank (n : Nat) (blank : ∀ c ∈ a, isBlankCell c = true) : bracesBehind n a = some n := by
  induction a with
  | nil => rfl
  | cons c a ih =>
    rw [List.forall_mem_cons] at blank
    rw [bracesBehind, if_neg (face_ne_of_blank blank.1 rfl), if_neg (face_ne_of_blank blank.1 rfl), ih blank.2]

theorem bracesBehind_map_code (no_brace : ∀ c ∈ text, c ≠ '\x7b' ∧ c ≠ '\x7d') (n : Nat) :
    bracesBehind n (text.map code) = some n := by
  induction text with
  | nil => rfl
  | cons c text ih =>
    rw [List.forall_mem_cons] at no_brace
    have face : (code c).face = c := rfl
    rw [List.map_cons, bracesBehind, face, if_neg no_brace.1.1, if_neg no_brace.1.2, ih no_brace.2]

/-- The cells are a run that goes on to their end, or to a brace or semicolon. -/
theorem exists_run (n : Nat) (cells : List Cell) :
    (∃ m, parensBehind n cells = some m) ∨
      ∃ run c rest, cells = run ++ c :: rest ∧ parensBehind n run = some 0 ∧
        (c.face = '\x7b' ∨ c.face = '\x7d' ∨ c.face = ';') := by
  induction cells generalizing n with
  | nil => exact .inl ⟨n, rfl⟩
  | cons c cells ih =>
    have further (m : Nat) (same : ∀ more, parensBehind n (c :: more) = parensBehind m more) := ih m
    by_cases stops : (c.face = '\x7b' ∨ c.face = '\x7d' ∨ c.face = ';') ∧ n = 0
    · obtain ⟨special, rfl⟩ := stops
      exact .inr ⟨[], c, cells, rfl, rfl, special⟩
    · obtain ⟨m, same⟩ : ∃ m, ∀ more, parensBehind n (c :: more) = parensBehind m more := by
        simp only [parensBehind, if_neg stops]
        split_ifs
        · exact ⟨n + 1, fun _ => rfl⟩
        · exact ⟨n - 1, fun _ => rfl⟩
        · exact ⟨n, fun _ => rfl⟩
      rcases ih m with ⟨k, free⟩ | ⟨run, d, rest, rfl, free, special⟩
      · exact .inl ⟨k, by rw [same, free]⟩
      · exact .inr ⟨c :: run, d, rest, rfl, by rw [same, free], special⟩

/-! ## What runs say -/

theorem runBody_of_blank (blank : ∀ c ∈ run, isBlankCell c = true) : runBody run = [] := by
  rw [runBody, dropWhile_of_all blank]
  rfl

theorem runBody_of_trimmed (h : Trimmed isBlankCell lead body tail) : runBody (lead ++ body ++ tail) = body := by
  rw [runBody, h.dropWhile, h.dropWhileEnd]

theorem runOutlines_of_blank (blank : ∀ c ∈ run, isBlankCell c = true) : runOutlines run = some [] := by
  rw [runOutlines, runBody_of_blank blank]
  rfl

theorem runOutlines_of_trimmed (h : Trimmed isBlankCell lead body tail) :
    runOutlines (lead ++ body ++ tail) = (said? (chars body)).map fun o => [o] := by
  rw [runOutlines, runBody_of_trimmed h, if_neg (by simpa using h.ne_nil)]

theorem trimRun_eq (place : Nat) (run : List Cell) : trimRun place run =
    if (runBody run).isEmpty then none
    else some (place + (run.takeWhile isBlankCell).length, chars (runBody run)) := rfl

theorem segment_eq_ok_iff {terminated : Bool} : segment place run terminated = .ok items ↔
    (runOutlines run).isSome ∧ items = runItems place run terminated := by
  unfold runItems segment runOutlines said?
  rw [trimRun_eq]
  by_cases blank : (runBody run).isEmpty
  · rw [if_pos blank, if_pos blank]
    exact ⟨fun h => ⟨rfl, (Except.ok.inj h).symm⟩, fun h => congrArg _ h.2.symm⟩
  · rw [if_neg blank, if_neg blank]
    dsimp only
    split_ifs
    · exact ⟨fun h => ⟨rfl, (Except.ok.inj h).symm⟩, fun h => congrArg _ h.2.symm⟩
    · exact ⟨fun h => ⟨rfl, (Except.ok.inj h).symm⟩, fun h => congrArg _ h.2.symm⟩
    · exact ⟨fun h => (by cases h), fun h => absurd h.1 (by simp)⟩

theorem runItems_of_blank (blank : ∀ c ∈ run, isBlankCell c = true) (place : Nat) (terminated : Bool) :
    runItems place run terminated = [] := by
  rw [runItems, segment, trimRun_eq, runBody_of_blank blank]
  rfl

theorem outlinesOf_runItems {terminated : Bool} (whole : text = x ++ (chars run ++ y)) :
    outlinesOf text (runItems x.length run terminated) = (runOutlines run).getD [] := by
  rcases exists_trimmed isBlankCell run with blank | ⟨lead, body, tail, rfl, h⟩
  · rw [runOutlines_of_blank blank, runItems, segment, trimRun_eq, runBody_of_blank blank]
    rfl
  · rw [runOutlines_of_trimmed h, runItems, segment, trimRun_eq, runBody_of_trimmed h, h.takeWhile,
      if_neg (by simpa using h.ne_nil)]
    have text_eq : slice text (x.length + lead.length) (x.length + lead.length + (chars body).length) =
        chars body := by
      have := slice_append (x ++ chars lead) (chars body) (chars tail ++ y)
      rw [List.length_append, show (chars lead).length = lead.length from List.length_map _] at this
      rw [whole, chars, List.map_append, List.map_append]
      simpa only [List.append_assoc] using this
    unfold said?
    dsimp only
    split_ifs
    · rfl
    · simp only [Except.toOption, Option.getD_some, outlinesOf, Item.outline, text_eq, Option.map_some]
    · rfl

/-! ## Reading -/

theorem outlinesOf_append (text : List Char) (is js : List Item) :
    outlinesOf text (is ++ js) = outlinesOf text is ++ outlinesOf text js := by
  induction is with
  | nil => rfl
  | cons i is ih => rw [List.cons_append, outlinesOf, ih, outlinesOf, List.cons_append]

/-- A run is taken up cell by cell. -/
theorem itemsFrom_run (free : parensBehind n run = some m) : itemsFrom text acc n place (run ++ rest) =
    itemsFrom text (run.reverse ++ acc) m (place + run.length) rest := by
  induction run generalizing n acc place with
  | nil =>
    cases free
    rfl
  | cons c run ih =>
    rw [parensBehind] at free
    have moved : (c :: run).reverse ++ acc = run.reverse ++ c :: acc := by simp
    have further : place + (c :: run).length = place + 1 + run.length := by
      rw [List.length_cons]
      omega
    rw [List.cons_append, itemsFrom, moved, further]
    split_ifs at free ⊢ <;> first | exact ih free | simp_all

theorem itemsFrom_last (free : parensBehind 0 run = some m) :
    itemsFrom text [] 0 place run = segment place run false := by
  calc itemsFrom text [] 0 place run = itemsFrom text [] 0 place (run ++ []) := by rw [List.append_nil]
    _ = itemsFrom text (run.reverse ++ []) m (place + run.length) [] := itemsFrom_run free
    _ = segment place run false := by rw [itemsFrom]; simp

theorem itemsFrom_ended (free : parensBehind 0 run = some 0) :
    itemsFrom text [] 0 place (run ++ code ';' :: rest) = (do
      let item ← segment place run true
      return item ++ (← itemsFrom text [] 0 (place + run.length + 1) rest)) := by
  rw [itemsFrom_run free, itemsFrom]
  simp [Cell.face]

theorem itemsFrom_unexpected (free : parensBehind 0 run = some 0) :
    itemsFrom text [] 0 place (run ++ code '\x7d' :: rest) = .error (.unexpectedBrace (byteAt text (place + run.length))) := by
  rw [itemsFrom_run free, itemsFrom]
  simp [Cell.face]

theorem itemsFrom_block (free : parensBehind 0 run = some 0) (nests : bracesBehind 0 body = some 0) :
    itemsFrom text [] 0 place (run ++ code '\x7b' :: (body ++ code '\x7d' :: rest)) =
      if runBody run = [] then .error (.noSelector (byteAt text (place + run.length)))
      else do
        let children ← itemsFrom text [] 0 (place + run.length + 1) body
        let rest ← itemsFrom text [] 0 (place + run.length + body.length + 2) rest
        return .block (selectorOf run) (place + (run.takeWhile isBlankCell).length) (place + run.length)
          (place + run.length + body.length + 1) children :: rest := by
  have closed : closingBrace? Cell.face 1 (body ++ code '\x7d' :: rest) = some body.length :=
    closingBrace?_eq_some_iff.2 ⟨body, code '\x7d', rest, rfl, rfl, nests, rfl⟩
  have behind : (body ++ code '\x7d' :: rest).drop (body.length + 1) = rest := by
    rw [List.append_cons]
    exact List.drop_left' (by simp)
  rw [itemsFrom_run free, itemsFrom, closed, List.append_nil, List.reverse_reverse, List.length_reverse,
    Nat.add_sub_cancel, trimRun_eq]
  by_cases unnamed : runBody run = []
  · simp [Cell.face, unnamed]
  · simp [Cell.face, unnamed, behind, selectorOf]

/-- A sound content has its items, wherever it stands. -/
theorem Content.Sound.itemsFrom {content : Content} (sound : content.Sound) (text : List Char) (place : Nat) :
    itemsFrom text [] 0 place content.cells = .ok (content.items place) := by
  induction sound generalizing place with
  | last free told =>
    obtain ⟨m, free⟩ := free
    rw [cells, itemsFrom_last free]
    exact segment_eq_ok_iff.2 ⟨told, rfl⟩
  | ended free told _ ih =>
    rw [cells, itemsFrom_ended free, ih, segment_eq_ok_iff.2 ⟨told, rfl⟩]
    rfl
  | block free named nests _ _ ih ih' =>
    rw [cells, itemsFrom_block free nests, if_neg named, ih, ih']
    rfl

/-- What can be read has a sound content. -/
theorem exists_content (read : itemsFrom text [] 0 place cells = .ok items) :
    ∃ content : Content, content.cells = cells ∧ content.Sound := by
  induction size : cells.length using Nat.strongRecOn generalizing cells place items with
  | _ size ih =>
    subst size
    rcases exists_run 0 cells with ⟨m, free⟩ | ⟨run, c, rest, rfl, free, opens | closes | ends⟩
    · rw [itemsFrom_last free] at read
      exact ⟨.last cells, rfl, .last ⟨m, free⟩ (segment_eq_ok_iff.1 read).1⟩
    · obtain rfl := eq_code_of_face opens rfl
      cases closed : closingBrace? Cell.face 1 rest with
      | none =>
        rw [itemsFrom_run free, itemsFrom, closed] at read
        simp [Cell.face] at read
      | some k =>
        obtain ⟨body, d, rest, rfl, rfl, nests, closes⟩ := closingBrace?_eq_some_iff.1 closed
        obtain rfl := eq_code_of_face closes rfl
        rw [itemsFrom_block free nests] at read
        split_ifs at read with unnamed
        cases inner : itemsFrom text [] 0 (place + run.length + 1) body with
        | error e =>
          rw [inner] at read
          cases read
        | ok children =>
          cases outer : itemsFrom text [] 0 (place + run.length + body.length + 2) rest with
          | error e =>
            rw [inner, outer] at read
            cases read
          | ok more =>
            obtain ⟨body, rfl, sound⟩ := ih body.length (by simp; omega) inner rfl
            obtain ⟨rest, rfl, sound'⟩ := ih rest.length (by simp; omega) outer rfl
            exact ⟨.block run body rest, rfl, .block free unnamed nests sound sound'⟩
    · obtain rfl := eq_code_of_face closes rfl
      rw [itemsFrom_unexpected free] at read
      cases read
    · obtain rfl := eq_code_of_face ends rfl
      rw [itemsFrom_ended free] at read
      cases said : segment place run true with
      | error e =>
        rw [said] at read
        cases read
      | ok item =>
        cases outer : itemsFrom text [] 0 (place + run.length + 1) rest with
        | error e =>
          rw [said, outer] at read
          cases read
        | ok more =>
          obtain ⟨rest, rfl, sound⟩ := ih rest.length (by simp; omega) outer rfl
          exact ⟨.ended run rest, rfl, .ended free (segment_eq_ok_iff.1 said).1 sound⟩

/-- The items of some cells are those of a sound content of them. -/
theorem itemsFrom_eq_ok_iff : itemsFrom text [] 0 place cells = .ok items ↔
    ∃ content : Content, content.cells = cells ∧ content.Sound ∧ items = content.items place := by
  constructor
  · intro read
    obtain ⟨content, rfl, sound⟩ := exists_content read
    rw [sound.itemsFrom] at read
    exact ⟨content, rfl, sound, (Except.ok.inj read).symm⟩
  · rintro ⟨content, rfl, sound, rfl⟩
    exact sound.itemsFrom text place

/-- The outlines of the items of a content, where it stands in a text. -/
theorem Content.outlinesOf_items {content : Content} (whole : text = x ++ (chars content.cells ++ y)) :
    outlinesOf text (content.items x.length) = content.outlines := by
  induction content generalizing x y with
  | last run => exact outlinesOf_runItems whole
  | ended run rest ih =>
    have run_place : outlinesOf text (runItems x.length run true) = (runOutlines run).getD [] :=
      outlinesOf_runItems (y := ';' :: (chars rest.cells ++ y)) (by rw [whole, cells]; simp)
    have rest_place := ih (x := x ++ (chars run ++ [';'])) (y := y) (by rw [whole, cells]; simp)
    have further : (x ++ (chars run ++ [';'])).length = x.length + run.length + 1 := by
      simp [Nat.add_assoc]
    rw [further] at rest_place
    rw [items, outlinesOf_append, run_place, rest_place, outlines]
  | block prelude body rest ih ih' =>
    have body_place := ih (x := x ++ (chars prelude ++ ['\x7b'])) (y := '\x7d' :: (chars rest.cells ++ y))
      (by rw [whole, cells]; simp)
    have rest_place := ih' (x := x ++ (chars prelude ++ '\x7b' :: (chars body.cells ++ ['\x7d']))) (y := y)
      (by rw [whole, cells]; simp)
    have further : (x ++ (chars prelude ++ ['\x7b'])).length = x.length + prelude.length + 1 := by
      simp [Nat.add_assoc]
    have further' : (x ++ (chars prelude ++ '\x7b' :: (chars body.cells ++ ['\x7d']))).length =
        x.length + prelude.length + body.cells.length + 2 := by
      simp
      omega
    rw [further] at body_place
    rw [further'] at rest_place
    rw [items, outlinesOf, Item.outline, body_place, rest_place, outlines]

/-! ## Stylesheets -/

/-- A text is a stylesheet with a content. -/
structure IsSheet (text : List Char) (content : Content) : Prop where
  chars : chars content.cells = text
  mask : IsMask content.cells
  sound : content.Sound
  no_declaration : ∀ o ∈ content.outlines, o.isDeclaration = false

theorem strayDeclaration?_eq_none_iff : strayDeclaration? items = none ↔
    ∀ o ∈ outlinesOf text items, o.isDeclaration = false := by
  induction items with
  | nil => simp [strayDeclaration?, outlinesOf]
  | cons i is ih =>
    rw [outlinesOf, List.forall_mem_cons, ← ih, strayDeclaration?, strayDeclaration?, List.findSome?_cons]
    cases i <;> simp [Item.outline, Outline.isDeclaration]

/-- The outlines of a content that is the whole text. -/
theorem Content.outlinesOf_whole {content : Content} (same : chars content.cells = text) :
    outlinesOf text (content.items 0) = content.outlines :=
  Content.outlinesOf_items (x := []) (y := []) (by rw [List.append_nil, same, List.nil_append])

theorem parse_of_mask (masked : mask .stylesheet text = .ok cells) : parse text =
    match itemsFrom text [] 0 0 cells with
    | .error e => .error e
    | .ok items =>
      match strayDeclaration? items with
      | some property => .error (.outsideRule property)
      | none => .ok items := by
  unfold parse
  rw [masked]
  change (itemsFrom text [] 0 0 cells >>= _) = _
  cases itemsFrom text [] 0 0 cells <;> rfl

/-- What can be parsed is a stylesheet with a content. -/
theorem exists_sheet (parsed : parse text = .ok items) : ∃ content, IsSheet text content ∧ items = content.items 0 := by
  cases masked : mask .stylesheet text with
  | error e =>
    unfold parse at parsed
    rw [masked] at parsed
    cases parsed
  | ok cells =>
    obtain ⟨same, is_mask⟩ := isMask_of_mask masked
    rw [parse_of_mask masked] at parsed
    cases read : itemsFrom text [] 0 0 cells with
    | error e =>
      rw [read] at parsed
      cases parsed
    | ok items' =>
      rw [read] at parsed
      cases stray : strayDeclaration? items' with
      | some property => simp [stray] at parsed
      | none =>
        obtain rfl : items' = items := by simpa [stray] using parsed
        obtain ⟨content, rfl, sound, rfl⟩ := itemsFrom_eq_ok_iff.1 read
        refine ⟨content, ⟨same, is_mask, sound, ?_⟩, rfl⟩
        rw [← Content.outlinesOf_whole same]
        exact strayDeclaration?_eq_none_iff.1 stray

/-- A stylesheet with a content can be parsed. -/
theorem IsSheet.parse {content : Content} (h : IsSheet text content) : parse text = .ok (content.items 0) := by
  have masked : Text.mask .stylesheet text = .ok content.cells := by
    rw [← h.chars]
    exact h.mask
  have no_stray : strayDeclaration? (content.items 0) = none := by
    apply (strayDeclaration?_eq_none_iff).2
    rw [Content.outlinesOf_whole h.chars]
    exact h.no_declaration
  rw [parse_of_mask masked, h.sound.itemsFrom text 0]
  simp only [no_stray]

end Codewright.Css
