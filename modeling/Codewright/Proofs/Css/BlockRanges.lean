import Codewright.Proofs.Css.KeptBlocks
import Codewright.Proofs.Source.Place

/-!
# Where the items of a stylesheet stand

The places that `parse` gives for blocks and declarations are exact, however deep the blocks nest.

* `byteAt_lt`, `byteAt_slice` – bytes count up with places, and a cut text counts its bytes from its start;
* `Item.moved` – an item so many places further on; `moved_items`: a content has the same items wherever it stands;
* `Item.range?` – the range of an item; `ranges_within`, `ranges_pairwise`: those of a content follow each other inside of it;
* `Level text items first last level` – the lists of items at all depths, with the places between which each stands;
* `exists_block_of_mem`, `parse_block` – the cells of a block, and what they are read as when nothing stands around them;
* `Item.IsExact`, `parse_exact` – what the places of items say, and that they are right.
-/

namespace Codewright.Css

open Text

variable {text x y : List Char} {cells before behind after run prelude : List Cell} {content body : Content}
  {items : List Item} {place first last a b n : Nat} {level : List Item} {terminated : Bool}

/-! ## Bytes -/

theorem byteAt_append (x y : List Char) : byteAt (x ++ y) x.length = byteLength x := by
  rw [byteAt, List.take_left]

theorem byteAt_chars (a b : List Cell) : byteAt (chars (a ++ b)) a.length = byteLength (chars a) := by
  have := byteAt_append (chars a) (chars b)
  rwa [List.length_map, ← List.map_append] at this

/-- The bytes up to a place are those up to an earlier one and those between them. -/
theorem byteAt_eq_add (le : a ≤ b) (text : List Char) : byteAt text b = byteAt text a + byteLength (slice text a b) := by
  rw [byteAt, byteAt, slice, ← byteLength_append]
  congr 1
  have split : b = a + (b - a) := by omega
  conv_lhs => rw [split]
  rw [List.take_add]

theorem byteAt_le (le : a ≤ b) (text : List Char) : byteAt text a ≤ byteAt text b := by
  rw [byteAt_eq_add le]
  exact Nat.le_add_right _ _

theorem byteAt_lt (lt : a < b) (le : b ≤ text.length) : byteAt text a < byteAt text b := by
  rw [byteAt_eq_add lt.le]
  refine Nat.lt_add_of_pos_right (Source.byteLength_pos ?_)
  rw [slice, ← List.length_pos_iff, List.length_take, List.length_drop]
  omega

/-- A cut text counts its bytes from its start. -/
theorem byteAt_slice (from_start : a ≤ n) (to_stop : n ≤ b) (text : List Char) :
    byteAt text n = byteAt text a + byteAt (slice text a b) (n - a) := by
  have inside : slice text a n = (slice text a b).take (n - a) := by
    rw [slice, slice, List.take_take, min_eq_left (by omega)]
  rw [byteAt_eq_add from_start, inside]
  rfl

/-- A character, by the bytes that it covers. -/
theorem slice_char (c : Char) (whole : text = x ++ c :: y) (at_ : x.length = n) :
    (⟨byteAt text n, byteAt text n + c.utf8Size⟩ : Source.Span).slice (String.ofList text) = some (String.ofList [c]) := by
  subst whole at_
  have whole : (String.ofList (x ++ c :: y)).toList = x ++ [c] ++ y := by simp
  have := Source.Span.slice_eq whole
  rw [byteLength_append] at this
  rwa [byteAt_append]

/-! ## Moving items -/

mutual

/-- An item so many places further on. -/
def Item.moved (by_ : Nat) : Item → Item
  | .block selector start opening closing children =>
    .block selector (start + by_) (opening + by_) (closing + by_) (movedAll by_ children)
  | .statement t => .statement t
  | .declaration property start stop terminated => .declaration property (start + by_) (stop + by_) terminated

/-- Some items so many places further on. -/
def movedAll (by_ : Nat) : List Item → List Item
  | [] => []
  | i :: is => i.moved by_ :: movedAll by_ is

end

theorem movedAll_append (n : Nat) (is js : List Item) : movedAll n (is ++ js) = movedAll n is ++ movedAll n js := by
  induction is with
  | nil => rfl
  | cons i is ih => rw [List.cons_append, movedAll, ih, movedAll, List.cons_append]

/-- The block of some cells behind a place. -/
def blockItem (place : Nat) (prelude : List Cell) (body : Content) : Item :=
  .block (selectorOf prelude) (place + (prelude.takeWhile isBlankCell).length) (place + prelude.length)
    (place + prelude.length + body.cells.length + 1) (body.items (place + prelude.length + 1))

/-- What a run is read as. -/
theorem runItems_cases (place : Nat) (run : List Cell) (terminated : Bool) :
    runItems place run terminated = [] ∨ (∃ t, runItems place run terminated = [.statement t]) ∨
      ∃ lead said tail property, run = lead ++ said ++ tail ∧ said ≠ [] ∧ ':' ∈ chars said ∧
        runItems place run terminated =
          [.declaration property (place + lead.length) (place + lead.length + said.length) terminated] := by
  rcases exists_trimmed isBlankCell run with blank | ⟨lead, said, tail, rfl, h⟩
  · exact .inl (runItems_of_blank blank place terminated)
  · rw [runItems, segment, trimRun_eq, runBody_of_trimmed h, h.takeWhile, if_neg (by simpa using h.ne_nil)]
    dsimp only
    split_ifs with at_ colon
    · exact .inr (.inl ⟨_, rfl⟩)
    · exact .inr (.inr ⟨lead, said, tail, String.ofList (trim ((chars said).takeWhile (· != ':'))), rfl, h.ne_nil,
        by simpa using colon, by simp [Except.toOption]⟩)
    · exact .inl rfl

theorem moved_runItems (n place : Nat) (run : List Cell) (terminated : Bool) :
    movedAll n (runItems place run terminated) = runItems (place + n) run terminated := by
  unfold runItems segment
  rw [trimRun_eq, trimRun_eq]
  by_cases blank : (runBody run).isEmpty
  · simp only [if_pos blank]
    rfl
  · simp only [if_neg blank]
    split_ifs
    · rfl
    · simp only [Except.toOption, Option.getD_some, movedAll, Item.moved, List.cons.injEq, Item.declaration.injEq, and_true,
        true_and]
      omega
    · rfl

/-- A content has the same items wherever it stands. -/
theorem moved_items (n place : Nat) (content : Content) : movedAll n (content.items place) = content.items (place + n) := by
  induction content generalizing place with
  | last run => exact moved_runItems n place run false
  | ended run rest ih =>
    have further : place + run.length + 1 + n = place + n + run.length + 1 := by omega
    rw [Content.items, movedAll_append, moved_runItems, ih, further, Content.items]
  | block prelude body rest ih ih' =>
    have further : place + prelude.length + 1 + n = place + n + prelude.length + 1 := by omega
    have further' : place + prelude.length + body.cells.length + 2 + n = place + n + prelude.length + body.cells.length + 2 := by
      omega
    rw [Content.items, movedAll, Item.moved, ih, ih', further, further', Content.items]
    congr 2 <;> omega

/-! ## Ranges -/

/-- The places between which an item stands, for those that are told. -/
def Item.range? : Item → Option (Nat × Nat)
  | .block _ start _ closing _ => some (start, closing + 1)
  | .declaration _ start stop _ => some (start, stop)
  | .statement _ => none

/-- The ranges of some items. -/
abbrev ranges (items : List Item) : List (Nat × Nat) := items.filterMap Item.range?

theorem range_runItems {r : Nat × Nat} (hr : r ∈ ranges (runItems place run terminated)) :
    place ≤ r.1 ∧ r.1 < r.2 ∧ r.2 ≤ place + run.length := by
  rcases runItems_cases place run terminated with none | ⟨t, told⟩ | ⟨lead, said, tail, property, rfl, some_cell, -, told⟩
  · simp [none] at hr
  · simp [told, Item.range?] at hr
  · rw [ranges, told] at hr
    obtain rfl : r = (place + lead.length, place + lead.length + said.length) := by simpa [Item.range?] using hr
    have := List.length_pos_iff.2 some_cell
    simp only [List.length_append]
    omega

theorem range_blockItem (place : Nat) (prelude : List Cell) (body : Content) :
    ∃ r, (blockItem place prelude body).range? = some r ∧ place ≤ r.1 ∧ r.1 < r.2 ∧
      r.2 = place + prelude.length + body.cells.length + 2 := by
  have := (List.takeWhile_sublist isBlankCell (l := prelude)).length_le
  exact ⟨_, rfl, by omega, by omega, by omega⟩

/-- The ranges of the items of a content stand inside of it. -/
theorem ranges_within {r : Nat × Nat} (hr : r ∈ ranges (content.items place)) :
    place ≤ r.1 ∧ r.1 < r.2 ∧ r.2 ≤ place + content.cells.length := by
  induction content generalizing place with
  | last run => exact range_runItems hr
  | ended run rest ih =>
    rw [Content.items, ranges, List.filterMap_append, List.mem_append] at hr
    rw [Content.cells, List.length_append, List.length_cons]
    rcases hr with hr | hr
    · have := range_runItems hr
      omega
    · have := ih hr
      omega
  | block prelude body rest _ ih =>
    obtain ⟨s, told, within⟩ := range_blockItem place prelude body
    rw [Content.items, ← blockItem, ranges, List.filterMap_cons_some told, List.mem_cons] at hr
    simp only [Content.cells, List.length_append, List.length_cons]
    rcases hr with rfl | hr
    · omega
    · have := ih hr
      omega

/-- The ranges of the items of a content follow each other. -/
theorem ranges_pairwise (content : Content) (place : Nat) :
    (ranges (content.items place)).Pairwise fun r s => r.2 ≤ s.1 := by
  have one (run : List Cell) (place : Nat) (terminated : Bool) :
      (ranges (runItems place run terminated)).Pairwise fun r s => r.2 ≤ s.1 := by
    rcases runItems_cases place run terminated with none | ⟨t, told⟩ | ⟨lead, said, tail, property, -, -, -, told⟩
    · simp [none]
    · rw [told]
      exact List.Pairwise.nil
    · rw [told]
      exact List.pairwise_singleton ..
  induction content generalizing place with
  | last run => exact one run place false
  | ended run rest ih =>
    rw [Content.items, ranges, List.filterMap_append, List.pairwise_append]
    refine ⟨one run place true, ih _, fun r hr s hs => ?_⟩
    have := range_runItems hr
    have := ranges_within hs
    omega
  | block prelude body rest _ ih =>
    obtain ⟨r, told, within⟩ := range_blockItem place prelude body
    rw [Content.items, ← blockItem, ranges, List.filterMap_cons_some told, List.pairwise_cons]
    refine ⟨fun s hs => ?_, ih _⟩
    have := ranges_within hs
    omega

/-! ## Blocks and declarations in their cells -/

/-- A block among the items of a content, in its cells. -/
theorem exists_block_of_mem (sound : content.Sound) (masked : IsMask content.cells) {selector : String}
    {start opening closing : Nat} {children : List Item} (mem : .block selector start opening closing children ∈ content.items place) :
    ∃ before prelude body behind,
      content.cells = before ++ (prelude ++ code '\x7b' :: (body.cells ++ code '\x7d' :: behind)) ∧
      IsMask (prelude ++ code '\x7b' :: (body.cells ++ code '\x7d' :: behind)) ∧
      (Content.block prelude body (.last [])).Sound ∧
      .block selector start opening closing children = blockItem (place + before.length) prelude body := by
  have no_block (run : List Cell) (place : Nat) (terminated : Bool)
      (mem : .block selector start opening closing children ∈ runItems place run terminated) : False := by
    rcases runItems_cases place run terminated with none | ⟨t, told⟩ | ⟨lead, said, tail, property, -, -, -, told⟩
    · simp [none] at mem
    · simp [told] at mem
    · simp [told] at mem
  induction sound generalizing place with
  | last => exact (no_block _ _ _ mem).elim
  | @ended run rest _ _ _ ih =>
    rcases List.mem_append.1 mem with mem | mem
    · exact (no_block _ _ _ mem).elim
    · obtain ⟨before, prelude, body, behind, same, masked', sound, told⟩ := ih (IsMask.right masked isPlain_semicolon) mem
      refine ⟨run ++ code ';' :: before, prelude, body, behind, by simp [Content.cells, same], masked', sound, ?_⟩
      rw [told]
      congr 1
      simp
      omega
  | @block prelude inner rest free named nests sound _ _ ih =>
    rcases List.mem_cons.1 mem with here | mem
    · have empty : (Content.last []).Sound := .last ⟨0, rfl⟩ rfl
      exact ⟨[], prelude, inner, rest.cells, rfl, masked, .block free named nests sound empty, here⟩
    · have masked' := (IsMask.right masked isPlain_opening).right isPlain_closing
      obtain ⟨before, prelude', body, behind, same, masked', sound, told⟩ := ih masked' mem
      refine ⟨prelude ++ code '\x7b' :: (inner.cells ++ code '\x7d' :: before), prelude', body, behind,
        by simp [Content.cells, same], masked', sound, ?_⟩
      rw [told]
      congr 1
      simp
      omega

/-- A declaration among the items of a content, in its cells. -/
theorem exists_declaration_of_mem {property : String} {start stop : Nat}
    (mem : .declaration property start stop terminated ∈ content.items place) :
    ∃ before said behind, content.cells = before ++ (said ++ behind) ∧ said ≠ [] ∧ ':' ∈ chars said ∧
      start = place + before.length ∧ stop = place + before.length + said.length := by
  have in_run (run : List Cell) (place : Nat) (ended : Bool)
      (mem : .declaration property start stop terminated ∈ runItems place run ended) :
      ∃ before said behind, run = before ++ (said ++ behind) ∧ said ≠ [] ∧ ':' ∈ chars said ∧
        start = place + before.length ∧ stop = place + before.length + said.length := by
    rcases runItems_cases place run ended with
      none | ⟨t, told⟩ | ⟨lead, said, tail, property, rfl, some_cell, colon, told⟩
    · simp [none] at mem
    · simp [told] at mem
    · rw [told, List.mem_singleton] at mem
      cases mem
      exact ⟨lead, said, tail, List.append_assoc .., some_cell, colon, rfl, rfl⟩
  induction content generalizing place with
  | last run => exact in_run run place false mem
  | ended run rest ih =>
    rcases List.mem_append.1 mem with mem | mem
    · obtain ⟨before, said, behind, rfl, told⟩ := in_run run place true mem
      exact ⟨before, said, behind ++ code ';' :: rest.cells, by simp [Content.cells], told⟩
    · obtain ⟨before, said, behind, same, some_cell, colon, rfl, rfl⟩ := ih mem
      refine ⟨run ++ code ';' :: before, said, behind, by simp [Content.cells, same], some_cell, colon, ?_, ?_⟩
      · simp
        omega
      · simp
        omega
  | block prelude inner rest _ ih =>
    rcases List.mem_cons.1 mem with here | mem
    · cases here
    · obtain ⟨before, said, behind, same, some_cell, colon, rfl, rfl⟩ := ih mem
      refine ⟨prelude ++ code '\x7b' :: (inner.cells ++ code '\x7d' :: before), said, behind,
        by simp [Content.cells, same], some_cell, colon, ?_, ?_⟩
      · simp
        omega
      · simp
        omega

/-! ## A block alone -/

/-- A block is read alone as it is among others, but for where it stands: in front of its prelude nothing is open, and it
ends with its brace. -/
theorem parse_block (sound : (Content.block prelude body (.last [])).Sound)
    (masked : IsMask (prelude ++ code '\x7b' :: (body.cells ++ code '\x7d' :: behind))) (place : Nat) :
    ∃ b, parse (blockChars prelude body) = .ok [b] ∧
      b.moved (place + (prelude.takeWhile isBlankCell).length) = blockItem place prelude body := by
  obtain - | - | ⟨free, named, nests, inner, empty⟩ := sound
  rcases exists_trimmed isBlankCell prelude with blank | ⟨lead, said, tail, rfl, h⟩
  · exact absurd (runBody_of_blank blank) named
  have alone : Trimmed isBlankCell [] said tail := ⟨by simp, h.first, h.last, h.tail⟩
  have starts : (said ++ tail).takeWhile isBlankCell = [] := alone.takeWhile
  have same : selectorOf (said ++ tail) = selectorOf (lead ++ said ++ tail) := by
    rw [selectorOf, selectorOf, runBody_of_trimmed h, ← List.nil_append (said ++ tail), ← List.append_assoc,
      runBody_of_trimmed alone]
  have sheet : IsSheet (blockChars (lead ++ said ++ tail) body) (.block (said ++ tail) body (.last [])) := by
    refine ⟨?_, ?_, .block ?_ ?_ nests inner empty, ?_⟩
    · rw [blockChars, h.dropWhile]
      simp [Content.cells]
    · rw [List.append_assoc, List.append_assoc] at masked
      obtain ⟨c, first, letter⟩ := h.first
      have cut := (masked.trimmed_start h.lead ⟨c, by simp [Option.mem_def.1 first], letter⟩).2
      have := IsMask.passes_left (a := said ++ (tail ++ code '\x7b' :: body.cells)) (c := '\x7d') (b := behind)
        (by simpa using cut) isPlain_closing
      simpa [Content.cells] using this.isMask
    · rwa [List.append_assoc, parensBehind_append, parensBehind_blank 0 h.lead, Option.bind_some] at free
    · rw [← List.nil_append (said ++ tail), ← List.append_assoc, runBody_of_trimmed alone]
      exact h.ne_nil
    · simp [Content.outlines, Outline.isDeclaration, runOutlines_of_blank]
  refine ⟨blockItem 0 (said ++ tail) body, ?_, ?_⟩
  · rw [sheet.parse, Content.items, Content.items, runItems_of_blank (List.forall_mem_nil _)]
    rfl
  · rw [h.takeWhile, blockItem, Item.moved, moved_items, blockItem, starts, h.takeWhile, same]
    simp only [List.length_append, List.length_nil, Item.block.injEq, true_and]
    refine ⟨by omega, by omega, by omega, ?_⟩
    congr 1
    omega

/-- The brace that closes a block is the one that matches its opening brace. -/
theorem matchingBrace?_eq (nests : bracesBehind 0 cells = some 0) (before behind : List Cell) :
    matchingBrace? ((before ++ code '\x7b' :: (cells ++ code '\x7d' :: behind)).map Cell.face) before.length =
      some (before.length + cells.length + 1) := by
  have closed : closingBrace? Cell.face 1 (cells ++ code '\x7d' :: behind) = some cells.length :=
    closingBrace?_eq_some_iff.2 ⟨cells, code '\x7d', behind, rfl, rfl, nests, rfl⟩
  rw [matchingBrace?, List.map_append, List.drop_left' (by simp), closingBrace?_map_face, closingBrace?, if_pos (by rfl), closed,
    Option.map_some, Option.map_some]
  congr 1
  omega

/-! ## All depths -/

/-- A list of items of a stylesheet, at any depth, and the places between which it stands: the whole text, or the inside of
the braces of a block. -/
inductive Level (text : List Char) (items : List Item) : Nat → Nat → List Item → Prop
  | top : Level text items 0 text.length items
  | inside {first last : Nat} {level : List Item} {selector : String} {start opening closing : Nat} {children : List Item}
      (outer : Level text items first last level) (mem : .block selector start opening closing children ∈ level) :
      Level text items (opening + 1) closing children

/-- At every depth there is a content of its own. -/
theorem Level.exists_content (sheet : IsSheet text content) (h : Level text (content.items 0) first last level) :
    ∃ (before behind : List Cell) (inner : Content), content.cells = before ++ (inner.cells ++ behind) ∧
      before.length = first ∧ first + inner.cells.length = last ∧ level = inner.items first ∧ inner.Sound ∧
      IsMask inner.cells := by
  induction h with
  | top =>
    refine ⟨[], [], content, by simp, rfl, ?_, rfl, sheet.sound, sheet.mask⟩
    rw [← sheet.chars, List.length_map, Nat.zero_add]
  | inside _ mem ih =>
    obtain ⟨before, behind, inner, whole, rfl, -, rfl, sound, masked⟩ := ih
    obtain ⟨before', prelude, body, behind', same, masked', sound', told⟩ := exists_block_of_mem sound masked mem
    cases told
    obtain - | - | ⟨-, -, -, inner_sound, -⟩ := sound'
    refine ⟨before ++ (before' ++ (prelude ++ [code '\x7b'])), code '\x7d' :: behind' ++ behind, body, ?_, ?_, ?_, rfl,
      inner_sound, ?_⟩
    · rw [whole, same]
      simp
    · simp
      omega
    · omega
    · exact (masked'.right isPlain_opening).left (by simp [IsQuote]) (by decide)

/-- The places of a block are right. -/
structure IsExactBlock (text faces : List Char) (selector : String) (start opening closing : Nat) (children : List Item) :
    Prop where
  named : byteAt text start < byteAt text opening
  inside : byteAt text opening < byteAt text closing
  opens : (⟨byteAt text opening, byteAt text opening + 1⟩ : Source.Span).slice (String.ofList text) = some "\x7b"
  closes : (⟨byteAt text closing, byteAt text closing + 1⟩ : Source.Span).slice (String.ofList text) = some "\x7d"
  matched : matchingBrace? faces opening = some closing
  /-- Alone it is read as the same block, at the start of the text. -/
  alone : ∃ b, parse (slice text start (closing + 1)) = .ok [b] ∧
    b.moved start = .block selector start opening closing children
  /-- Moving by places is moving by bytes. -/
  counted : ∀ place, start ≤ place → place ≤ closing + 1 →
    byteAt text place = byteAt text start + byteAt (slice text start (closing + 1)) (place - start)

/-- The places of a declaration are right. -/
structure IsExactDeclaration (text : List Char) (start stop : Nat) : Prop where
  some_byte : byteAt text start < byteAt text stop
  starts : Source.IsBoundary text (byteAt text start)
  stops : Source.IsBoundary text (byteAt text stop)
  colon : ∃ t, (⟨byteAt text start, byteAt text stop⟩ : Source.Span).slice (String.ofList text) = some t ∧
    ':' ∈ t.toList

/-- The places of an item are right in a text with a mask. -/
def Item.IsExact (text faces : List Char) : Item → Prop
  | .block selector start opening closing children => IsExactBlock text faces selector start opening closing children
  | .declaration _ start stop _ => IsExactDeclaration text start stop
  | .statement _ => True

theorem isBoundary_byteAt (text : List Char) (place : Nat) : Source.IsBoundary text (byteAt text place) :=
  ⟨text.take place, text.drop place, (List.take_append_drop place text).symm, rfl⟩

/-- A block is exact where its cells stand. -/
theorem isExact_block (sound : (Content.block prelude body (.last [])).Sound)
    (masked : IsMask (prelude ++ code '\x7b' :: (body.cells ++ code '\x7d' :: behind)))
    (whole : cells = before ++ (prelude ++ code '\x7b' :: (body.cells ++ code '\x7d' :: after))) :
    (blockItem before.length prelude body).IsExact (chars cells) (cells.map Cell.face) := by
  obtain ⟨b, parsed, moved⟩ := parse_block sound masked before.length
  obtain - | - | ⟨-, named, nests, -, -⟩ := sound
  have starts : (prelude.takeWhile isBlankCell).length < prelude.length := by
    rcases exists_trimmed isBlankCell prelude with blank | ⟨lead, said, tail, rfl, h⟩
    · exact absurd (runBody_of_blank blank) named
    · have := List.length_pos_iff.2 h.ne_nil
      rw [h.takeWhile, List.length_append, List.length_append]
      omega
  have size : (chars cells).length = before.length + prelude.length + body.cells.length + 2 + after.length := by
    rw [whole]
    simp
    omega
  have there : chars cells =
      chars before ++ (chars prelude ++ '\x7b' :: (chars body.cells ++ '\x7d' :: chars after)) := by
    rw [whole]
    simp
  have cut := slice_block there
  rw [show (chars before).length = before.length from List.length_map _] at cut
  refine ⟨byteAt_lt (by omega) (by omega), byteAt_lt (by omega) (by omega), ?_, ?_, ?_, ⟨b, by rw [cut, parsed], moved⟩,
    ?_⟩
  · exact slice_char '\x7b' (x := chars (before ++ prelude)) (y := chars (body.cells ++ code '\x7d' :: after))
      (by rw [whole]; simp) (by simp)
  · exact slice_char '\x7d' (x := chars (before ++ (prelude ++ code '\x7b' :: body.cells))) (y := chars after)
      (by rw [whole]; simp) (by simp; omega)
  · have := matchingBrace?_eq nests (before ++ prelude) after
    rw [List.length_append] at this
    rw [whole, ← List.append_assoc, this]
  · exact fun place from_start to_stop => byteAt_slice from_start to_stop (chars cells)

/-- A declaration is exact where its cells stand. -/
theorem isExact_declaration {said : List Cell} (some_cell : said ≠ []) (colon : ':' ∈ chars said)
    (whole : cells = before ++ (said ++ behind)) :
    IsExactDeclaration (chars cells) before.length (before.length + said.length) := by
  have size : (chars cells).length = before.length + said.length + behind.length := by
    rw [whole]
    simp
    omega
  have := List.length_pos_iff.2 some_cell
  refine ⟨byteAt_lt (by omega) (by omega), isBoundary_byteAt .., isBoundary_byteAt .., String.ofList (chars said), ?_,
    by rwa [String.toList_ofList]⟩
  have text_eq : (String.ofList (chars cells)).toList = chars before ++ chars said ++ chars behind := by
    rw [whole]
    simp
  have start_eq : byteAt (chars cells) before.length = byteLength (chars before) := by
    rw [whole, byteAt_chars]
  have stop_eq : byteAt (chars cells) (before.length + said.length) = byteLength (chars before ++ chars said) := by
    rw [whole, ← List.append_assoc, ← List.length_append, byteAt_chars, chars, List.map_append]
  rw [start_eq, stop_eq]
  exact Source.Span.slice_eq text_eq

/-- The ranges of the items of a stylesheet are exact. At every depth they follow each other, inside of the braces of the
block that they stand in; each block begins with its selector, has its braces where they are told, and is the same block if
it is read alone; each declaration is a part of the text, with a colon in it. -/
theorem parse_exact (parsed : parse text = .ok items) :
    ∃ cells, mask .stylesheet text = .ok cells ∧ ∀ first last level, Level text items first last level →
      ((ranges level).Pairwise fun r s => byteAt text r.2 ≤ byteAt text s.1) ∧
      (∀ r ∈ ranges level, byteAt text first ≤ byteAt text r.1 ∧ byteAt text r.1 < byteAt text r.2 ∧
        byteAt text r.2 ≤ byteAt text last) ∧
      ∀ i ∈ level, i.IsExact text (cells.map Cell.face) := by
  obtain ⟨content, sheet, rfl⟩ := exists_sheet parsed
  have masked := sheet.mask
  have chars_eq := sheet.chars
  rw [IsMask, chars_eq] at masked
  refine ⟨content.cells, masked, fun first last level h => ?_⟩
  obtain ⟨before, behind, inner, whole, rfl, rfl, rfl, sound, inner_mask⟩ := h.exists_content sheet
  have size : text.length = before.length + inner.cells.length + behind.length := by
    rw [← chars_eq, whole]
    simp
    omega
  refine ⟨?_, ?_, ?_⟩
  · exact (ranges_pairwise inner _).imp fun le => byteAt_le le text
  · intro r hr
    obtain ⟨from_start, some_char, to_stop⟩ := ranges_within hr
    exact ⟨byteAt_le from_start text, byteAt_lt some_char (by omega), byteAt_le to_stop text⟩
  · intro i mem
    rw [← chars_eq]
    cases i with
    | statement => trivial
    | block selector start opening closing children =>
      obtain ⟨before', prelude, body, behind', same, masked', sound', told⟩ := exists_block_of_mem sound inner_mask mem
      have there : content.cells =
          (before ++ before') ++ (prelude ++ code '\x7b' :: (body.cells ++ code '\x7d' :: (behind' ++ behind))) := by
        rw [whole, same]
        simp
      rw [told, ← List.length_append]
      exact isExact_block sound' masked' there
    | declaration property start stop terminated =>
      obtain ⟨before', said, behind', same, some_cell, colon, rfl, rfl⟩ := exists_declaration_of_mem mem
      have there : content.cells = (before ++ before') ++ (said ++ (behind' ++ behind)) := by
        rw [whole, same]
        simp
      have := isExact_declaration some_cell colon there
      rwa [List.length_append] at this

/-- The ranges in a stylesheet with a comment, in which a rule stands in a media query. -/
theorem parse_exact_media :
    let text := "/* é */@media b \x7b\n  c \x7b d: e; \x7d\n\x7d".toList
    let inner : Item := .block "c" 20 22 30 [.declaration "d" 24 28 true]
    let outer : Item := .block "@media b" 7 16 32 [inner]
    parse text = .ok [outer] ∧ Level text [outer] 23 30 [.declaration "d" 24 28 true] ∧
      byteAt text 24 = 25 ∧ byteAt text 24 < byteAt text 28 ∧
      ∃ b, parse (slice text 20 31) = .ok [b] ∧ b.moved 20 = inner := by
  intro text inner outer
  have sheet : IsSheet text (.block (cellsOf false "/* é */".toList ++ cellsOf true "@media b ".toList)
      (.block (cellsOf true "\n  c ".toList) (.ended (cellsOf true " d: e".toList) (.last [code ' '])) (.last [code '\n']))
      (.last [])) := by
    refine ⟨rfl, rfl, .block rfl (by decide) rfl ?_ (.last ⟨0, rfl⟩ rfl), by decide⟩
    exact .block rfl (by decide) rfl (.ended rfl rfl (.last ⟨0, rfl⟩ rfl)) (.last ⟨0, rfl⟩ rfl)
  have parsed : parse text = .ok [outer] := sheet.parse
  have middle : Level text [outer] 17 32 [inner] := .inside .top List.mem_cons_self
  have lowest : Level text [outer] 23 30 [.declaration "d" 24 28 true] := .inside middle List.mem_cons_self
  obtain ⟨cells, -, told⟩ := parse_exact parsed
  have declared : IsExactDeclaration text 24 28 := (told _ _ _ lowest).2.2 _ List.mem_cons_self
  have block : IsExactBlock text (cells.map Cell.face) "c" 20 22 30 _ := (told _ _ _ middle).2.2 _ List.mem_cons_self
  exact ⟨parsed, lowest, by decide, declared.some_byte, block.alone⟩

end Codewright.Css
