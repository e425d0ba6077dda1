import Codewright.Css.Revision
import Codewright.Proofs.Css.Respace

/-!
# Removed rules

`removeRule` takes all top-level rules with a selector out of a stylesheet. It fails if there is none; otherwise the result is
a stylesheet again, and consists of the other items in their order (`removeRule_exact`).

* `IsSheet.tidy` – blank lines go, and nothing else;
* `cutBlock_eq`, `cutAll` – a block is cut out with white space around it, and the items beside it do not notice.
-/

namespace Codewright.Css

open Text
open Relation (ReflTransGen)

variable {text text' x y z : List Char} {content : Content} {items : List Item} {selector : String}

/-! ## Blank lines -/

/-- Blank lines go where another one comes before; `afterBlank` says that one does. -/
theorem reflow_singleBlanks (afterBlank : Bool) (ls : List (List Char)) :
    ReflTransGen Reflow ((if afterBlank then ['\n'] else []) ++ joinLines ls)
      ((if afterBlank then ['\n'] else []) ++ joinLines (singleBlanks afterBlank ls)) := by
  induction ls generalizing afterBlank with
  | nil => exact .refl
  | cons l ls ih =>
    have behind_blank : ReflTransGen Reflow ('\n' :: joinLines ls) ('\n' :: joinLines (singleBlanks true ls)) := ih true
    rw [singleBlanks]
    by_cases blank : isBlankList l = true
    · rw [if_pos blank]
      cases afterBlank with
      | true =>
        -- The line feed before a blank line and the line itself go, and the line feed of the line stays.
        have gone : Reflow ([] ++ (('\n' :: l) ++ '\n' :: joinLines ls)) ([] ++ ([] ++ '\n' :: joinLines ls)) :=
          .mk (List.forall_mem_cons.2 ⟨rfl, isBlankList_iff.1 blank⟩) (by simp) (by simp)
        simpa using ReflTransGen.head gone behind_blank
      | false => simpa using reflow_append_left behind_blank l
    · rw [if_neg blank]
      have rest := reflow_append_left (ih false) ((if afterBlank then ['\n'] else []) ++ (l ++ ['\n']))
      simpa using rest

theorem IsSheet.reflows (sheet : IsSheet text content) (h : ReflTransGen Reflow text text') :
    ∃ other, IsSheet text' other ∧ collapsedAll other.outlines = collapsedAll content.outlines := by
  induction h with
  | refl => exact ⟨content, sheet, rfl⟩
  | tail _ step ih =>
    obtain ⟨between, sheet, alike⟩ := ih
    obtain ⟨other, sheet, alike'⟩ := sheet.reflow step
    exact ⟨other, sheet, alike'.trans alike⟩

theorem getLast?_joinLines {ls : List (List Char)} (some_line : ls ≠ []) : (joinLines ls).getLast? = some '\n' := by
  obtain ⟨ls, l, rfl⟩ := (List.eq_nil_or_concat ls).resolve_left some_line
  simp [joinLines]

/-- Without blank lines, a stylesheet is one with the same items up to white space. -/
theorem IsSheet.tidy (sheet : IsSheet text content) :
    ∃ other, IsSheet (tidy text) other ∧ collapsedAll other.outlines = collapsedAll content.outlines := by
  obtain ⟨feed, is_space, steps⟩ := reflow_joinLines text
  obtain ⟨c₁, sheet₁, same⟩ := sheet.append_space is_space
  obtain ⟨c₂, sheet₂, alike⟩ := sheet₁.reflows (steps.trans (reflow_singleBlanks false _))
  rw [same] at alike
  have body_eq : (singleBlanks false (lines text)).flatMap (fun l => l ++ ['\n']) =
    joinLines (singleBlanks false (lines text)) := rfl
  rw [if_neg (by simp), List.nil_append] at sheet₂
  simp only [Css.tidy, body_eq]
  generalize joined_eq : joinLines (singleBlanks false (lines text)) = joined at sheet₂
  rcases exists_trimmed isSpace joined with blank | ⟨lead, body, tail, rfl, h⟩
  · have only_space : IsSheet (joined ++ []) c₂ := by rwa [List.append_nil]
    obtain ⟨other, sheet', same'⟩ := only_space.of_space_append blank
    rw [trim_of_space blank]
    exact ⟨other, sheet', by rw [same', alike]⟩
  · rw [h.trim, if_neg (by simpa using h.ne_nil)]
    rw [List.append_assoc] at sheet₂
    obtain ⟨c₃, sheet₃, same₃⟩ := sheet₂.of_space_append h.lead
    rw [← same₃] at alike
    -- The text ends in a line feed, which is white space.
    have some_line : singleBlanks false (lines text) ≠ [] := by
      intro none
      rw [none] at joined_eq
      simp [h.ne_nil] at joined_eq
    have ends := getLast?_joinLines some_line
    rw [joined_eq] at ends
    obtain ⟨tail, rfl⟩ : ∃ t, tail = t ++ ['\n'] := by
      rcases List.eq_nil_or_concat tail with rfl | ⟨t, c, rfl⟩
      · obtain ⟨d, last, stays⟩ := h.last
        obtain ⟨before, rfl⟩ := List.getLast?_eq_some_iff.1 last
        rw [List.append_nil, ← List.append_assoc, List.getLast?_concat] at ends
        cases ends
        cases stays
      · rw [List.concat_eq_append, ← List.append_assoc, List.getLast?_concat] at ends
        cases ends
        exact ⟨t, List.concat_eq_append⟩
    have space : ∀ c ∈ tail, isSpace c = true := fun c hc => h.tail c (List.mem_append_left _ hc)
    by_cases some_space : tail = []
    · subst some_space
      exact ⟨c₃, sheet₃, alike⟩
    · have gone : Reflow (body ++ (tail ++ '\n' :: [])) (body ++ ([] ++ '\n' :: [])) := .mk space (by simp) some_space
      obtain ⟨other, sheet₄, alike'⟩ := sheet₃.reflow gone
      exact ⟨other, sheet₄, alike'.trans alike⟩

/-! ## Cutting blocks out -/

/-- The outline tells of a block with this selector. -/
def Outline.hasSelector (selector : String) : Outline → Bool
  | .block s _ => s == selector
  | _ => false

/-- A text without the blocks among some of its items that have a selector. -/
def cutAll (selector : String) (items : List Item) (text : List Char) : List Char :=
  (items.filterMap (blockWith? selector)).foldr (fun (start, _, closing, _) text => cutBlock text start closing) text

theorem cutAll_append (is js : List Item) :
    cutAll selector (is ++ js) text = cutAll selector is (cutAll selector js text) := by
  rw [cutAll, List.filterMap_append, List.foldr_append]
  rfl

theorem cutAll_block (s : String) (start opening closing : Nat) (children is : List Item) :
    cutAll selector (.block s start opening closing children :: is) text =
      if s = selector then cutBlock (cutAll selector is text) start closing else cutAll selector is text := by
  unfold cutAll
  rw [List.filterMap_cons]
  by_cases same : s = selector
  · rw [if_pos same, blockWith?, if_pos same]
    rfl
  · rw [if_neg same, blockWith?, if_neg same]

/-- Runs are no blocks. -/
theorem cutAll_runItems (place : Nat) (run : List Cell) (terminated : Bool) :
    cutAll selector (runItems place run terminated) text = text := by
  unfold runItems segment
  split
  · rfl
  · split_ifs <;> rfl

theorem hasSelector_runOutlines (run : List Cell) :
    ((runOutlines run).getD []).filter (fun o => !o.hasSelector selector) = (runOutlines run).getD [] := by
  unfold runOutlines said?
  split_ifs <;> rfl

/-- A block is cut out with the white space that stands alone before it in its line, and with the line feed behind it. -/
theorem cutBlock_eq {start closing : Nat} (whole : text = (x ++ y) ++ (z ++ text'))
    (front : x = [] ∨ ∃ c ∈ x.getLast?, isSpace c = false) (starts : start = (x ++ y).length)
    (ends : closing + 1 = (x ++ y).length + z.length) :
    ∃ kept space, y = kept ++ space ∧ (∀ c ∈ space, isSpace c = true) ∧
      cutBlock text start closing = x ++ (kept ++ if text'.head? = some '\n' then text'.tail else text') := by
  obtain ⟨before, line, cut, -, -, first⟩ := exists_line (x ++ y)
  have first : lineStart text start = before.length := by rw [whole, starts, first]
  have in_line : slice text before.length start = line := by
    rw [whole, starts, cut, List.append_assoc, List.length_append]
    exact slice_append _ _ _
  have behind : text.drop (closing + 1) = text' := by
    rw [whole, ends, ← List.append_assoc, ← List.length_append, List.drop_left]
  simp only [cutBlock, first, in_line, behind]
  by_cases blank : isBlankList line = true
  · rw [if_pos blank]
    rw [isBlankList_iff] at blank
    have up_to : text.take before.length = before := by rw [whole, cut, List.append_assoc, List.take_left]
    rw [up_to]
    rcases List.append_eq_append_iff.1 cut with ⟨more, rfl, rfl⟩ | ⟨more, rfl, rfl⟩
    · exact ⟨more, line, rfl, blank, by simp⟩
    · rcases List.eq_nil_or_concat more with rfl | ⟨more, c, rfl⟩
      · exact ⟨[], y, rfl, blank, by simp⟩
      · -- The line would reach back into what stands in front of the block.
        obtain ⟨d, last, stays⟩ := front.resolve_left (by simp)
        rw [List.concat_eq_append, ← List.append_assoc, List.getLast?_concat] at last
        cases last
        have := blank c (by simp)
        rw [stays] at this
        cases this
  · rw [if_neg blank, starts, whole, List.take_left]
    exact ⟨y, [], by simp, by simp, by simp⟩

/-- The cells behind the block that is cut out, without the line feed that goes with it. -/
theorem exists_behind (sound : content.Sound) (masked : IsMask content.cells) :
    ∃ other : Content, other.Sound ∧ IsMask other.cells ∧ other.outlines = content.outlines ∧
      chars other.cells =
        if (chars content.cells).head? = some '\n' then (chars content.cells).tail else chars content.cells := by
  split_ifs with feed
  · obtain ⟨f, cells, cut, is_feed⟩ : ∃ f cells, content.cells = f :: cells ∧ f.char = '\n' := by
      cases cut : content.cells with
      | nil => simp [cut] at feed
      | cons f cells => exact ⟨f, cells, rfl, by simpa [cut] using feed⟩
    have space : ∀ c ∈ [f], isSpaceCell c = true := by simp [isSpaceCell, is_feed, isSpace]
    have blank := isBlankCell_of_isSpaceCell space
    obtain ⟨other, rfl, rfl⟩ := Content.exists_prepend blank (show content.cells = [f] ++ cells from cut)
    rw [Content.cells_prepend] at masked ⊢
    exact ⟨other, (Content.sound_prepend blank).1 sound, masked.of_space_append space,
      (Content.outlines_prepend blank other).symm, rfl⟩
  · exact ⟨content, sound, masked, rfl, rfl⟩

/-- A block is cut out in front of another content. -/
theorem exists_cut_block {lead block : List Cell} {start closing : Nat} (passes : Passes lead)
    (blank : ∀ c ∈ lead, isBlankCell c = true) (front : x = [] ∨ ∃ c ∈ x.getLast?, isSpace c = false)
    (starts : start = (x ++ chars lead).length) (ends : closing + 1 = (x ++ chars lead).length + (chars block).length)
    (sound : content.Sound) (masked : IsMask content.cells) :
    ∃ other : Content, other.Sound ∧ IsMask other.cells ∧ other.outlines = content.outlines ∧
      cutBlock ((x ++ chars lead) ++ (chars block ++ chars content.cells)) start closing = x ++ chars other.cells := by
  obtain ⟨kept, space, kept_eq, is_space, cut⟩ :=
    cutBlock_eq (rfl : _ = (x ++ chars lead) ++ (chars block ++ chars content.cells)) front starts ends
  obtain ⟨k, s, rfl, rfl, rfl⟩ := List.map_eq_append_iff.1 kept_eq
  obtain ⟨other, sound', masked', outlines, behind⟩ := exists_behind sound masked
  have blank' : ∀ c ∈ k, isBlankCell c = true := fun c hc => blank c (List.mem_append_left _ hc)
  have passes' : Passes k := by
    refine passes.of_append_space (List.forall_mem_map.1 is_space) fun slash => ?_
    have := blank' _ (List.mem_of_getLast? slash)
    cases this
  refine ⟨other.prepend k, (Content.sound_prepend blank').2 sound', ?_, ?_, ?_⟩
  · rw [Content.cells_prepend]
    exact passes'.append_isMask masked'
  · rw [Content.outlines_prepend blank', outlines]
  · rw [cut, Content.cells_prepend, ← behind, ← List.map_append]

/-- In a stylesheet, the blocks with a selector are cut out and the other items stay. -/
theorem exists_cut (selector : String) (sound : content.Sound) (masked : IsMask content.cells)
    (front : x = [] ∨ ∃ c ∈ x.getLast?, isSpace c = false) :
    ∃ other : Content, other.Sound ∧ IsMask other.cells ∧
      other.outlines = content.outlines.filter (fun o => !o.hasSelector selector) ∧
      cutAll selector (content.items x.length) (x ++ chars content.cells) = x ++ chars other.cells := by
  induction sound generalizing x with
  | @last run free told =>
    refine ⟨.last run, .last free told, masked, (hasSelector_runOutlines run).symm, ?_⟩
    rw [Content.items, cutAll_runItems]
  | @ended run rest free told sound ih =>
    have passes : Passes (run ++ [code ';']) := IsMask.passes_left masked isPlain_semicolon
    obtain ⟨other, sound', masked', outlines, cut⟩ :=
      ih (x := x ++ (chars run ++ [';'])) (IsMask.right masked isPlain_semicolon) (.inr ⟨';', by simp, rfl⟩)
    have place : (x ++ (chars run ++ [';'])).length = x.length + run.length + 1 := by simp [Nat.add_assoc]
    have text_eq (cells : List Cell) : x ++ chars (run ++ code ';' :: cells) = (x ++ (chars run ++ [';'])) ++ chars cells := by
      simp
    refine ⟨.ended run other, .ended free told sound', ?_, ?_, ?_⟩
    · rw [Content.cells, List.append_cons]
      exact passes.append_isMask masked'
    · rw [Content.outlines, Content.outlines, List.filter_append, hasSelector_runOutlines, outlines]
    · rw [Content.items, cutAll_append, cutAll_runItems, Content.cells, text_eq, ← place, cut, Content.cells, text_eq]
  | @block prelude body rest free named nests inner sound _ ih =>
    rw [Content.cells, ← List.cons_append, ← List.append_assoc] at masked
    have passes := masked.passes_left isPlain_closing
    have right := masked.right isPlain_closing
    let x' := x ++ chars (prelude ++ code '\x7b' :: body.cells) ++ ['\x7d']
    obtain ⟨other, sound', masked', outlines, cut⟩ :=
      ih (x := x') right (.inr ⟨'\x7d', List.getLast?_concat, rfl⟩)
    have place : x'.length = x.length + prelude.length + body.cells.length + 2 := by
      simp [x']
      omega
    have text_eq (cells : List Cell) :
        x ++ chars (prelude ++ code '\x7b' :: (body.cells ++ code '\x7d' :: cells)) = x' ++ chars cells := by
      simp [x']
    rw [Content.items, cutAll_block, Content.cells, text_eq, ← place, cut, Content.outlines, List.filter_cons]
    by_cases same : selectorOf prelude = selector
    · rw [if_pos same]
      obtain ⟨lead, middle, tail, rfl, h⟩ := (exists_trimmed isBlankCell prelude).resolve_left
        fun blank => named (runBody_of_blank blank)
      have lead_passes : Passes lead := by
        have cut : IsMask (lead ++ (middle ++ (tail ++ code '\x7b' :: body.cells ++ code '\x7d' :: rest.cells))) := by
          simpa using masked
        refine (cut.trimmed_start h.lead ?_).1
        obtain ⟨c, first, stays⟩ := h.first
        exact ⟨c, by simp [Option.mem_def.1 first], stays⟩
      let block := middle ++ tail ++ code '\x7b' :: (body.cells ++ [code '\x7d'])
      have begins : x.length + ((lead ++ middle ++ tail).takeWhile isBlankCell).length = (x ++ chars lead).length := by
        rw [h.takeWhile]
        simp
      have ends : x.length + (lead ++ middle ++ tail).length + body.cells.length + 1 + 1 =
          (x ++ chars lead).length + (chars block).length := by
        simp [block]
        omega
      have text_eq : x' ++ chars other.cells = (x ++ chars lead) ++ (chars block ++ chars other.cells) := by
        simp [x', block]
      obtain ⟨other', sound'', masked'', outlines', cut'⟩ :=
        exists_cut_block lead_passes h.lead front begins ends sound' masked'
      refine ⟨other', sound'', masked'', ?_, by rw [text_eq, cut']⟩
      have gone : (!Outline.hasSelector selector (.block (selectorOf (lead ++ middle ++ tail)) body.outlines)) = false := by
        rw [Outline.hasSelector, same, beq_self_eq_true, Bool.not_true]
      rw [outlines', outlines, gone]
      rfl
    · rw [if_neg same]
      refine ⟨.block prelude body other, .block free named nests inner sound', ?_, ?_, by rw [Content.cells, text_eq]⟩
      · have := passes.append_isMask masked'
        simpa [Content.cells] using this
      · rw [Content.outlines, outlines]
        simp [Outline.hasSelector, same]

/-! ## Removing -/

theorem isEmpty_filterMap_blockWith? (selector : String) (items : List Item) (text : List Char) :
    (items.filterMap (blockWith? selector)).isEmpty = !(outlinesOf text items).any (Outline.hasSelector selector) := by
  induction items with
  | nil => rfl
  | cons i is ih =>
    rw [outlinesOf, List.any_cons, List.filterMap_cons]
    cases i with
    | block s start opening closing children =>
      by_cases same : s = selector
      · simp [blockWith?, Item.outline, Outline.hasSelector, same]
      · simp [blockWith?, Item.outline, Outline.hasSelector, same, ih]
    | statement t => simp [blockWith?, Item.outline, Outline.hasSelector, ih]
    | declaration p start stop terminated => simp [blockWith?, Item.outline, Outline.hasSelector, ih]

theorem removeRule_eq {source : String} (parsed : parse source.toList = .ok items) : removeRule source selector =
    if (outlinesOf source.toList items).any (Outline.hasSelector (collapseSpace selector)) then
      .ok (String.ofList (tidy (cutAll (collapseSpace selector) items source.toList)))
    else .error (.operationFailed (.noRule selector)) := by
  have read : itemsOf source = .ok items := by
    rw [itemsOf, parsed]
    rfl
  have none_found := isEmpty_filterMap_blockWith? (collapseSpace selector) items source.toList
  unfold removeRule
  rw [read]
  change (if (items.filterMap (blockWith? (collapseSpace selector))).isEmpty then _ else _) = _
  rw [none_found]
  cases (outlinesOf source.toList items).any (Outline.hasSelector (collapseSpace selector)) <;> rfl

/-- Removing a rule fails if no top-level block has the selector. Otherwise the result is a stylesheet, and its items are the
old ones but for the blocks with the selector, in their order and unchanged up to white space. -/
theorem removeRule_exact (source selector : String) {items : List Item} (parsed : parse source.toList = .ok items) :
    ((outlinesOf source.toList items).any (Outline.hasSelector (collapseSpace selector)) = false →
      removeRule source selector = .error (.operationFailed (.noRule selector))) ∧
    ((outlinesOf source.toList items).any (Outline.hasSelector (collapseSpace selector)) = true →
      ∃ result items', removeRule source selector = .ok result ∧ parse result.toList = .ok items' ∧
        collapsedAll (outlinesOf result.toList items') = collapsedAll
          ((outlinesOf source.toList items).filter fun o => !o.hasSelector (collapseSpace selector))) := by
  rw [removeRule_eq parsed]
  constructor
  · intro none_found
    rw [none_found]
    rfl
  · intro found
    rw [if_pos found]
    obtain ⟨content, sheet, rfl⟩ := exists_sheet parsed
    obtain ⟨rest, sound, masked, outlines, cut⟩ :=
      exists_cut (x := []) (collapseSpace selector) sheet.sound sheet.mask (.inl rfl)
    rw [List.length_nil, List.nil_append, List.nil_append, sheet.chars] at cut
    have sheet' : IsSheet (chars rest.cells) rest :=
      ⟨rfl, masked, sound, fun o ho => sheet.no_declaration o (List.mem_of_mem_filter (outlines ▸ ho))⟩
    obtain ⟨other, sheet'', alike⟩ := sheet'.tidy
    rw [cut, Content.outlinesOf_whole sheet.chars]
    refine ⟨_, other.items 0, rfl, ?_, ?_⟩
    · rw [String.toList_ofList]
      exact sheet''.parse
    · rw [String.toList_ofList, Content.outlinesOf_whole sheet''.chars, alike, outlines]

/-- The second of two rules is removed. -/
theorem removeRule_exact_second : ∃ items, parse "a \x7b b: c \x7d\n\nd \x7b \x7d".toList = .ok items ∧
    ∃ result items', removeRule "a \x7b b: c \x7d\n\nd \x7b \x7d" "d" = .ok result ∧ parse result.toList = .ok items' ∧
      collapsedAll (outlinesOf result.toList items') = collapsedAll
        ((outlinesOf "a \x7b b: c \x7d\n\nd \x7b \x7d".toList items).filter fun o => !o.hasSelector (collapseSpace "d")) := by
  have sheet : IsSheet "a \x7b b: c \x7d\n\nd \x7b \x7d".toList
      (.block (cellsOf true "a ".toList) (.last (cellsOf true " b: c ".toList))
        (.block (cellsOf true "\n\nd ".toList) (.last [code ' ']) (.last []))) := by
    refine ⟨rfl, rfl, .block rfl (by decide) rfl (.last ⟨0, rfl⟩ rfl) ?_, by decide⟩
    exact .block rfl (by decide) rfl (.last ⟨0, rfl⟩ rfl) (.last ⟨0, rfl⟩ rfl)
  refine ⟨_, sheet.parse, (removeRule_exact _ "d" sheet.parse).2 ?_⟩
  rw [Content.outlinesOf_whole sheet.chars]
  decide

end Codewright.Css
