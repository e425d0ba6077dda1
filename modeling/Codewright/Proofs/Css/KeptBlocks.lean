import Mathlib.Data.List.Chain
import Mathlib.Data.List.Flatten
import Codewright.Proofs.Css.RemovedRule

/-!
# The text of the blocks that stay

`removeRule` cuts blocks out, and goes through the lines of the whole text then. The blocks that stay stand in the result in
their order, but each of them with its lines settled (`removeRule_blocks`): carriage returns in front of line feeds are gone,
and of blank lines that follow each other one is left. So the text of a block changes if it has such lines
(`settled_eq_self_iff`, `not_removeRule_verbatim`).

* `InOrder ts s` – texts that stand in a text, one behind the other;
* `keptBlocks` – the texts of the blocks without a selector, and `Content.keptBlocks`;
* `settled` – a text with its lines settled; `exists_settled_append`, `exists_append_settled` say that a text is settled part
  by part.
-/

namespace Codewright.Css

open Text

variable {text s t x y b r w : List Char} {ts : List (List Char)} {content : Content} {items : List Item} {selector : String}

/-! ## Texts in a text -/

/-- Texts that stand in a text, one behind the other. -/
inductive InOrder : List (List Char) → List Char → Prop
  | nil {rest : List Char} : InOrder [] rest
  | cons {block rest : List Char} {blocks : List (List Char)} (gap : List Char) (behind : InOrder blocks rest) :
    InOrder (block :: blocks) (gap ++ (block ++ rest))

/-- No white space stands at the ends of a text. -/
abbrev IsTrimmed (t : List Char) : Prop := Trimmed isSpace [] t []

namespace InOrder

theorem append_left (h : InOrder ts s) (more : List Char) : InOrder ts (more ++ s) := by
  cases h with
  | nil => exact .nil
  | cons gap behind =>
    rw [← List.append_assoc]
    exact .cons _ behind

theorem append_right (h : InOrder ts s) (more : List Char) : InOrder ts (s ++ more) := by
  induction h with
  | nil => exact .nil
  | cons gap behind ih =>
    rw [List.append_assoc, List.append_assoc]
    exact .cons gap ih

theorem isInfix (h : InOrder [t] s) : t <:+: s := by
  cases h with
  | cons gap behind => exact ⟨gap, _, List.append_assoc _ _ _⟩

/-- White space at the start of a text is no part of trimmed texts in it. -/
theorem of_space_append (blank : ∀ c ∈ w, isSpace c = true) (trimmed : ∀ t ∈ ts, IsTrimmed t) (h : InOrder ts (w ++ s)) :
    InOrder ts s := by
  generalize whole : w ++ s = text at h
  cases h with
  | nil => exact .nil
  | @cons t rest ts gap behind =>
    obtain ⟨d, first, stays⟩ := (trimmed t List.mem_cons_self).first
    obtain ⟨more, rfl⟩ := List.head?_eq_some_iff.1 first
    rcases List.append_eq_append_iff.1 whole with ⟨gap, rfl, rfl⟩ | ⟨back, rfl, cut⟩
    · exact .cons gap behind
    · cases back with
      | nil =>
        rw [List.nil_append] at cut
        rw [← cut]
        exact .cons [] behind
      | cons e back =>
        -- The white space would reach into the first text.
        obtain ⟨rfl, -⟩ := List.cons_eq_cons.1 cut
        have := blank d (by simp)
        rw [stays] at this
        cases this

/-- White space at the end of a text is no part of trimmed texts in it. -/
theorem of_append_space (blank : ∀ c ∈ w, isSpace c = true) (trimmed : ∀ t ∈ ts, IsTrimmed t) (h : InOrder ts (s ++ w)) :
    InOrder ts s := by
  generalize whole : s ++ w = text at h
  induction h generalizing s with
  | nil => exact .nil
  | @cons t rest ts gap behind ih =>
    rw [List.forall_mem_cons] at trimmed
    rw [← List.append_assoc] at whole
    rcases List.append_eq_append_iff.1 whole with ⟨back, cut, rfl⟩ | ⟨s', rfl, cut⟩
    · obtain ⟨d, last, stays⟩ := trimmed.1.last
      obtain ⟨front, rfl⟩ := List.getLast?_eq_some_iff.1 last
      rcases List.eq_nil_or_concat back with rfl | ⟨back, e, rfl⟩
      · rw [List.append_nil] at cut
        have nothing_else : InOrder ts [] := ih trimmed.2 rfl
        have alone : InOrder ((front ++ [d]) :: ts) (gap ++ ((front ++ [d]) ++ [])) := .cons gap nothing_else
        rwa [List.append_nil, cut] at alone
      · -- The white space would reach into the first text.
        rw [List.concat_eq_append, ← List.append_assoc, ← List.append_assoc] at cut
        obtain ⟨-, rfl⟩ := List.append_inj' cut rfl |>.imp id List.singleton_inj.1
        have := blank d (by simp)
        rw [stays] at this
        cases this
    · rw [List.append_assoc]
      exact .cons gap (ih trimmed.2 cut.symm)

/-- Trimmed texts stay in a text that is trimmed. -/
theorem trim (trimmed : ∀ t ∈ ts, IsTrimmed t) (h : InOrder ts s) : InOrder ts (trim s) := by
  rcases exists_trimmed isSpace s with blank | ⟨lead, body, tail, rfl, ends⟩
  · rw [trim_of_space blank]
    exact of_append_space blank trimmed (s := []) h
  · rw [ends.trim]
    rw [List.append_assoc] at h
    exact of_append_space ends.tail trimmed (of_space_append ends.lead trimmed h)

end InOrder

/-! ## Settled lines -/

/-- A text whose lines end in line feeds alone, and of which no two blank ones follow each other. -/
def settled (s : List Char) : List Char := ['\n'].intercalate (singleBlanks false (lines s))

theorem singleBlanks_cons {l : List Char} (letter : ∃ c ∈ l, isSpace c = false) (afterBlank : Bool) (ls : List (List Char)) :
    singleBlanks afterBlank (l :: ls) = l :: singleBlanks false ls := by
  obtain ⟨c, hc, letter⟩ := letter
  have not_blank : ¬ isBlankList l = true := fun blank => by
    have := isBlankList_iff.1 blank c hc
    rw [letter] at this
    cases this
  rw [singleBlanks, if_neg not_blank]

theorem dropReturn_append {l : List Char} (some_char : l ≠ []) (p : List Char) : dropReturn (p ++ l) = p ++ dropReturn l := by
  obtain ⟨l, c, rfl⟩ := (List.eq_nil_or_concat l).resolve_left some_char
  rw [List.concat_eq_append, ← List.append_assoc]
  unfold dropReturn
  simp only [List.getLast?_concat, List.dropLast_concat]
  split_ifs
  · rfl
  · exact List.append_assoc _ _ _

/-- The first character of a line stays, unless it is white space. -/
theorem head?_dropReturn {l : List Char} {c : Char} (first : l.head? = some c) (letter : isSpace c = false) :
    (dropReturn l).head? = some c := by
  obtain ⟨more, rfl⟩ := List.head?_eq_some_iff.1 first
  rcases List.eq_nil_or_concat more with rfl | ⟨more, d, rfl⟩
  · have : c ≠ '\r' := by
      rintro rfl
      cases letter
    simp [dropReturn, this]
  · rw [List.concat_eq_append, ← List.cons_append, dropReturn_append (by simp)]
    rfl

/-- The first line of a text that begins with a letter; more may stand in front of it. -/
theorem exists_first_line {c : Char} (first : s.head? = some c) (letter : isSpace c = false) :
    ∃ l ls, l.head? = some c ∧ ∀ p, '\n' ∉ p → lines (p ++ s) = (p ++ l) :: ls := by
  have no_feed : c ≠ '\n' := by
    rintro rfl
    cases letter
  by_cases feed : '\n' ∈ s
  · obtain ⟨l, rest, rfl, one⟩ := List.eq_append_cons_of_mem feed
    have first : l.head? = some c := by
      cases l with
      | nil => exact absurd (Option.some.inj first).symm no_feed
      | cons d l => exact first
    have some_char : l ≠ [] := by
      rintro rfl
      cases first
    refine ⟨dropReturn l, lines rest, head?_dropReturn first letter, fun p hp => ?_⟩
    rw [← List.append_assoc, lines_append_feed (by simp [hp, one]), dropReturn_append some_char]
  · have some_char : s ≠ [] := by
      rintro rfl
      cases first
    exact ⟨s, [], first, fun p hp => lines_of_no_feed (by simp [hp, feed]) (by simp [some_char])⟩

/-- The lines of a text, settled and with a line feed behind each. -/
def settledLines (afterBlank : Bool) (s : List Char) : List Char := joinLines (singleBlanks afterBlank (lines s))

theorem head?_settledLines {c : Char} (first : s.head? = some c) (letter : isSpace c = false) (afterBlank : Bool) :
    (settledLines afterBlank s).head? = some c := by
  obtain ⟨l, ls, first, lines_eq⟩ := exists_first_line first letter
  have lines_eq := lines_eq [] (by simp)
  rw [List.nil_append, List.nil_append] at lines_eq
  rw [settledLines, lines_eq, singleBlanks_cons ⟨c, List.mem_of_head? first, letter⟩, joinLines_cons]
  simp [first]

/-- What stands in front of a letter is settled whatever begins with it. -/
theorem exists_settledLines_append (afterBlank : Bool) (s : List Char) : ∃ front,
    (∀ c, s.head? = some c → isSpace c = false → front.head? = some c) ∧
    ∀ t, (∃ c ∈ t.head?, isSpace c = false) → settledLines afterBlank (s ++ t) = front ++ settledLines false t := by
  have in_line (afterBlank : Bool) {p t : List Char} (one : '\n' ∉ p) (starts : ∃ c ∈ t.head?, isSpace c = false) :
      settledLines afterBlank (p ++ t) = p ++ settledLines false t := by
    obtain ⟨c, first, letter⟩ := starts
    obtain ⟨l, ls, first, lines_eq⟩ := exists_first_line first letter
    have here : ∃ c ∈ l, isSpace c = false := ⟨c, List.mem_of_head? first, letter⟩
    have there : ∃ c ∈ p ++ l, isSpace c = false := ⟨c, List.mem_append_right p (List.mem_of_head? first), letter⟩
    have alone := lines_eq [] (by simp)
    rw [List.nil_append, List.nil_append] at alone
    rw [settledLines, lines_eq p one, singleBlanks_cons there, settledLines, alone, singleBlanks_cons here,
      joinLines_cons, joinLines_cons, List.append_assoc]
  induction s using lines_induction generalizing afterBlank with
  | nil => exact ⟨[], by simp, fun t starts => in_line afterBlank (by simp) starts⟩
  | last l one some_char => exact ⟨l, fun c first _ => first, fun t starts => in_line afterBlank one starts⟩
  | line l s one ih =>
    have lines_eq (t : List Char) : lines ((l ++ '\n' :: s) ++ t) = dropReturn l :: lines (s ++ t) := by
      rw [List.append_assoc, List.cons_append, lines_append_feed one]
    have first_of_line {c : Char} (first : (l ++ '\n' :: s).head? = some c) (letter : isSpace c = false) :
        (dropReturn l).head? = some c := by
      cases l with
      | nil =>
        cases first
        cases letter
      | cons d l => exact head?_dropReturn first letter
    by_cases blank : isBlankList (dropReturn l) = true
    · obtain ⟨front, -, front_eq⟩ := ih true
      have no_letter {c : Char} (first : (l ++ '\n' :: s).head? = some c) (letter : isSpace c = false) : False := by
        have := isBlankList_iff.1 blank c (List.mem_of_head? (first_of_line first letter))
        rw [letter] at this
        cases this
      cases afterBlank with
      | true =>
        refine ⟨front, fun c first letter => (no_letter first letter).elim, fun t starts => ?_⟩
        rw [settledLines, lines_eq, singleBlanks, if_pos blank, if_pos rfl]
        exact front_eq t starts
      | false =>
        refine ⟨dropReturn l ++ '\n' :: front, fun c first letter => (no_letter first letter).elim, fun t starts => ?_⟩
        rw [settledLines, lines_eq, singleBlanks, if_pos blank, if_neg (by simp), joinLines_cons, List.append_assoc,
          List.cons_append, ← front_eq t starts]
        rfl
    · obtain ⟨front, -, front_eq⟩ := ih false
      refine ⟨dropReturn l ++ '\n' :: front, fun c first letter => ?_, fun t starts => ?_⟩
      · simp [first_of_line first letter]
      · rw [settledLines, lines_eq, singleBlanks, if_neg blank, joinLines_cons, List.append_assoc,
          List.cons_append, ← front_eq t starts]
        rfl

/-- A trimmed text with a line feed behind it, settled. -/
theorem settledLines_eq (trimmed : IsTrimmed t) : settledLines false t = settled t ++ ['\n'] := by
  obtain ⟨c, first, letter⟩ := trimmed.first
  obtain ⟨l, ls, first, lines_eq⟩ := exists_first_line first letter
  have lines_eq := lines_eq [] (by simp)
  rw [List.nil_append, List.nil_append] at lines_eq
  refine joinLines_eq ?_
  rw [lines_eq, singleBlanks_cons ⟨c, List.mem_of_head? first, letter⟩]
  exact List.cons_ne_nil _ _

/-- A trimmed text is settled whatever stands behind it. -/
theorem exists_append_settledLines (trimmed : IsTrimmed t) : ∃ front c, isSpace c = false ∧ settled t = front ++ [c] ∧
    ∀ s, settledLines false (t ++ s) = front ++ settledLines false (c :: s) := by
  obtain ⟨c, last, letter⟩ := trimmed.last
  obtain ⟨before, rfl⟩ := List.getLast?_eq_some_iff.1 last
  obtain ⟨front, -, front_eq⟩ := exists_settledLines_append false before
  refine ⟨front, c, letter, ?_, fun s => ?_⟩
  · have one_line : lines [c] = [[c]] := by
      refine lines_of_no_feed ?_ (by simp)
      rintro feed
      obtain rfl := List.mem_singleton.1 feed
      cases letter
    have alone : settledLines false [c] = [c] ++ ['\n'] := by
      rw [settledLines, one_line, singleBlanks_cons ⟨c, by simp, letter⟩]
      rfl
    have both := front_eq [c] ⟨c, rfl, letter⟩
    rw [settledLines_eq trimmed, alone, ← List.append_assoc] at both
    exact (List.append_inj' both rfl).1
  · rw [List.append_assoc]
    exact front_eq (c :: s) ⟨c, rfl, letter⟩

theorem isTrimmed_settled (trimmed : IsTrimmed t) : IsTrimmed (settled t) := by
  obtain ⟨front, d, letter', settled_eq, -⟩ := exists_append_settledLines trimmed
  obtain ⟨c, first, letter⟩ := trimmed.first
  have first' := head?_settledLines first letter false
  rw [settledLines_eq trimmed] at first'
  refine ⟨by simp, ⟨c, ?_, letter⟩, ⟨d, by simp [settled_eq], letter'⟩, by simp⟩
  cases same : settled t with
  | nil => simp [settled_eq] at same
  | cons e more =>
    rw [same] at first'
    exact first'

/-- Behind a trimmed text, trimmed texts that stand in order are settled where they stand. -/
theorem InOrder.exists_settledLines (trimmed : ∀ t ∈ ts, IsTrimmed t) (h : InOrder ts s) (trimmed_t : IsTrimmed t) :
    ∃ more, settledLines false (t ++ s) = settled t ++ more ∧ InOrder (ts.map settled) more := by
  induction h generalizing t with
  | nil =>
    obtain ⟨front, c, letter, settled_eq, front_eq⟩ := exists_append_settledLines trimmed_t
    obtain ⟨more, here⟩ := List.head?_eq_some_iff.1 (head?_settledLines (s := c :: _) rfl letter false)
    exact ⟨more, by rw [front_eq, here, settled_eq, List.append_assoc]; rfl, .nil⟩
  | @cons b r bs gap behind ih =>
    rw [List.forall_mem_cons] at trimmed
    obtain ⟨front, c, letter, settled_eq, front_eq⟩ := exists_append_settledLines trimmed_t
    obtain ⟨front', starts, front_eq'⟩ := exists_settledLines_append false (c :: gap)
    obtain ⟨gap', rfl⟩ := List.head?_eq_some_iff.1 (starts c rfl letter)
    obtain ⟨more, here, order⟩ := ih trimmed.2 trimmed.1
    obtain ⟨d, first, letter'⟩ := trimmed.1.first
    have at_block : ∃ e ∈ (b ++ r).head?, isSpace e = false := ⟨d, by simp [Option.mem_def.1 first], letter'⟩
    refine ⟨gap' ++ (settled b ++ more), ?_, .cons gap' order⟩
    rw [front_eq, ← List.cons_append, front_eq' _ at_block, here, settled_eq]
    simp

/-- Trimmed texts that stand in order are settled where they stand. -/
theorem InOrder.settledLines (trimmed : ∀ t ∈ ts, IsTrimmed t) (h : InOrder ts s) :
    InOrder (ts.map settled) (settledLines false s) := by
  cases h with
  | nil => exact .nil
  | @cons b r bs gap behind =>
    rw [List.forall_mem_cons] at trimmed
    obtain ⟨front, -, front_eq⟩ := exists_settledLines_append false gap
    obtain ⟨d, first, letter⟩ := trimmed.1.first
    obtain ⟨more, here, order⟩ := behind.exists_settledLines trimmed.2 trimmed.1
    rw [front_eq _ ⟨d, by simp [Option.mem_def.1 first], letter⟩, here]
    exact .cons front order

/-- Trimmed texts that stand in order do so, settled, in a text without blank lines. -/
theorem InOrder.tidy (trimmed : ∀ t ∈ ts, IsTrimmed t) (h : InOrder ts s) : InOrder (ts.map settled) (tidy s) := by
  have trimmed' : ∀ t ∈ ts.map settled, IsTrimmed t := List.forall_mem_map.2 fun t ht => isTrimmed_settled (trimmed t ht)
  have order := (h.settledLines trimmed).trim trimmed'
  change InOrder _ (if (Text.trim (Css.settledLines false s)).isEmpty then [] else Text.trim (Css.settledLines false s) ++ ['\n'])
  split_ifs with empty
  · rw [List.isEmpty_iff.1 empty] at order
    exact order
  · exact order.append_right _

/-! ## Texts that are settled already -/

theorem singleBlanks_sublist (afterBlank : Bool) (ls : List (List Char)) : (singleBlanks afterBlank ls).Sublist ls := by
  induction ls generalizing afterBlank with
  | nil => exact .slnil
  | cons l ls ih =>
    rw [singleBlanks]
    split_ifs
    · exact (ih true).cons l
    · exact (ih true).cons_cons l
    · exact (ih false).cons_cons l

/-- Lines stay as they are if no blank one comes behind another. -/
theorem singleBlanks_eq_self_iff (afterBlank : Bool) (ls : List (List Char)) : singleBlanks afterBlank ls = ls ↔
    ls.IsChain (fun l m => ¬ (isBlankList l = true ∧ isBlankList m = true)) ∧
      (afterBlank = true → ∀ l ∈ ls.head?, ¬ isBlankList l = true) := by
  induction ls generalizing afterBlank with
  | nil => simp [singleBlanks]
  | cons l ls ih =>
    rw [singleBlanks, List.isChain_cons]
    by_cases blank : isBlankList l = true
    · cases afterBlank with
      | true =>
        have shorter : singleBlanks true ls ≠ l :: ls := fun same => by
          have := (singleBlanks_sublist true ls).length_le
          rw [same, List.length_cons] at this
          omega
        simp [blank, shorter]
      | false =>
        simp [blank, ih]
        tauto
    · simp [blank, ih]

theorem length_joinLines_le {ls ls' : List (List Char)} (h : ls'.Sublist ls) : (joinLines ls').length ≤ (joinLines ls).length :=
  (h.flatMap _).length_le

/-- Lines that are joined to a text of the same length are all of the lines. -/
theorem eq_of_length_joinLines {ls ls' : List (List Char)} (h : ls'.Sublist ls)
    (same : (joinLines ls').length = (joinLines ls).length) : ls' = ls := by
  induction h with
  | slnil => rfl
  | cons l h ih =>
    have := length_joinLines_le h
    rw [joinLines_cons, List.length_append, List.length_cons] at same
    omega
  | cons_cons l h ih =>
    rw [joinLines_cons, joinLines_cons, List.length_append, List.length_append, List.length_cons, List.length_cons] at same
    rw [ih (by omega)]

theorem dropReturn_sublist (l : List Char) : (dropReturn l).Sublist l := by
  unfold dropReturn
  split_ifs
  · exact List.dropLast_sublist l
  · exact .refl l

/-- Joining the lines of a text loses carriage returns only. -/
theorem joinLines_lines_sublist (s : List Char) : (joinLines (lines s)).Sublist (s ++ ['\n']) := by
  induction s using lines_induction with
  | nil => simp [lines, linesWithEnds]
  | last l one some_char => simp [lines_of_no_feed one some_char]
  | line l s one ih =>
    rw [lines_append_feed one, joinLines_cons, List.append_assoc, List.cons_append]
    exact (dropReturn_sublist l).append (ih.cons_cons '\n')

/-- A carriage return stands in front of a line feed: in front of the first one, or behind it. -/
theorem isInfix_append_feed_iff {l : List Char} (one : '\n' ∉ l) :
    ['\r', '\n'] <:+: l ++ '\n' :: s ↔ l.getLast? = some '\r' ∨ ['\r', '\n'] <:+: s := by
  induction l with
  | nil => simp [List.infix_cons_iff]
  | cons c l ih =>
    rw [List.mem_cons, not_or] at one
    rw [List.cons_append, List.infix_cons_iff, ih one.2]
    cases l with
    | nil =>
      simp only [List.nil_append, List.cons_prefix_cons, List.nil_prefix, and_true, List.getLast?_nil,
        List.getLast?_singleton, Option.some.injEq, reduceCtorEq, false_or, eq_comm (a := c)]
    | cons d l =>
      have here : ¬ ['\r', '\n'] <+: c :: (d :: l ++ '\n' :: s) := by
        rw [List.cons_append, List.cons_prefix_cons, List.cons_prefix_cons]
        rintro ⟨-, rfl, -⟩
        exact one.2 List.mem_cons_self
      rw [List.getLast?_cons_cons]
      exact or_iff_right here

/-- The lines of a text are joined to the text if no carriage return stands in front of a line feed. -/
theorem joinLines_lines_iff (last : ∃ c ∈ s.getLast?, c ≠ '\n') :
    joinLines (lines s) = s ++ ['\n'] ↔ ¬ ['\r', '\n'] <:+: s := by
  induction s using lines_induction with
  | nil => simp at last
  | last l one some_char =>
    have no_feed : ¬ ['\r', '\n'] <:+: l := fun inside => one (inside.subset (by simp))
    simp [lines_of_no_feed one some_char, no_feed]
  | line l s one ih =>
    have last : ∃ c ∈ s.getLast?, c ≠ '\n' := by
      rcases List.eq_nil_or_concat s with rfl | ⟨s, c, rfl⟩
      · simp at last
      · simpa [List.getLast?_cons, List.getLast?_append] using last
    rw [lines_append_feed one, joinLines_cons, isInfix_append_feed_iff one, not_or, ← ih last, ← Ne,
      ← dropReturn_eq_self_iff, List.append_assoc, List.cons_append]
    constructor
    · intro same
      have first : dropReturn l = l := by
        have whole := congrArg List.length same
        have rest := (joinLines_lines_sublist s).length_le
        have line := (dropReturn_sublist l).length_le
        simp only [List.length_append, List.length_cons] at whole rest
        exact (dropReturn_sublist l).eq_of_length (by omega)
      rw [first] at same
      exact ⟨first, by simpa using same⟩
    · rintro ⟨first, rest⟩
      rw [first, rest]

/-- A trimmed text is settled if no carriage return stands in front of a line feed and no blank line behind another. -/
theorem settled_eq_self_iff (trimmed : IsTrimmed t) : settled t = t ↔
    ¬ ['\r', '\n'] <:+: t ∧ (lines t).IsChain (fun l m => ¬ (isBlankList l = true ∧ isBlankList m = true)) := by
  have last : ∃ c ∈ t.getLast?, c ≠ '\n' := by
    obtain ⟨c, last, letter⟩ := trimmed.last
    refine ⟨c, last, ?_⟩
    rintro rfl
    cases letter
  have chain := singleBlanks_eq_self_iff false (lines t)
  rw [← joinLines_lines_iff last]
  constructor
  · intro same
    have joined : joinLines (singleBlanks false (lines t)) = t ++ ['\n'] := by
      have := settledLines_eq trimmed
      rwa [same] at this
    have fewer := singleBlanks_sublist false (lines t)
    -- No line can go, since the lines that stay make up the text.
    have all_lines : singleBlanks false (lines t) = lines t := by
      refine eq_of_length_joinLines fewer (Nat.le_antisymm (length_joinLines_le fewer) ?_)
      rw [joined]
      exact (joinLines_lines_sublist t).length_le
    rw [all_lines] at joined
    exact ⟨joined, (chain.1 all_lines).1⟩
  · rintro ⟨joined, single⟩
    have all_lines : singleBlanks false (lines t) = lines t := chain.2 ⟨single, by simp⟩
    have := settledLines_eq trimmed
    rw [settledLines, all_lines, joined] at this
    exact (List.append_cancel_right this).symm

/-! ## The blocks that stay -/

/-- The text of a block with another selector, from the start of its selector to the closing brace. -/
def keptBlock? (selector : String) (text : List Char) : Item → Option (List Char)
  | .block s start _ closing _ => if s = selector then none else some (slice text start (closing + 1))
  | _ => none

/-- The texts of the blocks without a selector. -/
def keptBlocks (selector : String) (text : List Char) (items : List Item) : List (List Char) :=
  items.filterMap (keptBlock? selector text)

/-- The text of a block, without the blank start of its prelude. -/
def blockChars (prelude : List Cell) (body : Content) : List Char :=
  chars (prelude.dropWhile isBlankCell) ++ '\x7b' :: (chars body.cells ++ ['\x7d'])

/-- The same in a content. -/
def Content.keptBlocks (selector : String) : Content → List (List Char)
  | last _ => []
  | ended _ rest => rest.keptBlocks selector
  | block prelude body rest =>
    if selectorOf prelude = selector then rest.keptBlocks selector
    else blockChars prelude body :: rest.keptBlocks selector

theorem blockChars_append (prelude : List Cell) (body : Content) (y : List Char) :
    chars (prelude.takeWhile isBlankCell) ++ (blockChars prelude body ++ y) =
      chars prelude ++ '\x7b' :: (chars body.cells ++ '\x7d' :: y) := by
  have apart : chars (prelude.takeWhile isBlankCell) ++ chars (prelude.dropWhile isBlankCell) = chars prelude := by
    rw [← List.map_append, List.takeWhile_append_dropWhile]
  rw [← apart]
  simp [blockChars]

theorem length_blockChars (prelude : List Cell) (body : Content) :
    (prelude.takeWhile isBlankCell).length + (blockChars prelude body).length = prelude.length + body.cells.length + 2 := by
  have := congrArg List.length (blockChars_append prelude body [])
  simp only [List.length_append, List.length_map, List.length_cons, List.length_nil] at this
  omega

/-- The text of a block, where it stands. -/
theorem slice_block {prelude : List Cell} {body : Content}
    (whole : text = x ++ (chars prelude ++ '\x7b' :: (chars body.cells ++ '\x7d' :: y))) :
    slice text (x.length + (prelude.takeWhile isBlankCell).length)
      (x.length + prelude.length + body.cells.length + 1 + 1) = blockChars prelude body := by
  have cut : text = (x ++ chars (prelude.takeWhile isBlankCell)) ++ (blockChars prelude body ++ y) := by
    rw [List.append_assoc, blockChars_append, whole]
  have starts : x.length + (prelude.takeWhile isBlankCell).length =
      (x ++ chars (prelude.takeWhile isBlankCell)).length := by simp
  have ends : x.length + prelude.length + body.cells.length + 1 + 1 =
      (x ++ chars (prelude.takeWhile isBlankCell)).length + (blockChars prelude body).length := by
    have := length_blockChars prelude body
    rw [← starts]
    omega
  rw [starts, ends, cut, slice_append]

/-- Runs are no blocks. -/
theorem keptBlocks_runItems (place : Nat) (run : List Cell) (terminated : Bool) :
    keptBlocks selector text (runItems place run terminated) = [] := by
  unfold runItems segment
  split
  · rfl
  · split_ifs <;> rfl

theorem keptBlocks_items (whole : text = x ++ (chars content.cells ++ y)) :
    keptBlocks selector text (content.items x.length) = content.keptBlocks selector := by
  induction content generalizing x y with
  | last run => exact keptBlocks_runItems _ run false
  | ended run rest ih =>
    have rest_place := ih (x := x ++ (chars run ++ [';'])) (y := y) (by rw [whole, Content.cells]; simp)
    have further : (x ++ (chars run ++ [';'])).length = x.length + run.length + 1 := by
      simp [Nat.add_assoc]
    rw [further] at rest_place
    rw [Content.items, keptBlocks, List.filterMap_append, ← keptBlocks, ← keptBlocks, keptBlocks_runItems, rest_place]
    rfl
  | block prelude body rest _ ih =>
    have rest_place := ih (x := x ++ (chars prelude ++ '\x7b' :: (chars body.cells ++ ['\x7d']))) (y := y)
      (by rw [whole, Content.cells]; simp)
    have further : (x ++ (chars prelude ++ '\x7b' :: (chars body.cells ++ ['\x7d']))).length =
        x.length + prelude.length + body.cells.length + 2 := by
      simp
      omega
    rw [further] at rest_place
    have there : text = x ++ (chars prelude ++ '\x7b' :: (chars body.cells ++ '\x7d' :: (chars rest.cells ++ y))) := by
      rw [whole, Content.cells]
      simp
    have here := slice_block there
    rw [Content.items, Content.keptBlocks, ← rest_place, keptBlocks, List.filterMap_cons, keptBlock?, here]
    by_cases same : selectorOf prelude = selector
    · rw [if_pos same, if_pos same]
      rfl
    · rw [if_neg same, if_neg same]
      rfl

/-- The blocks of a content that is the whole text. -/
theorem keptBlocks_whole (same : chars content.cells = text) :
    keptBlocks selector text (content.items 0) = content.keptBlocks selector :=
  keptBlocks_items (x := []) (y := []) (by rw [List.append_nil, same, List.nil_append])

/-- The texts of blocks begin with their selectors and end with braces. -/
theorem isTrimmed_keptBlocks (selector : String) (sound : content.Sound) : ∀ t ∈ content.keptBlocks selector, IsTrimmed t := by
  induction sound with
  | last => simp [Content.keptBlocks]
  | ended _ _ _ ih => exact ih
  | @block prelude body rest _ named _ _ _ _ ih =>
    rw [Content.keptBlocks]
    split_ifs
    · exact ih
    · refine List.forall_mem_cons.2 ⟨?_, ih⟩
      obtain ⟨lead, middle, tail, rfl, h⟩ := (exists_trimmed isBlankCell prelude).resolve_left
        fun blank => named (runBody_of_blank blank)
      obtain ⟨c, first, stays⟩ := h.first
      obtain ⟨more, rfl⟩ := List.head?_eq_some_iff.1 first
      have letter : isSpace c.char = false := by
        by_contra space
        rw [isBlankCell_of_isSpace (Bool.not_eq_false _ ▸ space)] at stays
        cases stays
      rw [blockChars, h.dropWhile, ← List.cons_append, ← List.append_assoc]
      exact ⟨by simp, ⟨c.char, by simp, letter⟩, ⟨'\x7d', List.getLast?_concat, rfl⟩, by simp⟩

/-- Where blocks with a selector are cut out, the others stand in their order. -/
theorem exists_cutAll_inOrder (selector : String) (sound : content.Sound)
    (front : x = [] ∨ ∃ c ∈ x.getLast?, isSpace c = false) :
    ∃ y, cutAll selector (content.items x.length) (x ++ chars content.cells) = x ++ y ∧
      InOrder (content.keptBlocks selector) y := by
  induction sound generalizing x with
  | @last run _ _ => exact ⟨chars run, by rw [Content.items, cutAll_runItems, Content.cells], .nil⟩
  | @ended run rest free told sound ih =>
    obtain ⟨y, cut, order⟩ := ih (x := x ++ (chars run ++ [';'])) (.inr ⟨';', by simp, rfl⟩)
    have place : (x ++ (chars run ++ [';'])).length = x.length + run.length + 1 := by simp [Nat.add_assoc]
    have text_eq : x ++ chars (run ++ code ';' :: rest.cells) = (x ++ (chars run ++ [';'])) ++ chars rest.cells := by simp
    refine ⟨chars run ++ [';'] ++ y, ?_, order.append_left _⟩
    rw [Content.items, cutAll_append, cutAll_runItems, Content.cells, text_eq, ← place, cut, List.append_assoc]
  | @block prelude body rest free named nests inner sound _ ih =>
    let x' := x ++ chars (prelude ++ code '\x7b' :: body.cells) ++ ['\x7d']
    obtain ⟨y, cut, order⟩ := ih (x := x') (.inr ⟨'\x7d', List.getLast?_concat, rfl⟩)
    have place : x'.length = x.length + prelude.length + body.cells.length + 2 := by
      simp [x']
      omega
    have text_eq : x ++ chars (prelude ++ code '\x7b' :: (body.cells ++ code '\x7d' :: rest.cells)) = x' ++ chars rest.cells := by
      simp [x']
    have whole : x' ++ y = (x ++ chars (prelude.takeWhile isBlankCell)) ++ (blockChars prelude body ++ y) := by
      rw [List.append_assoc x, blockChars_append]
      simp [x']
    rw [Content.items, cutAll_block, Content.cells, text_eq, ← place, cut, Content.keptBlocks]
    by_cases same : selectorOf prelude = selector
    · rw [if_pos same, if_pos same]
      have begins : x.length + (prelude.takeWhile isBlankCell).length =
          (x ++ chars (prelude.takeWhile isBlankCell)).length := by simp
      have ends : x.length + prelude.length + body.cells.length + 1 + 1 =
          (x ++ chars (prelude.takeWhile isBlankCell)).length + (blockChars prelude body).length := by
        have := length_blockChars prelude body
        rw [← begins]
        omega
      obtain ⟨kept, space, -, -, cut'⟩ := cutBlock_eq whole front begins ends
      refine ⟨_, cut', InOrder.append_left ?_ kept⟩
      split_ifs with feed
      · obtain ⟨more, rfl⟩ := List.head?_eq_some_iff.1 feed
        exact order.of_space_append (w := ['\n']) (List.all_eq_true.1 rfl) (isTrimmed_keptBlocks selector sound)
      · exact order
    · rw [if_neg same, if_neg same]
      exact ⟨chars (prelude.takeWhile isBlankCell) ++ (blockChars prelude body ++ y), by rw [whole, List.append_assoc], .cons _ order⟩

/-! ## Removing -/

/-- Where a rule is removed, the texts of the other top-level blocks stand in their order, with settled lines. A block is
unchanged if no carriage return stands in front of a line feed in it and no blank line behind another. -/
theorem removeRule_blocks (source selector : String) {items : List Item} {result : String}
    (parsed : parse source.toList = .ok items) (removed : removeRule source selector = .ok result) :
    InOrder ((keptBlocks (collapseSpace selector) source.toList items).map settled) result.toList ∧
      ∀ block ∈ keptBlocks (collapseSpace selector) source.toList items, (settled block = block ↔
        ¬ ['\r', '\n'] <:+: block ∧ (lines block).IsChain fun l m => ¬ (isBlankList l = true ∧ isBlankList m = true)) := by
  rw [removeRule_eq parsed] at removed
  split_ifs at removed
  obtain rfl := Except.ok.inj removed
  obtain ⟨content, sheet, rfl⟩ := exists_sheet parsed
  have trimmed := isTrimmed_keptBlocks (collapseSpace selector) sheet.sound
  obtain ⟨text, cut, order⟩ := exists_cutAll_inOrder (x := []) (collapseSpace selector) sheet.sound (.inl rfl)
  rw [List.length_nil, List.nil_append, List.nil_append, sheet.chars] at cut
  rw [keptBlocks_whole sheet.chars, String.toList_ofList, cut]
  exact ⟨order.tidy trimmed, fun block member => settled_eq_self_iff (trimmed block member)⟩

/-- Of two rules the second one is removed, and the first one is settled. -/
theorem removeRule_blocks_second : ∃ items result,
    parse "a \x7b\r\n\n\n b: c \x7d\nd \x7b \x7d".toList = .ok items ∧
      removeRule "a \x7b\r\n\n\n b: c \x7d\nd \x7b \x7d" "d" = .ok result ∧
      InOrder ((keptBlocks (collapseSpace "d") "a \x7b\r\n\n\n b: c \x7d\nd \x7b \x7d".toList items).map settled) result.toList ∧
        ∀ block ∈ keptBlocks (collapseSpace "d") "a \x7b\r\n\n\n b: c \x7d\nd \x7b \x7d".toList items, (settled block = block ↔
          ¬ ['\r', '\n'] <:+: block ∧ (lines block).IsChain fun l m => ¬ (isBlankList l = true ∧ isBlankList m = true)) := by
  have sheet : IsSheet "a \x7b\r\n\n\n b: c \x7d\nd \x7b \x7d".toList
      (.block (cellsOf true "a ".toList) (.last (cellsOf true "\r\n\n\n b: c ".toList))
        (.block (cellsOf true "\nd ".toList) (.last [code ' ']) (.last []))) := by
    refine ⟨rfl, rfl, .block rfl (by decide) rfl (.last ⟨0, rfl⟩ rfl) ?_, by decide⟩
    exact .block rfl (by decide) rfl (.last ⟨0, rfl⟩ rfl) (.last ⟨0, rfl⟩ rfl)
  have removed : removeRule _ "d" = _ := removeRule_eq sheet.parse
  rw [Content.outlinesOf_whole sheet.chars, if_pos (by decide)] at removed
  exact ⟨_, _, sheet.parse, removed, removeRule_blocks _ "d" sheet.parse removed⟩

/-- Removing the first of two rules leaves only one of the empty lines in the second one. -/
theorem not_removeRule_verbatim : ¬ ∀ (source selector : String) (items : List Item) (result : String),
    parse source.toList = .ok items → removeRule source selector = .ok result →
      InOrder (keptBlocks (collapseSpace selector) source.toList items) result.toList := by
  intro verbatim
  have sheet : IsSheet "a \x7b\x7d\nb \x7b\n    c: d;\n\n\n    e: f;\n\x7d\n".toList
      (.block (cellsOf true "a ".toList) (.last [])
        (.block (cellsOf true "\nb ".toList)
          (.ended (cellsOf true "\n    c: d".toList) (.ended (cellsOf true "\n\n\n    e: f".toList) (.last [code '\n'])))
          (.last [code '\n']))) := by
    refine ⟨rfl, rfl, .block rfl (by decide) rfl (.last ⟨0, rfl⟩ rfl) ?_, by decide⟩
    exact .block rfl (by decide) rfl (.ended rfl rfl (.ended rfl rfl (.last ⟨0, rfl⟩ rfl))) (.last ⟨0, rfl⟩ rfl)
  have removed : removeRule _ "a" = _ := removeRule_eq sheet.parse
  rw [Content.outlinesOf_whole sheet.chars, if_pos (by decide)] at removed
  have kept := verbatim _ "a" _ _ sheet.parse removed
  rw [keptBlocks_whole sheet.chars, String.toList_ofList] at kept
  have inside := kept.isInfix
  revert inside
  decide +kernel

end Codewright.Css
