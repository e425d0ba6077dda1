import Codewright.Text.Splice
import Codewright.Proofs.Text.Lines
import Codewright.Proofs.Text.Space

/-!
# Putting text into a text

* `exists_line` – the line up to a place, and what `lineStart` says of it;
* `insertLast_eq`, `insertFirst_eq` – a member at an end of a block: what stands around it, and white space between.
-/

namespace Codewright.Text

variable {text x y a b c line front rest member unit : List Char} {d : Char} {place opening closing : Nat}

/-! ## Places -/

/-- A text between two others. -/
theorem slice_append (a b c : List Char) : slice (a ++ (b ++ c)) a.length (a.length + b.length) = b := by
  simp [slice]

theorem isBlankList_iff : isBlankList x = true ↔ ∀ c ∈ x, isSpace c = true := List.all_eq_true

/-- A line with a letter is not blank. -/
theorem not_isBlankList {c : Char} (hc : c ∈ x) (letter : isSpace c = false) : isBlankList x = false := by
  rw [isBlankList, List.all_eq_false]
  exact ⟨c, hc, by simp [letter]⟩

/-- The line up to the end of a text, and what stands before it. -/
theorem exists_line (x : List Char) : ∃ before line, x = before ++ line ∧ '\n' ∉ line ∧
    (before = [] ∨ before.getLast? = some '\n') ∧ ∀ y, lineStart (x ++ y) x.length = before.length := by
  have apart := List.takeWhile_append_dropWhile (p := (· != '\n')) (l := x.reverse)
  have inside : ∀ c ∈ x.reverse.takeWhile (· != '\n'), c ≠ '\n' := fun c hc => by
    simpa using List.all_eq_true.1 List.all_takeWhile c hc
  have start : ∀ y, lineStart (x ++ y) x.length = x.length - (x.reverse.takeWhile (· != '\n')).length := fun y => by
    rw [lineStart, List.take_left]
  generalize x.reverse.takeWhile (· != '\n') = line at *
  generalize rest_eq : x.reverse.dropWhile (· != '\n') = rest at *
  have whole : x = rest.reverse ++ line.reverse := by
    rw [← List.reverse_append, apart, List.reverse_reverse]
  refine ⟨rest.reverse, line.reverse, whole, fun feed => inside '\n' (List.mem_reverse.1 feed) rfl, ?_, fun y => ?_⟩
  · cases rest with
    | nil => exact .inl rfl
    | cons c rest =>
      right
      have := List.head?_dropWhile_not (· != '\n') x.reverse
      rw [rest_eq] at this
      simpa using this
  · rw [start, whole]
    simp

/-- The line of a place, with what follows. -/
theorem lineIndent_isSpace (text : List Char) (place : Nat) : ∀ c ∈ lineIndent text place, isSpace c = true := by
  intro c hc
  have := List.all_eq_true.1 List.all_takeWhile c hc
  have : c = ' ' ∨ c = '\t' := by simpa using this
  rcases this with rfl | rfl <;> rfl

/-! ## Members -/

/-- A member at the end of a block stands behind the content of the block, up to some white space, and on lines of its
own. -/
theorem insertLast_eq (member unit : List Char) (separated : Bool) (hd : isSpace d = false)
    (whole : text = x ++ d :: (b ++ y)) (opens : opening = x.length) (closes : closing = x.length + b.length + 1) :
    ∃ body space separator space', b = body ++ space ∧ (∀ c ∈ space, isSpace c = true ∧ c ≠ '\n') ∧
      (∀ c ∈ separator, isSpace c = true) ∧ (body ++ separator).getLast? = some '\n' ∧ (∀ c ∈ space', isSpace c = true) ∧
      insertLast text opening closing member unit separated = x ++ d :: (body ++ (separator ++
        (indentLines member (lineIndent text opening ++ unit) ++ '\n' :: (space' ++ y)))) := by
  obtain ⟨before, line, cut, one, starts, start⟩ := exists_line (x ++ d :: b)
  have whole' : text = (x ++ d :: b) ++ y := by rw [whole]; simp
  have closes' : closing = (x ++ d :: b).length := by rw [closes]; simp; omega
  have start : lineStart text closing = before.length := by rw [whole', closes', start]
  have up_to : text.take closing = x ++ d :: b := by rw [whole', closes', List.take_left]
  have behind : text.drop closing = y := by rw [whole', closes', List.drop_left]
  have last_line : slice text before.length closing = line := by
    have := slice_append before line y
    rwa [← List.append_assoc, ← cut, ← whole', ← List.length_append, ← cut, ← closes'] at this
  have last_feed {m : List Char} (ends : (x ++ d :: m).getLast? = some '\n') : m.getLast? = some '\n' := by
    cases m with
    | nil =>
      obtain rfl : d = '\n' := by simpa using ends
      cases hd
    | cons e m => simpa using ends
  simp only [insertLast, start, last_line]
  generalize separator_eq : (if separated && !blockIsBlank text opening closing then ['\n'] else []) = separator
  have only_feeds : ∀ c ∈ separator, c = '\n' := by
    rw [← separator_eq]
    split <;> simp
  have blank_separator : ∀ c ∈ separator, isSpace c = true := fun c hc => only_feeds c hc ▸ rfl
  have with_separator {m : List Char} (ends : m.getLast? = some '\n') : (m ++ separator).getLast? = some '\n' := by
    rcases List.eq_nil_or_concat separator with rfl | ⟨more, e, rfl⟩
    · rwa [List.append_nil]
    · obtain rfl := only_feeds e (by simp)
      rw [List.concat_eq_append, ← List.append_assoc, List.getLast?_concat]
  by_cases blank : isBlankList line = true
  · -- The closing brace stands alone on its line.
    rw [isBlankList_iff] at blank
    have out : d ∉ line := fun here => by
      have := blank d here
      rw [hd] at this
      cases this
    obtain ⟨m, rfl, rfl⟩ : ∃ m, before = x ++ d :: m ∧ b = m ++ line := by
      rcases List.append_eq_append_iff.1 cut with ⟨more, rfl, rest⟩ | ⟨more, rfl, rest⟩
      · cases more with
        | nil => exact absurd (by rw [List.nil_append] at rest; rw [← rest]; simp) out
        | cons e more =>
          cases rest
          exact ⟨more, rfl, rfl⟩
      · exact absurd (by rw [rest]; simp) out
    have ends := last_feed (starts.resolve_left (by simp))
    have one_line : ∀ c ∈ line, isSpace c = true ∧ c ≠ '\n' := fun c hc => ⟨blank c hc, fun feed => one (feed ▸ hc)⟩
    refine ⟨m, line, separator, line, rfl, one_line, blank_separator, with_separator ends, blank, ?_⟩
    rw [if_pos (isBlankList_iff.2 blank)]
    have taken : text.take (x ++ d :: m).length = x ++ d :: m := by rw [whole', cut, List.append_assoc, List.take_left]
    have dropped : text.drop (x ++ d :: m).length = line ++ y := by rw [whole', cut, List.append_assoc, List.drop_left]
    rw [taken, dropped]
    simp
  · rw [if_neg blank, up_to, behind]
    obtain ⟨space, cut', dropped⟩ := exists_dropped (fun c => c == ' ' || c == '\t') b
    have stays : (d == ' ' || d == '\t') = false := by
      cases same : d == ' ' || d == '\t' with
      | false => rfl
      | true =>
        have : d = ' ' ∨ d = '\t' := by simpa using same
        rcases this with rfl | rfl <;> cases hd
    have stem : dropWhileEnd (fun c => c == ' ' || c == '\t') (x ++ d :: b) =
        x ++ d :: dropWhileEnd (fun c => c == ' ' || c == '\t') b := dropWhileEnd_append_cons stays
    rw [stem]
    refine ⟨_, space, '\n' :: separator, lineIndent text opening, cut', fun c hc => ?_, ?_, ?_, lineIndent_isSpace _ _, by simp⟩
    · have : c = ' ' ∨ c = '\t' := by simpa using dropped c hc
      rcases this with rfl | rfl <;> exact ⟨rfl, by decide⟩
    · exact List.forall_mem_cons.2 ⟨rfl, blank_separator⟩
    · rw [List.append_cons]
      exact with_separator List.getLast?_concat

/-- A member at the start of a block that is not blank stands behind the opening brace on lines of its own, with white space in
the place of that at the start of the block. -/
theorem insertFirst_eq (member unit : List Char) (whole : text = x ++ d :: rest) (opens : opening = x.length)
    (filled : blockIsBlank text opening closing = false) (is_unit : ∀ c ∈ unit, isSpace c = true) :
    ∃ space separator space' back, rest = space ++ back ∧ (∀ c ∈ space, isSpace c = true) ∧
      (∀ c ∈ separator, isSpace c = true) ∧ separator.getLast? = some '\n' ∧ (∀ c ∈ space', isSpace c = true) ∧
      insertFirst text opening closing member unit = x ++ d :: (separator ++
        (indentLines member (lineIndent text opening ++ unit) ++ '\n' :: (space' ++ back))) := by
  have up_to : text.take (opening + 1) = x ++ [d] := by
    rw [whole, opens, List.append_cons]
    exact List.take_left' (by simp)
  have behind : text.drop (opening + 1) = rest := by
    rw [whole, opens, List.append_cons]
    exact List.drop_left' (by simp)
  rw [insertFirst, filled, if_neg (by simp)]
  dsimp only
  rw [up_to, behind]
  split_ifs with lined
  · rw [Bool.and_eq_true, List.contains_iff_mem, isBlankList_iff] at lined
    obtain ⟨line, back, rfl, one⟩ := List.eq_append_cons_of_mem lined.1
    have first : (line ++ '\n' :: back).takeWhile (· != '\n') = line := by
      rw [List.takeWhile_append_of_pos fun c hc => by simpa using ne_of_mem_of_not_mem hc one,
        List.takeWhile_cons_of_neg (by simp), List.append_nil]
    rw [first] at lined ⊢
    have blank : ∀ c ∈ line ++ ['\n'], isSpace c = true := List.forall_mem_append.2 ⟨lined.2, List.all_eq_true.1 rfl⟩
    refine ⟨line ++ ['\n'], line ++ ['\n'], [], back, by simp, blank, blank, by simp, by simp, ?_⟩
    have dropped : (line ++ '\n' :: back).drop (line.length + 1) = back := by
      rw [List.append_cons]
      exact List.drop_left' (by simp)
    rw [dropped]
    simp
  · refine ⟨rest.takeWhile isSpace, ['\n'], lineIndent text opening ++ unit, trimStart rest, ?_, ?_, List.all_eq_true.1 rfl, rfl, ?_, by simp⟩
    · exact List.takeWhile_append_dropWhile.symm
    · exact fun c hc => List.all_eq_true.1 List.all_takeWhile c hc
    · exact List.forall_mem_append.2 ⟨lineIndent_isSpace text opening, is_unit⟩

end Codewright.Text
