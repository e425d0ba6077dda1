import Codewright.Language.Settings
import Codewright.Proofs.Text.Lines
import Codewright.Proofs.Text.Space
import Codewright.Proofs.Text.Splice

/-!
# Indented text

* `indentLine` – one line of `indentLines`;
* `indentLines_append` – texts that end with letters are indented one by one;
* `respace_indentLines` – the indentation of a text changes its white space only.
-/

namespace Codewright.Text

open Relation (ReflTransGen)

variable {indent s t l : List Char}

theorem isSpace_unit (settings : Settings) : ∀ c ∈ settings.unit.toList, isSpace c = true := by
  intro c hc
  rw [Settings.unit, String.toList_ofList] at hc
  rw [List.eq_of_mem_replicate hc]
  rfl

/-- A line with an indentation in front of it; blank lines become empty. -/
def indentLine (indent l : List Char) : List Char := if isBlankList l then [] else indent ++ l

theorem indentLine_of_letter {c : Char} (hc : c ∈ l) (letter : isSpace c = false) : indentLine indent l = indent ++ l := by
  rw [indentLine, if_neg]
  rw [not_isBlankList hc letter]
  exact Bool.false_ne_true

theorem indentLines_of_no_feed (one : '\n' ∉ l) (some_char : l ≠ []) : indentLines l indent = indentLine indent l := by
  rw [indentLines, lines_of_no_feed one some_char, List.map_singleton]
  simp [List.intercalate, indentLine]

/-- One line with a letter is indented as it is. -/
theorem indentLines_line (one : '\n' ∉ l) (some_letter : ∃ c ∈ l, isSpace c = false) : indentLines l indent = indent ++ l := by
  obtain ⟨c, hc, letter⟩ := some_letter
  rw [indentLines_of_no_feed one (List.ne_nil_of_mem hc), indentLine_of_letter hc letter]

theorem indentLines_append_feed (one : '\n' ∉ l) (more : s ≠ []) :
    indentLines (l ++ '\n' :: s) indent = indentLine indent (dropReturn l) ++ '\n' :: indentLines s indent := by
  have some_line : lines s ≠ [] := by
    induction s using lines_induction with
    | nil => exact absurd rfl more
    | last l one some_char => rw [lines_of_no_feed one some_char]; simp
    | line l s one => rw [lines_append_feed one]; simp
  obtain ⟨first, others, cut⟩ := List.exists_cons_of_ne_nil some_line
  rw [indentLines, indentLines, lines_append_feed one, cut, List.map_cons, List.map_cons, List.intercalate_cons_cons]
  simp [indentLine]

/-- A line that ends in a letter is indented as it is. -/
theorem indentLine_dropReturn {indent l : List Char} (ends : ∃ c ∈ l.getLast?, isSpace c = false) :
    indentLine indent (dropReturn l) = indent ++ l := by
  obtain ⟨c, last, letter⟩ := ends
  rw [dropReturn_of_letter ⟨c, last, letter⟩, indentLine_of_letter (List.mem_of_getLast? last) letter]

/-- What comes on the lines behind a letter is indented by itself. -/
theorem indentLines_append (ends : ∃ c ∈ s.getLast?, isSpace c = false) (more : t ≠ []) :
    indentLines (s ++ '\n' :: t) indent = indentLines s indent ++ '\n' :: indentLines t indent := by
  induction s using lines_induction with
  | nil => simp at ends
  | last l one some_char =>
    obtain ⟨c, last, letter⟩ := ends
    rw [indentLines_append_feed one more, indentLine_dropReturn ⟨c, last, letter⟩,
      indentLines_line one ⟨c, List.mem_of_getLast? last, letter⟩]
  | line l rest one ih =>
    obtain ⟨more', ends⟩ := ends_behind_feed ends (by decide)
    rw [List.append_assoc, List.cons_append, indentLines_append_feed one (by simp), ih ends, indentLines_append_feed one more',
      List.append_assoc, List.cons_append]

/-- A text that ends with a letter does so when it is indented. -/
theorem getLast?_indentLines (ends : ∃ c ∈ s.getLast?, isSpace c = false) (indent : List Char) :
    ∃ c ∈ (indentLines s indent).getLast?, isSpace c = false := by
  induction s using lines_induction with
  | nil => simp at ends
  | last l one some_char =>
    obtain ⟨c, last, letter⟩ := ends
    rw [indentLines_line one ⟨c, List.mem_of_getLast? last, letter⟩, List.getLast?_append, last]
    exact ⟨c, rfl, letter⟩
  | line l rest one ih =>
    obtain ⟨more, ends⟩ := ends_behind_feed ends (by decide)
    obtain ⟨c, last, letter⟩ := ih ends
    rw [indentLines_append_feed one more, List.getLast?_append, List.getLast?_cons, last]
    exact ⟨c, rfl, letter⟩

/-- Lines that end in letters are indented one by one. -/
theorem indentLines_intercalate {ls : List (List Char)} (each : ∀ l ∈ ls, '\n' ∉ l ∧ ∃ c ∈ l.getLast?, isSpace c = false)
    (some_line : ls ≠ []) (indent : List Char) :
    indentLines (['\n'].intercalate ls) indent ++ ['\n'] = ls.flatMap fun l => indent ++ l ++ ['\n'] := by
  have indented : (ls.map fun l => if isBlankList l then [] else indent ++ l) = ls.map (indent ++ ·) := by
    refine List.map_congr_left fun l hl => ?_
    obtain ⟨-, c, last, letter⟩ := each l hl
    exact indentLine_of_letter (List.mem_of_getLast? last) letter
  rw [indentLines, lines_intercalate each, indented, ← joinLines_eq (by simpa using some_line), joinLines, List.flatMap_map]

theorem respace_indentLine (blank : ∀ c ∈ indent, isSpace c = true) (l rest : List Char) :
    Respace isSpace ('\n' :: (l ++ rest)) ('\n' :: (indentLine indent l ++ rest)) := by
  unfold indentLine
  split_ifs with blank_line
  · have gone : Respace isSpace ([] ++ (('\n' :: l) ++ rest)) ([] ++ (['\n'] ++ rest)) :=
      .mk (List.forall_mem_cons.2 ⟨rfl, isBlankList_iff.1 blank_line⟩) (List.all_eq_true.1 rfl) (by simp) (by simp)
    exact gone
  · have indented : Respace isSpace ([] ++ (['\n'] ++ (l ++ rest))) ([] ++ (('\n' :: indent) ++ (l ++ rest))) :=
      .mk (List.all_eq_true.1 rfl) (List.forall_mem_cons.2 ⟨rfl, blank⟩) (by simp) (by simp)
    simpa using indented

theorem respace_dropReturn (l rest : List Char) :
    ReflTransGen (Respace isSpace) (l ++ '\n' :: rest) (dropReturn l ++ '\n' :: rest) := by
  unfold dropReturn
  split_ifs with carriage
  · obtain ⟨l, rfl⟩ := List.getLast?_eq_some_iff.1 carriage
    have step : Respace isSpace (l ++ (['\r', '\n'] ++ rest)) (l ++ (['\n'] ++ rest)) :=
      .mk (List.all_eq_true.1 rfl) (List.all_eq_true.1 rfl) (by simp) (by simp)
    rw [List.dropLast_concat, List.append_assoc]
    exact .single step
  · exact .refl

/-- What is said behind more text is said with it. -/
theorem respace_append_left (h : ReflTransGen (Respace isSpace) s t) (more : List Char) :
    ReflTransGen (Respace isSpace) (more ++ s) (more ++ t) :=
  h.lift (more ++ ·) fun _ _ step => step.append_left more

theorem respace_append_right (h : ReflTransGen (Respace isSpace) s t) (more : List Char) :
    ReflTransGen (Respace isSpace) (s ++ more) (t ++ more) :=
  h.lift (· ++ more) fun _ _ step => step.append_right more

/-- Behind a line feed, indentation only puts other white space where there is some. -/
theorem respace_indentLines (blank : ∀ c ∈ indent, isSpace c = true) (text : List Char) (ends : ∃ c ∈ text.getLast?, c ≠ '\n') :
    ReflTransGen (Respace isSpace) ('\n' :: text) ('\n' :: indentLines text indent) := by
  induction text using lines_induction with
  | nil => simp at ends
  | last l one some_char =>
    rw [indentLines_of_no_feed one some_char]
    have := respace_indentLine blank l []
    rw [List.append_nil, List.append_nil] at this
    exact .single this
  | line l rest one ih =>
    obtain ⟨more, ends⟩ := ends_behind_feed ends (not_not_intro rfl)
    rw [indentLines_append_feed one more]
    calc ReflTransGen (Respace isSpace) ('\n' :: (l ++ '\n' :: rest)) ('\n' :: (l ++ '\n' :: indentLines rest indent)) :=
          respace_append_left (ih ends) ('\n' :: l)
      ReflTransGen (Respace isSpace) _ ('\n' :: (dropReturn l ++ '\n' :: indentLines rest indent)) :=
          respace_append_left (respace_dropReturn l _) ['\n']
      ReflTransGen (Respace isSpace) _ _ := .single (respace_indentLine blank _ _)

end Codewright.Text
