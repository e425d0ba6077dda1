import Mathlib.Data.List.Basic
import Mathlib.Logic.Relation
import Codewright.Text.Lines
import Codewright.Text.Space

/-!
# Lines and white space

* `lines_append_feed`, `lines_of_no_feed` – the lines of a text, from the first line on; `lines_induction` goes along them;
* `splitOn_append_cons`, `splitOn_of_not_mem` – what stands between occurrences of a character;
* `Reflow s t` – white space in front of a line feed stands in the place of other white space there; `reflow_joinLines` says
  that this is all that happens to a text whose lines are taken apart and joined.
-/

namespace Codewright.Text

open Relation (ReflTransGen)

variable {s t l : List Char}

/-! ## Taking lines apart -/

/-- A line without the carriage return at its end. -/
def dropReturn (l : List Char) : List Char := if l.getLast? = some '\r' then l.dropLast else l

theorem dropReturn_eq_self_iff : dropReturn l = l ↔ l.getLast? ≠ some '\r' := by
  unfold dropReturn
  split_ifs with carriage
  · obtain ⟨l, rfl⟩ := List.getLast?_eq_some_iff.1 carriage
    simp
  · simp [carriage]

/-- What is dropped from a line. -/
theorem exists_dropReturn (l : List Char) : ∃ ending, l = dropReturn l ++ ending ∧ (ending = [] ∨ ending = ['\r']) := by
  unfold dropReturn
  split_ifs with carriage
  · obtain ⟨l, rfl⟩ := List.getLast?_eq_some_iff.1 carriage
    exact ⟨['\r'], by rw [List.dropLast_concat], .inr rfl⟩
  · exact ⟨[], by rw [List.append_nil], .inl rfl⟩

/-- A line that ends with a letter has no carriage return at its end. -/
theorem dropReturn_of_letter (ends : ∃ c ∈ l.getLast?, isSpace c = false) : dropReturn l = l := by
  obtain ⟨c, last, letter⟩ := ends
  rw [dropReturn_eq_self_iff, last]
  rintro ⟨⟩
  cases letter

theorem dropLineEnd_append_feed (l : List Char) : dropLineEnd (l ++ ['\n']) = dropReturn l := by
  rcases List.eq_nil_or_concat l with rfl | ⟨l, c, rfl⟩
  · rfl
  · by_cases carriage : c = '\r'
    · subst carriage
      simp [dropLineEnd, dropReturn]
    · simp [dropLineEnd, dropReturn, carriage]

theorem dropLineEnd_of_no_feed (one : '\n' ∉ l) : dropLineEnd l = l := by
  unfold dropLineEnd
  split
  next h => exact absurd (List.mem_reverse.1 (h ▸ List.mem_cons_self)) one
  next h => exact absurd (List.mem_reverse.1 (h ▸ List.mem_cons_self)) one
  next => rfl

theorem linesWithEnds_append_feed (one : '\n' ∉ l) : linesWithEnds (l ++ '\n' :: s) = (l ++ ['\n']) :: linesWithEnds s := by
  induction l with
  | nil => rfl
  | cons c l ih =>
    rw [List.mem_cons, not_or] at one
    rw [List.cons_append, linesWithEnds, if_neg (Ne.symm one.1), ih one.2]
    rfl

theorem linesWithEnds_of_no_feed (one : '\n' ∉ l) (some_char : l ≠ []) : linesWithEnds l = [l] := by
  induction l with
  | nil => exact absurd rfl some_char
  | cons c l ih =>
    rw [List.mem_cons, not_or] at one
    rw [linesWithEnds, if_neg (Ne.symm one.1)]
    cases l with
    | nil => rfl
    | cons d l => rw [ih one.2 (by simp)]

theorem lines_append_feed (one : '\n' ∉ l) : lines (l ++ '\n' :: s) = dropReturn l :: lines s := by
  rw [lines, linesWithEnds_append_feed one, List.map_cons, dropLineEnd_append_feed]
  rfl

theorem lines_of_no_feed (one : '\n' ∉ l) (some_char : l ≠ []) : lines l = [l] := by
  rw [lines, linesWithEnds_of_no_feed one some_char, List.map_singleton, dropLineEnd_of_no_feed one]

theorem splitOn_append_cons {sep : Char} (absent : sep ∉ l) (s : List Char) : splitOn sep (l ++ sep :: s) = l :: splitOn sep s := by
  induction l with
  | nil => rw [List.nil_append, splitOn, if_pos rfl]
  | cons c l ih =>
    rw [List.mem_cons, not_or] at absent
    rw [List.cons_append, splitOn, if_neg (Ne.symm absent.1), ih absent.2]

theorem splitOn_of_not_mem {sep : Char} (absent : sep ∉ l) : splitOn sep l = [l] := by
  induction l with
  | nil => rfl
  | cons c l ih =>
    rw [List.mem_cons, not_or] at absent
    rw [splitOn, if_neg (Ne.symm absent.1), ih absent.2]

/-- A text is empty, or one line without a line feed, or a line with a line feed and a text behind it. -/
@[elab_as_elim]
theorem lines_induction {motive : List Char → Prop} (nil : motive [])
    (last : ∀ l, '\n' ∉ l → l ≠ [] → motive l) (line : ∀ l s, '\n' ∉ l → motive s → motive (l ++ '\n' :: s)) (s : List Char) :
    motive s := by
  induction size : s.length using Nat.strongRecOn generalizing s with
  | _ size ih =>
    subst size
    by_cases feed : '\n' ∈ s
    · obtain ⟨l, rest, rfl, one⟩ := List.eq_append_cons_of_mem feed
      exact line l rest one (ih rest.length (by simp; omega) rest rfl)
    · by_cases some_char : s = []
      · exact some_char ▸ nil
      · exact last s feed some_char

/-- What is said of the end of a text, and not of a line feed, is said of the end of what comes behind its first line. -/
theorem ends_behind_feed {p : Char → Prop} (ends : ∃ c ∈ (l ++ '\n' :: s).getLast?, p c) (no_feed : ¬p '\n') :
    s ≠ [] ∧ ∃ c ∈ s.getLast?, p c := by
  obtain ⟨c, last, holds⟩ := ends
  have more : s ≠ [] := by
    rintro rfl
    rw [List.getLast?_append, Option.mem_def] at last
    cases last
    exact no_feed holds
  refine ⟨more, c, ?_, holds⟩
  rwa [List.getLast?_append, List.getLast?_cons_of_ne_nil more, Option.or_of_isSome (by simpa using more)] at last

/-- Lines that end in letters, put together, are taken apart again. -/
theorem lines_intercalate {ls : List (List Char)} (each : ∀ l ∈ ls, '\n' ∉ l ∧ ∃ c ∈ l.getLast?, isSpace c = false) :
    lines (['\n'].intercalate ls) = ls := by
  induction ls with
  | nil => rfl
  | cons l ls ih =>
    obtain ⟨⟨one, ends⟩, more⟩ := List.forall_mem_cons.1 each
    cases ls with
    | nil =>
      obtain ⟨c, last, -⟩ := ends
      rw [List.intercalate_singleton, lines_of_no_feed one (List.ne_nil_of_mem (List.mem_of_getLast? last))]
    | cons l' ls =>
      rw [List.intercalate_cons_cons, List.append_assoc, List.singleton_append, lines_append_feed one, dropReturn_of_letter ends,
        ih more]

/-! ## Joining lines -/

/-- The lines with a line feed behind each. -/
def joinLines (ls : List (List Char)) : List Char := ls.flatMap fun l => l ++ ['\n']

@[simp] theorem joinLines_nil : joinLines [] = [] := rfl

@[simp] theorem joinLines_cons (l : List Char) (ls : List (List Char)) : joinLines (l :: ls) = l ++ '\n' :: joinLines ls := by
  simp [joinLines]

theorem joinLines_eq {ls : List (List Char)} (some_line : ls ≠ []) : joinLines ls = ['\n'].intercalate ls ++ ['\n'] := by
  induction ls with
  | nil => exact absurd rfl some_line
  | cons l ls ih =>
    cases ls with
    | nil => simp [List.intercalate]
    | cons l' ls => rw [joinLines_cons, ih (by simp), List.intercalate_cons_cons]; simp

/-- White space in front of a line feed stands in the place of other white space. -/
inductive Reflow : List Char → List Char → Prop
  | mk {a b w w' : List Char} (blank : ∀ c ∈ w, isSpace c = true) (blank' : ∀ c ∈ w', isSpace c = true)
      (some_blank : w ≠ []) : Reflow (a ++ (w ++ '\n' :: b)) (a ++ (w' ++ '\n' :: b))

theorem Reflow.append_left (h : Reflow s t) (more : List Char) : Reflow (more ++ s) (more ++ t) := by
  obtain @⟨a, b, w, w', blank, blank', some_blank⟩ := h
  rw [← List.append_assoc more, ← List.append_assoc more]
  exact .mk blank blank' some_blank

/-- The white space may stand behind more text. -/
theorem reflow_append_left (h : ReflTransGen Reflow s t) (more : List Char) :
    ReflTransGen Reflow (more ++ s) (more ++ t) :=
  h.lift (more ++ ·) fun _ _ step => step.append_left more

theorem reflow_dropReturn (l rest : List Char) : ReflTransGen Reflow (l ++ '\n' :: rest) (dropReturn l ++ '\n' :: rest) := by
  unfold dropReturn
  split_ifs with carriage
  · obtain ⟨l, rfl⟩ := List.getLast?_eq_some_iff.1 carriage
    have step : Reflow (l ++ (['\r'] ++ '\n' :: rest)) (l ++ ([] ++ '\n' :: rest)) := .mk (List.all_eq_true.1 rfl) (by simp) (by simp)
    rw [List.dropLast_concat, List.append_assoc]
    exact .single step
  · exact .refl

/-- White space goes where lines are taken apart and joined: carriage returns in front of line feeds. A line feed may come at
the end. -/
theorem reflow_joinLines (s : List Char) :
    ∃ e, (∀ c ∈ e, isSpace c = true) ∧ ReflTransGen Reflow (s ++ e) (joinLines (lines s)) := by
  induction s using lines_induction with
  | nil => exact ⟨[], by simp, .refl⟩
  | last l one some_char =>
    refine ⟨['\n'], List.all_eq_true.1 rfl, ?_⟩
    rw [lines_of_no_feed one some_char]
    simpa using ReflTransGen.refl
  | line l s one ih =>
    obtain ⟨e, blank, steps⟩ := ih
    refine ⟨e, blank, ?_⟩
    rw [lines_append_feed one, joinLines_cons, List.append_assoc, List.cons_append]
    have rest := reflow_append_left steps (dropReturn l ++ ['\n'])
    rw [← List.append_cons, ← List.append_cons] at rest
    exact (reflow_dropReturn l _).trans rest

end Codewright.Text
