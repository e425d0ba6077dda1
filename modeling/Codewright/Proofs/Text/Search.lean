import Mathlib.Data.List.Infix
import Codewright.Text.Search

/-!
# What the searches find

* `stripStart?_eq_some_iff`, `stripEnd?_eq_some_iff` – the text begins or ends so;
* `cutAt_eq_none_iff` – the text does not occur; `of_cutAt_eq_some` – it occurs there first;
* `not_infix_replaceFrom` – two characters that are broken up do not occur any more.
-/

namespace Codewright.Text

variable {s t : List Char}

theorem stripStart?_eq_some_iff {start : List Char} : stripStart? start s = some t ↔ s = start ++ t := by
  induction start generalizing s with
  | nil => simp [stripStart?]
  | cons c start ih =>
    cases s with
    | nil => simp [stripStart?]
    | cons d s =>
      rw [stripStart?]
      split
      · next same => rw [ih, same, List.cons_append, List.cons_inj_right]
      · next other => simpa using fun same _ => other same.symm

theorem stripEnd?_eq_some_iff {ending : List Char} : stripEnd? ending s = some t ↔ s = t ++ ending := by
  rw [stripEnd?, Option.map_eq_some_iff]
  constructor
  · rintro ⟨r, found, rfl⟩
    have same := stripStart?_eq_some_iff.1 found
    rw [← List.reverse_reverse s, same, List.reverse_append, List.reverse_reverse]
  · rintro rfl
    exact ⟨t.reverse, stripStart?_eq_some_iff.2 (List.reverse_append ..), List.reverse_reverse t⟩

theorem cutAt_eq_none_iff {needle : List Char} (some_char : needle ≠ []) : cutAt needle s = none ↔ ¬needle <:+: s := by
  induction s with
  | nil =>
    have no_empty : needle.isEmpty = false := by simpa using some_char
    simp [cutAt, no_empty, some_char]
  | cons c s ih =>
    rw [cutAt, List.infix_cons_iff, not_or]
    split
    · next here => simp [List.isPrefixOf_iff_prefix.1 here]
    · next other =>
      rw [List.isPrefixOf_iff_prefix] at other
      rw [Option.map_eq_none_iff, ih]
      exact (and_iff_right other).symm

/-- A text is found where it occurs first. -/
theorem of_cutAt_eq_some {needle front rest : List Char} (some_char : needle ≠ [])
    (found : cutAt needle s = some (front, rest)) : needle <+: rest ∧ ¬needle <:+: front ++ needle.dropLast := by
  induction s generalizing front with
  | nil =>
    have no_empty : needle.isEmpty = false := by simpa using some_char
    simp [cutAt, no_empty] at found
  | cons c s ih =>
    rw [cutAt] at found
    split at found
    · next here =>
      cases found
      refine ⟨List.isPrefixOf_iff_prefix.1 here, fun inside => ?_⟩
      have le := inside.length_le
      have pos := List.length_pos_iff.2 some_char
      rw [List.nil_append, List.length_dropLast] at le
      omega
    · next other =>
      obtain ⟨⟨front, rest⟩, found', same⟩ := Option.map_eq_some_iff.1 found
      cases same
      obtain ⟨here, not_before⟩ := ih found'
      refine ⟨here, ?_⟩
      rw [List.cons_append, List.infix_cons_iff, not_or]
      refine ⟨fun start => other ?_, not_before⟩
      obtain ⟨more, rfl⟩ := here
      rw [List.isPrefixOf_iff_prefix, ← append_of_cutAt found']
      refine start.trans ((List.prefix_cons_inj c).2 ((List.prefix_append_right_inj front).2 ?_))
      exact (List.dropLast_prefix needle).trans (List.prefix_append needle more)

/-- A pair of characters with another one put between them occurs no more. -/
theorem not_infix_replaceFrom {a b c : Char} (between : c ≠ a ∧ c ≠ b) (apart : a ≠ b) (skip : Nat) (s : List Char) :
    ¬[a, b] <:+: replaceFrom [a, b] [a, c, b] skip s := by
  have start (d : Char) {t : List Char} (pair : [a, b] <+: d :: t) : d = a ∧ t.head? = some b := by
    obtain ⟨rfl, behind⟩ := List.cons_prefix_cons.1 pair
    obtain ⟨more, rfl⟩ := behind
    exact ⟨rfl, rfl⟩
  fun_induction replaceFrom [a, b] [a, c, b] skip s with
  | case1 => simp
  | case2 skip d cs ih => exact ih
  | case3 d cs here ih =>
    simp only [List.cons_append, List.nil_append, List.infix_cons_iff, not_or]
    refine ⟨fun pair => ?_, fun pair => ?_, fun pair => ?_, ih⟩
    · exact between.2 (Option.some.inj (start a pair).2)
    · exact between.1 (start c pair).1
    · exact apart (start b pair).1.symm
  | case4 d cs other ih =>
    rw [List.infix_cons_iff, not_or]
    refine ⟨fun pair => other ?_, ih⟩
    obtain ⟨rfl, second⟩ := start d pair
    cases cs with
    | nil => cases second
    | cons e cs =>
      rw [replaceFrom] at second
      split at second
      · exact absurd (Option.some.inj second) apart
      · obtain rfl : e = b := Option.some.inj second
        simp

end Codewright.Text
