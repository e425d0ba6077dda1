import Mathlib.Data.List.Basic
import Codewright.Source.Span

/-!
# Places, counted from the start of a text

* `Position.ofText before` – the point behind the text `before`, with its line and column counted afresh; `after_ofText`:
  this is where a reader stands;
* `IsPlace cs span pos` – the span covers whole characters of the text, and begins at the point;
* `IsBoundary cs n` – a character begins or the text ends at the byte; `Span.exists_of_isBoundary`: between two such bytes
  there is a text to slice.
-/

namespace Codewright.Source

open Text

/-- The point behind a text: its bytes, its line feeds, and the characters behind the last line feed. -/
def Position.ofText (before : List Char) : Position :=
  ⟨byteLength before, before.count '\n', (before.reverse.takeWhile fun c => c != '\n').length⟩

/-- The span covers a part of the text, character by character, and the point is where this part begins. -/
def IsPlace (cs : List Char) (span : Span) (pos : Position) : Prop :=
  ∃ before text behind, cs = before ++ text ++ behind ∧ span = ⟨byteLength before, byteLength (before ++ text)⟩ ∧
    pos = Position.ofText before

namespace Position

theorem step_ofText (before : List Char) (c : Char) : (ofText before).step c = ofText (before ++ [c]) := by
  unfold step ofText
  by_cases feed : c = '\n'
  · subst feed
    simp [byteLength_append, byteLength]
  · have other : (c != '\n') = true := by simpa using feed
    simp [feed, other, byteLength_append, byteLength, List.count_append]

/-- Counting on from a point is counting from the start. -/
theorem after_ofText (before cs : List Char) : (ofText before).after cs = ofText (before ++ cs) := by
  induction cs generalizing before with
  | nil => simp
  | cons c cs ih => rw [after_cons, step_ofText, ih, List.append_assoc, List.singleton_append]

end Position

theorem byteLength_pos {cs : List Char} (h : cs ≠ []) : 0 < byteLength cs := by
  cases cs with
  | nil => exact absurd rfl h
  | cons c cs =>
    have size := c.utf8Size_pos
    show 0 < c.utf8Size + byteLength cs
    omega

/-! ## Boundaries -/

/-- The first so many bytes of the text are whole characters. -/
def IsBoundary (cs : List Char) (n : Nat) : Prop := ∃ before behind, cs = before ++ behind ∧ n = byteLength before

theorem IsPlace.isBoundary {cs : List Char} {span : Span} {pos : Position} (h : IsPlace cs span pos) :
    span.start ≤ span.stop ∧ IsBoundary cs span.start ∧ IsBoundary cs span.stop := by
  obtain ⟨before, text, behind, rfl, rfl, -⟩ := h
  refine ⟨?_, ⟨before, text ++ behind, List.append_assoc _ _ _, rfl⟩, ⟨before ++ text, behind, rfl, rfl⟩⟩
  show byteLength before ≤ byteLength (before ++ text)
  rw [byteLength_append]
  exact Nat.le_add_right _ _

theorem IsBoundary.le {cs : List Char} {n : Nat} (h : IsBoundary cs n) : n ≤ byteLength cs := by
  obtain ⟨before, behind, rfl, rfl⟩ := h
  rw [byteLength_append]
  exact Nat.le_add_right _ _

/-- The bytes of a character and of those behind it, as the readers count them down. -/
theorem exists_byteLength_cons (c : Char) (cs : List Char) :
    ∃ n, byteLength (c :: cs) = n + 1 ∧ c.utf8Size ≤ n + 1 ∧ n + 1 - c.utf8Size = byteLength cs := by
  have size := c.utf8Size_pos
  have total : byteLength (c :: cs) = c.utf8Size + byteLength cs := rfl
  exact ⟨c.utf8Size + byteLength cs - 1, by omega, by omega, by omega⟩

theorem dropBytes?_append (a b : List Char) : dropBytes? (byteLength a) (a ++ b) = some b := by
  induction a with
  | nil => cases b <;> rfl
  | cons c a ih =>
    obtain ⟨n, total, fits, left⟩ := exists_byteLength_cons c a
    rw [total, List.cons_append, dropBytes?, if_pos fits, left, ih]

theorem takeBytes?_append (a b : List Char) : takeBytes? (byteLength a) (a ++ b) = some a := by
  induction a with
  | nil => cases b <;> rfl
  | cons c a ih =>
    obtain ⟨n, total, fits, left⟩ := exists_byteLength_cons c a
    rw [total, List.cons_append, takeBytes?, if_pos fits, left, ih, Option.map_some]

/-- Two beginnings of a text of the same size in bytes. -/
theorem append_inj_byteLength {a b c d : List Char} (same : a ++ b = c ++ d) (size : byteLength a = byteLength c) :
    a = c ∧ b = d := by
  have rest : b = d := by
    have left := dropBytes?_append a b
    rw [same, size, dropBytes?_append] at left
    exact (Option.some.inj left).symm
  rw [rest] at same
  exact ⟨List.append_cancel_right same, rest⟩

/-- Slicing gives the text between two places. -/
theorem Span.slice_eq {source : String} {before text behind : List Char} (h : source.toList = before ++ text ++ behind) :
    (⟨byteLength before, byteLength (before ++ text)⟩ : Span).slice source = some (String.ofList text) := by
  have size : byteLength (before ++ text) - byteLength before = byteLength text := by
    rw [byteLength_append, Nat.add_sub_cancel_left]
  have le : byteLength before ≤ byteLength (before ++ text) := by
    rw [byteLength_append]
    exact Nat.le_add_right _ _
  rw [slice, if_pos le, h, size, List.append_assoc, dropBytes?_append, Option.bind_some, takeBytes?_append]
  rfl

/-- A span between two boundaries covers a text, and slicing gives it. -/
theorem Span.exists_of_isBoundary {source : String} {span : Span} (le : span.start ≤ span.stop)
    (start : IsBoundary source.toList span.start) (stop : IsBoundary source.toList span.stop) :
    ∃ before text behind, source.toList = before ++ text ++ behind ∧
      span = ⟨byteLength before, byteLength (before ++ text)⟩ ∧ span.slice source = some (String.ofList text) := by
  obtain ⟨start', stop'⟩ := span
  obtain ⟨before, rest, whole, rfl⟩ := start
  obtain ⟨upTo, behind, whole', rfl⟩ := stop
  obtain ⟨text, rfl⟩ : ∃ text, upTo = before ++ text := by
    rcases List.append_eq_append_iff.1 (whole.symm.trans whole') with ⟨text, more, -⟩ | ⟨text, less, -⟩
    · exact ⟨text, more⟩
    · by_cases nil : text = []
      · exact ⟨[], by rw [less, nil, List.append_nil, List.append_nil]⟩
      · have size := byteLength_pos nil
        have le : byteLength before ≤ byteLength upTo := le
        rw [less, byteLength_append] at le
        omega
  exact ⟨before, text, behind, whole', rfl, Span.slice_eq whole'⟩

end Codewright.Source
