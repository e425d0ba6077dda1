/-!
# Whitespace

* `isSpace c` – the Unicode property White_Space, twenty-five characters;
* `trimStart`, `trimEnd`, `trim` – a list of characters without the whitespace at its start, end, or both;
* `words` – the maximal runs without whitespace;
* `String.trimmed` and the like are the same on strings.
-/

namespace Codewright.Text

/-- A character with the property White_Space. -/
def isSpace (c : Char) : Bool :=
  let n := c.toNat
  (9 ≤ n && n ≤ 13) || n == 0x20 || n == 0x85 || n == 0xA0 || n == 0x1680 || (0x2000 ≤ n && n ≤ 0x200A) ||
    n == 0x2028 || n == 0x2029 || n == 0x202F || n == 0x205F || n == 0x3000

/-- `s` without the whitespace at its start. -/
def trimStart (s : List Char) : List Char := s.dropWhile isSpace

/-- `s` without the members at its end that satisfy `p`. -/
def dropWhileEnd {α : Type} (p : α → Bool) (s : List α) : List α :=
  s.foldr (fun c r => if r.isEmpty && p c then [] else c :: r) []

/-- `s` without the whitespace at its end. -/
def trimEnd (s : List Char) : List Char := dropWhileEnd isSpace s

/-- `s` without the whitespace at both ends. -/
def trim (s : List Char) : List Char := trimEnd (trimStart s)

/-- The string without the whitespace at both ends. -/
def trimmed (s : String) : String := String.ofList (trim s.toList)

/-- The string without the whitespace at its end. -/
def trimmedEnd (s : String) : String := String.ofList (trimEnd s.toList)

/-- The string is empty or whitespace only. -/
def isBlankText (s : String) : Bool := s.toList.all isSpace

/-- Adds a character in front of a list of words; `open` says that the first word still grows. -/
def wordsStep (c : Char) : Bool × List (List Char) → Bool × List (List Char)
  | (growing, ws) =>
    if isSpace c then (false, ws)
    else match growing, ws with
      | true, w :: ws => (true, (c :: w) :: ws)
      | _, ws => (true, [c] :: ws)

/-- The maximal runs of characters other than whitespace. -/
def words (s : List Char) : List (List Char) := (s.foldr wordsStep (false, [])).2

/-- `s` with each run of whitespace replaced by one space, and none at the ends. -/
def collapseSpace (s : String) : String :=
  String.intercalate " " ((words s.toList).map String.ofList)

/-! ### Small facts -/

theorem length_trimStart_le (s : List Char) : (trimStart s).length ≤ s.length :=
  (List.dropWhile_sublist _).length_le

theorem isSpace_of_isWhitespace {c : Char} (h : c.isWhitespace = true) : isSpace c = true := by
  have : c = ' ' ∨ c = '\t' ∨ c = '\r' ∨ c = '\n' := by
    simpa [Char.isWhitespace, or_assoc] using h
  rcases this with rfl | rfl | rfl | rfl <;> rfl

end Codewright.Text
