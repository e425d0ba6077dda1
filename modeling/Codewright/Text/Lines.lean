/-!
# Lines

* `linesWithEnds` cuts a text after each line feed; the pieces joined give the text back (`flatten_linesWithEnds`);
* `lines` drops the line feed and one carriage return before it from each piece;
* `splitOn` cuts a text at a character and drops that character.
-/

namespace Codewright.Text

/-- The text cut after every line feed. -/
def linesWithEnds : List Char → List (List Char)
  | [] => []
  | c :: cs =>
    if c = '\n' then [c] :: linesWithEnds cs
    else match linesWithEnds cs with
      | [] => [[c]]
      | l :: ls => (c :: l) :: ls

/-- A line without its end: the line feed and one carriage return before it. -/
def dropLineEnd (l : List Char) : List Char :=
  match l.reverse with
  | '\n' :: '\r' :: r => r.reverse
  | '\n' :: r => r.reverse
  | _ => l

/-- The lines of a text without their ends. A text that ends in a line feed has no empty last line. -/
def lines (s : List Char) : List (List Char) := (linesWithEnds s).map dropLineEnd

/-- The lines of a string. -/
def linesOf (s : String) : List String := (lines s.toList).map String.ofList

/-- The pieces of `s` between occurrences of `sep`; there is always at least one. -/
def splitOn (sep : Char) : List Char → List (List Char)
  | [] => [[]]
  | c :: cs =>
    if c = sep then [] :: splitOn sep cs
    else match splitOn sep cs with
      | [] => [[c]]
      | p :: ps => (c :: p) :: ps

/-- The pieces of a string between occurrences of `sep`. -/
def piecesOf (sep : Char) (s : String) : List String := (splitOn sep s.toList).map String.ofList

/-! ### Small facts -/

theorem flatten_linesWithEnds (s : List Char) : (linesWithEnds s).flatten = s := by
  induction s with
  | nil => rfl
  | cons c cs ih =>
    rw [linesWithEnds]
    split
    · simp [ih]
    · split
      next h => simp [h] at ih; simp [ih]
      next l ls h => simp [h] at ih; simp [ih]

end Codewright.Text
