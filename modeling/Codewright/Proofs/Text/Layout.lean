import Codewright.Text.Layout

/-!
# The characters of a document

* `Doc.chars unit d` – the document written out, as a list; it takes documents put together to lists put together;
* `Doc.chars_line`, `Doc.chars_commas` – a document on a line of its own, documents with commas between them.
-/

namespace Codewright.Text.Doc

/-- The characters of a document written out with a unit of indentation. -/
def chars (unit : String) (d : Doc) : List Char := (render unit d).toList

@[simp] theorem chars_nil (unit : String) : chars unit [] = [] := rfl

@[simp] theorem chars_append (unit : String) (d e : Doc) : chars unit (d ++ e) = chars unit d ++ chars unit e := by
  simp [chars, render, String.join_append]

@[simp] theorem chars_text_cons (unit s : String) (d : Doc) :
    chars unit (.text s :: d) = s.toList ++ chars unit d := by
  simp [chars, render, renderPiece, String.join_cons]

@[simp] theorem chars_indent_cons (unit : String) (level : Nat) (d : Doc) :
    chars unit (.indent level :: d) = (List.replicate level unit.toList).flatten ++ chars unit d := by
  have indentation (k : Nat) :
      (String.join (List.replicate k unit)).toList = (List.replicate k unit.toList).flatten := by
    induction k with
    | zero => rfl
    | succ k ih => simp [List.replicate_succ, String.join_cons, ih]
  simp [chars, render, renderPiece, String.join_cons, indentation]

theorem chars_line (unit : String) (level : Nat) (d : Doc) :
    chars unit (line level d) = (List.replicate level unit.toList).flatten ++ (chars unit d ++ ['\n']) := by
  simp [line]

@[simp] theorem chars_blankLine (unit : String) : chars unit blankLine = ['\n'] := by
  simp [blankLine]

@[simp] theorem chars_flatten (unit : String) (ds : List Doc) :
    chars unit ds.flatten = (ds.map (chars unit)).flatten := by
  induction ds with
  | nil => rfl
  | cons d ds ih => simp [ih]

/-- Texts with a comma and a space between each two. -/
def commaChars : List (List Char) → List Char
  | [] => []
  | [cs] => cs
  | cs :: css => cs ++ ',' :: ' ' :: commaChars css

theorem chars_commas (unit : String) (ds : List Doc) : chars unit (commas ds) = commaChars (ds.map (chars unit)) := by
  have separated : chars unit (sepBy ", " ds) = commaChars (ds.map (chars unit)) := by
    fun_induction sepBy ", " ds with
    | case1 => rfl
    | case2 => rfl
    | case3 d ds others ih =>
      obtain ⟨d', ds, rfl⟩ := List.exists_cons_of_ne_nil (l := ds) (by simpa using others)
      simpa [commaChars] using ih
  exact separated

theorem intercalate_comma (css : List (List Char)) : [',', ' '].intercalate css = commaChars css := by
  induction css with
  | nil => rfl
  | cons cs css ih =>
    cases css with
    | nil => simp [List.intercalate, commaChars]
    | cons cs' css => simpa [List.intercalate, commaChars] using ih

end Codewright.Text.Doc
