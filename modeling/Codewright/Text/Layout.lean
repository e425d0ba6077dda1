/-!
# Layout

A `Doc` is a text in which each indentation is still a number of levels. The unit of indentation is chosen when the
document is written out (`Doc.render`), so two ways to indent a document differ only at its indentations.
-/

namespace Codewright.Text

/-- A piece of a document: a text, or an indentation of so many levels. -/
inductive Piece where
  | text (s : String)
  | indent (level : Nat)
deriving DecidableEq, Repr

/-- A text whose indentations are levels. -/
abbrev Doc := List Piece

namespace Doc

instance : Coe String Doc := ⟨fun s => [.text s]⟩

/-- A piece written out with a unit of indentation. -/
def renderPiece (unit : String) : Piece → String
  | .text s => s
  | .indent level => String.join (List.replicate level unit)

/-- A document written out with a unit of indentation. -/
def render (unit : String) (d : Doc) : String := String.join (d.map (renderPiece unit))

/-- A document on a line of its own, indented by so many levels. -/
def line (level : Nat) (d : Doc) : Doc := .indent level :: d ++ [.text "\n"]

/-- An empty line. -/
def blankLine : Doc := [.text "\n"]

/-- Documents with a text between each two. -/
def sepBy (separator : String) : List Doc → Doc
  | [] => []
  | [d] => d
  | d :: ds => d ++ .text separator :: sepBy separator ds

/-- Documents with a comma between each two. -/
def commas (ds : List Doc) : Doc := sepBy ", " ds

end Doc

end Codewright.Text
