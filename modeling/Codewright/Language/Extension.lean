import Codewright.Text.Classes
import Codewright.Text.Lines
import Codewright.Text.Space

/-!
# File extensions

Extensions are compared in their normal form: without whitespace at the ends, without dots in front, in lower case.
`pathExtension?` takes the extension off a path.
-/

namespace Codewright

open Text

/-- The normal form of an extension. -/
def normalExtension (extension : String) : String :=
  asciiLower (String.ofList ((trim extension.toList).dropWhile (· == '.')))

/-- The parts of a path between slashes. Empty parts and single dots say nothing and are left out. -/
def pathParts (path : String) : List String :=
  (piecesOf '/' path).filter fun part => part != "" && part != "."

/-- What follows the last dot of a file name; a dot at its start does not count. -/
def nameExtension? (name : String) : Option String :=
  let ending := name.toList.reverse.takeWhile (· != '.')
  if name = ".." || name.length ≤ ending.length + 1 then none else some (String.ofList ending.reverse)

/-- The extension of a path: that of its last part. -/
def pathExtension? (path : String) : Option String := (pathParts path).getLast?.bind nameExtension?

end Codewright
