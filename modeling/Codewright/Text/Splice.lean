import Codewright.Text.Lines
import Codewright.Text.Search
import Codewright.Text.Space

/-!
# Putting text into a text

Places are counted in characters. A block is what stands between an opening brace at a place `opening` and the brace
at `closing` that closes it.

* `insertLast`, `insertFirst` – a member put at the end or the start of a block, on lines of its own;
* `appendBlock` – a text put behind another one, after an empty line;
* `bodyIndent?` – the indentation that a block uses for its members.
-/

namespace Codewright.Text

/-- The characters from one place up to another. -/
def slice (text : List Char) (start stop : Nat) : List Char := (text.drop start).take (stop - start)

/-- The text consists of whitespace. -/
def isBlankList (cs : List Char) : Bool := cs.all isSpace

/-- Where the line of a place begins. -/
def lineStart (text : List Char) (place : Nat) : Nat :=
  place - ((text.take place).reverse.takeWhile (· != '\n')).length

/-- The spaces and tabs in front of a line. -/
def indentOf (line : List Char) : List Char := line.takeWhile fun c => c == ' ' || c == '\t'

/-- The indentation of the line of a place. -/
def lineIndent (text : List Char) (place : Nat) : List Char := indentOf (text.drop (lineStart text place))

/-- Every line that is not blank with an indentation in front of it; blank lines become empty. -/
def indentLines (text indent : List Char) : List Char :=
  List.intercalate ['\n'] ((lines text).map fun line => if isBlankList line then [] else indent ++ line)

/-- The same on strings. -/
def indentText (text indent : String) : String := String.ofList (indentLines text.toList indent.toList)

/-- By how much the first member line of a block is indented more than the line of its opening brace. -/
def bodyIndent? (text : List Char) (opening closing : Nat) : Option (List Char) := do
  let first ← ((lines (slice text (opening + 1) closing)).drop 1).find? fun line => !isBlankList line
  let unit ← stripStart? (lineIndent text opening) (indentOf first)
  if unit.isEmpty then none else some unit

/-- Nothing but whitespace stands in a block. -/
def blockIsBlank (text : List Char) (opening closing : Nat) : Bool := isBlankList (slice text (opening + 1) closing)

/-- The text with a member at the end of a block; with `separated`, an empty line keeps it from what stands there. -/
def insertLast (text : List Char) (opening closing : Nat) (member unit : List Char) (separated : Bool) : List Char :=
  let outer := lineIndent text opening
  let block := indentLines member (outer ++ unit)
  let separator := if separated && !blockIsBlank text opening closing then ['\n'] else []
  let start := lineStart text closing
  if isBlankList (slice text start closing) then
    text.take start ++ separator ++ block ++ '\n' :: text.drop start
  else
    dropWhileEnd (fun c => c == ' ' || c == '\t') (text.take closing) ++
      '\n' :: separator ++ block ++ '\n' :: outer ++ text.drop closing

/-- The text with a member at the start of a block. -/
def insertFirst (text : List Char) (opening closing : Nat) (member unit : List Char) : List Char :=
  if blockIsBlank text opening closing then insertLast text opening closing member unit true
  else
    let indent := lineIndent text opening ++ unit
    let block := indentLines member indent
    let rest := text.drop (opening + 1)
    let firstLine := rest.takeWhile (· != '\n')
    if rest.contains '\n' && isBlankList firstLine then
      text.take (opening + 1) ++ firstLine ++ '\n' :: block ++ '\n' :: rest.drop (firstLine.length + 1)
    else text.take (opening + 1) ++ '\n' :: block ++ '\n' :: indent ++ trimStart rest

/-- A text behind another one, after an empty line. -/
def appendBlock (text content : List Char) : List Char :=
  let head := trimEnd text
  let tail := trimEnd content
  if head.isEmpty then tail ++ ['\n'] else head ++ '\n' :: '\n' :: tail ++ ['\n']

end Codewright.Text
