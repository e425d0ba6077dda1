import Codewright.Text.Bracket
import Codewright.Text.Mask
import Codewright.Text.Pattern
import Codewright.Text.Splice

/-!
# The shape of scripts

Declarations of a script are found by patterns in its mask. A declaration counts as top-level if no brace is open in
front of it.

* `Shape.cls`, `Shape.function`, … – the patterns of declarations; group 1 is the name unless the pattern says
  otherwise;
* `Reading` – a source with its mask;
* `Block` – the body of a named declaration.
-/

namespace Codewright.Script

open Text

namespace Shape

open Pattern

/-! ### Parts of patterns -/

/-- A character that a name may begin with. -/
def isNameStart (c : Char) : Bool := c.isAlpha || c == '_' || c == '$'

/-- A character that a name may go on with. -/
def isNameRest (c : Char) : Bool := isWord c || c == '$'

/-- A name. -/
def name : Pattern := .seq (.one isNameStart) (.star (.one isNameRest))

/-- A name, perhaps with dots in it. -/
def dottedName : Pattern := .seq (.one isNameStart) (.star (.one fun c => isNameRest c || c == '.'))

/-- A given character. -/
def char (c : Char) : Pattern := .one (· == c)

/-- A character that is none of the given ones. -/
def notIn (cs : String) : Pattern := .one fun c => !cs.toList.contains c

/-- A character that is one of the given ones. -/
def oneIn (cs : String) : Pattern := .one fun c => cs.toList.contains c

/-- Whitespace, perhaps none. -/
def space : Pattern := .star (.one isSpace)

/-- Some whitespace. -/
def space1 : Pattern := .plus (.one isSpace)

/-- Spaces and tabs, perhaps none. -/
def blanks : Pattern := .star (oneIn " \t")

/-- Some spaces and tabs. -/
def blanks1 : Pattern := .plus (oneIn " \t")

/-- A word and the blanks behind it. -/
def word (w : String) : Pattern := .seq (.text w) blanks1

/-- Words that may each be left out, in their order, with the blanks behind them. -/
def maybe (ws : List String) : Pattern := .inOrder (ws.map fun w => .opt (word w))

/-- The start of a line, the blanks there, and then a pattern. -/
def atLine (ps : List Pattern) : Pattern := .inOrder (.lineStart :: blanks :: ps)

/-- A pattern behind whitespace, if it comes. -/
def behindSpace (p : Pattern) : Pattern := .opt (.seq space p)

/-- Type parameters in angle brackets. -/
def typeParams : Pattern := .inOrder [char '<', .lazyStar (notIn "\x7b"), char '>']

/-- A keyword and what follows it up to the opening brace, if the keyword comes. -/
def clause (keyword : String) (index : Nat) : Pattern :=
  .opt (.inOrder [space1, .text keyword, space1, .group index (.lazyPlus (notIn "\x7b"))])

/-! ### Declarations -/

/-- A class up to its opening brace. Group 2 is the parent, group 3 the list of interfaces. -/
def cls : Pattern := atLine [
  maybe ["export", "default", "declare", "abstract"], word "class", .group 1 name, behindSpace typeParams,
  .opt (.inOrder [space1, .text "extends", space1, .group 2 dottedName, .opt typeParams]),
  clause "implements" 3, space, char '\x7b']

/-- An interface up to its opening brace. Group 2 is the list of parents. -/
def iface : Pattern := atLine [
  maybe ["export", "declare"], word "interface", .group 1 name, behindSpace typeParams, clause "extends" 2, space,
  char '\x7b']

/-- A function up to its name. -/
def function : Pattern := atLine [
  maybe ["export", "default", "declare", "async"], .text "function", .wordEdge, behindSpace (char '*'), space,
  .group 1 name]

/-- A variable that is an arrow function, up to the arrow. -/
def arrow : Pattern := atLine [
  maybe ["export"], .anyOf [.text "const", .text "let", .text "var"], blanks1, .group 1 name, space,
  .opt (.seq (char ':') (.plus (notIn "="))), char '=', space, .opt (.seq (.text "async") space),
  .alt (.inOrder [char '(', .star (notIn ")"), char ')']) name, space,
  .opt (.inOrder [char ':', .lazyPlus (notIn "=")]), .text "=>"]

/-- An import. Group 1 is the default binding, group 2 the list of names, group 3 the name of the whole module, and
group 4 the source. -/
def importing : Pattern := atLine [
  .text "import", space1, .opt (.seq (.text "type") space1),
  .opt (.inOrder [.group 1 name, behindSpace (char ','), space]),
  .opt (.inOrder [char '\x7b', .group 2 (.star (notIn "\x7d")), char '\x7d', space]),
  .opt (.inOrder [char '*', space, .text "as", space1, .group 3 name, space]),
  .opt (.seq (.text "from") space), oneIn "\"'", .group 4 (.star (notIn "\"'\n")), oneIn "\"'", blanks,
  .opt (char ';')]

/-- A declaration that is exported, up to its name. -/
def exportedDecl : Pattern := atLine [
  word "export", maybe ["default", "declare", "async", "abstract"],
  .anyOf [.inOrder [.text "function", .wordEdge, behindSpace (char '*')], .text "class",
    .inOrder [.text "const", blanks1, .text "enum"], .text "const", .text "let", .text "var", .text "interface",
    .text "type", .text "enum"],
  space, .group 1 name]

/-- A list of exported names. Group 1 is the list. -/
def exportedList : Pattern := atLine [
  .text "export", space, .opt (.seq (.text "type") space), char '\x7b', .group 1 (.star (notIn "\x7d")),
  char '\x7d']

/-- The words of a default export. -/
def exportedDefault : Pattern := atLine [word "export", .text "default", .wordEdge]

/-- The words that may stand in front of a method. -/
def methodWords : List String :=
  ["public", "private", "protected", "static", "async", "readonly", "abstract", "override", "get", "set", "declare"]

/-- A method up to the bracket of its parameters. -/
def method : Pattern := atLine [
  .star (.seq (.anyOf (methodWords.map Pattern.text)) blanks1), .opt (.seq (char '*') blanks),
  .group 1 (.seq (.opt (char '#')) name), behindSpace (char '?'),
  behindSpace (.inOrder [char '<', .star (notIn ">("), char '>']), space, char '(']

/-- A member of an interface up to what follows its name. -/
def member : Pattern := atLine [
  maybe ["readonly"], .group 1 name, .opt (char '?'), space, oneIn ":(<"]

/-- Another name for a type, up to the equals sign. -/
def typeAlias : Pattern := atLine [
  maybe ["export", "declare"], word "type", .group 1 name,
  behindSpace (.inOrder [char '<', .star (notIn "="), char '>']), space, char '=']

/-- An enum up to its opening brace. -/
def enum : Pattern := atLine [
  maybe ["export", "declare", "const"], word "enum", .group 1 name, space, char '\x7b']

end Shape

/-! ### Sources with their masks -/

/-- A source, and the faces of its mask; both are equally long. -/
structure Reading where
  text : List Char
  faces : List Char

namespace Reading

/-- The reading of a source. A source that has no mask is searched as it is. -/
def ofText (text : List Char) : Reading := ⟨text, (maskOrAll .script text).map Cell.face⟩

/-- The text between two places. -/
def between (r : Reading) (range : Nat × Nat) : String := String.ofList (slice r.text range.1 range.2)

/-- The text of a group of a match. -/
def group? (r : Reading) (m : Match) (index : Nat) : Option String := (m.group? index).map r.between

/-- The matches of a pattern. -/
def all (r : Reading) (pattern : Pattern) : List Match := pattern.findAll r.faces

/-- The matches of a pattern in front of which no brace is open. -/
def topLevel (r : Reading) (pattern : Pattern) : List Match :=
  (r.all pattern).filter fun m => braceDepth r.faces m.start = 0

/-- The names of the top-level matches of a pattern. -/
def topLevelNames (r : Reading) (pattern : Pattern) : List String :=
  (r.topLevel pattern).filterMap fun m => r.group? m 1

/-- The names of the matches of a pattern that stand directly in the block between two places. -/
def namesInBlock (r : Reading) (pattern : Pattern) (opening closing : Nat) : List String :=
  let depth := braceDepth r.faces opening + 1
  (pattern.findAll (slice r.faces (opening + 1) closing)).filterMap fun m =>
    (m.group? 1).bind fun (start, stop) =>
      let start := opening + 1 + start
      if braceDepth r.faces start = depth then some (r.between (start, opening + 1 + stop)) else none

end Reading

/-- The body of a named declaration, between two braces. -/
structure Block where
  name : String
  opening : Nat
  closing : Nat
deriving DecidableEq, Repr

/-- The bodies of the top-level declarations that a pattern finds. A body without a closing brace is left out. -/
def Reading.blocks (r : Reading) (pattern : Pattern) : List Block :=
  (r.topLevel pattern).filterMap fun m => do
    let name ← r.group? m 1
    let opening := m.stop - 1
    let closing ← matchingBrace? r.faces opening
    return ⟨name, opening, closing⟩

end Codewright.Script
