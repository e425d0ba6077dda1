import Codewright.Json.Basic

/-!
# The text of JSON values

In a string only quotes, backslashes and the characters below the space are escaped.

* `Json.compact` – everything on one line, without spaces;
* `Json.pretty unit` – one entry a line, each level of nesting indented by one more `unit`; an empty container stays
  on its line.
-/

namespace Codewright.Json

/-- How a character is written inside a string. -/
def escaped (c : Char) : List Char :=
  match c with
  | '"' => ['\\', '"']
  | '\\' => ['\\', '\\']
  | '\x08' => ['\\', 'b']
  | '\t' => ['\\', 't']
  | '\n' => ['\\', 'n']
  | '\x0c' => ['\\', 'f']
  | '\x0d' => ['\\', 'r']
  | _ =>
    if c.toNat < 16 then ['\\', 'u', '0', '0', '0'] ++ Nat.toDigits 16 c.toNat
    else if c.toNat < 32 then ['\\', 'u', '0', '0'] ++ Nat.toDigits 16 c.toNat
    else [c]

/-- A string in quotes, in front of a text. -/
def quotedChars (s : String) (tail : List Char) : List Char := '"' :: s.toList.flatMap escaped ++ '"' :: tail

/-- The text of a scalar, in front of a text; of a container, its brackets only. -/
def scalarChars (v : Json) (tail : List Char) : List Char :=
  match v with
  | .null => 'n' :: 'u' :: 'l' :: 'l' :: tail
  | .bool true => 't' :: 'r' :: 'u' :: 'e' :: tail
  | .bool false => 'f' :: 'a' :: 'l' :: 's' :: 'e' :: tail
  | .number text => text.toList ++ tail
  | .string s => quotedChars s tail
  | .array _ => '[' :: ']' :: tail
  | .object _ => '\x7b' :: '\x7d' :: tail

mutual

/-- A value on one line, in front of a text. -/
def compactChars (tail : List Char) : Json → List Char
  | .array (v :: vs) => '[' :: compactChars (compactItems (']' :: tail) vs) v
  | .object ((k, v) :: es) => '\x7b' :: quotedChars k (':' :: compactChars (compactEntries ('\x7d' :: tail) es) v)
  | v => v.scalarChars tail

/-- Items, each behind a comma, in front of a text. -/
def compactItems (tail : List Char) : List Json → List Char
  | [] => tail
  | v :: vs => ',' :: compactChars (compactItems tail vs) v

/-- Entries, each behind a comma, in front of a text. -/
def compactEntries (tail : List Char) : Entries → List Char
  | [] => tail
  | (k, v) :: es => ',' :: quotedChars k (':' :: compactChars (compactEntries tail es) v)

end

/-- A value on one line. -/
def compact (v : Json) : String := String.ofList (compactChars [] v)

/-- A new line with so many units of indentation, in front of a text. -/
def newLine (unit : List Char) (level : Nat) (tail : List Char) : List Char :=
  '\n' :: (List.replicate level unit).flatten ++ tail

mutual

/-- A value on several lines, the first of which stands `level` units to the right, in front of a text. -/
def prettyChars (unit : List Char) (level : Nat) (tail : List Char) : Json → List Char
  | .array (v :: vs) =>
    '[' :: newLine unit (level + 1)
      (prettyChars unit (level + 1) (prettyItems unit (level + 1) (newLine unit level (']' :: tail)) vs) v)
  | .object ((k, v) :: es) =>
    '\x7b' :: newLine unit (level + 1) (quotedChars k (':' :: ' ' ::
      prettyChars unit (level + 1) (prettyEntries unit (level + 1) (newLine unit level ('\x7d' :: tail)) es) v))
  | v => v.scalarChars tail

/-- Items, each on a line of its own behind a comma, in front of a text. -/
def prettyItems (unit : List Char) (level : Nat) (tail : List Char) : List Json → List Char
  | [] => tail
  | v :: vs => ',' :: newLine unit level (prettyChars unit level (prettyItems unit level tail vs) v)

/-- Entries, each on a line of its own behind a comma, in front of a text. -/
def prettyEntries (unit : List Char) (level : Nat) (tail : List Char) : Entries → List Char
  | [] => tail
  | (k, v) :: es =>
    ',' :: newLine unit level (quotedChars k (':' :: ' ' ::
      prettyChars unit level (prettyEntries unit level tail es) v))

end

/-- A value on several lines. -/
def pretty (unit : String) (v : Json) : String := String.ofList (prettyChars unit.toList 0 [] v)

end Codewright.Json
