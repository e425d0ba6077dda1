import Codewright.Text.Table

/-!
# Classes of characters

Keywords, operators and file extensions are compared without regard to the case of the ASCII letters; every
other character is compared as it stands.

* `asciiLower s` – `s` with the letters `A … Z` in lower case;
* `sameIgnoringCase s t` – `s` and `t` differ at most in the case of ASCII letters;
* `isBlank c` – a space or a tab;
* `isAscii c`, `isHexDigit c` – an ASCII character, a hexadecimal digit;
* `isLetter c` – the Unicode property Alphabetic;
* `isLetterOrNumeral c` – a letter, or a character with a numeric general category;
* `isWord c` – a character that may stand inside a word.

The ASCII part of the last three is decided without the tables.
-/

namespace Codewright.Text

/-- `s` with its ASCII letters in lower case. -/
def asciiLower (s : String) : String := String.ofList (s.toList.map Char.toLower)

/-- `s` and `t` are equal up to the case of ASCII letters. -/
def sameIgnoringCase (s t : String) : Bool := asciiLower s == asciiLower t

/-- A space or a tab. -/
def isBlank (c : Char) : Bool := c == ' ' || c == '\t'

/-- An ASCII character. -/
def isAscii (c : Char) : Bool := c.val < 128

/-- A hexadecimal digit. -/
def isHexDigit (c : Char) : Bool :=
  c.isDigit || ('a' ≤ c && c ≤ 'f') || ('A' ≤ c && c ≤ 'F')

/-! ### Classes of all scripts -/

/-- A letter of any script. -/
def isLetter (c : Char) : Bool :=
  if c.toNat < 128 then c.isAlpha else RangeTable.mem letters c

/-- A letter or numeral of any script. -/
def isLetterOrNumeral (c : Char) : Bool :=
  if c.toNat < 128 then c.isAlphanum else RangeTable.mem letters c || RangeTable.mem numerals c

/-- A letter, mark, decimal digit, connector such as the underscore, or join control; the newest letters apart. -/
def isWord (c : Char) : Bool :=
  if c.toNat < 128 then c.isAlphanum || c == '_'
  else RangeTable.mem wordMarks c || RangeTable.mem letters c && !RangeTable.mem newLetters c

end Codewright.Text
