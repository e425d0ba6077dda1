import Codewright.Text.Table

/-!
# Quoted text in messages

A message that shows a text puts it in double quotes. A quote and a backslash are written after a backslash, the
usual control characters by their letter, and every other character without a visible form of its own by its code
point: `\u` and the hexadecimal number in braces.

A mark that extends the character before it has no form of its own, and neither have the Hangul fillers, which are
letters by their category. The two halfwidth sound marks extend too, but take a cell of their own.
-/

namespace Codewright.Text

/-- The Hangul fillers: letters that stand for an absent letter and show nothing. -/
def fillers : RangeTable := #[(0x115F, 0x1160), (0x3164, 0x3164), (0xFFA0, 0xFFA0)]

/-- The halfwidth voiced and semi-voiced sound marks of Katakana. -/
def soundMarks : RangeTable := #[(0xFF9E, 0xFF9F)]

/-- The character is drawn onto the one before it. -/
def isAttached (c : Char) : Bool := RangeTable.mem graphemeExtend c && !RangeTable.mem soundMarks c

/-- A character is shown as it stands when it is printable, no filler, and not attached to the one before it. -/
def isShownPlain (c : Char) : Bool :=
  if c.toNat < 128 then 32 ≤ c.toNat && c.toNat < 127
  else !isAttached c && !RangeTable.mem fillers c && !RangeTable.mem unprintable c

/-- The lower-case hexadecimal digits of a number. -/
def hexDigits (n : Nat) : String := String.ofList (Nat.toDigits 16 n)

/-- How one character is written inside quotes. -/
def quoteChar (c : Char) : String :=
  match c with
  | '\x00' => "\\0"
  | '\t' => "\\t"
  | '\r' => "\\r"
  | '\n' => "\\n"
  | '\\' => "\\\\"
  | '"' => "\\\""
  | _ => if isShownPlain c then c.toString else "\\u\x7b" ++ hexDigits c.toNat ++ "\x7d"

/-- The text in double quotes. -/
def quoted (s : String) : String := "\"" ++ String.join (s.toList.map quoteChar) ++ "\""

end Codewright.Text
