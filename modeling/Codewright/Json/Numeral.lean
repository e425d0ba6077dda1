import Codewright.Decimal.Shortest
import Codewright.Json.Basic

/-!
# Numerals

A value that is kept in a record has its numerals in plain form. The integer zero has no sign, and the other integers
of 128 bits stay as they are. Beyond those, a numeral that gives all digits of a binary64 number in their places, and
no more digits than denote it, is written anew from that number: with an exponent if it is very large or very small.
Every other numeral stays as it is written.

* `plainNumeral`, `Json.plain` – the plain form of a numeral, and of a value with all numerals in it;
* `Json.wideInteger?` – an integer of a value that needs more than 64 bits, but not more than 128.
-/

namespace Codewright.Json

/-- The number that decimal digits denote. -/
def decimalValue (digits : List Char) : Nat := digits.foldl (fun n c => 10 * n + (c.toNat - 48)) 0

/-- The number that digits with a fraction, but without an exponent, denote. -/
def decimal? (text : List Char) : Option Decimal :=
  let whole := text.takeWhile Char.isDigit
  let fraction := (text.dropWhile Char.isDigit).drop 1
  if fraction.all Char.isDigit && (text.dropWhile Char.isDigit).head?.all (· == '.') then
    some ⟨decimalValue (whole ++ fraction), -fraction.length⟩
  else none

/-- How a number is written that is kept as binary64. -/
def writtenMagnitude (b : Binary64) : List Char :=
  let d := b.shortest .toEven
  if -5 ≤ d.leadingExponent ∧ d.leadingExponent ≤ 15 then d.positional else d.scientific

/-- The plain form of a numeral without its sign; `bound` is where the integers of 128 bits end. Whether it has no
more digits than it needs is told by digits whose ties go up, and it is written with digits whose ties go to even. -/
def plainMagnitude (bound : Nat) (text : List Char) : List Char :=
  if text.all Char.isDigit && decimalValue text < bound then text
  else
    match (decimal? text).bind Decimal.nearest? with
    | some b => if (b.shortest .up).positional = text then writtenMagnitude b else text
    | none => text

/-- The plain form of a numeral. -/
def plainNumeral (text : String) : String :=
  match text.toList with
  | ['-', '0'] => "0"
  | '-' :: cs => String.ofList ('-' :: plainMagnitude (twoTo 127 + 1) cs)
  | cs => String.ofList (plainMagnitude (twoTo 128) cs)

mutual

/-- The value with all numerals in plain form. -/
def plain : Json → Json
  | .number text => .number (plainNumeral text)
  | .array items => .array (plainItems items)
  | .object es => .object (plainEntries es)
  | v => v

/-- The items with all numerals in plain form. -/
def plainItems : List Json → List Json
  | [] => []
  | v :: vs => v.plain :: plainItems vs

/-- The entries with all numerals in plain form. -/
def plainEntries : Entries → Entries
  | [] => []
  | (k, v) :: es => (k, v.plain) :: plainEntries es

end

/-- An integer that 64 bits do not hold, but 128 bits do, and the kind of integers it belongs to. -/
def wideNumeral? (text : String) : Option (String × String) :=
  let within (cs : List Char) (low high : Nat) : Bool :=
    cs.all Char.isDigit && low ≤ decimalValue cs && decimalValue cs < high
  match text.toList with
  | '-' :: cs => if within cs (twoTo 63 + 1) (twoTo 127 + 1) then some (text, "i128") else none
  | cs => if within cs (twoTo 64) (twoTo 128) then some (text, "u128") else none

mutual

/-- The first integer in a value that 64 bits do not hold, but 128 bits do. -/
def wideInteger? : Json → Option (String × String)
  | .number text => wideNumeral? text
  | .array items => wideIntegerOfItems? items
  | .object es => wideIntegerOfEntries? es
  | _ => none

/-- The first such integer in the items. -/
def wideIntegerOfItems? : List Json → Option (String × String)
  | [] => none
  | v :: vs => v.wideInteger? <|> wideIntegerOfItems? vs

/-- The first such integer in the values of the entries. -/
def wideIntegerOfEntries? : Entries → Option (String × String)
  | [] => none
  | (_, v) :: es => v.wideInteger? <|> wideIntegerOfEntries? es

end

end Codewright.Json
