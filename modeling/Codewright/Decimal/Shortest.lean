/-!
# Decimal numbers and the binary64 numbers next to them

A decimal number denotes the binary64 number next to it. Back from there, `Binary64.shortest` gives the decimal number
with the fewest digits that denotes it, and of those the nearest. Where two are equally near, a `Tie` decides.

* `Decimal.nearest?` – the binary64 number next to a decimal number;
* `Binary64.shortest` – the shortest decimal number that denotes a binary64 number;
* `Decimal.positional`, `Decimal.scientific` – two ways to write a decimal number.
-/

namespace Codewright

/-- The power of two. -/
def twoTo (n : Nat) : Nat := Nat.pow 2 n

/-- The power of ten. -/
def tenTo (n : Nat) : Nat := Nat.pow 10 n

/-- Where a number goes that is as near to the one below it as to the one above. -/
inductive Tie where
  | up
  | toEven
deriving DecidableEq, Repr

/-- The natural number next to a quotient. -/
def roundQuotient (tie : Tie) (num den : Nat) : Nat :=
  let floor := num / den
  let rest := 2 * (num % den)
  if den < rest || (rest == den && (tie == .up || floor % 2 == 1)) then floor + 1 else floor

/-- The positive number `mantissa * 2 ^ exponent`, with a mantissa below `2 ^ 53`. -/
structure Binary64 where
  mantissa : Nat
  exponent : Int
deriving DecidableEq, Repr

/-- The exponent of the binary64 numbers around a positive quotient. -/
def binaryExponent (num den : Nat) : Int :=
  let low := (num.log2 : Int) - den.log2 - 53
  max (-1074) (if num * twoTo (-low).toNat / (den * twoTo low.toNat) < twoTo 53 then low else low + 1)

/-- The binary64 number next to a quotient, unless it is too large, or zero. -/
def Binary64.nearest? (num den : Nat) : Option Binary64 :=
  let exponent := binaryExponent num den
  let mantissa := roundQuotient .toEven (num * twoTo (-exponent).toNat) (den * twoTo exponent.toNat)
  let b : Binary64 := if mantissa = twoTo 53 then ⟨twoTo 52, exponent + 1⟩ else ⟨mantissa, exponent⟩
  if b.mantissa = 0 ∨ 971 < b.exponent then none else some b

/-- The number `digits * 10 ^ scale`. -/
structure Decimal where
  digits : Nat
  scale : Int
deriving DecidableEq, Repr

/-- The binary64 number next to a decimal number, unless it is too large, or zero. -/
def Decimal.nearest? (d : Decimal) : Option Binary64 :=
  Binary64.nearest? (d.digits * tenTo d.scale.toNat) (tenTo (-d.scale).toNat)

namespace Binary64

/-- One of the two neighbours of a number among the multiples of `10 ^ scale`: the nearer one that denotes it. -/
def neighbour? (tie : Tie) (b : Binary64) (scale : Int) : Option Decimal :=
  let num := b.mantissa * twoTo b.exponent.toNat * tenTo (-scale).toNat
  let den := twoTo (-b.exponent).toNat * tenTo scale.toNat
  let near := roundQuotient tie num den
  let far := if near = num / den then near + 1 else near - 1
  [Decimal.mk near scale, Decimal.mk far scale].find? fun d => d.nearest? == some b

/-- The first of `n` scales, from `scale` downwards, at which a neighbour denotes the number. -/
def shortestFrom (tie : Tie) (b : Binary64) (scale : Int) : Nat → Option Decimal
  | 0 => none
  | n + 1 => b.neighbour? tie scale <|> shortestFrom tie b (scale - 1) n

/-- A scale whose power of ten is not below the number; the common logarithm of two is a little less than 0.30103. -/
def topScale (b : Binary64) : Int := (b.exponent + b.mantissa.log2 + 1) * 30103 / 100000 + 2

/-- The decimal number with the fewest digits that denotes the number, and of those the nearest. Seventeen digits are
always enough. -/
def shortest (tie : Tie) (b : Binary64) : Decimal :=
  (b.shortestFrom tie b.topScale 24).getD ⟨0, 0⟩

end Binary64

namespace Decimal

/-- The exponent of the first digit. -/
def leadingExponent (d : Decimal) : Int := d.scale + (Nat.toDigits 10 d.digits).length - 1

/-- All digits in their places, with zeros where none are given. -/
def positional (d : Decimal) : List Char :=
  let digits := Nat.toDigits 10 d.digits
  if 0 ≤ d.scale then digits ++ List.replicate d.scale.toNat '0'
  else
    let places := (-d.scale).toNat
    let padded := List.replicate (places + 1 - digits.length) '0' ++ digits
    padded.take (padded.length - places) ++ '.' :: padded.drop (padded.length - places)

/-- The digits with a point behind the first of them, and an exponent with its sign. -/
def scientific (d : Decimal) : List Char :=
  let digits := Nat.toDigits 10 d.digits
  let exponent := d.leadingExponent
  digits.take 1 ++ (if digits.length ≤ 1 then [] else '.' :: digits.drop 1) ++
    'e' :: (if exponent < 0 then '-' else '+') :: Nat.toDigits 10 exponent.natAbs

end Decimal

end Codewright
