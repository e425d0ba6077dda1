/-!
# JSON texts

A `Written` value holds what a JSON text says: the entries of an object in their order, also those whose keys come
again, and the spelling of a number but for the mark of its exponent. Here a text is held against the grammar of JSON;
what a value means is left to those who read it.

* `Written.parse?` – the value of a text with nothing around it but the four blank characters;
* `Written.parseUpTo? n` – the same if its containers nest at most `n` deep;
* `Written.shallow n` – the value without what nests deeper than `n`.
-/

namespace Codewright.Json

/-- A value as it is written. -/
inductive Written where
  | null
  | bool (value : Bool)
  | number (text : String)
  | string (value : String)
  | array (items : List Written)
  /-- The entries of an object. A key is `none` if it holds half of a surrogate pair. -/
  | object (entries : List (Option String × Written))
  /-- What follows the grammar and has no value: a string that holds half of a surrogate pair, or what nests too
  deep. -/
  | unreadable
deriving Repr, Inhabited

/-- What a reader leaves over, behind what it read. -/
abbrev Reader (α : Type) := List Char → Option (α × List Char)

/-- The blanks between the parts of a text. -/
def isJsonSpace (c : Char) : Bool := c == ' ' || c == '\t' || c == '\n' || c == '\x0d'

/-- A text without the blanks at its start. -/
def skipSpace (cs : List Char) : List Char := cs.dropWhile isJsonSpace

/-! ### Strings -/

/-- The value of a hexadecimal digit. -/
def hexValue? (c : Char) : Option Nat :=
  if c.isDigit then some (c.toNat - 48)
  else if 'a' ≤ c && c ≤ 'f' then some (c.toNat - 87)
  else if 'A' ≤ c && c ≤ 'F' then some (c.toNat - 55)
  else none

/-- The value of four hexadecimal digits. -/
def hexValue4? (a b c d : Char) : Option Nat := do
  return (((← hexValue? a) * 16 + (← hexValue? b)) * 16 + (← hexValue? c)) * 16 + (← hexValue? d)

/-- The character that stands behind a backslash for another one. -/
def simpleEscape? (c : Char) : Option Char :=
  match c with
  | '"' | '\\' | '/' => some c
  | 'b' => some '\x08'
  | 'f' => some '\x0c'
  | 'n' => some '\n'
  | 'r' => some '\x0d'
  | 't' => some '\t'
  | _ => none

/-- The unit begins a pair that stands for one character. -/
def isHighSurrogate (n : Nat) : Bool := 0xD800 ≤ n && n < 0xDC00

/-- The unit ends a pair that stands for one character. -/
def isLowSurrogate (n : Nat) : Bool := 0xDC00 ≤ n && n < 0xE000

/-- A part of a string: a character, or a unit that is given by its number. -/
inductive Piece where
  | char (c : Char)
  | unit (n : Nat)
deriving DecidableEq, Repr

/-- The characters that pieces stand for, if all surrogates come in pairs. -/
def charsOf? : List Piece → Option (List Char)
  | [] => some []
  | .char c :: ps => (charsOf? ps).map (c :: ·)
  | .unit n :: ps =>
    if isHighSurrogate n then
      match ps with
      | .unit m :: ps =>
        if isLowSurrogate m then
          (charsOf? ps).map (Char.ofNat (0x10000 + (n - 0xD800) * 0x400 + (m - 0xDC00)) :: ·)
        else none
      | _ => none
    else if isLowSurrogate n then none
    else (charsOf? ps).map (Char.ofNat n :: ·)

/-- The pieces of a string up to the quote that ends it. -/
def stringPieces : Reader (List Piece)
  | '"' :: rest => some ([], rest)
  | '\\' :: 'u' :: a :: b :: c :: d :: rest =>
    match hexValue4? a b c d with
    | none => none
    | some n => (stringPieces rest).map fun r => (.unit n :: r.1, r.2)
  | '\\' :: c :: rest =>
    match simpleEscape? c with
    | none => none
    | some c => (stringPieces rest).map fun r => (.char c :: r.1, r.2)
  | c :: rest => if c.toNat < 32 || c == '\\' then none else (stringPieces rest).map fun r => (.char c :: r.1, r.2)
  | [] => none

/-- A string behind its first quote, if its text exists. -/
def stringRest : Reader (Option String) := fun cs =>
  (stringPieces cs).map fun r => ((charsOf? r.1).map String.ofList, r.2)

/-! ### Numbers -/

/-- At least one digit. -/
def digits1 : Reader (List Char) := fun cs =>
  let ds := cs.takeWhile Char.isDigit
  if ds.isEmpty then none else some (ds, cs.dropWhile Char.isDigit)

/-- The whole part of a number: a zero, or digits of which the first is none. -/
def wholePart : Reader (List Char)
  | '0' :: rest => some (['0'], rest)
  | cs => digits1 cs

/-- The fraction of a number, if it has one. -/
def fractionPart : Reader (List Char)
  | '.' :: rest => (digits1 rest).map fun r => ('.' :: r.1, r.2)
  | cs => some ([], cs)

/-- The sign of an exponent; a plus if none is written. -/
def exponentSign : List Char → Char × List Char
  | '+' :: rest => ('+', rest)
  | '-' :: rest => ('-', rest)
  | cs => ('+', cs)

/-- The exponent of a number, if it has one. -/
def exponentPart : Reader (List Char)
  | [] => some ([], [])
  | c :: rest =>
    if c == 'e' || c == 'E' then
      let (sign, rest) := exponentSign rest
      (digits1 rest).map fun r => ('e' :: sign :: r.1, r.2)
    else some ([], c :: rest)

/-- A number without its sign. -/
def unsignedNumber : Reader (List Char) := fun cs => do
  let (whole, cs) ← wholePart cs
  let (fraction, cs) ← fractionPart cs
  let (exponent, cs) ← exponentPart cs
  return (whole ++ fraction ++ exponent, cs)

/-- The text of a number. -/
def numberText : Reader String
  | '-' :: rest => (unsignedNumber rest).map fun r => (String.ofList ('-' :: r.1), r.2)
  | cs => (unsignedNumber cs).map fun r => (String.ofList r.1, r.2)

/-! ### Containers -/

/-- Items with commas between them, at most `n`, up to and including the closing character. -/
def itemsUpTo {α : Type} (item : Reader α) (close : Char) : Nat → Reader (List α)
  | 0, _ => none
  | n + 1, cs => do
    let (x, rest) ← item cs
    match skipSpace rest with
    | ',' :: rest => (itemsUpTo item close n rest).map fun r => (x :: r.1, r.2)
    | c :: rest => if c == close then some ([x], rest) else none
    | [] => none

/-- Items with commas between them, perhaps none, at most `n`, up to and including the closing character. -/
def items {α : Type} (item : Reader α) (close : Char) (n : Nat) : Reader (List α) := fun cs =>
  match skipSpace cs with
  | [] => none
  | c :: rest => if c == close then some ([], rest) else itemsUpTo item close n (c :: rest)

/-- A key, a colon, and a value. -/
def entry {α : Type} (value : Reader α) : Reader (Option String × α) := fun cs =>
  match skipSpace cs with
  | '"' :: rest => do
    let (key, rest) ← stringRest rest
    match skipSpace rest with
    | ':' :: rest => (value rest).map fun r => ((key, r.1), r.2)
    | _ => none
  | _ => none

/-- One of the three words that are values. -/
def wordValue : Reader Written
  | 'n' :: 'u' :: 'l' :: 'l' :: rest => some (.null, rest)
  | 't' :: 'r' :: 'u' :: 'e' :: rest => some (.bool true, rest)
  | 'f' :: 'a' :: 'l' :: 's' :: 'e' :: rest => some (.bool false, rest)
  | _ => none

/-- A value that is no container. -/
def scalarValue : Reader Written
  | '"' :: rest => (stringRest rest).map fun r => (r.1.elim .unreadable .string, r.2)
  | c :: rest =>
    if c == '-' || c.isDigit then (numberText (c :: rest)).map fun r => (.number r.1, r.2)
    else wordValue (c :: rest)
  | [] => none

/-- A value whose containers nest at most `n` deep and have at most `size` items each. -/
def valueUpTo (size : Nat) : Nat → Reader Written
  | 0, cs => scalarValue (skipSpace cs)
  | n + 1, cs =>
    match skipSpace cs with
    | '[' :: rest => (items (valueUpTo size n) ']' size rest).map fun r => (.array r.1, r.2)
    | '\x7b' :: rest => (items (entry (valueUpTo size n)) '\x7d' size rest).map fun r => (.object r.1, r.2)
    | rest => scalarValue rest

namespace Written

/-- The value that a text holds, if its containers nest at most `n` deep. No container has as many items as the text
has characters. -/
def parseUpTo? (n : Nat) (text : String) : Option Written :=
  match valueUpTo text.length n text.toList with
  | some (v, rest) => if (skipSpace rest).isEmpty then some v else none
  | none => none

/-- The value that a text holds. Containers cannot nest deeper than the text is long. -/
def parse? (text : String) : Option Written := parseUpTo? text.length text

mutual

/-- The value with all containers that nest deeper than `n` made unreadable. -/
def shallow : Nat → Written → Written
  | 0, .array _ => .unreadable
  | 0, .object _ => .unreadable
  | n + 1, .array items => .array (shallowItems n items)
  | n + 1, .object entries => .object (shallowEntries n entries)
  | _, v => v

/-- The items, each at most `n` deep. -/
def shallowItems : Nat → List Written → List Written
  | _, [] => []
  | n, v :: vs => shallow n v :: shallowItems n vs

/-- The entries with their values, each at most `n` deep. -/
def shallowEntries : Nat → List (Option String × Written) → List (Option String × Written)
  | _, [] => []
  | n, (k, v) :: es => (k, shallow n v) :: shallowEntries n es

end

end Written

end Codewright.Json
