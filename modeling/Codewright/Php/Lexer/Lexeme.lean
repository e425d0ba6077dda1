import Codewright.Php.Token
import Codewright.Php.SyntaxError
import Codewright.Text.Lines
import Codewright.Text.Space

/-!
# Lexemes

The tokens inside a code section, without the whitespace and comments between them. A lexeme is measured in
characters: `Lexeme.more` counts those behind the first one, so a lexeme is never empty and what it covers and what
is left over are a `take` and a `drop` of the same list.

* `nameLength` – identifiers, keywords and qualified names;
* `numberShape` – integers and floats in every radix;
* `enclosedLength` – quoted texts and attribute groups, with whatever is nested in them, by a stack of `Enclosure`s;
* `heredocShape` – heredocs and nowdocs;
* `castShape` – a type in parentheses;
* `scan` – the lexeme that begins with a given character.
-/

namespace Codewright.Php

open Text

/-- A letter, an underscore, or any character outside ASCII. -/
def isIdentStart (c : Char) : Bool := c.isAlpha || c == '_' || !isAscii c

/-- A character that may continue an identifier. -/
def isIdentChar (c : Char) : Bool := isIdentStart c || c.isDigit

/-- The first character exists and satisfies `p`. -/
def headIs (p : Char → Bool) : List Char → Bool
  | [] => false
  | c :: _ => p c

/-- The length of the longest start of the list whose characters satisfy `p`. -/
def spanLength (p : Char → Bool) (cs : List Char) : Nat := (cs.takeWhile p).length

namespace Lexer

/-- What a lexeme is, the text its token keeps, and how many characters follow its first one. -/
structure Lexeme where
  kind : TokenKind
  text : String
  more : Nat
deriving Repr

/-- What is wrong with a lexeme, and how many characters were read before that was seen. -/
structure Fault where
  cause : SyntaxError.Cause
  read : Nat
deriving Repr

/-- The length of a name: identifiers joined by backslashes. -/
def nameLength : List Char → Nat
  | [] => 0
  | c :: cs => if (c == '\\' && headIs isIdentStart cs) || isIdentChar c then nameLength cs + 1 else 0

/-! ### Numbers -/

/-- A decimal digit or a separator between digits. -/
def isDigitOrSeparator (c : Char) : Bool := c.isDigit || c == '_'

/-- The digits of a number that begins with a radix mark, if the two characters are one. -/
def radixDigits? : List Char → Option (Char → Bool)
  | '0' :: r :: _ =>
    if r == 'x' || r == 'X' then some fun c => isHexDigit c || c == '_'
    else if r == 'b' || r == 'B' then some fun c => c == '0' || c == '1' || c == '_'
    else if r == 'o' || r == 'O' then some fun c => ('0' ≤ c && c ≤ '7') || c == '_'
    else none
  | _ => none

/-- The length of a fraction: a point and at least one digit. -/
def fractionLength : List Char → Nat
  | '.' :: cs => if headIs Char.isDigit cs then spanLength isDigitOrSeparator cs + 1 else 0
  | _ => 0

/-- The length of an exponent: its mark, perhaps a sign, and at least one digit. -/
def exponentLength : List Char → Nat
  | [] => 0
  | c :: cs =>
    if c == 'e' || c == 'E' then
      let sign := if headIs (fun s => s == '+' || s == '-') cs then 1 else 0
      let digits := cs.drop sign
      if headIs Char.isDigit digits then 1 + sign + spanLength Char.isDigit digits else 0
    else 0

/-- The kind and length of the number at the start of the list. -/
def numberShape (cs : List Char) : TokenKind × Nat :=
  match radixDigits? cs with
  | some isRadixDigit => (.int, 2 + spanLength isRadixDigit (cs.drop 2))
  | none =>
    let whole := spanLength isDigitOrSeparator cs
    let fraction := fractionLength (cs.drop whole)
    let exponent := exponentLength (cs.drop (whole + fraction))
    (if fraction == 0 && exponent == 0 then .int else .float, whole + fraction + exponent)

/-! ### Enclosed texts -/

/-- What has been opened and not yet closed. -/
inductive Enclosure where
  /-- A text in the given quotes; in all but single quotes code may be interpolated. -/
  | quote (q : Char)
  /-- One character behind a backslash. -/
  | escape
  /-- Interpolated code, with the number of open braces. -/
  | braces (depth : Nat)
  /-- An attribute group, with the number of open brackets. -/
  | brackets (depth : Nat)
deriving DecidableEq, Repr

namespace Enclosure

/-- The open enclosures after the character `c` inside `e`, innermost first; `next` is the character behind `c`. -/
def step (e : Enclosure) (outer : List Enclosure) (c : Char) (next : Option Char) : List Enclosure :=
  match e with
  | escape => outer
  | quote q =>
    if c = '\\' then escape :: quote q :: outer
    else if c = q then outer
    else if q ≠ '\'' ∧ c = '\x7b' ∧ next = some '$' then braces 1 :: quote q :: outer
    else if q ≠ '\'' ∧ c = '$' ∧ next = some '\x7b' then braces 0 :: quote q :: outer
    else quote q :: outer
  | braces depth =>
    if c = '\x7b' then braces (depth + 1) :: outer
    else if c = '\x7d' then if depth ≤ 1 then outer else braces (depth - 1) :: outer
    else if c = '\'' ∨ c = '"' then quote c :: braces depth :: outer
    else braces depth :: outer
  | brackets depth =>
    if c = '[' then brackets (depth + 1) :: outer
    else if c = ']' then if depth ≤ 1 then outer else brackets (depth - 1) :: outer
    else if c = '\'' ∨ c = '"' then quote c :: brackets depth :: outer
    else brackets depth :: outer

/-- What is missing when the source ends inside the enclosure. -/
def missing : Enclosure → SyntaxError.Cause
  | brackets _ => .unexpectedEnd "']'"
  | _ => .unterminatedString

end Enclosure

/-- The number of characters up to the end of the outermost enclosure; where the source ends before, the
enclosure in which it ends. -/
def enclosedLength : List Enclosure → List Char → Except Enclosure Nat
  | [], _ => .ok 0
  | e :: _, [] => .error e
  | e :: outer, c :: cs => (enclosedLength (e.step outer c cs.head?) cs).map (· + 1)

/-- The lexeme of an enclosed text that begins with the given characters. -/
def enclosed (kind : TokenKind) (opening : List Char) (e : Enclosure) (cs : List Char) : Except Fault Lexeme :=
  match enclosedLength [e] cs with
  | .ok n => .ok ⟨kind, String.ofList (opening ++ cs.take n), opening.length - 1 + n⟩
  | .error e => .error ⟨e.missing, opening.length + cs.length⟩

/-! ### Heredocs -/

/-- The length of the closing line of a heredoc, if the line closes it: blanks and the label. -/
def closingLength? (label line : List Char) : Option Nat :=
  let indent := spanLength isBlank line
  let body := line.drop indent
  if label.isPrefixOf body && !headIs isIdentChar (body.drop label.length) then some (indent + label.length) else none

/-- The length of the lines of a heredoc up to and including its closing label. -/
def heredocBodyLength? (label : List Char) : List (List Char) → Option Nat
  | [] => none
  | line :: rest =>
    match closingLength? label line with
    | some n => some n
    | none => (heredocBodyLength? label rest).map (line.length + ·)

/-- The length of the line end at the start of the list. -/
def lineEndLength : List Char → Nat
  | '\x0d' :: '\n' :: _ => 2
  | '\n' :: _ => 1
  | _ => 0

/-- The length of a heredoc, given what follows its three angle brackets; the brackets are counted. -/
def heredocLength (cs : List Char) : Except Fault Nat :=
  let blanks := spanLength isBlank cs
  let quote? := (cs.drop blanks).head?.filter fun q => q == '\'' || q == '"'
  let opening := blanks + quote?.toList.length
  let label := (cs.drop opening).takeWhile isIdentChar
  let head := opening + label.length
  if label.isEmpty then .error ⟨.unexpectedToken "<<<" "heredoc label", 3 + head⟩
  else
    let rest := cs.drop head
    if quote?.isSome && rest.head? != quote? then .error ⟨.unterminatedString, 3 + head⟩
    else
      let head := head + quote?.toList.length
      let lineEnd := lineEndLength (cs.drop head)
      if lineEnd = 0 then .error ⟨.unterminatedString, 3 + head⟩
      else
        match heredocBodyLength? label (linesWithEnds (cs.drop (head + lineEnd))) with
        | some n => .ok (3 + head + lineEnd + n)
        | none => .error ⟨.unterminatedString, 3 + cs.length⟩

/-! ### Casts and punctuation -/

/-- The cast whose opening parenthesis precedes the list: what it casts to, and the number of characters up to and
including the closing parenthesis. -/
def castShape? (cs : List Char) : Option (String × Nat) :=
  let before := spanLength isBlank cs
  let word := (cs.drop before).takeWhile Char.isAlpha
  let after := spanLength isBlank (cs.drop (before + word.length))
  let length := before + word.length + after
  if headIs (· == ')') (cs.drop length) then
    (casts.find? fun p => asciiLower (String.ofList word) == p.1).map fun p => (p.2, length + 1)
  else none

/-- The operator or delimiter at the start of the list. -/
def punctuationAt? (cs : List Char) : Option (String × TokenKind) :=
  punctuation.find? fun p => p.1.toList.isPrefixOf cs

/-- The lexeme that begins with `c`, when `cs` follows. -/
def scan (c : Char) (cs : List Char) : Except Fault Lexeme :=
  let raw (kind : TokenKind) (more : Nat) : Except Fault Lexeme :=
    .ok ⟨kind, String.ofList (c :: cs.take more), more⟩
  if c == '$' && headIs isIdentStart cs then
    let n := spanLength isIdentChar cs
    .ok ⟨.variable, String.ofList (cs.take n), n⟩
  else if isIdentStart c || (c == '\\' && headIs isIdentStart cs) then
    raw .ident (nameLength cs)
  else if c.isDigit || (c == '.' && headIs Char.isDigit cs) then
    let shape := numberShape (c :: cs)
    raw shape.1 (shape.2 - 1)
  else if c == '\'' || c == '"' || c == '\x60' then
    enclosed .string [c] (.quote c) cs
  else match (if c == '(' then castShape? cs else none) with
  | some (type, n) => .ok ⟨.cast, type, n⟩
  | none =>
    if ['<', '<', '<'].isPrefixOf (c :: cs) then
      (heredocLength (cs.drop 2)).bind fun n => raw .string (n - 1)
    else if ['#', '['].isPrefixOf (c :: cs) then
      enclosed .attributeGroup [c, '['] (.brackets 1) (cs.drop 1)
    else match punctuationAt? (c :: cs) with
    | some (text, kind) => .ok ⟨kind, text, text.length - 1⟩
    | none => .error ⟨.unexpectedToken c.toString "token", 1⟩

end Lexer

end Codewright.Php
