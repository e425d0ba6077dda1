import Codewright.Text.Search

/-!
# Places in a source text

Offsets count the bytes of the UTF-8 encoding.

* `Span` – a range of bytes, its end excluded; `Span.slice` is the text it covers, when it falls on character
  boundaries;
* `Position` – a byte offset with its line and column, both counted from zero, the column in characters;
* `Position.after p cs` – where a reader stands that was at `p` and read the characters `cs`;
* `Cursor` – a position together with the characters that are still unread. All movement goes through `Cursor.advance`, so the
  position always belongs to the characters read so far.
-/

namespace Codewright.Source

open Text

/-- A range of bytes of a source text; the end is excluded. -/
structure Span where
  start : Nat
  stop : Nat
deriving DecidableEq, Repr, Inhabited

namespace Span

/-- The span of a node that stands in no source. -/
def nowhere : Span := ⟨0, 0⟩

/-- The number of bytes covered. -/
def size (s : Span) : Nat := s.stop - s.start

/-- No byte is covered. -/
def isEmpty (s : Span) : Bool := s.stop ≤ s.start

/-- The least span that covers both. -/
def merge (s t : Span) : Span := ⟨min s.start t.start, max s.stop t.stop⟩

/-- The byte at `offset` is covered. -/
def covers (s : Span) (offset : Nat) : Bool := s.start ≤ offset && offset < s.stop

end Span

/-- The text after the first `n` bytes, when these end on a character boundary. -/
def dropBytes? : Nat → List Char → Option (List Char)
  | 0, cs => some cs
  | _ + 1, [] => none
  | n + 1, c :: cs => if c.utf8Size ≤ n + 1 then dropBytes? (n + 1 - c.utf8Size) cs else none

/-- The first `n` bytes of a text, when these end on a character boundary. -/
def takeBytes? : Nat → List Char → Option (List Char)
  | 0, _ => some []
  | _ + 1, [] => none
  | n + 1, c :: cs =>
    if c.utf8Size ≤ n + 1 then (takeBytes? (n + 1 - c.utf8Size) cs).map (c :: ·) else none

/-- The text that a span covers; none when the span runs backwards, past the end or through a character. -/
def Span.slice (s : Span) (source : String) : Option String :=
  if s.start ≤ s.stop then
    ((dropBytes? s.start source.toList).bind (takeBytes? (s.stop - s.start))).map String.ofList
  else none

/-- A point of a source text. -/
structure Position where
  byte : Nat
  line : Nat
  column : Nat
deriving DecidableEq, Repr, Inhabited

namespace Position

/-- The start of every text. -/
def origin : Position := ⟨0, 0, 0⟩

/-- The point behind the character `c`: a line feed begins a new line. -/
def step (p : Position) (c : Char) : Position :=
  if c = '\n' then ⟨p.byte + c.utf8Size, p.line + 1, 0⟩ else ⟨p.byte + c.utf8Size, p.line, p.column + 1⟩

/-- The point behind the characters `cs`. -/
def after (p : Position) (cs : List Char) : Position := cs.foldl step p

@[simp] theorem after_nil (p : Position) : p.after [] = p := rfl

@[simp] theorem after_cons (p : Position) (c : Char) (cs : List Char) : p.after (c :: cs) = (p.step c).after cs := rfl

theorem after_append (p : Position) (a b : List Char) : p.after (a ++ b) = (p.after a).after b := by
  simp [after, List.foldl_append]

@[simp] theorem byte_step (p : Position) (c : Char) : (p.step c).byte = p.byte + c.utf8Size := by
  unfold step; split <;> rfl

theorem byte_after (p : Position) (cs : List Char) : (p.after cs).byte = p.byte + byteLength cs := by
  induction cs generalizing p with
  | nil => rfl
  | cons c cs ih => simp [ih, byteLength, Nat.add_assoc]

end Position

/-! ### Cursors -/

/-- A point of a text with what follows it. -/
structure Cursor where
  rest : List Char
  position : Position
deriving Repr, Inhabited

namespace Cursor

/-- The cursor in front of a text. -/
def ofText (source : String) : Cursor := ⟨source.toList, .origin⟩

/-- Nothing is left to read. -/
def atEnd (c : Cursor) : Bool := c.rest.isEmpty

/-- The unread character that `n` others precede. -/
def peek (c : Cursor) (n : Nat) : Option Char := c.rest[n]?

/-- The unread text begins with `start`. -/
def looksAt (c : Cursor) (start : String) : Bool := start.toList.isPrefixOf c.rest

/-- Reads `n` characters, or all there are. -/
def advance (c : Cursor) (n : Nat) : Cursor := ⟨c.rest.drop n, c.position.after (c.rest.take n)⟩

/-- Reads characters as long as they satisfy `p`. -/
def advanceWhile (c : Cursor) (p : Char → Bool) : Cursor := c.advance (c.rest.takeWhile p).length

/-- The number of characters of `cs` that begin before byte `target`, when `cs` begins at byte `from_`. -/
def charsBefore (target : Nat) : Nat → List Char → Nat
  | _, [] => 0
  | from_, c :: cs => if from_ < target then charsBefore target (from_ + c.utf8Size) cs + 1 else 0

/-- Reads characters until the byte offset is at least `target`. -/
def advanceTo (c : Cursor) (target : Nat) : Cursor :=
  c.advance (charsBefore target c.position.byte c.rest)

end Cursor

end Codewright.Source
