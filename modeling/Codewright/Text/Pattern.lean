import Codewright.Text.Classes
import Codewright.Text.Space

/-!
# Patterns

A `Pattern` describes pieces of text, with numbered groups for the parts of interest. Alternatives are tried in
order: an earlier one wins if the rest of the pattern can follow it, and a repetition tries more before fewer, or
fewer before more.

* `Pattern.run` – the first way in which a pattern and what follows it succeed;
* `Pattern.matchAt?` – the match at one place;
* `Pattern.findAll` – the matches in a text from left to right, none overlapping another.
-/

namespace Codewright.Text

/-- A description of pieces of text. -/
inductive Pattern where
  /-- Nothing. -/
  | nothing
  /-- One character that satisfies a test. -/
  | one (test : Char → Bool)
  | seq (first second : Pattern)
  | alt (first second : Pattern)
  /-- Any number of pieces; `greedy` says that more is tried before fewer. -/
  | many (greedy : Bool) (piece : Pattern)
  | group (index : Nat) (piece : Pattern)
  /-- The start of a line. -/
  | lineStart
  /-- A place between a word character and another one. -/
  | wordEdge

/-- A place in a text, with the groups found before it. -/
structure MatchPoint where
  /-- The character before. -/
  before : Option Char
  rest : List Char
  place : Nat
  groups : List (Nat × Nat × Nat)

/-- A piece of a text that fits a pattern, with its groups. -/
structure Match where
  start : Nat
  stop : Nat
  groups : List (Nat × Nat × Nat)
deriving DecidableEq, Repr

namespace Match

/-- Where a group starts and stops, if it took part in the match. -/
def group? (m : Match) (index : Nat) : Option (Nat × Nat) :=
  (m.groups.find? fun g => g.1 == index).map (·.2)

/-- The whole piece of the text that was searched. -/
def whole (m : Match) : Nat × Nat := (m.start, m.stop)

end Match

namespace Pattern

/-! ### Writing patterns -/

/-- The characters of a text in their order. -/
def text (s : String) : Pattern := s.toList.foldr (fun c p => .seq (.one (· == c)) p) .nothing

/-- The pattern or nothing. -/
def opt (p : Pattern) : Pattern := .alt p .nothing

/-- Any number of pieces, as many as possible. -/
def star (p : Pattern) : Pattern := .many true p

/-- At least one piece, as many as possible. -/
def plus (p : Pattern) : Pattern := .seq p (.many true p)

/-- Any number of pieces, as few as possible. -/
def lazyStar (p : Pattern) : Pattern := .many false p

/-- At least one piece, as few as possible. -/
def lazyPlus (p : Pattern) : Pattern := .seq p (.many false p)

/-- The first of some patterns that fits. -/
def anyOf : List Pattern → Pattern
  | [] => .one fun _ => false
  | [p] => p
  | p :: ps => .alt p (anyOf ps)

/-- The patterns one behind the other. -/
def inOrder : List Pattern → Pattern
  | [] => .nothing
  | [p] => p
  | p :: ps => .seq p (inOrder ps)

/-! ### Matching -/

/-- Tries a piece again and again, at most `n` times, and `next` behind each number of pieces. A piece that takes
nothing is not repeated. -/
def repeats (greedy : Bool) (piece : (MatchPoint → Option Match) → MatchPoint → Option Match)
    (next : MatchPoint → Option Match) : Nat → MatchPoint → Option Match
  | 0, start => next start
  | n + 1, start =>
    let again (_ : Unit) := piece (fun p => if start.place < p.place then repeats greedy piece next n p else none) start
    if greedy then (again ()).orElse fun _ => next start else (next start).orElse again

/-- The first way to go on with a pattern, and then with `next`; no piece is repeated more than `size` times. -/
def run (size : Nat) : Pattern → (MatchPoint → Option Match) → MatchPoint → Option Match
  | .nothing, next, p => next p
  | .one test, next, p =>
    match p.rest with
    | c :: cs => if test c then next { p with before := some c, rest := cs, place := p.place + 1 } else none
    | [] => none
  | .seq first second, next, p => run size first (run size second next) p
  | .alt first second, next, p => (run size first next p).orElse fun _ => run size second next p
  | .many greedy piece, next, p => repeats greedy (run size piece) next size p
  | .group index piece, next, p =>
    run size piece (fun q => next { q with groups := (index, p.place, q.place) :: q.groups }) p
  | .lineStart, next, p => if p.before = none || p.before = some '\n' then next p else none
  | .wordEdge, next, p => if p.before.any isWord != p.rest.head?.any isWord then next p else none

/-- The match of a pattern at a place of a text of `size` characters. -/
def matchAt? (pattern : Pattern) (size : Nat) (before : Option Char) (place : Nat) (rest : List Char) : Option Match :=
  pattern.run size (fun p => some ⟨place, p.place, p.groups⟩) ⟨before, rest, place, []⟩

/-- The matches in what follows a place of a text of `size` characters; the next `skip` characters belong to the match
before. -/
def findFrom (pattern : Pattern) (size : Nat) : Nat → Option Char → Nat → List Char → List Match
  | _, _, _, [] => []
  | skip + 1, _, place, c :: cs => findFrom pattern size skip (some c) (place + 1) cs
  | 0, before, place, c :: cs =>
    match pattern.matchAt? size before place (c :: cs) with
    | some m => m :: findFrom pattern size (m.stop - place - 1) (some c) (place + 1) cs
    | none => findFrom pattern size 0 (some c) (place + 1) cs

/-- The matches in a text, from left to right. -/
def findAll (pattern : Pattern) (text : List Char) : List Match := pattern.findFrom text.length 0 none 0 text

end Pattern

end Codewright.Text
