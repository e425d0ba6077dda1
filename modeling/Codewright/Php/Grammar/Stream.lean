import Codewright.Php.Token
import Codewright.Php.SyntaxError

/-!
# Token streams

A `Stream` holds the tokens that are still unread. A `Parse α` reads from a stream and gives a value or the first
syntax error.

Comments travel with the stream: reading a token moves the comments in front of it to `Stream.pending`, from where
`takeComments` fetches them for the list of statements or members that is being built. A declaration fetches its doc
comment with `takeDoc` before the token behind it is read.

* `advance` – the only way to read a token; it stays at the token `eof`;
* `expect`, `tryToken`, `expectKeyword`, `tryKeyword`, `expectIdent`, `expectVariable` – reading what must or may come;
* `collect`, `refine` – loops; they go round at most once for every unread token, and once more;
* `commaList`, `commaListUntil` – lists with commas.
-/

namespace Codewright.Php

open Source

/-- The unread tokens, with what was learned from those already read. -/
structure Stream where
  tokens : List Token
  /-- The token that stands behind the last one. -/
  eof : Token
  /-- The byte at which the last token that was read ends. -/
  lastEnd : Nat
  /-- The comments that have been read and belong to no tree yet. -/
  pending : List String
  /-- The number of unread tokens, which bounds every loop. -/
  unread : Nat
  unread_eq : unread = tokens.length
deriving Repr

namespace Stream

/-- The token behind the last of `tokens`: the last one, if it marks the end. -/
def endOf (tokens : List Token) : Token :=
  match tokens.getLast? with
  | some t => if t.isEof then t else ⟨.eof, ⟨t.span.stop, t.span.stop⟩, ⟨t.span.stop, 0, 0⟩, "", none, []⟩
  | none => ⟨.eof, ⟨0, 0⟩, .origin, "", none, []⟩

/-- The stream in front of `tokens`. -/
def ofTokens (tokens : List Token) : Stream := ⟨tokens, endOf tokens, 0, [], tokens.length, rfl⟩

/-- The unread token that `n` others precede. -/
def peekAt (s : Stream) (n : Nat) : Token := (s.tokens[n]?).getD s.eof

/-- The next token. -/
def peek (s : Stream) : Token := s.peekAt 0

/-- The kind of the next token. -/
def kind (s : Stream) : TokenKind := s.peek.kind

/-- The next token is of this kind. -/
def at_ (s : Stream) (k : TokenKind) : Bool := s.kind == k

/-- The token that `n` others precede is of this kind. -/
def hasAt (s : Stream) (n : Nat) (k : TokenKind) : Bool := (s.peekAt n).kind == k

/-- The next token is the keyword `word`. -/
def atKeyword (s : Stream) (word : String) : Bool := s.peek.isKeyword word

/-- The next token is one of the keywords. -/
def atAnyKeyword (s : Stream) (words : List String) : Bool := words.any s.atKeyword

/-- The token that `n` others precede is the keyword `word`. -/
def keywordAt (s : Stream) (n : Nat) (word : String) : Bool := (s.peekAt n).isKeyword word

/-- Nothing is left to read. -/
def atEnd (s : Stream) : Bool := s.at_ .eof

/-- The error of finding the next token where something else is expected. -/
def unexpected (s : Stream) (expected : String) : SyntaxError :=
  let t := s.peek
  ⟨if t.isEof then .unexpectedEnd expected else .unexpectedToken t.shown expected, t.span, t.pos⟩

/-- An error at the next token. -/
def errorHere (s : Stream) (cause : SyntaxError.Cause) : SyntaxError := ⟨cause, s.peek.span, s.peek.pos⟩

/-- The span from `start` to the end of the last token that was read. -/
def spanFrom (s : Stream) (start : Nat) : Span := ⟨start, max s.lastEnd start⟩

end Stream

/-- A reader of token streams. -/
abbrev Parse (α : Type) := StateT Stream (Except SyntaxError) α

namespace Parse

/-- Fails at the next token, where `expected` has to stand. -/
def failExpected {α : Type} (expected : String) : Parse α := fun s => .error (s.unexpected expected)

/-- Fails at the next token. -/
def failWith {α : Type} (cause : SyntaxError.Cause) : Parse α := fun s => .error (s.errorHere cause)

/-- Fails at the next token, which begins a construct that has no place in the tree. -/
def failUnsupported {α : Type} (construct : String) : Parse α := failWith (.unsupported construct)

/-- Reads a token. The comments in front of it become pending; the token `eof` is never left behind. -/
def advance : Parse Token := fun s =>
  match h : s.tokens with
  | [] => .ok (s.eof, s)
  | t :: rest =>
    let pending := s.pending ++ t.allComments
    if t.isEof then .ok (t.bare, { s with tokens := t.bare :: rest, pending, unread_eq := by simp [s.unread_eq, h] })
    else .ok (t.bare, { s with
      tokens := rest, lastEnd := t.span.stop, pending, unread := s.unread - 1, unread_eq := by simp [s.unread_eq, h] })

/-- Takes the doc comment from the next token. -/
def takeDoc : Parse (Option String) := fun s =>
  match h : s.tokens with
  | [] => .ok (none, s)
  | t :: rest =>
    .ok (t.doc, { s with tokens := { t with doc := none } :: rest, unread_eq := by simp [s.unread_eq, h] })

/-- Takes the pending comments, and those in front of the next token but for its doc comment. -/
def takeComments : Parse (List String) := fun s =>
  match h : s.tokens with
  | [] => .ok (s.pending, { s with pending := [] })
  | t :: rest =>
    .ok (s.pending ++ t.comments, { s with
      tokens := { t with comments := [] } :: rest, pending := [], unread_eq := by simp [s.unread_eq, h] })

/-- Reads a token of this kind. -/
def expect (k : TokenKind) : Parse Token := do
  if (← get).at_ k then advance else failExpected k.name

/-- Reads the keyword `word`. -/
def expectKeyword (word : String) : Parse Token := do
  if (← get).atKeyword word then advance else failExpected ("'" ++ word ++ "'")

/-- Reads an identifier and gives its text. -/
def expectIdent (what : String) : Parse String := do
  if (← get).at_ .ident then return (← advance).text else failExpected what

/-- Reads a variable and gives its name. -/
def expectVariable : Parse String := do
  if (← get).at_ .variable then return (← advance).text else failExpected "variable"

/-- Reads a token of this kind if one comes. -/
def tryToken (k : TokenKind) : Parse Bool := do
  if (← get).at_ k then
    let _ ← advance
    return true
  else return false

/-- Reads the keyword `word` if it comes. -/
def tryKeyword (word : String) : Parse Bool := do
  if (← get).atKeyword word then
    let _ ← advance
    return true
  else return false

/-- Reads the end of a statement: a semicolon, or a closing tag, which is left for the list of statements. -/
def expectSemicolon : Parse Unit := do
  if ← tryToken .semicolon then return ()
  else if (← get).at_ .closeTag then return ()
  else failExpected "';'"

/-! ### Loops -/

/-- Runs `step` until it asks to stop, at most `n` times, and joins what it gives. -/
def collectUpTo {α : Type} (step : Parse (List α × Bool)) : Nat → Parse (List α)
  | 0 => failWith .tooDeep
  | n + 1 => do
    let (xs, more) ← step
    if more then return xs ++ (← collectUpTo step n) else return xs

/-- Runs `step` until it asks to stop and joins what it gives. Every round but the last has to read a token. -/
def collect {α : Type} (step : Parse (List α × Bool)) : Parse (List α) := do
  collectUpTo step ((← get).unread + 1)

/-- Replaces a value by `step` until there is nothing to replace, at most `n` times. -/
def refineUpTo {α : Type} (step : α → Parse (Option α)) : Nat → α → Parse α
  | 0, _ => failWith .tooDeep
  | n + 1, x => do
    match ← step x with
    | some y => refineUpTo step n y
    | none => return x

/-- Replaces a value by `step` until there is nothing to replace. Every round but the last has to read a token. -/
def refine {α : Type} (step : α → Parse (Option α)) (x : α) : Parse α := do
  refineUpTo step ((← get).unread + 1) x

/-- Reads tokens as long as they are of one of the kinds. -/
def skipAll (kinds : List TokenKind) : Parse Unit := do
  let _ ← collect (α := Unit) do
    if kinds.contains (← get).kind then
      let _ ← advance
      return ([], true)
    else return ([], false)

/-- Reads items, each behind a separator, as long as the separator comes. -/
def behind {α : Type} (separator : Parse Bool) (p : Parse α) : Parse (List α) :=
  collect do
    if ← separator then return ([← p], true) else return ([], false)

/-- Reads at least one item, with commas between them. -/
def commaList {α : Type} (p : Parse α) : Parse (List α) := do
  let x ← p
  let xs ← behind (tryToken .comma) p
  return x :: xs

/-- Reads items with commas between them, up to a token of the kind `close`, which is left; a comma may stand behind
the last item. -/
def commaListUntil {α : Type} (close : TokenKind) (p : Parse α) : Parse (List α) :=
  collect do
    if (← get).at_ close then return ([], false)
    else
      let x ← p
      return ([x], ← tryToken .comma)

/-- Reads an item if the keyword in front of it comes. -/
def afterKeyword {α : Type} (word : String) (p : Parse α) : Parse (Option α) := do
  if ← tryKeyword word then return some (← p) else return none

/-- Reads an item if a token of the kind in front of it comes. -/
def afterToken {α : Type} (k : TokenKind) (p : Parse α) : Parse (Option α) := do
  if ← tryToken k then return some (← p) else return none

/-- Runs a reader between two tokens. -/
def enclosedBy {α : Type} (opening closing : TokenKind) (p : Parse α) : Parse α := do
  let _ ← expect opening
  let x ← p
  let _ ← expect closing
  return x

end Parse

end Codewright.Php
