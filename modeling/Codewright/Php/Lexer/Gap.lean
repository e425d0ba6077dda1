import Codewright.Php.Lexer.Lexeme

/-!
# Gaps between tokens

Between two tokens of a code section stand whitespace and comments. The last doc comment of a gap is kept apart from
the other comments; a doc comment that another one follows counts among the others.

* `gapPiece?` – the piece of a gap at the start of a list;
* `readGap` – the whole gap, with the point and the text behind it.
-/

namespace Codewright.Php.Lexer

open Text Source

/-- The comments of a gap. -/
structure Gap where
  doc : Option String
  comments : List String
deriving DecidableEq, Repr

namespace Gap

/-- A gap without comments. -/
def empty : Gap := ⟨none, []⟩

/-- Adds a comment that is no doc comment. -/
def addPlain (g : Gap) (text : String) : Gap := { g with comments := g.comments ++ [text] }

/-- Adds a doc comment; the one before it joins the other comments. -/
def addDoc (g : Gap) (text : String) : Gap := ⟨some text, g.comments ++ g.doc.toList⟩

/-- Every comment of the gap. -/
def all (g : Gap) : List String := g.comments ++ g.doc.toList

end Gap

/-- What may stand in a gap. -/
inductive GapPiece where
  | blank
  | lineComment
  | blockComment
  | docComment
deriving DecidableEq, Repr

/-- The length of a line comment: up to the line feed or the closing tag that ends it. -/
def lineCommentLength : List Char → Nat
  | [] => 0
  | c :: cs => if c == '\n' || (c == '?' && headIs (· == '>') cs) then 0 else lineCommentLength cs + 1

/-- The number of characters up to and including the end of a block comment. -/
def blockEnd? : List Char → Option Nat
  | [] => none
  | c :: cs => if c == '*' && headIs (· == '/') cs then some 2 else (blockEnd? cs).map (· + 1)

/-- The block comment whose first two characters precede the list. -/
def blockComment? (cs : List Char) : Option (GapPiece × Nat) :=
  (blockEnd? cs).map fun n =>
    (if headIs (· == '*') cs && !headIs (· == '/') (cs.drop 1) then .docComment else .blockComment, n + 1)

/-- The piece of a gap that begins with `c`, when `cs` follows, with the number of characters behind `c`; no piece
if the text of the next token begins here, an error if a comment begins that has no end. -/
def gapPiece? (c : Char) (cs : List Char) : Except Unit (Option (GapPiece × Nat)) :=
  if isSpace c then .ok (some (.blank, 0))
  else if (c == '#' && !headIs (· == '[') cs) || (c == '/' && headIs (· == '/') cs) then
    .ok (some (.lineComment, lineCommentLength cs))
  else if c == '/' && headIs (· == '*') cs then
    match blockComment? (cs.drop 1) with
    | some piece => .ok (some piece)
    | none => .error ()
  else .ok none

/-- The gap with one more piece. -/
def Gap.add (g : Gap) (text : List Char) : GapPiece → Gap
  | .blank => g
  | .lineComment => g.addPlain (String.ofList (trimEnd text))
  | .blockComment => g.addPlain (String.ofList text)
  | .docComment => g.addDoc (String.ofList text)

/-- Reads the rest of a gap, of which `g` was read before. -/
def readGap (g : Gap) (p : Position) : List Char → Except SyntaxError (Gap × Position × List Char)
  | [] => .ok (g, p, [])
  | c :: cs =>
    match gapPiece? c cs with
    | .error _ => .error ⟨.unterminatedComment, ⟨p.byte, (p.after (c :: cs)).byte⟩, p⟩
    | .ok none => .ok (g, p, c :: cs)
    | .ok (some (piece, n)) => readGap (g.add (c :: cs.take n) piece) (p.after (c :: cs.take n)) (cs.drop n)
termination_by cs => cs.length
decreasing_by simp only [List.length_drop, List.length_cons]; omega

theorem readGap_nil (g : Gap) (p : Position) : readGap g p [] = .ok (g, p, []) := by
  rw [readGap.eq_def]

theorem readGap_cons (g : Gap) (p : Position) (c : Char) (cs : List Char) :
    readGap g p (c :: cs) =
      match gapPiece? c cs with
      | .error _ => .error ⟨.unterminatedComment, ⟨p.byte, (p.after (c :: cs)).byte⟩, p⟩
      | .ok none => .ok (g, p, c :: cs)
      | .ok (some (piece, n)) => readGap (g.add (c :: cs.take n) piece) (p.after (c :: cs.take n)) (cs.drop n) := by
  rw [readGap.eq_def]

/-- A gap only takes characters away. -/
theorem length_readGap_le {g g' : Gap} {p p' : Position} {cs cs' : List Char}
    (h : readGap g p cs = .ok (g', p', cs')) : cs'.length ≤ cs.length := by
  fun_induction readGap g p cs with
  | case1 => simp_all
  | case2 => simp at h
  | case3 g p c cs hp => simp_all
  | case4 g p c cs piece n hp ih =>
    have shorter := ih h
    simp only [List.length_drop, List.length_cons] at shorter ⊢
    omega

end Codewright.Php.Lexer
