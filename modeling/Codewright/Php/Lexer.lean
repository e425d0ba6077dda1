import Codewright.Php.Lexer.Gap
import Codewright.Php.Lexer.Lexeme

/-!
# The tokens of a source

A source begins as text. Code begins at an opening tag and ends at a closing tag. A closing tag takes one line end
with it, the long opening tag one whitespace character or one line end.

* `openTagAt?` – the opening tag at the start of a list;
* `findOpenTag?` – the first opening tag of a list, with the number of characters before it;
* `tokenize` – a whole source: text up to the first opening tag, then code and text by turns, and at last the token `eof`,
  which carries the comments that no other token follows. A source without an opening tag is an error.
-/

namespace Codewright.Php.Lexer

open Text

/-- The opening tag at the start of the list: the long one counts only before whitespace or the end. -/
def openTagAt? : List Char → Option TokenKind
  | '<' :: '?' :: '=' :: _ => some .openTagEcho
  | '<' :: '?' :: p :: h :: q :: rest =>
    if [p, h, q].map Char.toLower = ['p', 'h', 'p'] && rest.head?.all isSpace then some .openTag else none
  | _ => none

/-- The number of characters of an opening tag. -/
def openTagLength (k : TokenKind) : Nat := if k == .openTag then 5 else 3

/-- The first opening tag with the number of characters before it. -/
def findOpenTag? : List Char → Option (Nat × TokenKind)
  | [] => none
  | c :: cs =>
    match openTagAt? (c :: cs) with
    | some k => some (0, k)
    | none => (findOpenTag? cs).map fun r => (r.1 + 1, r.2)

/-- How many characters behind an opening tag belong to it. -/
def swallowedAfterOpen (k : TokenKind) (cs : List Char) : Nat :=
  if k == .openTag then
    match cs with
    | '\x0d' :: '\n' :: _ => 2
    | c :: _ => if isSpace c then 1 else 0
    | [] => 0
  else 0

end Codewright.Php.Lexer

namespace Codewright.Php

open Text Source

namespace Lexer

/-- The token of the characters from `p` to `q`. -/
def token (kind : TokenKind) (text : String) (p q : Position) (g : Gap) : Token :=
  ⟨kind, ⟨p.byte, q.byte⟩, p, text, g.doc, g.comments⟩

/-- The token behind the last character, with the comments of the gap in front of it. -/
def eofToken (p : Position) (g : Gap) : Token :=
  ⟨.eof, ⟨p.byte, p.byte⟩, p, "", none, g.all⟩

/-- A piece of text as a token, unless it is empty. -/
def textToken (cs : List Char) (p : Position) : List Token :=
  if cs.isEmpty then [] else [token .inlineHtml (String.ofList cs) p (p.after cs) .empty]

/-- What a text section leads to. -/
inductive TextEnd where
  /-- Code begins: the tokens of the text and of the opening tag, and how many characters they cover. -/
  | code (tokens : List Token) (read : Nat)
  /-- The source ends: the tokens of the text. -/
  | source (tokens : List Token)

/-- Reads text up to and including an opening tag, or to the end. -/
def readText (p : Position) (cs : List Char) : TextEnd :=
  match findOpenTag? cs with
  | none => .source (textToken cs p)
  | some (n, kind) =>
    let html := cs.take n
    let tag := (cs.drop n).take (openTagLength kind)
    let rest := cs.drop (n + openTagLength kind)
    let swallowed := swallowedAfterOpen kind rest
    let p₁ := p.after html
    let p₂ := p₁.after (tag ++ rest.take swallowed)
    .code (textToken html p ++ [token kind (String.ofList tag) p₁ p₂ .empty]) (n + openTagLength kind + swallowed)

/-- Reads code, and the text sections inside it, to the end of the source. -/
def readCode (p : Position) (cs : List Char) : Except SyntaxError (List Token) :=
  match _h : readGap .empty p cs with
  | .error e => .error e
  | .ok (g, p, []) => .ok [eofToken p g]
  | .ok (g, p, c :: rest) =>
    if c = '?' ∧ headIs (· == '>') rest then
      let n := 1 + lineEndLength (rest.drop 1)
      let q := p.after (c :: rest.take n)
      let close := token .closeTag "?>" p q g
      match readText q (rest.drop n) with
      | .source html => .ok (close :: html ++ [eofToken (q.after (rest.drop n)) .empty])
      | .code tokens read =>
        (readCode (q.after ((rest.drop n).take read)) ((rest.drop n).drop read)).map (close :: tokens ++ ·)
    else
      match scan c rest with
      | .error f => .error ⟨f.cause, ⟨p.byte, (p.after ((c :: rest).take f.read)).byte⟩, p⟩
      | .ok lexeme =>
        let q := p.after (c :: rest.take lexeme.more)
        (readCode q (rest.drop lexeme.more)).map (token lexeme.kind lexeme.text p q g :: ·)
termination_by cs.length
decreasing_by
  all_goals
    have := length_readGap_le _h
    simp at this ⊢
    omega

end Lexer

/-- The tokens of a source, the last of which is `eof`. -/
def tokenize (source : String) : Except SyntaxError (List Token) :=
  match Lexer.readText .origin source.toList with
  | .source _ => .error ⟨.missingOpenTag, ⟨0, 0⟩, .origin⟩
  | .code tokens read =>
    (Lexer.readCode (Position.origin.after (source.toList.take read)) (source.toList.drop read)).map (tokens ++ ·)

end Codewright.Php
