import Codewright.Source.Span
import Codewright.Text.Classes

/-!
# Tokens of PHP

Keywords are no kind of their own: they are spelled in any case and most of them are legal member names, so they are
identifiers and are told apart by `Token.isKeyword`.

* `TokenKind` – the kinds; `TokenKind.name` is the word for a kind in error messages;
* `punctuation` – the spellings of the operators and delimiters, longest first, so that the first one that fits is
  the longest;
* `casts` – the words that make a cast between parentheses, with the cast they stand for;
* `Token` – a kind with its place, its text, and the comments in front of it.
-/

namespace Codewright.Php

open Text Source

/-- The kinds of tokens. -/
inductive TokenKind where
  | inlineHtml | openTag | openTagEcho | closeTag
  | variable | ident | int | float | string | cast | attributeGroup
  | semicolon | comma | openParen | closeParen | openBracket | closeBracket | openBrace | closeBrace
  | backslash | colon | doubleColon | ellipsis | dollar
  | question | coalesce | coalesceAssign | nullsafeArrow | arrow | fatArrow
  | assign | equal | identical | notEqual | notIdentical | bang
  | less | lessEqual | spaceship | shiftLeft | shiftLeftAssign
  | greater | greaterEqual | shiftRight | shiftRightAssign
  | plus | plusAssign | increment | minus | minusAssign | decrement
  | star | starAssign | power | powerAssign | slash | slashAssign | percent | percentAssign | dot | dotAssign
  | amp | ampAmp | ampAssign | pipe | pipePipe | pipeAssign | caret | caretAssign | tilde | at
  | eof
deriving DecidableEq, Repr, Inhabited

/-- The operators and delimiters with their kinds, longest spelling first. -/
def punctuation : List (String × TokenKind) := [
  ("===", .identical), ("!==", .notIdentical), ("<=>", .spaceship), ("**=", .powerAssign), ("...", .ellipsis),
  ("<<=", .shiftLeftAssign), (">>=", .shiftRightAssign), ("??=", .coalesceAssign), ("?->", .nullsafeArrow),
  ("==", .equal), ("!=", .notEqual), ("<>", .notEqual), ("<=", .lessEqual), (">=", .greaterEqual),
  ("<<", .shiftLeft), (">>", .shiftRight), ("++", .increment), ("--", .decrement), ("+=", .plusAssign),
  ("-=", .minusAssign), ("*=", .starAssign), ("/=", .slashAssign), ("%=", .percentAssign), (".=", .dotAssign),
  ("&=", .ampAssign), ("|=", .pipeAssign), ("^=", .caretAssign), ("&&", .ampAmp), ("||", .pipePipe),
  ("??", .coalesce), ("->", .arrow), ("=>", .fatArrow), ("::", .doubleColon), ("**", .power),
  (";", .semicolon), (",", .comma), ("(", .openParen), (")", .closeParen), ("[", .openBracket),
  ("]", .closeBracket), ("\x7b", .openBrace), ("\x7d", .closeBrace), ("\\", .backslash), (":", .colon),
  ("$", .dollar), ("?", .question), ("=", .assign), ("!", .bang), ("<", .less), (">", .greater), ("+", .plus),
  ("-", .minus), ("*", .star), ("/", .slash), ("%", .percent), (".", .dot), ("&", .amp), ("|", .pipe),
  ("^", .caret), ("~", .tilde), ("@", .at)]

/-- The words that make a cast between parentheses, each with the type it casts to. -/
def casts : List (String × String) := [
  ("int", "int"), ("integer", "int"), ("float", "float"), ("double", "float"), ("real", "float"),
  ("string", "string"), ("binary", "string"), ("bool", "bool"), ("boolean", "bool"), ("array", "array"),
  ("object", "object")]

namespace TokenKind

/-- The first spelling of an operator or delimiter. -/
def spelling? (k : TokenKind) : Option String := (punctuation.find? fun p => p.2 == k).map (·.1)

/-- The word for a kind in error messages: a class of tokens by its name, all else by its spelling in quotes. -/
def name (k : TokenKind) : String :=
  match k with
  | inlineHtml => "inline HTML"
  | openTag => "'<?php'"
  | openTagEcho => "'<?='"
  | closeTag => "'?>'"
  | .variable => "variable"
  | ident => "identifier"
  | int => "integer"
  | float => "float"
  | string => "string"
  | cast => "cast"
  | attributeGroup => "attribute"
  | eof => "end of file"
  | _ => match k.spelling? with
    | some s => "'" ++ s ++ "'"
    | none => ""

/-- The token ends a statement. -/
def endsStatement (k : TokenKind) : Bool := k == semicolon || k == closeTag

end TokenKind

/-- A token with its place and with the comments between it and the token before. -/
structure Token where
  kind : TokenKind
  span : Span
  pos : Position
  /-- The text as written, of a variable without the dollar sign, of a cast the type it casts to. -/
  text : String
  /-- The last doc comment in front of the token. -/
  doc : Option String
  /-- The other comments in front of the token. -/
  comments : List String
deriving DecidableEq, Repr, Inhabited

namespace Token

/-- The token marks the end of the source. -/
def isEof (t : Token) : Bool := t.kind == .eof

/-- The token is the identifier `word`, given in lower case, in any spelling of its letters. -/
def isKeyword (t : Token) (word : String) : Bool := t.kind == .ident && asciiLower t.text == word

/-- The token without the comments in front of it. -/
def bare (t : Token) : Token := { t with doc := none, comments := [] }

/-- Every comment in front of the token. -/
def allComments (t : Token) : List String := t.comments ++ t.doc.toList

/-- The token as error messages show it. -/
def shown (t : Token) : String :=
  match t.kind with
  | .variable => "$" ++ t.text
  | .cast => "(" ++ t.text ++ ")"
  | _ => t.text

end Token

end Codewright.Php
