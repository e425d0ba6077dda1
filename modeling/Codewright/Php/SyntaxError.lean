import Codewright.Source.Diagnostic

/-!
# Syntax errors

A `SyntaxError` says what is wrong (`Cause`), which bytes are concerned, and where these begin. Reading stops at the
first one.
-/

namespace Codewright.Php

open Source

namespace SyntaxError

/-- What is wrong with a source. -/
inductive Cause where
  /-- A token that cannot stand here. -/
  | unexpectedToken (found expected : String)
  /-- The source ends where something else has to stand. -/
  | unexpectedEnd (expected : String)
  /-- A quoted text, backtick text or heredoc without its end. -/
  | unterminatedString
  /-- A comment without its end. -/
  | unterminatedComment
  /-- A modifier that is repeated or contradicts another. -/
  | invalidModifier (modifier reason : String)
  /-- The source never opens a code section. -/
  | missingOpenTag
  /-- A construct that has no place in the tree. -/
  | unsupported (construct : String)
  /-- More nesting than there are tokens; no source leads to it. -/
  | tooDeep
deriving DecidableEq, Repr, Inhabited

/-- The wording of a cause. -/
def Cause.message : Cause → String
  | unexpectedToken found expected => "unexpected token '" ++ found ++ "', expected " ++ expected
  | unexpectedEnd expected => "unexpected end of file, expected " ++ expected
  | unterminatedString => "unterminated string literal"
  | unterminatedComment => "unterminated comment"
  | invalidModifier modifier reason => "invalid modifier '" ++ modifier ++ "': " ++ reason
  | missingOpenTag => "missing '<?php' open tag"
  | unsupported construct => "unsupported syntax: " ++ construct
  | tooDeep => "nesting too deep"

end SyntaxError

/-- The first fault of a source, with the bytes concerned and the point where they begin. -/
structure SyntaxError where
  cause : SyntaxError.Cause
  span : Span
  pos : Position
deriving DecidableEq, Repr, Inhabited

namespace SyntaxError

/-- The cause with its line and column, both counted from one. -/
def message (e : SyntaxError) : String :=
  e.cause.message ++ " at line " ++ toString (e.pos.line + 1) ++ ", column " ++ toString (e.pos.column + 1)

/-- The error as a diagnostic. -/
def diagnostic (e : SyntaxError) : Diagnostic := .error e.message e.span

end SyntaxError

end Codewright.Php
