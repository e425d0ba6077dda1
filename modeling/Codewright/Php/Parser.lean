import Codewright.Php.Grammar.Statements
import Codewright.Php.Lexer
import Codewright.Php.Printer.Grouping

/-!
# Reading PHP

The knot of the grammar is tied with a bound on the nesting: `Grammar.upTo n` reads whatever nests at most `n` deep.
Between two readers of the same kind on top of one another a token is read, so a bound that is linear in the number
of tokens is never reached; `nestingBound` is such a bound.

* `parseFile` – a file, from its tokens;
* `parse`, `parseExpr`, `parseType`, `parseSnippet` – a source, an expression, a type, statements without a tag.
-/

namespace Codewright.Php

open Source Parse

/-- The grammar for sources that nest at most so deep. -/
def Grammar.upTo : Nat → Grammar
  | 0 => ⟨fun _ => failWith .tooDeep, failWith .tooDeep, failWith .tooDeep, failWith .tooDeep⟩
  | n + 1 =>
    ⟨fun min s => (upTo n).operatorExpr min s, fun s => (upTo n).operandExpr s, fun s => (upTo n).primaryExpr s,
      fun s => (upTo n).statement s⟩

/-- More nesting than so many tokens can hold. -/
def nestingBound (tokens : Nat) : Nat := 4 * (tokens + 2)

/-- Runs a reader on tokens. -/
def runOn {α : Type} (tokens : List Token) (p : Grammar → Parse α) : Except SyntaxError α :=
  ((p (Grammar.upTo (nestingBound tokens.length))).run (Stream.ofTokens tokens)).map (·.1)

namespace Parse

/-- Reads a whole file. -/
def file (g : Grammar) : Parse File := do
  let start := (← get).peek.span.start
  let stmts ← g.fileBody
  return ⟨.ofList stmts, ⟨start, (← get).peek.span.stop⟩⟩

/-- Reads the tags around something that stands alone, and nothing behind it. -/
def standalone {α : Type} (p : Parse α) : Parse α := do
  skipAll [.openTag, .closeTag]
  let x ← p
  skipAll [.openTag, .closeTag]
  let _ ← expect .eof
  return x

/-- Reads an expression, with a semicolon behind it if one comes. -/
def exprAlone (g : Grammar) : Parse Expr := do
  let e ← g.anyExpr
  let _ ← tryToken .semicolon
  return e

end Parse

/-- The tree of a file, from its tokens. -/
def parseFile (tokens : List Token) : Except SyntaxError File := runOn tokens Parse.file

/-- The tree of a source. -/
def parse (source : String) : Except SyntaxError File := (tokenize source).bind parseFile

/-- The tree of an expression; a semicolon may stand behind it. -/
def parseExpr (text : String) : Except SyntaxError Expr :=
  (tokenize ("<?php " ++ text)).bind fun tokens => runOn tokens fun g => standalone (exprAlone g)

/-- A type declaration. -/
def parseType (text : String) : Except SyntaxError TypeHint :=
  (tokenize ("<?php " ++ text)).bind fun tokens => runOn tokens fun _ => standalone typeHint

/-- The trees of statements that have no opening tag of their own. -/
def parseSnippet (text : String) : Except SyntaxError (List Stmt) :=
  (parse ("<?php\n" ++ text)).map fun f => f.stmts.toList.filter fun s => !s.isNop

end Codewright.Php
