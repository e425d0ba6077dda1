import Codewright.Php.Leaf
import Codewright.Php.Token

/-!
# Operators

How the operators are spelled, how tightly they bind, and which tokens stand for them.

* `Level` – the binding strength; a greater level binds tighter;
* `BinaryOp.level`, `BinaryOp.isRightAssoc` – strength and associativity;
* `BinaryOp.ofToken?`, `AssignOp.ofKind?`, `IncludeKind.ofKeyword?`, `CastType.ofWord` – the reading direction;
* `spelling` – the writing direction.
-/

namespace Codewright.Php

open Text

/-- How tightly an operator binds. -/
abbrev Level := Nat

namespace Level

def wordOr : Level := 1
def wordXor : Level := 2
def wordAnd : Level := 3
def assignment : Level := 4
def ternary : Level := 5
def coalesce : Level := 6
def boolOr : Level := 7
def boolAnd : Level := 8
def bitOr : Level := 9
def bitXor : Level := 10
def bitAnd : Level := 11
def equality : Level := 12
def comparison : Level := 13
def concat : Level := 14
def shift : Level := 15
def additive : Level := 16
def multiplicative : Level := 17
def not : Level := 18
def instanceOf : Level := 19
def unary : Level := 20
def power : Level := 21

end Level

namespace BinaryOp

/-- All operators between two operands. -/
def all : List BinaryOp := [
  boolOr, boolAnd, wordOr, wordAnd, wordXor, bitOr, bitXor, bitAnd, equal, notEqual, identical, notIdentical,
  spaceship, less, lessEqual, greater, greaterEqual, shiftLeft, shiftRight, concat, add, sub, mul, div, mod, pow,
  coalesce]

/-- How an operator is written. -/
def spelling : BinaryOp → String
  | boolOr => "||"
  | boolAnd => "&&"
  | wordOr => "or"
  | wordAnd => "and"
  | wordXor => "xor"
  | bitOr => "|"
  | bitXor => "^"
  | bitAnd => "&"
  | equal => "=="
  | notEqual => "!="
  | identical => "==="
  | notIdentical => "!=="
  | spaceship => "<=>"
  | less => "<"
  | lessEqual => "<="
  | greater => ">"
  | greaterEqual => ">="
  | shiftLeft => "<<"
  | shiftRight => ">>"
  | concat => "."
  | add => "+"
  | sub => "-"
  | mul => "*"
  | div => "/"
  | mod => "%"
  | pow => "**"
  | coalesce => "??"

/-- How tightly an operator binds. -/
def level : BinaryOp → Level
  | wordOr => .wordOr
  | wordXor => .wordXor
  | wordAnd => .wordAnd
  | coalesce => .coalesce
  | boolOr => .boolOr
  | boolAnd => .boolAnd
  | bitOr => .bitOr
  | bitXor => .bitXor
  | bitAnd => .bitAnd
  | equal | notEqual | identical | notIdentical | spaceship => .equality
  | less | lessEqual | greater | greaterEqual => .comparison
  | concat => .concat
  | shiftLeft | shiftRight => .shift
  | add | sub => .additive
  | mul | div | mod => .multiplicative
  | pow => .power

/-- A chain of the operator groups to the right. -/
def isRightAssoc : BinaryOp → Bool
  | pow | coalesce => true
  | _ => false

/-- The least level of the right operand. -/
def rightLevel (op : BinaryOp) : Level := if op.isRightAssoc then op.level else op.level + 1

/-- The kind of token that stands for an operator; for those spelled as words, an identifier. -/
def kind : BinaryOp → TokenKind
  | boolOr => .pipePipe
  | boolAnd => .ampAmp
  | wordOr | wordAnd | wordXor => .ident
  | bitOr => .pipe
  | bitXor => .caret
  | bitAnd => .amp
  | equal => .equal
  | notEqual => .notEqual
  | identical => .identical
  | notIdentical => .notIdentical
  | spaceship => .spaceship
  | less => .less
  | lessEqual => .lessEqual
  | greater => .greater
  | greaterEqual => .greaterEqual
  | shiftLeft => .shiftLeft
  | shiftRight => .shiftRight
  | concat => .dot
  | add => .plus
  | sub => .minus
  | mul => .star
  | div => .slash
  | mod => .percent
  | pow => .power
  | coalesce => .coalesce

/-- The operator that a token stands for. -/
def ofToken? (t : Token) : Option BinaryOp :=
  all.find? fun op => t.kind == op.kind && (t.kind != .ident || t.isKeyword op.spelling)

end BinaryOp

namespace AssignOp

/-- How an assignment is written. -/
def spelling : AssignOp → String
  | assign => "="
  | add => "+="
  | sub => "-="
  | mul => "*="
  | div => "/="
  | mod => "%="
  | pow => "**="
  | concat => ".="
  | bitAnd => "&="
  | bitOr => "|="
  | bitXor => "^="
  | shiftLeft => "<<="
  | shiftRight => ">>="
  | coalesce => "??="

/-- The assignment that a kind of token stands for. -/
def ofKind? : TokenKind → Option AssignOp
  | .assign => some assign
  | .plusAssign => some add
  | .minusAssign => some sub
  | .starAssign => some mul
  | .slashAssign => some div
  | .percentAssign => some mod
  | .powerAssign => some pow
  | .dotAssign => some concat
  | .ampAssign => some bitAnd
  | .pipeAssign => some bitOr
  | .caretAssign => some bitXor
  | .shiftLeftAssign => some shiftLeft
  | .shiftRightAssign => some shiftRight
  | .coalesceAssign => some coalesce
  | _ => none

end AssignOp

/-- How an operator in front of its operand is written. -/
def UnaryOp.spelling : UnaryOp → String
  | not => "!"
  | neg => "-"
  | pos => "+"
  | bitNot => "~"

namespace CastType

/-- The word for a type in a cast. -/
def word : CastType → String
  | int => "int"
  | float => "float"
  | string => "string"
  | bool => "bool"
  | array => "array"
  | object => "object"

/-- The type that the text of a cast token stands for. -/
def ofWord (s : String) : CastType :=
  ([int, float, bool, array, object].find? fun t => t.word == s).getD string

end CastType

namespace IncludeKind

/-- The keyword that reads in a file. -/
def keyword : IncludeKind → String
  | includes => "include"
  | includesOnce => "include_once"
  | requires => "require"
  | requiresOnce => "require_once"

/-- The kind with this keyword, in any spelling of its letters. -/
def ofKeyword? (s : String) : Option IncludeKind :=
  [includes, includesOnce, requires, requiresOnce].find? fun k => asciiLower s == k.keyword

end IncludeKind

/-- The arrow in front of a member name. -/
def arrow (nullsafe : Bool) : String := if nullsafe then "?->" else "->"

end Codewright.Php
