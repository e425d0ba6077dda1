/-!
# Brackets

* `bracketsBalanced` – round, square and curly brackets nest;
* `matchingBrace?` – where a curly bracket is closed;
* `braceDepth` – how many curly brackets are open.
-/

namespace Codewright.Text

/-- The bracket that a closing bracket closes. -/
def openerOf? : Char → Option Char
  | ')' => some '('
  | ']' => some '['
  | '\x7d' => some '\x7b'
  | _ => none

/-- The character opens a bracket. -/
def isOpener (c : Char) : Bool := c == '(' || c == '[' || c == '\x7b'

/-- The brackets of a text nest, when those of `stack` are open before it. -/
def bracketsBalancedFrom : List Char → List Char → Bool
  | stack, [] => stack.isEmpty
  | stack, c :: cs =>
    if isOpener c then bracketsBalancedFrom (c :: stack) cs
    else match openerOf? c with
      | none => bracketsBalancedFrom stack cs
      | some opener =>
        match stack with
        | [] => false
        | top :: stack => top == opener && bracketsBalancedFrom stack cs

/-- The brackets of a text nest. -/
def bracketsBalanced (text : List Char) : Bool := bracketsBalancedFrom [] text

/-- How many members precede the one whose face is the brace that closes the outermost one, when `depth` are open. -/
def closingBrace? {α : Type} (face : α → Char) : Nat → List α → Option Nat
  | _, [] => none
  | depth, x :: xs =>
    if face x = '\x7b' then (closingBrace? face (depth + 1) xs).map (· + 1)
    else if face x = '\x7d' then
      match depth with
      | 0 => none
      | 1 => some 0
      | depth + 2 => (closingBrace? face (depth + 1) xs).map (· + 1)
    else (closingBrace? face depth xs).map (· + 1)

/-- Where the brace at a place of a text is closed. -/
def matchingBrace? (text : List Char) (place : Nat) : Option Nat :=
  (closingBrace? id 0 (text.drop place)).map (· + place)

/-- The number of open braces behind one more character. -/
def braceStep (depth : Nat) (c : Char) : Nat :=
  if c = '\x7b' then depth + 1 else if c = '\x7d' then depth - 1 else depth

/-- The number of braces that are open in front of a place. A brace that closes nothing does not count. -/
def braceDepth (text : List Char) (place : Nat) : Nat := (text.take place).foldl braceStep 0

end Codewright.Text
