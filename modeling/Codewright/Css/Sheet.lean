import Codewright.Text.Classes
import Codewright.Text.Bracket
import Codewright.Text.Mask
import Codewright.Text.Search
import Codewright.Text.Splice

/-!
# Stylesheets

A stylesheet is read as far as its structure goes: blocks, statements that begin with an at sign, and declarations,
with the places where they stand. Places are counted in characters.

* `Item` – what a stylesheet or a block consists of;
* `parse` – the items of a stylesheet, or its first fault (`Fault`).
-/

namespace Codewright.Css

open Text

/-- A part of a stylesheet or of a block. -/
inductive Item where
  /-- A selector or at-rule with a block, which stands between the braces at `opening` and `closing`. -/
  | block (selector : String) (start opening closing : Nat) (children : List Item)
  /-- An at-rule without a block. -/
  | statement (text : String)
  /-- A property with a value, up to the semicolon that may follow. -/
  | declaration (property : String) (start stop : Nat) (terminated : Bool)
deriving Repr

/-- What is wrong with a stylesheet; places are bytes. -/
inductive Fault where
  | unterminated (why : Unterminated)
  | unclosedBrace (byte : Nat)
  | unexpectedBrace (byte : Nat)
  | noSelector (byte : Nat)
  | noColon (text : String)
  | outsideRule (property : String)
deriving DecidableEq, Repr

/-- The wording of a fault. -/
def Fault.message : Fault → String
  | unterminated why => why.message
  | unclosedBrace byte => "unclosed '\x7b' at byte " ++ toString byte
  | unexpectedBrace byte => "unexpected '\x7d' at byte " ++ toString byte
  | noSelector byte => "block without selector at byte " ++ toString byte
  | noColon text => "declaration without ':' near '" ++ text ++ "'"
  | outsideRule property => "declaration '" ++ property ++ "' outside of any rule"

/-- A cell that a search sees as whitespace. Comments are whitespace. -/
def isBlankCell (c : Cell) : Bool := isSpace c.face

/-- A run of cells without the blank ones at its ends, with the place where it then begins; none if all are blank. -/
def trimRun (start : Nat) (cells : List Cell) : Option (Nat × List Char) :=
  let body := dropWhileEnd isBlankCell (cells.dropWhile isBlankCell)
  if body.isEmpty then none else some (start + (cells.takeWhile isBlankCell).length, body.map (·.char))

/-- What stands between two semicolons or braces: nothing, a statement, or a declaration. -/
def segment (start : Nat) (cells : List Cell) (terminated : Bool) : Except Fault (List Item) :=
  match trimRun start cells with
  | none => .ok []
  | some (start, text) =>
    if text.head? = some '@' then .ok [.statement (collapseSpace (String.ofList text))]
    else if text.contains ':' then
      let property := String.ofList (trim (text.takeWhile (· != ':')))
      .ok [.declaration property start (start + text.length) terminated]
    else .error (.noColon (String.ofList text))

/-- The byte at a place of a text. -/
def byteAt (text : List Char) (place : Nat) : Nat := byteLength (text.take place)

/-- The items in the cells behind a place. The cells in `run`, the last one first, belong to an item that has begun;
`parens` round brackets are open in it, and braces inside of them do not count. -/
def itemsFrom (text : List Char) (run : List Cell) (parens place : Nat) : List Cell → Except Fault (List Item)
  | [] => segment (place - run.length) run.reverse false
  | c :: cs =>
    if c.face = '(' then itemsFrom text (c :: run) (parens + 1) (place + 1) cs
    else if c.face = ')' then itemsFrom text (c :: run) (parens - 1) (place + 1) cs
    else if c.face = '\x7b' ∧ parens = 0 then
      match closingBrace? Cell.face 1 cs with
      | none => .error (.unclosedBrace (byteAt text place))
      | some n =>
        match trimRun (place - run.length) run.reverse with
        | none => .error (.noSelector (byteAt text place))
        | some (start, selector) => do
          let children ← itemsFrom text [] 0 (place + 1) (cs.take n)
          let rest ← itemsFrom text [] 0 (place + n + 2) (cs.drop (n + 1))
          return .block (collapseSpace (String.ofList selector)) start place (place + n + 1) children :: rest
    else if c.face = '\x7d' ∧ parens = 0 then .error (.unexpectedBrace (byteAt text place))
    else if c.face = ';' ∧ parens = 0 then do
      let item ← segment (place - run.length) run.reverse true
      return item ++ (← itemsFrom text [] 0 (place + 1) cs)
    else itemsFrom text (c :: run) parens (place + 1) cs
termination_by cells => cells.length
decreasing_by all_goals simp only [List.length_cons, List.length_take, List.length_drop]; omega

/-- The first declaration among some items. -/
def strayDeclaration? (items : List Item) : Option String :=
  items.findSome? fun
    | .declaration property _ _ _ => some property
    | _ => none

/-- The items of a stylesheet. Declarations stand in blocks only. -/
def parse (text : List Char) : Except Fault (List Item) := do
  let cells ← (mask .stylesheet text).mapError .unterminated
  let items ← itemsFrom text [] 0 0 cells
  match strayDeclaration? items with
  | some property => .error (.outsideRule property)
  | none => return items

end Codewright.Css
