import Codewright.Text.Space

/-!
# Masks

Structure is looked for in a text whose comments and quoted parts are blank. The mask of a text has one `Cell` for
each character, so a place in the mask is a place in the text.

* `mask` – the mask of a text, or the quoted part or comment that does not end;
* `Cell.face` – the character that a search sees; `Cell.image` – the characters that take its place when the mask is
  written out, as many bytes as the character itself;
* `maskCuts` – the program stops before it has the mask of a text.
-/

namespace Codewright.Text

/-- What a language has beside block comments and quoted texts. -/
structure LexicalForms where
  /-- Comments from two slashes to the end of the line. -/
  lineComments : Bool
  /-- Backtick templates with code in `${` and `}`. -/
  templates : Bool
  /-- Patterns between slashes. -/
  regexLiterals : Bool
deriving DecidableEq, Repr

/-- The forms of scripts. -/
def LexicalForms.script : LexicalForms := ⟨true, true, true⟩

/-- The forms of stylesheets. -/
def LexicalForms.stylesheet : LexicalForms := ⟨false, false, false⟩

/-- A part without its end, and the byte where it begins. -/
inductive Unterminated where
  | string (byte : Nat)
  | comment (byte : Nat)
  | template (byte : Nat)
  | regex (byte : Nat)
deriving DecidableEq, Repr

/-- The wording for a part without its end. -/
def Unterminated.message : Unterminated → String
  | string byte => "unterminated string at byte " ++ toString byte
  | comment byte => "unterminated comment at byte " ++ toString byte
  | template byte => "unterminated template literal at byte " ++ toString byte
  | regex byte => "unterminated regex literal at byte " ++ toString byte

/-- A character of a text, shown or hidden. -/
structure Cell where
  char : Char
  shown : Bool
deriving DecidableEq, Repr

namespace Cell

/-- What a search sees of a cell. Line ends are always seen. -/
def face (c : Cell) : Char := if c.shown || c.char == '\n' then c.char else ' '

/-- What stands for a cell when a mask is written out. -/
def image (c : Cell) : List Char :=
  if c.shown || c.char == '\n' then [c.char] else List.replicate c.char.utf8Size ' '

end Cell

/-! ### What is being read -/

/-- Where code may stand in code. -/
inductive Enclosure where
  /-- Code inside a template, with the number of its open braces. -/
  | substitution (depth : Nat)
  | template
deriving DecidableEq, Repr

/-- What the next character belongs to. -/
inductive MaskMode where
  /-- Code, or the text of the innermost template. -/
  | plain
  /-- The brace behind the dollar sign that opens a substitution. -/
  | substitutionOpen
  | string (quote : Char) (start : Nat)
  | regex (inClass : Bool) (start : Nat)
  /-- The star that opens a block comment. -/
  | commentOpen (start : Nat)
  /-- A block comment; `star` says that a star comes directly before. -/
  | comment (star : Bool) (start : Nat)
  | lineComment
  /-- The character behind a backslash. -/
  | escaped (inside : MaskMode)
deriving DecidableEq, Repr

/-- The state of a reader in front of a character. -/
structure MaskState where
  mode : MaskMode := .plain
  enclosures : List Enclosure := []
  /-- The faces of the characters before, the last one first. -/
  past : List Char := []
  /-- The number of bytes before. -/
  byte : Nat := 0
  /-- Where the last backtick stands. -/
  backtick : Nat := 0
deriving DecidableEq, Repr

/-! ### Slashes -/

/-- Keywords behind which a slash opens a pattern. -/
def operandKeywords : List String :=
  ["return", "typeof", "case", "in", "of", "void", "delete", "instanceof", "new", "throw", "yield", "await", "else",
    "do"]

/-- An ASCII letter or digit, an underscore or a dollar sign. -/
def isPlainWord (c : Char) : Bool := c.isAlphanum || c == '_' || c == '$'

/-- The blanks of ASCII but for the vertical tab. -/
def isAsciiSpace (c : Char) : Bool := c == ' ' || c == '\t' || c == '\n' || c == '\x0c' || c == '\x0d'

/-- A slash behind these characters, the last one first, opens a pattern and does not divide: nothing precedes it, or
an operator, or a keyword that is no member name. -/
def slashOpensRegex (past : List Char) : Bool :=
  match past.dropWhile isAsciiSpace with
  | [] => true
  | c :: cs =>
    if isPlainWord c then
      let word := String.ofList ((c :: cs).takeWhile isPlainWord).reverse
      ((c :: cs).dropWhile isPlainWord).head? != some '.' && operandKeywords.contains word
    else "(,=:[!&|?\x7b\x7d;+-*%<>~^".toList.contains c

/-! ### Reading -/

/-- The enclosures behind an opening brace of code. -/
def openBrace : List Enclosure → List Enclosure
  | .substitution depth :: es => .substitution (depth + 1) :: es
  | es => es

/-- The enclosures behind a closing brace of code. -/
def closeBrace : List Enclosure → List Enclosure
  | .substitution 0 :: es => es
  | .substitution (depth + 1) :: es => .substitution depth :: es
  | es => es

/-- Reads a character of a template: whether it is shown, what comes next, and the enclosures behind it. -/
def stepTemplate (enclosures : List Enclosure) (c : Char) (next : Option Char) : Bool × MaskMode × List Enclosure :=
  if c = '\x60' then (true, .plain, enclosures.tail)
  else if c = '$' ∧ next = some '\x7b' then (true, .substitutionOpen, enclosures)
  else if c = '\\' then (false, .escaped .plain, enclosures)
  else (false, .plain, enclosures)

/-- Reads a character of code: whether it is shown, what comes next, and the enclosures behind it. -/
def stepCode (forms : LexicalForms) (s : MaskState) (c : Char) (next : Option Char) :
    Bool × MaskMode × List Enclosure :=
  if c = '\'' ∨ c = '"' then (true, .string c s.byte, s.enclosures)
  else if c = '/' ∧ next = some '*' then (false, .commentOpen s.byte, s.enclosures)
  else if c = '/' ∧ forms.lineComments ∧ next = some '/' then (false, .lineComment, s.enclosures)
  else if c = '/' ∧ forms.regexLiterals ∧ slashOpensRegex s.past then (true, .regex false s.byte, s.enclosures)
  else if c = '\x60' ∧ forms.templates then (true, .plain, .template :: s.enclosures)
  else if c = '\x7b' then (true, .plain, openBrace s.enclosures)
  else if c = '\x7d' then (true, .plain, closeBrace s.enclosures)
  else (true, .plain, s.enclosures)

/-- Reads a character that a mode claims: whether it is shown, and the mode behind it. -/
def stepMode (mode : MaskMode) (c : Char) : Except Unterminated (Bool × MaskMode) :=
  match mode with
  | .plain => .ok (true, .plain)
  | .substitutionOpen => .ok (true, .plain)
  | .string quote start =>
    if c = '\n' then .error (.string start)
    else if c = quote then .ok (true, .plain)
    else if c = '\\' then .ok (false, .escaped mode)
    else .ok (false, mode)
  | .regex inClass start =>
    if c = '\n' then .error (.regex start)
    else if c = '/' ∧ ¬ inClass then .ok (true, .plain)
    else if c = '\\' then .ok (false, .escaped mode)
    else if c = '[' then .ok (false, .regex true start)
    else if c = ']' then .ok (false, .regex false start)
    else .ok (false, mode)
  | .commentOpen start => .ok (false, .comment false start)
  | .comment star start =>
    if c = '/' ∧ star then .ok (false, .plain) else .ok (false, .comment (c = '*') start)
  | .lineComment => if c = '\n' then .ok (true, .plain) else .ok (false, .lineComment)
  | .escaped inside => .ok (false, inside)

/-- Reads one character: whether it is shown, and the mode and enclosures behind it. -/
def maskStep (forms : LexicalForms) (s : MaskState) (c : Char) (next : Option Char) :
    Except Unterminated (Bool × MaskMode × List Enclosure) :=
  match s.mode with
  | .plain =>
    .ok (if s.enclosures.head? = some .template then stepTemplate s.enclosures c next else stepCode forms s c next)
  | .substitutionOpen => .ok (true, .plain, .substitution 0 :: s.enclosures)
  | mode => (stepMode mode c).map fun (shown, mode) => (shown, mode, s.enclosures)

/-- What is open at the end of a text, if anything is. -/
def MaskState.unterminated? (s : MaskState) : Option Unterminated :=
  match s.mode with
  | .string _ start | .escaped (.string _ start) => some (.string start)
  | .regex _ start | .escaped (.regex _ start) => some (.regex start)
  | .commentOpen start | .comment _ start => some (.comment start)
  | _ => if s.enclosures.isEmpty then none else some (.template s.backtick)

/-- The mask of what follows a state. -/
def maskFrom (forms : LexicalForms) (s : MaskState) : List Char → Except Unterminated (List Cell)
  | [] =>
    match s.unterminated? with
    | some u => .error u
    | none => .ok []
  | c :: cs => do
    let (shown, mode, enclosures) ← maskStep forms s c cs.head?
    let cell : Cell := ⟨c, shown⟩
    let cells ← maskFrom forms
      { mode, enclosures, past := cell.face :: s.past, byte := s.byte + c.utf8Size,
        backtick := if c = '\x60' then s.byte else s.backtick } cs
    return cell :: cells

/-- The mask of a text. -/
def mask (forms : LexicalForms) (text : List Char) : Except Unterminated (List Cell) := maskFrom forms {} text

/-- The mask of a text; where there is none, everything is shown. -/
def maskOrAll (forms : LexicalForms) (text : List Char) : List Cell :=
  match mask forms text with
  | .ok cells => cells
  | .error _ => text.map fun c => ⟨c, true⟩

/-! ### Slashes that cut through a character

To tell what a slash means, the word in front of it is cut out of the mask. Where the word begins is taken to be one byte
behind the start of the character before it. If that character has more bytes than one, the cut goes through it, and the
program stops. -/

/-- The word in front of a slash, behind these characters, the last one first, follows a character of several bytes. -/
def slashCuts (past : List Char) : Bool :=
  match past.dropWhile isAsciiSpace with
  | [] => false
  | c :: cs => isPlainWord c && ((c :: cs).dropWhile isPlainWord).head?.any (1 < ·.utf8Size)

/-- The meaning of a slash is asked for: it stands in code, and opens no comment. -/
def asksForWord (forms : LexicalForms) (s : MaskState) (c : Char) (next : Option Char) : Bool :=
  s.mode = .plain && s.enclosures.head? ≠ some .template && c = '/' && next ≠ some '*' &&
    !(forms.lineComments && next = some '/') && forms.regexLiterals

/-- The program stops while it reads what follows a state. -/
def cutsFrom (forms : LexicalForms) (s : MaskState) : List Char → Bool
  | [] => false
  | c :: cs =>
    if asksForWord forms s c cs.head? && slashCuts s.past then true
    else match maskStep forms s c cs.head? with
      | .error _ => false
      | .ok (shown, mode, enclosures) =>
        cutsFrom forms
          { mode, enclosures, past := (Cell.mk c shown).face :: s.past, byte := s.byte + c.utf8Size,
            backtick := if c = '\x60' then s.byte else s.backtick } cs

/-- The program stops before it has the mask of a text. -/
def maskCuts (forms : LexicalForms) (text : List Char) : Bool := cutsFrom forms {} text

end Codewright.Text
