import Codewright.Php.Operator
import Codewright.Php.Tree
import Codewright.Proofs.Php.Spelling
import Codewright.Php.Printer
import Codewright.Proofs.Text.Layout

/-!
# Operator trees and their text

Expressions made of variables, decimal numbers, parentheses, prefix operators, casts and operators between two operands.

* `OperatorTree` – these expressions;
* `Node.bindingLevel` – how tightly the outermost operator of one binds;
* `WellGrouped` – the operator trees that need no parentheses beside those they have;
* `Node.openLevel` – the level of the operators that would go on with an expression at its end;
* `WellGrouped.level_lt_openLevel`, `Node.isLeftOperandOf_of_lt` – those are the operators whose left operand it
  cannot be.

* `Node.operatorFaces` – the tokens of an operator tree;
* `OperatorTree.spells` – its printed text spells them: the blanks around operators keep the tokens apart.
-/

namespace Codewright.Php

/-- Expressions of variables, decimal numbers, parentheses and operators. -/
inductive OperatorTree : Expr → Prop where
  | var {name : String} (h : Lexer.IsIdentifier name) : OperatorTree (.variable name)
  | number {text : String} (h : Lexer.IsDecimal text) : OperatorTree (.literal (.int text))
  | paren {e : Expr} (h : OperatorTree e) : OperatorTree (.paren e)
  | unary (op : UnaryOp) {e : Expr} (h : OperatorTree e) : OperatorTree (.unary op e)
  | suppress {e : Expr} (h : OperatorTree e) : OperatorTree (.suppress e)
  | cast (type : CastType) {e : Expr} (h : OperatorTree e) : OperatorTree (.cast type e)
  | binary (op : BinaryOp) {left right : Expr} (hl : OperatorTree left) (hr : OperatorTree right) :
      OperatorTree (.binary op left right)

/-! ## Levels -/

/-- More than any operator: nothing that stands around an expression of this level takes it apart. -/
def Level.closed : Level := 22

/-- How tightly an operator in front of its operand binds. -/
def UnaryOp.level : UnaryOp → Level
  | not => .not
  | neg | pos | bitNot => .unary

namespace Node

/-- The outermost operator stands in front of its operand. -/
def isPrefix : Expr → Bool
  | .unary .. | .suppress _ | .cast .. => true
  | _ => false

/-- How tightly the outermost operator binds; variables, numbers and parentheses are closed. -/
def bindingLevel : Expr → Level
  | .unary op _ => op.level
  | .suppress _ | .cast .. => .unary
  | .binary op _ _ => op.level
  | _ => .closed

/-- A variable, a number or an expression in parentheses. -/
def isClosed : Expr → Bool
  | .variable _ | .literal _ | .paren _ => true
  | _ => false

/-- The outermost operator is that of powers. -/
def isPower : Expr → Bool
  | .binary .pow _ _ => true
  | _ => false

/-- The expression may stand behind a prefix operator. -/
def isPrefixOperand (e : Expr) : Bool := e.isPrefix || e.isClosed || e.isPower

/-- The expression may be the left operand: it binds at least as tightly as the operator, and more tightly than one
that groups to the right; of a power, it is closed. -/
def isLeftOperandOf (op : BinaryOp) (left : Expr) : Prop :=
  (if op.isRightAssoc then op.level < left.bindingLevel else op.level ≤ left.bindingLevel) ∧
    (op = .pow → left.isClosed = true)

/-- The expression may be the right operand: it begins with a prefix operator, or binds more tightly than the operator,
or as tightly as one that groups to the right. -/
def isRightOperandOf (op : BinaryOp) (right : Expr) : Prop :=
  right.isPrefix = true ∨ if op.isRightAssoc then op.level ≤ right.bindingLevel else op.level < right.bindingLevel

end Node

/-- Operator trees in which every operand binds tightly enough to stand without parentheses. -/
inductive WellGrouped : Expr → Prop where
  | var {name : String} (h : Lexer.IsIdentifier name) : WellGrouped (.variable name)
  | number {text : String} (h : Lexer.IsDecimal text) : WellGrouped (.literal (.int text))
  | paren {e : Expr} (h : WellGrouped e) : WellGrouped (.paren e)
  | unary (op : UnaryOp) {e : Expr} (h : WellGrouped e) (operand : e.isPrefixOperand = true) : WellGrouped (.unary op e)
  | suppress {e : Expr} (h : WellGrouped e) (operand : e.isPrefixOperand = true) : WellGrouped (.suppress e)
  | cast (type : CastType) {e : Expr} (h : WellGrouped e) (operand : e.isPrefixOperand = true) :
      WellGrouped (.cast type e)
  | binary (op : BinaryOp) {left right : Expr} (hl : WellGrouped left) (hr : WellGrouped right)
      (left_operand : left.isLeftOperandOf op) (right_operand : right.isRightOperandOf op) :
      WellGrouped (.binary op left right)

theorem WellGrouped.operatorTree {e : Expr} (h : WellGrouped e) : OperatorTree e := by
  induction h with
  | var h => exact .var h
  | number h => exact .number h
  | paren _ ih => exact .paren ih
  | unary op _ _ ih => exact .unary op ih
  | suppress _ _ ih => exact .suppress ih
  | cast type _ _ ih => exact .cast type ih
  | binary op _ _ _ _ ihl ihr => exact .binary op ihl ihr

/-! ## How operands fit -/

namespace BinaryOp

theorem level_lt_closed (op : BinaryOp) : op.level < Level.closed := by
  cases op <;> decide

theorem wordOr_le_level (op : BinaryOp) : Level.wordOr ≤ op.level := by
  cases op <;> decide

theorem ne_pow {op : BinaryOp} (h : op.level < Level.power) : op ≠ .pow := by
  rintro rfl
  exact absurd h (by decide)

theorem level_lt_not {op : BinaryOp} (h : op ≠ .pow) : op.level < Level.not := by
  cases op <;> first | decide | exact absurd rfl h

theorem isRightAssoc_iff (op : BinaryOp) : op.isRightAssoc = true ↔ op.level = Level.power ∨ op.level = Level.coalesce := by
  cases op <;> decide

/-- Operators of one level group to the same side. -/
theorem isRightAssoc_eq {op op' : BinaryOp} (h : op.level = op'.level) : op.isRightAssoc = op'.isRightAssoc := by
  rw [Bool.eq_iff_iff, isRightAssoc_iff, isRightAssoc_iff, h]

theorem rightLevel_le_closed (op : BinaryOp) : op.rightLevel ≤ Level.closed := by
  cases op <;> decide

theorem level_le_rightLevel (op : BinaryOp) : op.level ≤ op.rightLevel := by
  cases op <;> decide

end BinaryOp

theorem UnaryOp.not_le_level (op : UnaryOp) : Level.not ≤ op.level ∧ op.level ≤ Level.unary := by
  cases op <;> decide

namespace Node

/-- The expression binds at least as tightly as `least`, or begins with a prefix operator. -/
def Fits (least : Level) (e : Expr) : Prop := e.isPrefix = true ∨ least ≤ e.bindingLevel

/-- The least level of an operator that would go on with the expression at its end. -/
def openLevel : {c : Category} → Node c → Level
  | _, .unary op e => min op.level (openLevel e)
  | _, .suppress e => min .unary (openLevel e)
  | _, .cast _ e => min .unary (openLevel e)
  | _, .binary op _ right => min op.rightLevel (openLevel right)
  | _, _ => .closed

theorem isRightOperandOf_iff (op : BinaryOp) (right : Expr) :
    right.isRightOperandOf op ↔ right.Fits op.rightLevel := by
  unfold isRightOperandOf Fits BinaryOp.rightLevel
  split <;> rfl

theorem level_le_of_isLeftOperandOf {op : BinaryOp} {left : Expr} (h : left.isLeftOperandOf op) :
    op.level ≤ left.bindingLevel := by
  obtain ⟨h, -⟩ := h
  split at h
  · exact Nat.le_of_lt h
  · exact h

theorem not_le_bindingLevel {e : Expr} (h : e.isPrefixOperand = true) : Level.not ≤ e.bindingLevel := by
  have not_le_unary : Level.not ≤ Level.unary := by decide
  have not_le_closed : Level.not ≤ Level.closed := by decide
  have not_le_power : Level.not ≤ Level.power := by decide
  cases e with
  | unary op e => exact op.not_le_level.1
  | suppress e => exact not_le_unary
  | cast type e => exact not_le_unary
  | «variable» name => exact not_le_closed
  | literal value => exact not_le_closed
  | paren e => exact not_le_closed
  | binary op left right =>
    cases op with
    | pow => exact not_le_power
    | _ => cases h
  | _ => cases h

theorem isLeftOperandOf_of_lt_bindingLevel {op : BinaryOp} {left : Expr} (lt : op.level < left.bindingLevel)
    (pow : op = .pow → left.isClosed = true) : left.isLeftOperandOf op := by
  refine ⟨?_, pow⟩
  split
  · exact lt
  · exact Nat.le_of_lt lt

/-- What stands behind a prefix operator can be read from the level of that operator. -/
theorem fits_of_isPrefixOperand {e : Expr} (h : e.isPrefixOperand = true) : e.Fits .unary := by
  have unary_le_closed : Level.unary ≤ Level.closed := by decide
  have unary_le_power : Level.unary ≤ Level.power := by decide
  cases e with
  | unary op e => exact .inl rfl
  | suppress e => exact .inl rfl
  | cast type e => exact .inl rfl
  | «variable» name => exact .inr unary_le_closed
  | literal value => exact .inr unary_le_closed
  | paren e => exact .inr unary_le_closed
  | binary op left right =>
    cases op with
    | pow => exact .inr unary_le_power
    | _ => cases h
  | _ => cases h

theorem Fits.mono {e : Expr} {least least' : Level} (h : e.Fits least) (le : least' ≤ least) : e.Fits least' :=
  h.imp_right (Nat.le_trans le)

theorem isPrefixOperand_of_isPrefix {e : Expr} (h : e.isPrefix = true) : e.isPrefixOperand = true := by
  simp [isPrefixOperand, h]

theorem lt_bindingLevel_right {op : BinaryOp} {right : Expr} (h : right.isRightOperandOf op) {k : Level}
    (lt_right : k < op.rightLevel) (lt_not : k < Level.not) : k < right.bindingLevel := by
  rcases (isRightOperandOf_iff op right).1 h with is_prefix | tight
  · exact Nat.lt_of_lt_of_le lt_not (not_le_bindingLevel (isPrefixOperand_of_isPrefix is_prefix))
  · exact Nat.lt_of_lt_of_le lt_right tight

end Node

namespace OperatorTree

/-- An operator that binds no less tightly than a prefix operator is that of powers. -/
theorem isPrefixOperand_of_fits {e : Expr} (h : OperatorTree e) {least : Level} (fits : e.Fits least)
    (le : Level.not ≤ least) : e.isPrefixOperand = true := by
  cases h with
  | binary op _ _ =>
    have not_le : Level.not ≤ op.level := Nat.le_trans le (fits.resolve_left (by simp [Node.isPrefix]))
    have pow : op = .pow := by
      by_cases pow : op = .pow
      · exact pow
      · exact absurd (BinaryOp.level_lt_not pow) (Nat.not_lt.2 not_le)
    rw [pow]
    rfl
  | _ => rfl

/-- An operator that would not go on with an operator tree may have it on its left. -/
theorem isLeftOperandOf_of_lt {e : Expr} (h : OperatorTree e) {op : BinaryOp} (lt : op.level < e.openLevel) :
    e.isLeftOperandOf op := by
  cases h with
  | var _ => exact Node.isLeftOperandOf_of_lt_bindingLevel op.level_lt_closed fun _ => rfl
  | number _ => exact Node.isLeftOperandOf_of_lt_bindingLevel op.level_lt_closed fun _ => rfl
  | paren _ => exact Node.isLeftOperandOf_of_lt_bindingLevel op.level_lt_closed fun _ => rfl
  | unary op' _ =>
    have lt := Nat.lt_of_lt_of_le lt (Nat.min_le_left _ _)
    exact Node.isLeftOperandOf_of_lt_bindingLevel lt fun pow => absurd pow (BinaryOp.ne_pow (Nat.lt_of_lt_of_le lt (Nat.le_succ_of_le op'.not_le_level.2)))
  | suppress _ =>
    have lt := Nat.lt_of_lt_of_le lt (Nat.min_le_left _ _)
    exact Node.isLeftOperandOf_of_lt_bindingLevel lt fun pow => absurd pow (BinaryOp.ne_pow (Nat.lt_succ_of_lt lt))
  | cast _ _ =>
    have lt := Nat.lt_of_lt_of_le lt (Nat.min_le_left _ _)
    exact Node.isLeftOperandOf_of_lt_bindingLevel lt fun pow => absurd pow (BinaryOp.ne_pow (Nat.lt_succ_of_lt lt))
  | binary op' _ _ =>
    have lt_right := Nat.lt_of_lt_of_le lt (Nat.min_le_left _ _)
    by_cases lt : op.level < op'.level
    · exact Node.isLeftOperandOf_of_lt_bindingLevel lt fun pow =>
        absurd pow (BinaryOp.ne_pow (Nat.lt_of_lt_of_le lt (Nat.le_of_lt_succ op'.level_lt_closed)))
    · have left_assoc' : op'.isRightAssoc = false := by
        cases assoc : op'.isRightAssoc with
        | false => rfl
        | true =>
          rw [BinaryOp.rightLevel, if_pos assoc] at lt_right
          exact absurd lt_right lt
      have le : op.level ≤ op'.level := by
        rw [BinaryOp.rightLevel, left_assoc'] at lt_right
        exact Nat.le_of_lt_succ lt_right
      have left_assoc : op.isRightAssoc = false := by
        rw [BinaryOp.isRightAssoc_eq (Nat.le_antisymm le (Nat.not_lt.1 lt)), left_assoc']
      refine ⟨?_, fun pow => ?_⟩
      · rw [left_assoc]
        exact le
      · rw [pow] at left_assoc
        cases left_assoc

end OperatorTree

namespace WellGrouped

theorem fits_wordOr {e : Expr} (h : WellGrouped e) : e.Fits .wordOr := by
  cases h with
  | binary op _ _ _ _ => exact .inr op.wordOr_le_level
  | unary op _ _ => exact .inl rfl
  | suppress _ _ => exact .inl rfl
  | cast _ _ _ => exact .inl rfl
  | _ => exact .inr (by decide : Level.wordOr ≤ Level.closed)

/-- What is read from some level begins with an operand that is. -/
theorem fits_left {op : BinaryOp} {left : Expr} {least : Level} (le : least ≤ op.level)
    (h : left.isLeftOperandOf op) : left.Fits least :=
  .inr (Nat.le_trans le (Node.level_le_of_isLeftOperandOf h))

/-- An operator that binds less tightly than the outermost one does not go on with the expression. -/
theorem lt_openLevel {e : Expr} (h : WellGrouped e) {k : Level} (lt_binding : k < e.bindingLevel)
    (lt_not : k < Level.not) : k < e.openLevel := by
  induction h with
  | var _ => exact lt_binding
  | number _ => exact lt_binding
  | paren _ _ => exact lt_binding
  | unary op _ operand ih =>
    exact Nat.lt_min.2 ⟨lt_binding, ih (Nat.lt_of_lt_of_le lt_not (Node.not_le_bindingLevel operand))⟩
  | suppress _ operand ih =>
    exact Nat.lt_min.2 ⟨lt_binding, ih (Nat.lt_of_lt_of_le lt_not (Node.not_le_bindingLevel operand))⟩
  | cast _ _ operand ih =>
    exact Nat.lt_min.2 ⟨lt_binding, ih (Nat.lt_of_lt_of_le lt_not (Node.not_le_bindingLevel operand))⟩
  | binary op _ _ _ right ihl ihr =>
    have lt_right : k < op.rightLevel := Nat.lt_of_lt_of_le lt_binding op.level_le_rightLevel
    exact Nat.lt_min.2 ⟨lt_right, ihr (Node.lt_bindingLevel_right right lt_right lt_not)⟩

/-- An operator does not go on with what may be its left operand. -/
theorem level_lt_openLevel {e : Expr} (h : WellGrouped e) {op : BinaryOp} (left : e.isLeftOperandOf op) :
    op.level < e.openLevel := by
  by_cases pow : op = .pow
  · have closed := left.2 pow
    cases h with
    | var _ => exact op.level_lt_closed
    | number _ => exact op.level_lt_closed
    | paren _ => exact op.level_lt_closed
    | _ => cases closed
  · have lt_not := BinaryOp.level_lt_not pow
    rcases Nat.lt_or_eq_of_le (Node.level_le_of_isLeftOperandOf left) with lt | same
    · exact h.lt_openLevel lt lt_not
    · -- Only operators between two operands have the level of one.
      have no_operand : e.isPrefixOperand ≠ true := fun operand =>
        absurd (same ▸ Node.not_le_bindingLevel operand) (Nat.not_le.2 lt_not)
      cases h with
      | @binary op' l r hl hr _ right =>
        have same_level : op.level = op'.level := same
        have left_assoc : op'.isRightAssoc = false := by
          rw [← BinaryOp.isRightAssoc_eq same_level]
          cases assoc : op.isRightAssoc with
          | false => rfl
          | true =>
            have lt := left.1
            rw [if_pos assoc] at lt
            exact absurd same (Nat.ne_of_lt lt)
        have lt_right : op.level < op'.rightLevel := by
          rw [same_level, BinaryOp.rightLevel, left_assoc]
          exact Nat.lt_succ_self _
        exact Nat.lt_min.2 ⟨lt_right, hr.lt_openLevel (Node.lt_bindingLevel_right right lt_right lt_not) lt_not⟩
      | _ => exact absurd rfl no_operand

end WellGrouped

end Codewright.Php

/-! ## The text of operator trees -/

namespace Codewright.Php

open Text Source

/-! ## Tokens -/

/-- The token of an operator in front of its operand. -/
def UnaryOp.kind : UnaryOp → TokenKind
  | not => .bang
  | neg => .minus
  | pos => .plus
  | bitNot => .tilde

/-- The tokens of an operator tree; of other trees, none. -/
def Node.operatorFaces : {c : Category} → Node c → List Face
  | _, .variable name => [(.variable, name)]
  | _, .literal value => [(.int, value.text)]
  | _, .paren e => (.openParen, "(") :: (operatorFaces e ++ [(.closeParen, ")")])
  | _, .unary op e => (op.kind, op.spelling) :: operatorFaces e
  | _, .suppress e => (.at, "@") :: operatorFaces e
  | _, .cast type e => (.cast, type.word) :: operatorFaces e
  | _, .binary op left right => operatorFaces left ++ (op.kind, op.spelling) :: operatorFaces right
  | _, _ => []

/-! ## Printed text -/

namespace Node

/-- The characters of a printed expression. -/
def chars (unit : String) (n : Nat) (e : Expr) : List Char := Doc.chars unit (Node.doc n e)

variable (unit : String) (n : Nat)

theorem chars_variable (name : String) : chars unit n (.variable name) = '$' :: name.toList := by
  have printed : (Node.doc n (.variable name) : Doc) = [.text ("$" ++ name)] := rfl
  rw [chars, printed]
  simp

theorem chars_int (text : String) : chars unit n (.literal (.int text)) = text.toList := by
  have printed : (Node.doc n (.literal (.int text)) : Doc) = [.text text] := rfl
  rw [chars, printed]
  simp

theorem chars_paren (e : Expr) : chars unit n (.paren e) = '(' :: (chars unit n e ++ [')']) := by
  have printed : (Node.doc n (.paren e) : Doc) = .text "(" :: (Node.doc n e : Doc) ++ [.text ")"] := rfl
  rw [chars, printed]
  simp [chars]

theorem chars_suppress (e : Expr) : chars unit n (.suppress e) = '@' :: chars unit n e := by
  have printed : (Node.doc n (.suppress e) : Doc) = .text "@" :: (Node.doc n e : Doc) := rfl
  rw [chars, printed]
  simp [chars]

theorem chars_cast (type : CastType) (e : Expr) :
    chars unit n (.cast type e) = '(' :: (type.word.toList ++ ')' :: ' ' :: chars unit n e) := by
  have printed : (Node.doc n (.cast type e) : Doc) = .text ("(" ++ type.word ++ ") ") :: (Node.doc n e : Doc) := rfl
  rw [chars, printed]
  simp [chars]

/-- A blank keeps the operator from running together with what follows it. -/
theorem chars_unary (op : UnaryOp) (e : Expr) :
    chars unit n (.unary op e) =
      op.spelling.toList ++ ((if op.spelling.toList.isPrefixOf (chars "" n e) then [' '] else []) ++ chars unit n e) := by
  have printed : (Node.doc n (.unary op e) : Doc) =
      .text (op.spelling ++ if Doc.startsWith op.spelling (Node.doc n e) then " " else "") :: (Node.doc n e : Doc) := rfl
  have same : Doc.startsWith op.spelling (Node.doc n e) = op.spelling.toList.isPrefixOf (chars "" n e) := rfl
  rw [chars, printed, same]
  split <;> simp [chars]

theorem chars_binary (op : BinaryOp) (left right : Expr) :
    chars unit n (.binary op left right) =
      chars unit n left ++ ' ' :: (op.spelling.toList ++ ' ' :: chars unit n right) := by
  have printed : (Node.doc n (.binary op left right) : Doc) =
      (Node.doc n left : Doc) ++ .text (" " ++ op.spelling ++ " ") :: (Node.doc n right : Doc) := rfl
  rw [chars, printed]
  simp [chars]

end Node


/-! ## Spelled tokens -/

/-- The characters with which an operand may begin. -/
def operandStarts : List Char :=
  ['0', '1', '2', '3', '4', '5', '6', '7', '8', '9', '$', '(', '!', '-', '+', '~', '@']

theorem Lexer.IsDecimal.exists_digit {text : String} (h : Lexer.IsDecimal text) :
    ∃ c ∈ operandStarts, ∃ cs, text.toList = c :: cs := by
  obtain ⟨first, -⟩ := h
  cases chars : text.toList with
  | nil => simp [chars, headIs] at first
  | cons c cs =>
    rw [chars] at first
    refine ⟨c, ?_, cs, rfl⟩
    simpa using Lexer.forall_isDigit (p := fun c => operandStarts.contains c) (by decide) c first

/-- An operator tree begins with the same character wherever it stands. -/
theorem OperatorTree.exists_start {e : Expr} (h : OperatorTree e) :
    ∃ c ∈ operandStarts, ∀ unit n, ∃ cs, Node.chars unit n e = c :: cs := by
  induction h with
  | var _ => exact ⟨'$', by decide, fun unit n => ⟨_, Node.chars_variable unit n _⟩⟩
  | number h =>
    obtain ⟨c, start, cs, chars⟩ := h.exists_digit
    exact ⟨c, start, fun unit n => ⟨cs, by rw [Node.chars_int, chars]⟩⟩
  | paren _ _ => exact ⟨'(', by decide, fun unit n => ⟨_, Node.chars_paren unit n _⟩⟩
  | unary op _ _ =>
    obtain ⟨o, start, spelled⟩ : ∃ o ∈ operandStarts, op.spelling.toList = [o] := by
      cases op <;> exact ⟨_, by decide, rfl⟩
    exact ⟨o, start, fun unit n => ⟨_, by rw [Node.chars_unary, spelled]; rfl⟩⟩
  | suppress _ _ => exact ⟨'@', by decide, fun unit n => ⟨_, Node.chars_suppress unit n _⟩⟩
  | cast type _ _ => exact ⟨'(', by decide, fun unit n => ⟨_, Node.chars_cast unit n _ _⟩⟩
  | binary op _ _ ihl _ =>
    obtain ⟨c, start, chars⟩ := ihl
    refine ⟨c, start, fun unit n => ?_⟩
    obtain ⟨cs, left⟩ := chars unit n
    exact ⟨_, by rw [Node.chars_binary, left]; rfl⟩

namespace Lexer

/-- A parenthesis in front of an operand opens no cast. -/
theorem lexemeAt?_paren {c : Char} (start : c ∈ operandStarts) (rest : List Char) :
    lexemeAt? ('(' :: c :: rest) = some ⟨.openParen, "(", 0⟩ := by
  simp only [operandStarts, List.mem_cons, List.not_mem_nil, or_false] at start
  rcases start with rfl | rfl | rfl | rfl | rfl | rfl | rfl | rfl | rfl | rfl | rfl | rfl | rfl | rfl | rfl | rfl | rfl <;>
    rfl

/-- A prefix operator ends in front of an operand that does not begin with it. -/
theorem lexemeAt?_unary (op : UnaryOp) {c : Char} (start : c ∈ operandStarts) (rest : List Char)
    (distinct : op.spelling.toList ≠ [c]) :
    lexemeAt? (op.spelling.toList ++ c :: rest) = some ⟨op.kind, op.spelling, 0⟩ := by
  simp only [operandStarts, List.mem_cons, List.not_mem_nil, or_false] at start
  rcases start with rfl | rfl | rfl | rfl | rfl | rfl | rfl | rfl | rfl | rfl | rfl | rfl | rfl | rfl | rfl | rfl | rfl <;>
    cases op <;> first | rfl | exact absurd rfl distinct

theorem lexemeAt?_unary_blank (op : UnaryOp) (rest : List Char) :
    lexemeAt? (op.spelling.toList ++ ' ' :: rest) = some ⟨op.kind, op.spelling, 0⟩ := by
  cases op <;> rfl

theorem lexemeAt?_binary_blank (op : BinaryOp) (rest : List Char) :
    lexemeAt? (op.spelling.toList ++ ' ' :: rest) = some ⟨op.kind, op.spelling, op.spelling.toList.length - 1⟩ := by
  cases op <;> rfl

theorem castShape?_word (type : CastType) (rest : List Char) :
    castShape? (type.word.toList ++ ')' :: rest) = some (type.word, type.word.toList.length + 1) := by
  have found : castShape? (type.word.toList ++ ')' :: rest) =
      (casts.find? fun p => asciiLower (String.ofList type.word.toList) == p.1).map fun p =>
        (p.2, type.word.toList.length + 1) := by
    cases type <;> rfl
  rw [found]
  cases type <;> decide

theorem lexemeAt?_cast (type : CastType) (rest : List Char) :
    lexemeAt? ('(' :: (type.word.toList ++ ')' :: rest)) = some ⟨.cast, type.word, type.word.toList.length + 1⟩ := by
  have no_letter : isIdentStart '(' = false := by decide
  rw [lexemeAt?_cons _ (by decide) (by decide)]
  simp [scan, no_letter, castShape?_word, Except.toOption]

theorem spells_space (rest : List Char) : Spells [' '] [] rest :=
  spells_blank (by decide) rest

/-- A prefix operator in front of an operand, with a blank between them where they would run together. -/
theorem spells_unary (op : UnaryOp) {c : Char} (start : c ∈ operandStarts) (cs rest : List Char) :
    Spells (op.spelling.toList ++ if op.spelling.toList.isPrefixOf (c :: cs) then [' '] else [])
      [(op.kind, op.spelling)] (c :: rest) := by
  have symbol : ∃ o, op.spelling.toList = [o] := by cases op <;> exact ⟨_, rfl⟩
  obtain ⟨o, spelled⟩ := symbol
  have ne_nil : op.spelling.toList ≠ [] := by simp [spelled]
  have more : op.spelling.toList.length - 1 = 0 := by simp [spelled]
  by_cases same : o = c
  · have blank : op.spelling.toList.isPrefixOf (c :: cs) = true := by simp [spelled, same]
    have operator : Spells op.spelling.toList [(op.kind, op.spelling)] ([' '] ++ c :: rest) :=
      spells_lexeme (by rw [more]; exact lexemeAt?_unary_blank op _) ne_nil
    rw [if_pos blank]
    exact operator.append (spells_space _)
  · have no_blank : ¬op.spelling.toList.isPrefixOf (c :: cs) = true := by simp [spelled, same]
    have distinct : op.spelling.toList ≠ [c] := by simp [spelled, same]
    rw [if_neg no_blank, List.append_nil]
    exact spells_lexeme (by rw [more]; exact lexemeAt?_unary op start rest distinct) ne_nil

theorem spells_closeParen (rest : List Char) : Spells [')'] [(.closeParen, ")")] rest :=
  spells_lexeme (by rfl) (by simp)

theorem spells_at (rest : List Char) : Spells ['@'] [(.at, "@")] rest :=
  spells_lexeme (by rfl) (by simp)

end Lexer

/-- In front of a boundary, the printed text of an operator tree spells its tokens. -/
theorem OperatorTree.spells {e : Expr} (h : OperatorTree e) (unit : String) (n : Nat) {rest : List Char}
    (boundary : Lexer.Boundary rest) : Lexer.Spells (Node.chars unit n e) e.operatorFaces rest := by
  induction h generalizing rest with
  | var h =>
    rw [Node.chars_variable]
    exact Lexer.spells_variable h boundary
  | number h =>
    rw [Node.chars_int]
    exact Lexer.spells_decimal h boundary
  | @paren e h ih =>
    obtain ⟨c, start, chars⟩ := h.exists_start
    obtain ⟨cs, inner⟩ := chars unit n
    have opening : Lexer.Spells ['('] [(.openParen, "(")] (Node.chars unit n e ++ [')'] ++ rest) := by
      refine Lexer.spells_lexeme ?_ (by simp)
      rw [inner]
      exact Lexer.lexemeAt?_paren start _
    have closing := Lexer.spells_closeParen rest
    rw [Node.chars_paren]
    exact opening.append ((ih (Lexer.boundary_cons (by decide) rest)).append closing)
  | @unary op e h ih =>
    obtain ⟨c, start, chars⟩ := h.exists_start
    obtain ⟨cs, inner⟩ := chars unit n
    obtain ⟨cs', unindented⟩ := chars "" n
    have operator := Lexer.spells_unary op start cs' (cs ++ rest)
    rw [← unindented, ← List.cons_append, ← inner] at operator
    rw [Node.chars_unary, ← List.append_assoc]
    exact operator.append (ih boundary)
  | @suppress e h ih =>
    rw [Node.chars_suppress]
    exact (Lexer.spells_at _).append (ih boundary)
  | @cast type e h ih =>
    have opening : Lexer.Spells ('(' :: (type.word.toList ++ [')'])) [(.cast, type.word)]
        (' ' :: Node.chars unit n e ++ rest) := by
      refine Lexer.spells_lexeme ?_ (by simp)
      simp [Lexer.lexemeAt?_cast]
    have := opening.append ((Lexer.spells_space _).append (ih boundary))
    rw [Node.chars_cast]
    simpa [Node.operatorFaces] using this
  | @binary op left right hl hr ihl ihr =>
    have middle : Lexer.Spells op.spelling.toList [(op.kind, op.spelling)]
        (' ' :: Node.chars unit n right ++ rest) := by
      refine Lexer.spells_lexeme (Lexer.lexemeAt?_binary_blank op _) ?_
      cases op <;> decide
    have tail := (Lexer.spells_space _).append (middle.append ((Lexer.spells_space _).append (ihr boundary)))
    have := (ihl (Lexer.boundary_cons (by decide) _)).append tail
    rw [Node.chars_binary]
    simpa [Node.operatorFaces] using this

end Codewright.Php
