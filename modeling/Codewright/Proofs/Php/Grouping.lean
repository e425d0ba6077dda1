import Codewright.Proofs.Php.Climbing

/-!
# How what is read is grouped

Whatever text an operator tree is read from, it is well grouped.

* `Ends` – no operator of some level comes next;
* `Grouped` – what holds of an expression, and of what follows it, when it has been read;
* `Grammar.Sound` – the readers of a grammar yield grouped expressions; `Grammar.sound_upTo`: those of the parser do.
-/

namespace Codewright.Php

open Source Text

/-! ## Readers of other expressions -/

namespace Grammar

variable (g : Grammar)

theorem closure_gives (isStatic : Bool) : Gives (g.closure isStatic) fun e => ¬OperatorTree e := by
  iterate 6 refine .bind fun _ => ?_
  exact .pure nofun

theorem arrowFn_gives (isStatic : Bool) : Gives (g.arrowFn isStatic) fun e => ¬OperatorTree e := by
  iterate 6 refine .bind fun _ => ?_
  exact .pure nofun

theorem matchExpr_gives : Gives g.matchExpr fun e => ¬OperatorTree e := by
  iterate 3 refine .bind fun _ => ?_
  exact .pure nofun

theorem plainName_gives : Gives plainName fun e => ¬OperatorTree e := by
  refine .bind fun s => .bind fun t => .ite ?_ ?_
  · exact .pure nofun
  · exact .pure nofun

/-- An expression that begins with an identifier is no variable, number or expression in parentheses. -/
theorem identPrimary_gives : Gives g.identPrimary fun e => ¬OperatorTree e := by
  refine .bind fun s => .ite ?literal <| .ite ?array <| .ite ?isset <| .ite ?empty <| .ite ?exit <|
    .ite (g.closure_gives false) <| .ite (g.arrowFn_gives false) <| .ite ?closure <| .ite ?arrowFn <|
    .ite g.matchExpr_gives <| .ite (.failExpected _) plainName_gives
  case literal =>
    refine .bind fun _ => .pure ?_
    split
    · exact nofun
    · split <;> exact nofun
  case array => exact .bind fun _ => .bind fun _ => .bind fun _ => .pure nofun
  case isset => exact .bind fun _ => .bind fun _ => .pure nofun
  case empty => exact .bind fun _ => .bind fun _ => .pure nofun
  case exit => exact .bind fun _ => .bind fun _ => .pure nofun
  case closure => exact .bind fun _ => g.closure_gives true
  case arrowFn => exact .bind fun _ => g.arrowFn_gives true

theorem newExpr_gives : Gives g.newExpr fun e => ¬OperatorTree e := by
  refine .bind fun _ => .bind fun s => .ite ?anonymous ?named
  case anonymous =>
    iterate 8 refine .bind fun _ => ?_
    exact .pure nofun
  case named => exact .bind fun _ => .bind fun _ => .pure nofun

theorem yieldExpr_gives : Gives g.yieldExpr fun e => ¬OperatorTree e := by
  refine .bind fun _ => .bind fun more => .ite ?all <| .bind fun s => .ite ?nothing ?value
  case all => exact .bind fun _ => .pure nofun
  case nothing => exact .pure nofun
  case value => exact .bind fun _ => .bind fun _ => .ite (.bind fun _ => .pure nofun) (.pure nofun)

theorem arrowMember_gives (object : Expr) (nullsafe : Bool) :
    Gives (g.arrowMember object nullsafe) fun e => ¬OperatorTree e := by
  exact .bind fun _ => .bind fun _ => .ite (.bind fun _ => .pure nofun) (.pure nofun)

theorem staticMember_gives (cls : Expr) : Gives (g.staticMember cls) fun e => ¬OperatorTree e := by
  refine .bind fun s => ?_
  split
  · exact .bind fun _ => .bind fun _ => .ite (.bind fun _ => .pure nofun) (.pure nofun)
  · exact .bind fun _ => .bind fun _ => .ite (.bind fun _ => .pure nofun) (.pure nofun)
  · exact .bind fun _ => .bind fun _ => .pure nofun
  · exact .failExpected _

/-- An access leaves no operator tree. -/
theorem access_gives (e : Expr) : Gives (g.access e) fun r => ∀ e' ∈ r, ¬OperatorTree e' := by
  refine .bind fun s => ?_
  split
  · refine .bind fun _ => .bind fun s => .ite ?_ ?_
    · exact .bind fun _ => .bind fun _ => .pure (by rintro _ ⟨⟩; exact nofun)
    · exact .bind fun _ => .bind fun _ => .pure (by rintro _ ⟨⟩; exact nofun)
  · exact .bind fun _ => .bind_of (g.arrowMember_gives e false) fun _ h => .pure (by rintro _ ⟨⟩; exact h)
  · exact .bind fun _ => .bind_of (g.arrowMember_gives e true) fun _ h => .pure (by rintro _ ⟨⟩; exact h)
  · exact .bind fun _ => .bind_of (g.staticMember_gives e) fun _ h => .pure (by rintro _ ⟨⟩; exact h)
  · exact .bind fun _ => .pure (by rintro _ ⟨⟩; exact nofun)
  · exact .bind fun _ => .pure (by rintro _ ⟨⟩; exact nofun)
  · exact .bind fun _ => .pure (by rintro _ ⟨⟩; exact nofun)
  · exact .pure nofun

theorem branches_gives (cond : Expr) : Gives (g.branches cond) fun e => ¬OperatorTree e := by
  refine .bind fun _ => .bind fun s => .ite ?_ ?_
  · iterate 3 refine .bind fun _ => ?_
    exact .pure nofun
  · iterate 3 refine .bind fun _ => ?_
    exact .pure nofun

end Grammar

/-! ## Grouping -/

theorem BinaryOp.of_ofToken? {t : Token} {op : BinaryOp} (h : ofToken? t = some op) :
    t.kind = op.kind ∧ (t.kind = .ident → asciiLower t.text = op.spelling) := by
  have found := List.find?_some h
  simp only [Bool.and_eq_true, beq_iff_eq, Bool.or_eq_true, bne_iff_ne] at found
  rcases found with ⟨kind, not_ident | keyword⟩
  · exact ⟨kind, fun ident => absurd ident not_ident⟩
  · have : t.kind = .ident ∧ asciiLower t.text = op.spelling := by simpa [Token.isKeyword] using keyword
    exact ⟨kind, fun _ => this.2⟩

/-- No operator of at least the level `least` comes next. -/
def Ends (least : Level) (s : Stream) : Prop := ∀ op, BinaryOp.ofToken? s.peek = some op → op.level < least

/-- What holds of an expression that has been read as one of operators of at least the level `least`, with the stream
behind it: if it is an operator tree, it is well grouped, and what comes next does not go on with it. -/
def Grouped (least : Level) (e : Expr) (s : Stream) : Prop :=
  OperatorTree e → WellGrouped e ∧ e.Fits least ∧ Ends least s ∧ Ends e.openLevel s

/-- What holds of an operand that has been read. -/
def GroupedOperand (e : Expr) (s : Stream) : Prop :=
  OperatorTree e → WellGrouped e ∧ (e.isPrefix = true ∨ e.isClosed = true) ∧ Ends e.openLevel s

/-- The readers of the grammar group operators as well grouped trees do. -/
structure Grammar.Sound (g : Grammar) : Prop where
  expr {least : Level} (le : least ≤ .closed) (s : Stream) : Yields s (g.expr least) (Grouped least)
  operand (s : Stream) : Yields s g.operand GroupedOperand
  primary : Gives g.primary fun e => OperatorTree e → WellGrouped e ∧ e.isClosed = true

/-- What holds of an expression that has been read with operators of at least the level `least`, of which more may
come. -/
def OpenGrouped (least : Level) (e : Expr) (s : Stream) : Prop :=
  OperatorTree e → WellGrouped e ∧ e.Fits least ∧ Ends e.openLevel s

namespace Ends

variable {least : Level} {s : Stream}

theorem min {least' : Level} (h : Ends least s) (h' : Ends least' s) : Ends (min least least') s :=
  fun op next => Nat.lt_min.2 ⟨h op next, h' op next⟩

/-- Nothing goes on with what is closed. -/
theorem closed (s : Stream) : Ends .closed s := fun op _ => op.level_lt_closed

theorem of_question (h : s.at_ .question = true) : Ends least s := by
  intro op next
  have kind : s.peek.kind = .question := eq_of_beq h
  have same := (BinaryOp.of_ofToken? next).1
  rw [kind] at same
  exact absurd same.symm op.face_ne_ternary

theorem of_keyword (h : s.atKeyword "instanceof" = true) : Ends least s := by
  intro op next
  obtain ⟨kind, word⟩ : s.peek.kind = .ident ∧ asciiLower s.peek.text = "instanceof" := by
    simpa [Stream.atKeyword, Token.isKeyword] using h
  have spelling := (BinaryOp.of_ofToken? next).2 kind
  rw [word] at spelling
  exact absurd spelling (by cases op <;> decide)

end Ends

namespace OpenGrouped

variable {least : Level} {e right : Expr} {s s' : Stream}

theorem grouped (h : OpenGrouped least e s) (ends : Ends least s) : Grouped least e s := by
  intro tree
  obtain ⟨grouped, fits, open_ends⟩ := h tree
  exact ⟨grouped, fits, ends, open_ends⟩

/-- An operator that comes next takes the expression as its left operand. -/
theorem binary {op : BinaryOp} (h : OpenGrouped least e s) (next : BinaryOp.ofToken? s.peek = some op)
    (le : least ≤ op.level) (hr : Grouped op.rightLevel right s') : OpenGrouped least (.binary op e right) s' := by
  rintro (_ | _ | _ | _ | _ | _ | ⟨_, left_tree, right_tree⟩)
  obtain ⟨left_grouped, -, open_ends⟩ := h left_tree
  obtain ⟨right_grouped, right_fits, ends', open_ends'⟩ := hr right_tree
  refine ⟨.binary op left_grouped right_grouped ?_ ?_, .inr le, ends'.min open_ends'⟩
  · exact left_tree.isLeftOperandOf_of_lt (open_ends op next)
  · exact (Node.isRightOperandOf_iff op right).2 right_fits

end OpenGrouped

theorem GroupedOperand.openGrouped {least : Level} {e : Expr} {s : Stream} (h : GroupedOperand e s)
    (le : least ≤ .closed) : OpenGrouped least e s := by
  intro tree
  rcases h tree with ⟨grouped, is_prefix | closed, ends⟩
  · exact ⟨grouped, .inl is_prefix, ends⟩
  · refine ⟨grouped, .inr ?_, ends⟩
    cases grouped with
    | var _ => exact le
    | number _ => exact le
    | paren _ => exact le
    | _ => cases closed

namespace Grouped

variable {e : Expr} {s : Stream}

theorem unary (op : UnaryOp) (h : Grouped op.level e s) : GroupedOperand (.unary op e) s := by
  rintro (_ | _ | _ | ⟨_, tree⟩)
  obtain ⟨grouped, fits, ends, open_ends⟩ := h tree
  have operand := tree.isPrefixOperand_of_fits fits op.not_le_level.1
  exact ⟨.unary op grouped operand, .inl rfl, ends.min open_ends⟩

theorem suppress (h : Grouped .unary e s) : GroupedOperand (.suppress e) s := by
  rintro (_ | _ | _ | _ | tree)
  obtain ⟨grouped, fits, ends, open_ends⟩ := h tree
  have operand := tree.isPrefixOperand_of_fits fits (by decide)
  exact ⟨.suppress grouped operand, .inl rfl, ends.min open_ends⟩

theorem cast (type : CastType) (h : Grouped .unary e s) : GroupedOperand (.cast type e) s := by
  rintro (_ | _ | _ | _ | _ | ⟨_, tree⟩)
  obtain ⟨grouped, fits, ends, open_ends⟩ := h tree
  have operand := tree.isPrefixOperand_of_fits fits (by decide)
  exact ⟨.cast type grouped operand, .inl rfl, ends.min open_ends⟩

end Grouped

namespace Grammar

variable (g : Grammar)

/-- Accesses leave a closed expression as it is, or make something else of it. -/
theorem accesses_yields {e : Expr} (closed : OperatorTree e → WellGrouped e ∧ e.isClosed = true) (s : Stream) :
    Yields s (g.accesses e) GroupedOperand := by
  have kept : Yields s (g.accesses e) fun e' _ => e' = e ∨ ¬OperatorTree e' := by
    refine Yields.refine (I := fun x _ => x = e ∨ ¬OperatorTree x) (.inl rfl) fun x s₁ kept => ?_
    refine (g.access_gives x s₁).mono fun r s₂ other => ?_
    cases r with
    | none => exact kept
    | some e' => exact .inr (other e' rfl)
  refine kept.mono fun e' s' kept tree => ?_
  rcases kept with rfl | other
  · obtain ⟨grouped, closed⟩ := closed tree
    refine ⟨grouped, .inr closed, ?_⟩
    cases grouped with
    | var _ => exact .closed s'
    | number _ => exact .closed s'
    | paren _ => exact .closed s'
    | _ => cases closed
  · exact absurd tree other

/-- An assignment leaves no operator tree. -/
theorem assignmentTo_yields (e : Expr) (s : Stream) :
    Yields s (g.assignmentTo e) fun e' s' => OperatorTree e' → e' = e ∧ s' = s := by
  refine .get_bind ?_
  split
  · exact .pure fun _ => ⟨rfl, rfl⟩
  · refine .bind_any fun _ _ => .ite (fun _ => .bind_any fun _ _ => .ite (fun _ => ?_) fun _ => ?_) fun _ => ?_
    · exact .bind_any fun _ _ => .pure nofun
    · exact .bind_any fun _ _ => .pure nofun
    · exact .bind_any fun _ _ => .pure nofun

end Grammar

namespace Grammar.Sound

variable {g : Grammar} (h : g.Sound)

include h

theorem parenthesized : Gives g.parenthesized fun e => OperatorTree e → WellGrouped e := by
  refine .bind fun _ => .bind_of (fun s => (h.expr (by decide) s).mono fun e _ grouped tree => (grouped tree).1) ?_
  exact fun e grouped => .bind fun _ => .pure grouped

theorem primaryExpr : Gives g.primaryExpr fun e => OperatorTree e → WellGrouped e ∧ e.isClosed = true := by
  refine .bind fun s => ?_
  split
  · exact .bind fun _ => .pure fun | .var h => ⟨.var h, rfl⟩
  · exact .bind fun _ => .pure fun | .number h => ⟨.number h, rfl⟩
  · exact .bind fun _ => .pure nofun
  · exact .bind fun _ => .pure nofun
  · exact .bind fun _ => .bind fun _ => .pure nofun
  · exact .bind_of h.parenthesized fun e grouped => .pure fun | .paren tree => ⟨.paren (grouped tree), rfl⟩
  · refine .bind fun _ => .bind fun s => ?_
    split
    · exact .bind fun _ => .pure nofun
    · exact .bind fun _ => .pure nofun
    · exact .bind fun _ => .pure nofun
    · exact .failExpected _
  · exact g.identPrimary_gives.mono fun e other tree => absurd tree other
  · exact .failExpected _

theorem wordOperand (s : Stream) : Yields s g.wordOperand GroupedOperand := by
  refine .bind_any fun s₁ s => .ite ?_ fun _ => .ite ?_ fun _ => .ite ?_ fun _ => .ite ?_ fun _ => .ite ?_ fun _ => ?_
  · exact fun _ => (g.newExpr_gives s).mono fun e s' other tree => absurd tree other
  · exact fun _ => .bind_any fun _ _ => .bind_any fun _ _ => .pure nofun
  · exact fun _ => .bind_any fun _ _ => .bind_any fun _ _ => .pure nofun
  · exact fun _ => .bind_any fun _ _ => .bind_any fun _ _ => .pure nofun
  · exact fun _ => (g.yieldExpr_gives s).mono fun e s' other tree => absurd tree other
  · split
    · exact .bind_any fun _ _ => .bind_any fun _ _ => .pure nofun
    · exact .bind ((h.primary s).mono fun e s' closed => g.accesses_yields closed s')

theorem operandExpr (s : Stream) : Yields s g.operandExpr GroupedOperand := by
  refine .bind_any fun s₁ s₂ => ?_
  split
  · exact .bind_any fun _ s => .bind ((h.expr (by decide) s).mono fun e s' grouped => .pure (grouped.unary .not))
  · exact .bind_any fun _ s => .bind ((h.expr (by decide) s).mono fun e s' grouped => .pure (grouped.unary .neg))
  · exact .bind_any fun _ s => .bind ((h.expr (by decide) s).mono fun e s' grouped => .pure (grouped.unary .pos))
  · exact .bind_any fun _ s => .bind ((h.expr (by decide) s).mono fun e s' grouped => .pure (grouped.unary .bitNot))
  · exact .bind_any fun _ s => .bind ((h.expr (by decide) s).mono fun e s' grouped => .pure grouped.suppress)
  · exact .bind_any fun _ s => .bind ((h.expr (by decide) s).mono fun e s' grouped => .pure (grouped.cast _))
  · exact .bind_any fun _ _ => .bind_any fun _ _ => .pure nofun
  · exact .bind_any fun _ _ => .bind_any fun _ _ => .pure nofun
  · exact h.wordOperand s₂
  · exact .bind ((h.primary s₂).mono fun e s' closed => g.accesses_yields closed s')

/-- One operator keeps what holds of the expression on its left; where none is read, none that would go on follows. -/
theorem operator {least : Level} {e : Expr} {s : Stream} (left : OpenGrouped least e s) :
    Yields s (g.operator least e) (AfterRound (OpenGrouped least) (Grouped least) e) := by
  refine .get_bind (.ite (fun question => ?_) fun _ => .ite (fun keyword => ?_) fun _ => ?_)
  · refine .ite (fun _ => .pure (left.grouped (.of_question question))) fun _ => ?_
    exact .bind ((g.branches_gives e s).mono fun e' s' other => .pure fun tree => absurd tree other)
  · refine .ite (fun _ => .pure (left.grouped (.of_keyword keyword))) fun _ => ?_
    exact .bind_any fun _ _ => .bind_any fun _ _ => .pure nofun
  · split
    next none_next => exact .pure (left.grouped fun op next => by rw [none_next] at next; cases next)
    next op next =>
      refine .ite (fun lt => .pure (left.grouped fun op' next' => ?_)) fun not_lt => ?_
      · rw [next] at next'
        cases next'
        exact lt
      · refine .bind_any fun _ s₁ => .bind ((h.expr op.rightLevel_le_closed s₁).mono fun right s' grouped => .pure ?_)
        exact left.binary next (Nat.not_lt.1 not_lt) grouped

theorem operatorExpr {least : Level} (le : least ≤ .closed) (s : Stream) :
    Yields s (g.operatorExpr least) (Grouped least) := by
  refine .bind ((h.operand s).mono fun first s₁ operand => .bind ?_)
  refine (g.assignmentTo_yields first s₁).mono fun left s₂ same => ?_
  have start : OpenGrouped least left s₂ := by
    intro tree
    obtain ⟨rfl, rfl⟩ := same tree
    exact operand.openGrouped le tree
  exact .refine start fun e s left => h.operator left

end Grammar.Sound

theorem Grammar.sound_upTo (n : Nat) : (Grammar.upTo n).Sound := by
  induction n with
  | zero => exact ⟨fun _ _ => .failWith _, fun _ => .failWith _, fun _ => .failWith _⟩
  | succ n ih => exact ⟨ih.operatorExpr, ih.operandExpr, ih.primaryExpr⟩

/-! ## Whole texts -/

theorem Grammar.Sound.exprAlone {g : Grammar} (h : g.Sound) :
    Gives (Parse.standalone (Parse.exprAlone g)) fun e => OperatorTree e → WellGrouped e := by
  have alone : Gives (Parse.exprAlone g) fun e => OperatorTree e → WellGrouped e := by
    refine .bind_of (fun s => (h.expr (by decide) s).mono fun e _ grouped tree => (grouped tree).1) ?_
    exact fun e grouped => .bind fun _ => .pure grouped
  refine .bind fun _ => .bind_of alone fun e grouped => ?_
  exact .bind fun _ => .bind fun _ => .pure grouped

/-- An operator tree that is read from a text is well grouped. -/
theorem wellGrouped_of_parseExpr {text : String} {e : Expr} (h : parseExpr text = .ok e) (tree : OperatorTree e) :
    WellGrouped e := by
  rw [parseExpr] at h
  cases tokens : tokenize ("<?php " ++ text) with
  | error _ =>
    rw [tokens] at h
    cases h
  | ok ts =>
    rw [tokens] at h
    change ((Parse.standalone (Parse.exprAlone _)) (Stream.ofTokens ts)).map (·.1) = .ok e at h
    cases read : Parse.standalone (Parse.exprAlone (Grammar.upTo (nestingBound ts.length))) (Stream.ofTokens ts) with
    | error _ =>
      rw [read] at h
      cases h
    | ok r =>
      rw [read] at h
      cases h
      exact (Grammar.sound_upTo _).exprAlone _ _ _ read tree

/-- Among the operator trees, the well grouped ones are those that are read from their printed text. -/
theorem OperatorTree.wellGrouped_iff {e : Expr} (tree : OperatorTree e) :
    WellGrouped e ↔ parseExpr (Expr.print e) = .ok e :=
  ⟨fun h => h.parseExpr_print, fun h => wellGrouped_of_parseExpr h tree⟩

/-- Printing without further parentheses is unambiguous: well grouped trees are read back from their text, and no
other operator trees are read from any text. -/
theorem Expr.print_unambiguous :
    (∀ e, WellGrouped e → parseExpr (Expr.print e) = .ok e) ∧
      ∀ text e, parseExpr text = .ok e → OperatorTree e → WellGrouped e :=
  ⟨fun _ h => h.parseExpr_print, fun _ _ h tree => wellGrouped_of_parseExpr h tree⟩

/-- A power of a negated power, in front of a negation. -/
theorem Expr.print_unambiguous_at_powers :
    let e : Expr := .binary .concat
      (.binary .pow (.variable "a") (.unary .neg (.binary .pow (.variable "b") (.literal (.int "2")))))
      (.unary .not (.variable "c"))
    Expr.print e = "$a ** -$b ** 2 . !$c" ∧ parseExpr (Expr.print e) = .ok e ∧ WellGrouped e := by
  intro e
  have a : Lexer.IsIdentifier "a" := ⟨by decide, by decide⟩
  have b : Lexer.IsIdentifier "b" := ⟨by decide, by decide⟩
  have c : Lexer.IsIdentifier "c" := ⟨by decide, by decide⟩
  have two : Lexer.IsDecimal "2" := ⟨by decide, by decide⟩
  have inner : WellGrouped (.binary .pow (.variable "b") (.literal (.int "2"))) :=
    .binary .pow (.var b) (.number two) ⟨by decide, fun _ => rfl⟩ (.inr (by decide))
  have left : WellGrouped (.binary .pow (.variable "a") (.unary .neg (.binary .pow (.variable "b") (.literal (.int "2"))))) :=
    .binary .pow (.var a) (.unary .neg inner rfl) ⟨by decide, fun _ => rfl⟩ (.inl rfl)
  have grouped : WellGrouped e := .binary .concat left (.unary .not (.var c) rfl) ⟨by decide, nofun⟩ (.inl rfl)
  have read := Expr.print_unambiguous.1 e grouped
  exact ⟨by decide +kernel, read, Expr.print_unambiguous.2 _ e read grouped.operatorTree⟩

end Codewright.Php
