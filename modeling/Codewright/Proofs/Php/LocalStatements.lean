import Codewright.Proofs.Php.LocalExpressions

/-!
# Statements see only what they read

A statement ends with a token of its own, or with an expression in front of a closing tag. What may stand behind it and belong to it
begins with the keyword of a clause.

* `Grammar.Local.statement`, … – one lemma for each production of statements;
* `Grammar.local_upTo` – the readers of the parser stay in common tokens, however deep they are unrolled.
-/

namespace Codewright.Php

variable {w : Fork} {n : Nat}

theorem Fork.Alike.atLabel {s s' : Stream} (same : w.Alike s s') : Grammar.atLabel s' = Grammar.atLabel s := by
  rw [Grammar.atLabel, Grammar.atLabel, same.at_, same.peek, same.atAnyKeyword]
  cases here : s.at_ .ident with
  | false => simp
  | true =>
    have ident : s.kind = .ident := Stream.kind_of_at here
    rw [same.hasAt_one (by rw [ident]; rfl)]

namespace Local

/-- What reads a token when it goes on may be read again. -/
theorem again {α : Type} {p p' : Parse α} (h : Local w (fun _ => n) 1 p p') (le : n ≤ 1) : Local w (fun _ => n) n p p' :=
  h.mono (fun _ => Nat.le_refl n) le

theorem useDecl : Local w (fun _ => n) 1 Parse.useDecl Parse.useDecl :=
  expectKeyword.bind fun _ => importKind.bind fun _ => (commaList importItems).bind fun _ => expectSemicolon.bind fun _ => .done

theorem classHead : Inner w Grammar.classHead Grammar.classHead :=
  classModifiers.bind fun _ => expectKeyword.bind fun _ => expectIdent.bind fun _ => parent.bind fun _ => interfaces.bind fun _ =>
    .done

theorem interfaceHead : Inner w Grammar.interfaceHead Grammar.interfaceHead :=
  expectKeyword.bind fun _ => expectIdent.bind fun _ => interfaces.bind fun _ => .done

theorem traitHead : Inner w Grammar.traitHead Grammar.traitHead :=
  expectKeyword.bind fun _ => expectIdent.bind fun _ => .done

theorem enumHead : Inner w Grammar.enumHead Grammar.enumHead :=
  expectKeyword.bind fun _ => expectIdent.bind fun _ => returnType.bind fun _ => interfaces.bind fun _ => .done

theorem tryEndSwitch (alternative : Bool) : Local w (fun ended => if ended then n else 1) 1 (Grammar.tryEndSwitch alternative)
    (Grammar.tryEndSwitch alternative) := by
  refine .ite (tryKeyword.bind fun _ => .ite ?_ (.pure (Nat.le_refl 1))) (tryToken_last nofun)
  exact (expectSemicolon (n := n)).bind fun _ => .pure (Nat.le_refl n)

theorem ended {stmt : Stmt} : Local w (fun _ => n) 1 (Grammar.ended stmt) (Grammar.ended stmt) :=
  expectSemicolon.bind fun _ => .done

end Local

namespace Grammar.Local

open Php.Local

variable {g g' : Grammar} (h : Grammar.Local w g g')

include h

/-! ### Declarations -/

theorem classLike (doc : Option String) (attributes : List String) {head : Parse (String × ClassKind)} (hh : Inner w head head) :
    Php.Local w (fun _ => n) 1 (g.classLike doc attributes head) (g'.classLike doc attributes head) := by
  refine .look (fun s s' same => by rw [same.peek]) fun s => hh.bind fun (name, kind) => (h.members (n := n)).bind fun _ => ?_
  exact .look_beside (fun s s' same => by rw [same.spanFrom]) fun s => .done

theorem function (doc : Option String) (attributes : List String) :
    Php.Local w (fun _ => n) 1 (g.function doc attributes) (g'.function doc attributes) := by
  refine .look (fun s s' same => by rw [same.peek]) fun s => expectKeyword.bind fun _ => tryToken.bind fun _ =>
    expectIdent.bind fun _ => h.params.bind fun _ => returnType.bind fun _ => (h.block (n := n)).bind fun _ => ?_
  exact .look_beside (fun s s' same => by rw [same.spanFrom]) fun s => .done

theorem declarationOf (doc : Option String) (attributes : List String) :
    Php.Local w (fun _ => n) 1 (g.declarationOf doc attributes) (g'.declarationOf doc attributes) := by
  refine .look (fun s s' same => ?_) fun s => .ite (h.classLike _ _ Php.Local.classHead) <|
    .ite (h.classLike _ _ Php.Local.interfaceHead) <| .ite (h.classLike _ _ Php.Local.traitHead) <|
    .ite (h.classLike _ _ Php.Local.enumHead) <| .ite (h.function _ _) .failWith
  simp only [same.atClass, same.atKeyword, same.atFunction]

theorem declaration : Php.Local w (fun _ => n) 1 g.declaration g'.declaration := by
  refine takeDoc.bind fun before => attributes.bind fun _ => ?_
  cases before with
  | some doc => exact .pure_bind (h.declarationOf _ _)
  | none => exact takeDoc.bind fun _ => h.declarationOf _ _

/-! ### Control structures -/

theorem body (le : n ≤ 1) (endWord : String) : Php.Local w (fun _ => n) 1 (g.body endWord) (g'.body endWord) := by
  refine .look (fun s s' same => by rw [same.at_]) fun s => .ite h.block <| tryToken.bind fun _ => .ite ?alternative ?single
  case alternative =>
    exact (h.statementsUntil _).bind fun _ => expectKeyword.bind fun _ => expectSemicolon.bind fun _ => .done
  case single => exact leadingComments.bind fun _ => (h.stmt le).bind fun _ => .done

theorem alternativeIf (cond : Expr) : Php.Local w (fun _ => n) 1 (g.alternativeIf cond) (g'.alternativeIf cond) := by
  refine (h.statementsUntil _).bind fun _ => (behind tryKeyword ?elseIf).bind fun _ => (afterKeyword ?last).bind fun _ =>
    expectKeyword.bind fun _ => expectSemicolon.bind fun _ => .done
  case elseIf =>
    exact h.parenthesized.bind fun _ => (expect .colon nofun).bind fun _ => (h.statementsUntil _).bind fun _ => .done
  case last => exact (expect .colon nofun).bind fun _ => h.statementsUntil _

theorem ifStmt (le : n ≤ 1) : Php.Local w (fun _ => n) 1 g.ifStmt g'.ifStmt := by
  refine expectKeyword.bind fun _ => h.parenthesized.bind fun cond => tryToken.bind fun _ => .ite (h.alternativeIf cond) ?_
  refine (h.body le _).bind fun _ => (behind (tryClause (by decide)) (again ?elseIf le)).bind fun _ =>
    (afterClause (by decide) ((h.body le _).again le)).bind fun _ => .done
  exact h.parenthesized.bind fun _ => (h.body le _).bind fun _ => .done

theorem whileStmt (le : n ≤ 1) : Php.Local w (fun _ => n) 1 g.whileStmt g'.whileStmt :=
  expectKeyword.bind fun _ => h.parenthesized.bind fun _ => (h.body le _).bind fun _ => .done

theorem doWhile : Php.Local w (fun _ => n) 1 g.doWhile g'.doWhile :=
  expectKeyword.bind fun _ => .look (fun s s' same => by rw [same.at_]) fun s => .ite .failExpected <|
    (h.body (Nat.le_refl 1) _).bind fun _ => expectKeyword.bind fun _ => h.parenthesized.bind fun _ =>
    expectSemicolon.bind fun _ => .done

theorem forPart (close : TokenKind) : Inner w (g.forPart close) (g'.forPart close) :=
  .look (fun s s' same => by rw [same.at_]) fun s => .ite .done h.exprList

theorem forStmt (le : n ≤ 1) : Php.Local w (fun _ => n) 1 g.forStmt g'.forStmt :=
  expectKeyword.bind fun _ => (expect .openParen nofun).bind fun _ => (h.forPart _).bind fun _ =>
    (expect .semicolon nofun).bind fun _ => (h.forPart _).bind fun _ => (expect .semicolon nofun).bind fun _ =>
    (h.forPart _).bind fun _ => (expect .closeParen nofun).bind fun _ => (h.body le _).bind fun _ => .done

theorem foreachStmt (le : n ≤ 1) : Php.Local w (fun _ => n) 1 g.foreachStmt g'.foreachStmt := by
  refine expectKeyword.bind fun _ => (expect .openParen nofun).bind fun _ => h.anyExpr.bind fun subject =>
    expectKeyword.bind fun _ => tryToken.bind fun byRef => h.anyExpr.bind fun first =>
    .ite (tryToken.bind fun _ => .ite (tryToken.bind fun _ => h.anyExpr.bind fun _ => .pure_bind ?_) (.pure_bind ?_))
      (.pure_bind ?_)
  all_goals exact (expect .closeParen nofun).bind fun _ => (h.body le _).bind fun _ => .done

theorem caseTest : Inner w g.caseTest g'.caseTest :=
  tryKeyword.bind fun _ => .ite (h.anyExpr.bind fun _ => .done) <| tryKeyword.bind fun _ => .ite .done .failExpected

theorem switchCase : Inner w g.switchCase g'.switchCase := by
  refine h.caseTest.bind fun test => tryToken.bind fun _ => .ite ((expect (n := 1) .semicolon nofun).bind fun _ => ?_) ?_
  all_goals exact (h.statementsUntil _).bind fun _ => .done

theorem switchStmt : Php.Local w (fun _ => n) 1 g.switchStmt g'.switchStmt := by
  refine expectKeyword.bind fun _ => h.parenthesized.bind fun subject => tryToken.bind fun alternative =>
    .ite ((expect (n := 1) .openBrace nofun).bind fun _ => ?_) ?_
  all_goals
    refine (collect_last (n := n) (skipFillers.bind fun _ => (Php.Local.tryEndSwitch (n := n) alternative).bind fun ended =>
      ?_)).bind fun _ => .done
    cases ended with
    | true => exact .pure (Nat.le_refl n)
    | false => exact h.switchCase.bind fun _ => .pure (Nat.le_refl 1)

theorem catchClause : Php.Local w (fun _ => n) 1 g.catchClause g'.catchClause := by
  refine (expect .openParen nofun).bind fun _ => expectIdent.bind fun first => (behind tryToken expectIdent).bind fun others =>
    .look (fun s s' same => by rw [same.at_]) fun s => .ite (advance.bind fun _ => .pure_bind ?_) (.pure_bind ?_)
  all_goals exact (expect .closeParen nofun).bind fun _ => h.block.bind fun _ => .done

theorem tryStmt (le : n ≤ 1) : Php.Local w (fun _ => n) 1 g.tryStmt g'.tryStmt :=
  expectKeyword.bind fun _ => h.block.bind fun _ => (behind (tryClause (by decide)) (h.catchClause.again le)).bind fun _ =>
    (afterClause (by decide) (h.block.again le)).bind fun _ => .ite .failExpected .done

theorem declareStmt (le : n ≤ 1) : Php.Local w (fun _ => n) 1 g.declareStmt g'.declareStmt := by
  refine expectKeyword.bind fun _ => (enclosedBy (n := 1) (commaList ?directive) (by nofun) (by nofun)).bind fun _ =>
    .look (fun s s' same => by simp only [same.at_]) fun s =>
    .ite ((h.body le _).bind fun _ => .done) (expectSemicolon.bind fun _ => .done)
  exact expectIdent.bind fun _ => (expect .assign nofun).bind fun _ => h.anyExpr.bind fun _ => .done

/-! ### Statements -/

theorem optionalValue : Inner w g.optionalValue g'.optionalValue :=
  .look (fun s s' same => by rw [same.kind]) fun s => .ite .done (h.anyExpr.bind fun _ => .done)

theorem exprStmt : Php.Local w (fun _ => n) 1 g.exprStmt g'.exprStmt := h.anyExpr.bind fun _ => Php.Local.ended

theorem wordStmt (le : n ≤ 1) (word : String) {s s' : Stream} (ident : s.kind = .ident) :
    LocalAt w (fun _ => n) 1 s s' (g.wordStmt word) (g'.wordStmt word) := by
  have ahead : s.kind.looksAhead = true := by rw [ident]; rfl
  refine .look (fun same => by simp only [same.atNamespace, same.hasAt_one ahead]) ?_
  split
  case h_1 => exact useDecl s s'
  case h_2 => exact .bind .advance fun _ => h.definitions.bind fun _ => Php.Local.ended
  case h_3 => exact h.declareStmt le s s'
  case h_4 => exact h.ifStmt le s s'
  case h_5 => exact h.whileStmt le s s'
  case h_6 => exact h.doWhile s s'
  case h_7 => exact h.forStmt le s s'
  case h_8 => exact h.foreachStmt le s s'
  case h_9 => exact h.switchStmt s s'
  case h_10 => exact .bind .advance fun _ => h.optionalValue.bind fun _ => Php.Local.ended
  case h_11 => exact .bind .advance fun _ => h.optionalValue.bind fun _ => Php.Local.ended
  case h_12 => exact .bind .advance fun _ => h.optionalValue.bind fun _ => Php.Local.ended
  case h_13 => exact .bind .advance fun _ => h.exprList.bind fun _ => Php.Local.ended
  case h_14 => exact .bind .advance fun _ => h.anyExpr.bind fun _ => Php.Local.ended
  case h_15 => exact h.tryStmt le s s'
  case h_16 => exact .bind .advance fun _ => (commaList expectVariable).bind fun _ => Php.Local.ended
  case h_17 => exact .failWith
  refine .ite (fun _ => .failExpected) fun _ => .ite (fun _ => ?staticVars) fun _ => .ite (fun _ => ?unset) fun _ =>
    .ite (fun _ => ?goto) fun _ => h.exprStmt s s'
  case staticVars => exact .bind .advance fun _ => h.varItems.bind fun _ => Php.Local.ended
  case unset =>
    exact .bind .advance fun _ => (enclosedBy (n := 1) (commaListUntil h.anyExpr) (by nofun) (by nofun)).bind fun _ =>
      Php.Local.ended
  case goto => exact .bind .advance fun _ => advance.bind fun _ => Php.Local.ended

theorem statement (le : n ≤ 1) : Php.Local w (fun _ => n) 1 g.statement g'.statement := by
  refine fun s s' => .look (fun same => by rw [same.atDeclaration, same.kind, same.atLabel, same.peek]) <|
    .ite (fun _ => h.declaration s s') fun _ => ?_
  have nop (more : s.kind ≠ .eof) : LocalAt w (fun _ => n) 1 s s' (do
      let _ ← Parse.advance
      return Node.nop) (do
      let _ ← Parse.advance
      return Node.nop) :=
    (LocalAt.advance_of more).bind fun _ => .done
  split
  · next kind => exact (LocalAt.advance_of (by rw [kind]; exact nofun)).bind fun _ => .done
  · next kind => exact nop (by rw [kind]; exact nofun)
  · next kind => exact nop (by rw [kind]; exact nofun)
  · next kind => exact nop (by rw [kind]; exact nofun)
  · exact .bind .advance fun _ => h.exprList.bind fun _ => Php.Local.ended
  · exact .bind (h.block s s') fun _ => .done
  · next kind =>
    refine .ite (fun _ => ?_) fun _ => h.wordStmt le _ kind
    exact (LocalAt.advance_of (by rw [kind]; exact nofun)).bind fun _ => advance.bind fun _ => .done
  · exact h.exprStmt s s'

end Grammar.Local

/-! ## The parser -/

/-- However deep they are unrolled, the readers of the parser do the same on common tokens. -/
theorem Grammar.local_upTo (n m : Nat) : Grammar.Local w (Grammar.upTo n) (Grammar.upTo m) := by
  induction n generalizing m with
  | zero =>
    exact ⟨fun _ => .failWith, .failWith, .failWith, fun _ => .failWith⟩
  | succ n ih =>
    cases m with
    | zero =>
      have h := ih 0
      exact ⟨fun least => (h.operatorExpr least).of_failsDeep Local.failsDeep, h.operandExpr.of_failsDeep Local.failsDeep,
        h.primaryExpr.of_failsDeep Local.failsDeep, fun le => (h.statement le).of_failsDeep Local.failsDeep⟩
    | succ m =>
      have h := ih m
      exact ⟨h.operatorExpr, h.operandExpr, h.primaryExpr, h.statement⟩

end Codewright.Php
