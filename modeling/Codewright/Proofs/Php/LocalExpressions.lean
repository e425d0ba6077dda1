import Codewright.Php.Parser
import Codewright.Proofs.Php.Locality

/-!
# Expressions and members see only what they read

The productions of the grammar stay in common tokens, as long as the readers they refer to do.

* `Grammar.Local` – the readers of two grammars do the same on common tokens;
* `Local.typeHint`, `Local.attributes`, … – what is read without making a tree;
* `Grammar.Local.block`, … – one lemma for each production.
-/

namespace Codewright.Php

variable {w : Fork} {n : Nat}

/-- The readers of the grammars do the same on common tokens. A statement need not have one behind it. -/
structure Grammar.Local (w : Fork) (g g' : Grammar) : Prop where
  expr (least : Level) : Inner w (g.expr least) (g'.expr least)
  operand : Inner w g.operand g'.operand
  primary : Inner w g.primary g'.primary
  stmt {n : Nat} (le : n ≤ 1) : Php.Local w (fun _ => n) 1 g.stmt g'.stmt

/-! ## Readers without trees -/

namespace Local

theorem typeAtomUpTo (m m' : Nat) : Inner w (Parse.typeAtomUpTo m) (Parse.typeAtomUpTo m') := by
  have round {m m' : Nat} (ih : Inner w (Parse.typeAtomUpTo m) (Parse.typeAtomUpTo m')) :
      Inner w (Parse.typeAtomUpTo (m + 1)) (Parse.typeAtomUpTo (m' + 1)) := by
    refine tryToken.bind fun _ => .ite ?group (expectIdent.bind fun _ => .done)
    exact ih.bind fun _ => (behind tryToken ih).bind fun _ => (expect .closeParen nofun).bind fun _ => .done
  induction m generalizing m' with
  | zero => exact .failWith
  | succ m ih =>
    cases m' with
    | zero => exact (round (ih 0)).of_failsDeep failsDeep
    | succ m' => exact round (ih m')

theorem typeAtom : Inner w Parse.typeAtom Parse.typeAtom :=
  .get_bind fun s s' => typeAtomUpTo (s.unread + 1) (s'.unread + 1) s s'

theorem tryIntersection : Inner w Parse.tryIntersection Parse.tryIntersection := by
  refine .look (fun s s' same => ?_) fun s => .ite tryToken .done
  have amp (k : TokenKind) := same.at_and_hasAt (k := .amp) rfl k
  simp only [Bool.and_or_distrib_left, amp]

theorem typeHint : Inner w Parse.typeHint Parse.typeHint := by
  refine tryToken.bind fun _ => .ite (typeAtom.bind fun _ => .done) ?_
  refine typeAtom.bind fun _ => (behind tryToken typeAtom).bind fun _ => .ite ?_ .done
  exact (behind tryIntersection typeAtom).bind fun _ => .ite .done .done

theorem returnType : Inner w Parse.returnType Parse.returnType := afterToken typeHint

theorem nameList {what : String} : Inner w (Parse.nameList what) (Parse.nameList what) := commaList expectIdent

theorem attributes : Inner w Parse.attributes Parse.attributes :=
  collect <| .look (fun s s' same => by rw [same.at_]) fun s => .ite (advance.bind fun _ => .done) .done

theorem failModifier {α : Type} {reason : String} {q : Parse α} {after : α → Nat} {before : Nat} :
    Local w after before (Parse.failModifier reason) q := fun s s' x t given => by cases given

theorem addModifier (m : Modifiers) (flag : Modifier) : Inner w (Parse.addModifier m flag) (Parse.addModifier m flag) :=
  .ite failModifier <| .ite failModifier <| advance.bind fun _ => .done

theorem parent : Inner w Parse.parent Parse.parent := afterKeyword expectIdent

theorem interfaces {word : String} : Inner w (Parse.interfaces word) (Parse.interfaces word) :=
  (afterKeyword nameList).bind fun _ => .done

theorem memberModifiers : Inner w Parse.memberModifiers Parse.memberModifiers := by
  refine (refine (fun m => .look (fun s s' same => ?_) fun s => ?_) _).bind fun _ => .ite failModifier .done
  · simp only [same.nextModifier?, same.atKeyword]
  · split
    · exact (addModifier _ _).bind fun _ => .done
    · exact .ite (advance.bind fun _ => .done) .done

theorem classModifiers : Inner w Parse.classModifiers Parse.classModifiers := by
  refine (refine (fun m => .look (fun s s' same => ?_) fun s => ?_) _).bind fun _ => .ite failModifier .done
  · simp only [same.nextModifier?]
  · split
    · exact .ite failModifier (advance.bind fun _ => .done)
    · exact .done

theorem importRename : Inner w Parse.importRename Parse.importRename := afterKeyword expectIdent

theorem importItems : Inner w Parse.importItems Parse.importItems := by
  refine expectIdent.bind fun _ => .look (fun s s' same => ?_) fun s => .ite ?group ?single
  · simp only [same.at_and_hasAt (k := .backslash) rfl]
  case group =>
    refine advance.bind fun _ => enclosedBy (commaListUntil ?_) nofun nofun
    exact expectIdent.bind fun _ => importRename.bind fun _ => .done
  case single => exact importRename.bind fun _ => .done

theorem importKind : Inner w Parse.importKind Parse.importKind :=
  tryKeyword.bind fun _ => .ite .done <| tryKeyword.bind fun _ => .ite .done .done

theorem captures : Inner w Grammar.captures Grammar.captures := by
  refine tryKeyword.bind fun _ => .ite (enclosedBy (commaListUntil ?_) nofun nofun) .done
  exact tryToken.bind fun _ => expectVariable.bind fun _ => .done

theorem adaptation : Inner w Parse.adaptation Parse.adaptation := by
  refine expectIdent.bind fun first => tryToken.bind fun _ =>
    .ite (expectIdent.bind fun _ => .pure_bind <| .look (fun s s' same => ?_) fun s => ?_) <|
      .pure_bind <| .look (fun s s' same => ?_) fun s => ?_
  case' refine_1 | refine_3 => rw [same.atKeyword]
  all_goals
    split
    · exact advance.bind fun _ => nameList.bind fun _ => expectSemicolon.bind fun _ => .done
    · refine expectKeyword.bind fun _ => .look (fun s s' same => by simp only [same.atKeyword]) fun s => ?_
      refine .ite (advance.bind fun _ => ?_) ?_
      all_goals
        refine .look (fun s s' same => by rw [same.at_]) fun s => .ite (advance.bind fun _ => .pure_bind ?_) (.pure_bind ?_)
        all_goals exact .ite .failExpected (expectSemicolon.bind fun _ => .done)

end Local

/-! ## Productions -/

namespace Grammar.Local

open Php.Local

variable {g g' : Grammar} (h : Grammar.Local w g g')

include h

/-! ### Parts -/

theorem anyExpr : Inner w g.anyExpr g'.anyExpr := h.expr _

theorem assignmentExpr : Inner w g.assignmentExpr g'.assignmentExpr := h.expr _

theorem exprList : Inner w g.exprList g'.exprList := commaList h.anyExpr

theorem initialValue : Inner w g.initialValue g'.initialValue := afterToken h.anyExpr

theorem statementsUntil (stops : List String) : Inner w (g.statementsUntil stops) (g'.statementsUntil stops) := by
  refine collect <| skipFillers.bind fun _ => leadingComments.bind fun _ => .look (fun s s' same => ?_) fun s =>
    .ite .done <| .ite .failExpected <| (h.stmt (Nat.le_refl 1)).bind fun _ => .done
  simp only [same.at_, same.atAnyKeyword, same.atEnd]

/-- Statements in braces end with the closing brace. -/
theorem block : Php.Local w (fun _ => n) 1 g.block g'.block := enclosedBy (h.statementsUntil _) nofun nofun

theorem arg : Inner w g.arg g'.arg := by
  refine .look (fun s s' same => by simp only [same.at_and_hasAt (k := .ellipsis) rfl]) fun s =>
    .ite (advance.bind fun _ => .done) <| tryToken.bind fun spread => .look (fun s s' same => ?_) fun s =>
    .ite ?named (h.anyExpr.bind fun _ => .done)
  · simp only [Bool.and_assoc, same.at_and_hasAt (k := .ident) rfl]
  case named => exact advance.bind fun _ => advance.bind fun _ => h.anyExpr.bind fun _ => .done

/-- Arguments end with the closing parenthesis. -/
theorem args : Php.Local w (fun _ => n) 1 g.args g'.args := enclosedBy (commaListUntil h.arg) nofun nofun

theorem optionalArgs : Inner w g.optionalArgs g'.optionalArgs :=
  .look (fun s s' same => by rw [same.at_]) fun s => .ite h.args .done

theorem param : Inner w g.param g'.param := by
  refine attributes.bind fun _ => (refine (fun m => .look (fun s s' same => by simp only [same.nextModifier?]) fun s => ?promotion)
    _).bind fun _ => ?_
  case promotion =>
    split
    · exact (addModifier _ _).bind fun _ => .done
    · exact .done
  refine .look (fun s s' same => by simp only [same.at_]) fun s => .ite (.pure_bind ?_) (typeHint.map.bind fun type => ?_)
  all_goals
    exact tryToken.bind fun _ => tryToken.bind fun _ => expectVariable.bind fun _ => h.initialValue.bind fun _ => .done

theorem params : Php.Local w (fun _ => n) 1 g.params g'.params := enclosedBy (commaListUntil h.param) nofun nofun

theorem definitions : Inner w g.definitions g'.definitions :=
  commaList <| expectIdent.bind fun _ => (expect .assign nofun).bind fun _ => h.anyExpr.bind fun _ => .done

theorem varItems : Inner w g.varItems g'.varItems :=
  commaList <| expectVariable.bind fun _ => h.initialValue.bind fun _ => .done

/-! ### Bodies of class-like declarations -/

omit h in
theorem traitUse : Inner w Parse.traitUse Parse.traitUse := by
  refine expectKeyword.bind fun _ => nameList.bind fun _ => tryToken.bind fun _ =>
    .ite ?rules (expectSemicolon.bind fun _ => .done)
  refine (collect (tryToken.bind fun _ => .ite .done ?rule)).bind fun _ => .done
  exact .look (fun s s' same => by rw [same.atEnd]) fun s => .ite .failExpected (adaptation.bind fun _ => .done)

theorem enumCase (doc : Option String) (attributes : List String) :
    Inner w (g.enumCase doc attributes) (g'.enumCase doc attributes) :=
  expectIdent.bind fun _ => h.initialValue.bind fun _ => expectSemicolon.bind fun _ => .done

theorem classConst (m : Modifiers) (doc : Option String) (attributes : List String) :
    Inner w (g.classConst m doc attributes) (g'.classConst m doc attributes) :=
  h.definitions.bind fun _ => expectSemicolon.bind fun _ => .done

theorem method (start : Nat) (m : Modifiers) (doc : Option String) (attributes : List String) :
    Inner w (g.method start m doc attributes) (g'.method start m doc attributes) := by
  refine tryToken.bind fun _ => expectIdent.bind fun _ => h.params.bind fun params => returnType.bind fun _ =>
    .look (fun s s' same => by rw [same.at_]) fun s => .ite ((h.block (n := 1)).map.bind fun body => ?_) ?_
  · exact .look_beside (fun s s' same => by rw [same.spanFrom]) fun s => .done
  · exact expectSemicolon.bind fun _ => .pure_bind <| .look_beside (fun s s' same => by rw [same.spanFrom]) fun s => .done

theorem property (start : Nat) (m : Modifiers) (doc : Option String) (attributes : List String) :
    Inner w (g.property start m doc attributes) (g'.property start m doc attributes) := by
  refine .look (fun s s' same => by rw [same.at_]) fun s => .ite (.pure_bind ?_) (typeHint.map.bind fun type => ?_)
  all_goals
    exact h.varItems.bind fun _ => .look (fun s s' same => by rw [same.at_]) fun s => .ite .failWith <|
      expectSemicolon.bind fun _ => .look_beside (fun s s' same => by rw [same.spanFrom]) fun s => .done

theorem member : Inner w g.member g'.member := by
  refine .look (fun s s' same => by rw [same.atKeyword]) fun s => .ite traitUse <|
    .look (fun s s' same => by rw [same.peek]) fun s => takeDoc.bind fun before => attributes.bind fun _ => ?_
  cases before
  case' some => refine .pure_bind ?_
  case' none => refine takeDoc.bind fun doc => ?_
  all_goals
    exact tryKeyword.bind fun _ => .ite (h.enumCase _ _) <| memberModifiers.bind fun _ =>
      tryKeyword.bind fun _ => .ite (h.classConst _ _ _) <| tryKeyword.bind fun _ =>
        .ite (h.method _ _ _ _) (h.property _ _ _ _)

/-- The members of a declaration end with the closing brace. -/
theorem members : Php.Local w (fun _ => n) 1 g.members g'.members := by
  refine enclosedBy (collect (takeComments.bind fun texts => .look (fun s s' same => ?_) fun s =>
    .ite (takeDoc.bind fun doc => ?_) (.pure_bind ?_))) nofun nofun
  · simp only [same.atKeyword, same.at_, same.atEnd]
  all_goals exact .ite .done <| .ite .failExpected <| h.member.bind fun _ => .done

/-! ### Operands -/

theorem parenthesized : Php.Local w (fun _ => n) 1 g.parenthesized g'.parenthesized := enclosedBy h.anyExpr nofun nofun

theorem inBraces : Php.Local w (fun _ => n) 1 g.inBraces g'.inBraces := enclosedBy h.anyExpr nofun nofun

theorem inBrackets : Php.Local w (fun _ => n) 1 (Parse.enclosedBy .openBracket .closeBracket g.anyExpr)
    (Parse.enclosedBy .openBracket .closeBracket g'.anyExpr) :=
  enclosedBy h.anyExpr nofun nofun

theorem arrayItem : Inner w g.arrayItem g'.arrayItem := by
  refine .look (fun s s' same => by rw [same.at_]) fun s => .ite .failWith <| tryToken.bind fun _ =>
    .ite (h.anyExpr.bind fun _ => .done) <| tryToken.bind fun _ => .ite (h.anyExpr.bind fun _ => .done) <|
    h.anyExpr.bind fun first => tryToken.bind fun _ => .ite ?_ .done
  exact tryToken.bind fun _ => h.anyExpr.bind fun _ => .done

theorem arrayItems (close : TokenKind) (ne : close ≠ .eof) : Inner w (g.arrayItems close) (g'.arrayItems close) :=
  (commaListUntil h.arrayItem).bind fun _ => (expect close ne).bind fun _ => .done

theorem closure (isStatic : Bool) : Inner w (g.closure isStatic) (g'.closure isStatic) :=
  expectKeyword.bind fun _ => tryToken.bind fun _ => h.params.bind fun _ => Php.Local.captures.bind fun _ => returnType.bind fun _ =>
    h.block.bind fun _ => .done

theorem arrowFn (isStatic : Bool) : Inner w (g.arrowFn isStatic) (g'.arrowFn isStatic) :=
  expectKeyword.bind fun _ => tryToken.bind fun _ => h.params.bind fun _ => returnType.bind fun _ =>
    (expect .fatArrow nofun).bind fun _ => h.assignmentExpr.bind fun _ => .done

theorem matchArm : Inner w g.matchArm g'.matchArm := by
  refine .look (fun s s' same => ?_) fun s => .ite ?default ?conditions
  · have default_ahead : (s'.atKeyword "default" && !s'.hasAt 1 .doubleColon) =
        (s.atKeyword "default" && !s.hasAt 1 .doubleColon) :=
      same.atKeyword_and fun ahead => by rw [same.hasAt_one ahead]
    simp only [default_ahead]
  case default =>
    exact advance.bind fun _ => tryToken.bind fun _ => .pure_bind <| (expect .fatArrow nofun).bind fun _ =>
      h.anyExpr.bind fun _ => .done
  case conditions =>
    exact (commaListUntil h.anyExpr).map.bind fun _ => (expect .fatArrow nofun).bind fun _ => h.anyExpr.bind fun _ => .done

theorem matchArms : Inner w (Parse.enclosedBy .openBrace .closeBrace (Parse.commaListUntil .closeBrace g.matchArm))
    (Parse.enclosedBy .openBrace .closeBrace (Parse.commaListUntil .closeBrace g'.matchArm)) :=
  enclosedBy (commaListUntil h.matchArm) nofun nofun

theorem matchExpr : Inner w g.matchExpr g'.matchExpr :=
  expectKeyword.bind fun _ => h.parenthesized.bind fun _ => h.matchArms.bind fun _ => .done

omit h in
theorem plainName {s s' : Stream} (ident : s.kind = .ident) :
    LocalAt w (fun _ => 1) 1 s s' Grammar.plainName Grammar.plainName := by
  refine .look (fun same => ?_) (.bind .advance fun _ => .ite .done .done)
  have ahead : s.kind.looksAhead = true := by rw [ident]; rfl
  simp only [same.hasAt_one ahead]

theorem identPrimary {s s' : Stream} (ident : s.kind = .ident) :
    LocalAt w (fun _ => 1) 1 s s' g.identPrimary g'.identPrimary := by
  refine .look (fun same => ?_) <| .ite (fun _ => ?literal) fun _ => .ite (fun _ => ?array) fun _ => .ite (fun _ => ?isset) fun _ =>
    .ite (fun _ => ?empty) fun _ => .ite (fun _ => ?exit) fun _ => .ite (fun _ => h.closure false s s') fun _ =>
    .ite (fun _ => h.arrowFn false s s') fun _ => .ite (fun _ => ?closure) fun _ => .ite (fun _ => ?arrowFn) fun _ =>
    .ite (fun _ => h.matchExpr s s') fun _ => .ite (fun _ => .failExpected) fun _ => plainName ident
  · have ahead : s.kind.looksAhead = true := by rw [ident]; rfl
    simp only [same.peek, same.hasAt_one ahead, same.keywordAt_one ahead]
  case literal => exact .bind .advance fun _ => .done
  case array => exact .bind .advance fun _ => advance.bind fun _ => (h.arrayItems .closeParen nofun).bind fun _ => .done
  case isset => exact .bind .advance fun _ => h.args.bind fun _ => .done
  case empty => exact .bind .advance fun _ => h.parenthesized.bind fun _ => .done
  case exit => exact .bind .advance fun _ => h.optionalArgs.bind fun _ => .done
  case closure => exact .bind .advance fun _ => h.closure true
  case arrowFn => exact .bind .advance fun _ => h.arrowFn true

theorem primaryExpr : Inner w g.primaryExpr g'.primaryExpr := by
  refine fun s s' => .look (fun same => by rw [same.kind]) ?_
  split
  case h_8 ident => exact h.identPrimary ident
  case h_5 => exact .bind .advance fun _ => (h.arrayItems .closeBracket nofun).bind fun _ => .done
  case h_6 => exact .bind (h.parenthesized s s') fun _ => .done
  case h_7 =>
    refine .bind .advance fun _ => .look (fun s s' same => by rw [same.kind]) fun s => ?_
    split
    · exact h.inBraces.bind fun _ => .done
    · exact h.primary.bind fun _ => .done
    · exact h.primary.bind fun _ => .done
    · exact .failExpected
  case h_9 => exact .failExpected
  all_goals exact .bind .advance fun _ => .done

theorem anonymousClass : Inner w g.anonymousClass g'.anonymousClass := by
  refine .look (fun s s' same => by rw [same.peek]) fun s => tryKeyword.bind fun _ => expectKeyword.bind fun _ =>
    h.optionalArgs.bind fun _ => parent.bind fun _ => interfaces.bind fun _ => (h.members (n := 1)).bind fun _ => ?_
  exact .look_beside (fun s s' same => by rw [same.spanFrom]) fun s => .done

theorem classAccess (cls : Expr) : Inner w (g.classAccess cls) (g'.classAccess cls) := by
  refine .look (fun s s' same => ?_) fun s => .ite ?_ <| .ite ?_ <| .ite ?_ .done
  · have arrow : ((s'.at_ .arrow || s'.at_ .nullsafeArrow) && s'.hasAt 1 .ident) =
        ((s.at_ .arrow || s.at_ .nullsafeArrow) && s.hasAt 1 .ident) := by
      simp only [Bool.and_or_distrib_right, same.at_and_hasAt (k := .arrow) rfl, same.at_and_hasAt (k := .nullsafeArrow) rfl]
    have doubleColon : (s'.at_ .doubleColon && s'.hasAt 1 .variable) = (s.at_ .doubleColon && s.hasAt 1 .variable) :=
      same.at_and_hasAt rfl _
    rw [arrow, doubleColon, same.at_ .openBracket, same.at_ .nullsafeArrow]
  · exact advance.bind fun _ => advance.bind fun _ => .done
  · exact advance.bind fun _ => advance.bind fun _ => .done
  · exact h.inBrackets.bind fun _ => .done

theorem classExpr : Inner w g.classExpr g'.classExpr := by
  refine .look (fun s s' same => by rw [same.kind]) fun s => ?_
  split
  · exact advance.bind fun _ => .done
  · exact advance.bind fun t => refine h.classAccess (.variable t.text)
  · exact h.parenthesized.bind fun _ => .done
  · exact .failExpected

theorem newExpr : Inner w g.newExpr g'.newExpr := by
  refine expectKeyword.bind fun _ => .look (fun s s' same => ?_) fun s => .ite h.anonymousClass <|
    h.classExpr.bind fun _ => h.optionalArgs.bind fun _ => .done
  have readonly_ahead : (s'.atKeyword "readonly" && s'.keywordAt 1 "class") =
      (s.atKeyword "readonly" && s.keywordAt 1 "class") :=
    same.atKeyword_and fun ahead => by rw [same.keywordAt_one ahead]
  simp only [same.atKeyword "class", readonly_ahead]

theorem memberName : Inner w g.memberName g'.memberName := by
  refine .look (fun s s' same => by rw [same.kind]) fun s => ?_
  split
  · exact advance.bind fun _ => .done
  · exact advance.bind fun _ => .done
  · exact h.inBraces.bind fun _ => .done
  · exact .failExpected

theorem staticMember (cls : Expr) : Inner w (g.staticMember cls) (g'.staticMember cls) := by
  refine .look (fun s s' same => by rw [same.kind]) fun s => ?_
  split
  · exact advance.bind fun _ => .look (fun s s' same => by rw [same.at_]) fun s => .ite (h.args.bind fun _ => .done) .done
  · exact advance.bind fun _ => .look (fun s s' same => by rw [same.at_]) fun s => .ite (h.args.bind fun _ => .done) .done
  · exact h.inBraces.bind fun _ => h.args.bind fun _ => .done
  · exact .failExpected

theorem arrowMember (object : Expr) (nullsafe : Bool) : Inner w (g.arrowMember object nullsafe) (g'.arrowMember object nullsafe) :=
  h.memberName.bind fun _ => .look (fun s s' same => by rw [same.at_]) fun s => .ite (h.args.bind fun _ => .done) .done

theorem access (e : Expr) : Inner w (g.access e) (g'.access e) := by
  refine .look (fun s s' same => by rw [same.kind]) fun s => ?_
  split
  · refine advance.bind fun _ => .look (fun s s' same => by rw [same.at_]) fun s =>
      .ite (.pure_bind ?_) (h.anyExpr.map.bind fun _ => ?_)
    all_goals exact (expect .closeBracket nofun).bind fun _ => .done
  · exact advance.bind fun _ => (h.arrowMember _ _).map
  · exact advance.bind fun _ => (h.arrowMember _ _).map
  · exact advance.bind fun _ => (h.staticMember _).map
  · exact h.args.bind fun _ => .done
  · exact advance.bind fun _ => .done
  · exact advance.bind fun _ => .done
  · exact .done

theorem accesses (e : Expr) : Inner w (g.accesses e) (g'.accesses e) := refine h.access e

/-! ### Operators -/

theorem yieldExpr : Inner w g.yieldExpr g'.yieldExpr := by
  refine expectKeyword.bind fun _ => tryKeyword.bind fun _ => .ite (h.assignmentExpr.bind fun _ => .done) <|
    .look (fun s s' same => by rw [same.kind]) fun s => .ite .done <|
    h.assignmentExpr.bind fun _ => tryToken.bind fun _ => .ite ?keyed .done
  exact h.assignmentExpr.bind fun _ => .done

theorem wordOperand : Inner w g.wordOperand g'.wordOperand := by
  refine .look (fun s s' same => by simp only [same.atKeyword, same.peek]) fun s => .ite h.newExpr <| .ite ?clone <|
    .ite ?print <| .ite ?throw <| .ite h.yieldExpr ?_
  case clone => exact advance.bind fun _ => h.operand.bind fun _ => .done
  case print => exact advance.bind fun _ => h.assignmentExpr.bind fun _ => .done
  case throw => exact advance.bind fun _ => h.assignmentExpr.bind fun _ => .done
  split
  · exact advance.bind fun _ => h.assignmentExpr.bind fun _ => .done
  · exact h.primary.bind fun e => h.accesses e

theorem operandExpr : Inner w g.operandExpr g'.operandExpr := by
  refine .look (fun s s' same => by rw [same.kind]) fun s => ?_
  split
  case h_7 => exact advance.bind fun _ => h.operand.bind fun _ => .done
  case h_8 => exact advance.bind fun _ => h.operand.bind fun _ => .done
  case h_9 => exact h.wordOperand
  case h_10 => exact h.primary.bind fun e => h.accesses e
  all_goals exact advance.bind fun _ => (h.expr _).bind fun _ => .done

theorem assignmentTo (target : Expr) : Inner w (g.assignmentTo target) (g'.assignmentTo target) := by
  refine .look (fun s s' same => by rw [same.kind]) fun s => ?_
  generalize (if target.isAssignable then AssignOp.ofKind? s.kind else none) = op
  cases op with
  | none => exact .done
  | some op =>
    refine advance.bind fun _ => .ite (tryToken.bind fun _ => .ite ?_ ?_) ?_
    all_goals exact h.assignmentExpr.bind fun _ => .done

theorem branches (cond : Expr) : Inner w (g.branches cond) (g'.branches cond) := by
  refine (expect .question nofun).bind fun _ => .look (fun s s' same => by rw [same.at_]) fun s =>
    .ite (.pure_bind ?_) (h.assignmentExpr.map.bind fun _ => ?_)
  all_goals exact (expect .colon nofun).bind fun _ => (h.expr _).bind fun _ => .done

theorem operator (least : Level) (left : Expr) : Inner w (g.operator least left) (g'.operator least left) := by
  refine .look (fun s s' same => by simp only [same.at_, same.atKeyword, same.peek]) fun s =>
    .ite (.ite .done (h.branches left).map) <| .ite (.ite .done ?instanceOf) ?_
  case instanceOf => exact advance.bind fun _ => h.operand.bind fun _ => .done
  split
  · exact .done
  · exact .ite .done <| advance.bind fun _ => (h.expr _).bind fun _ => .done

theorem operatorExpr (least : Level) : Inner w (g.operatorExpr least) (g'.operatorExpr least) :=
  h.operand.bind fun first => (h.assignmentTo first).bind fun left => refine (h.operator least) left

end Grammar.Local

end Codewright.Php
