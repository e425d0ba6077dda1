import Codewright.Php.Parser
import Codewright.Proofs.Php.Blindness

/-!
# Expressions and members without comments

No production of the grammar looks at a comment to decide what to read, as long as the readers it refers to do not.

* `Grammar.Blind` – the readers of the grammar do not see comments, and none of its statements is a comment;
* `Plain.typeHint`, `Plain.attributes`, … – what is read without making a tree;
* `Grammar.Blind.block`, … – one lemma for each production.
-/

namespace Codewright.Php

open Source

/-- Nothing that the reader gives is a comment itself. -/
abbrev NoComment {c : Category} (p : Parse (Node c)) : Prop := Gives p fun x => x.isCommentEntry = false

/-- The readers of the grammar do not see comments. -/
structure Grammar.Blind (g : Grammar) : Prop where
  expr (least : Level) : Php.Blind (g.expr least) (g.expr least) Node.bare
  operand : Php.Blind g.operand g.operand Node.bare
  primary : Php.Blind g.primary g.primary Node.bare
  stmt : Php.Blind g.stmt g.stmt Node.bare
  /-- Comments get among the statements by the lists of statements only. -/
  noComment : NoComment g.stmt

/-! ## Readers without trees -/

namespace Plain

open Parse

theorem typeAtomUpTo (n : Nat) : Plain (Parse.typeAtomUpTo n) := by
  induction n with
  | zero => exact .failWith _
  | succ n ih =>
    refine (Blind.tryToken _).bind fun _ => .ite Iff.rfl ?group ((Blind.expectIdent _).bind fun _ => .pure rfl)
    exact ih.bind fun _ => (ih.behind (.tryToken _)).bind fun _ => (Blind.expect _).bind fun _ => .pure rfl

theorem typeAtom : Plain Parse.typeAtom :=
  .get_bind fun s => typeAtomUpTo (s.unread + 1)

theorem tryIntersection : Plain Parse.tryIntersection :=
  .get_bind fun _ => .ite (by simp) (.tryToken _) (.pure rfl)

theorem typeHint : Plain Parse.typeHint := by
  refine (Blind.tryToken _).bind fun _ => .ite Iff.rfl (typeAtom.bind fun _ => .pure rfl) ?_
  refine typeAtom.bind fun _ => (typeAtom.behind (.tryToken _)).bind fun _ => .ite Iff.rfl ?_ (.pure rfl)
  exact (typeAtom.behind tryIntersection).bind fun _ => .ite Iff.rfl (.pure rfl) (.pure rfl)

theorem returnType : Plain Parse.returnType := typeHint.afterToken _

theorem nameList (what : String) : Plain (Parse.nameList what) := commaList (.expectIdent what)

theorem attributes : Plain Parse.attributes :=
  collect <| .get_bind fun _ => .ite (by simp) (Blind.advance.bind fun _ => .pure rfl) (.pure rfl)

theorem addModifier (m : Modifiers) (flag : Modifier) : Plain (Parse.addModifier m flag) :=
  .ite Iff.rfl (.failModifier _) <| .ite Iff.rfl (.failModifier _) <| Blind.advance.bind fun _ => .pure rfl

theorem parent : Plain Parse.parent := afterKeyword (.expectIdent _) _

theorem interfaces (word : String) : Plain (Parse.interfaces word) :=
  ((nameList _).afterKeyword word).bind fun _ => .pure rfl

theorem memberModifiers : Plain Parse.memberModifiers := by
  refine (refine (fun m => .get_bind fun s => ?_) _).bind fun _ => .ite Iff.rfl (.failModifier _) (.pure rfl)
  rw [s.nextModifier?_bare]
  split
  · exact (addModifier _ _).bind fun _ => .pure rfl
  · exact .ite (by simp) (Blind.advance.bind fun _ => .pure rfl) (.pure rfl)

theorem classModifiers : Plain Parse.classModifiers := by
  refine (refine (fun m => .get_bind fun s => ?_) _).bind fun _ => .ite Iff.rfl (.failModifier _) (.pure rfl)
  rw [s.nextModifier?_bare]
  split
  · exact .ite Iff.rfl (.failModifier _) (Blind.advance.bind fun _ => .pure rfl)
  · exact .pure rfl

theorem importRename : Plain Parse.importRename := afterKeyword (.expectIdent _) _

theorem importItems : Plain Parse.importItems := by
  refine (Blind.expectIdent _).bind fun _ => .get_bind fun s => .ite (by simp) ?group ?single
  case group =>
    refine Blind.advance.bind fun _ => .enclosedBy (commaListUntil ?_ _) _ _
    exact (Blind.expectIdent _).bind fun _ => importRename.bind fun _ => .pure rfl
  case single => exact importRename.bind fun _ => .pure rfl

theorem importKind : Plain Parse.importKind :=
  (Blind.tryKeyword _).bind fun _ => .ite Iff.rfl (.pure rfl) <|
    (Blind.tryKeyword _).bind fun _ => .ite Iff.rfl (.pure rfl) (.pure rfl)

theorem captures : Plain Grammar.captures := by
  refine (Blind.tryKeyword _).bind fun _ => .ite Iff.rfl (.enclosedBy (commaListUntil ?_ _) _ _) (.pure rfl)
  exact (Blind.tryToken _).bind fun _ => Blind.expectVariable.bind fun _ => .pure rfl

theorem adaptation : Plain Parse.adaptation := by
  refine (Blind.expectIdent _).bind fun first => (Blind.tryToken _).bind fun _ =>
    .ite Iff.rfl ((Blind.expectIdent _).bind fun _ => .pure_bind <| .get_bind fun s => ?_) <|
      .pure_bind <| .get_bind fun s => ?_
  all_goals
    rw [s.atKeyword_bare]
    split
    · exact Blind.advance.bind fun _ => (nameList _).bind fun _ => Blind.expectSemicolon.bind fun _ => .pure rfl
    · refine (Blind.expectKeyword _).bind fun _ => .get_bind fun s => ?_
      simp only [s.atKeyword_bare]
      refine .ite Iff.rfl (Blind.advance.bind fun _ => ?_) ?_
      all_goals
        refine .get_bind fun _ => .ite (by simp) (Blind.advance.bind fun _ => .pure_bind ?_) (.pure_bind ?_)
        all_goals exact .ite Iff.rfl (.failExpected _) (Blind.expectSemicolon.bind fun _ => .pure rfl)

end Plain

/-! ## Productions -/

namespace Grammar.Blind

open Parse

variable {g : Grammar} (h : g.Blind)

theorem leadingComments : Php.Blind Parse.leadingComments Parse.leadingComments Node.bares := by
  refine .bind .takeComments fun texts => .get_bind fun s =>
    .ite (by simp) (.pure_bind ?_) (.bind .takeDoc fun doc => ?_)
  all_goals exact .pure (by simp)

include h

/-! ### Parts -/

theorem anyExpr : Php.Blind g.anyExpr g.anyExpr Node.bare := h.expr _

theorem assignmentExpr : Php.Blind g.assignmentExpr g.assignmentExpr Node.bare := h.expr _

theorem exprList : Php.Blind g.exprList g.exprList (List.map Node.bare) := h.anyExpr.commaList

theorem initialValue : Php.Blind g.initialValue g.initialValue (Option.map Node.bare) := h.anyExpr.afterToken _

theorem statementsUntil (stops : List String) :
    Php.Blind (g.statementsUntil stops) (g.statementsUntil stops) Node.bares := by
  refine .collect Node.bares_append <| (Plain.skipAll _).bind fun _ => .bind leadingComments fun comments =>
    .get_bind fun s => .ite (by simp) (.pure rfl) <| .ite (by simp) (.failExpected _) ?_
  exact h.stmt.bind_of h.noComment fun x hx => .pure (by simp [Node.bares_singleton hx])

theorem block : Php.Blind g.block g.block Node.bares := (h.statementsUntil _).enclosedBy _ _

theorem arg : Php.Blind g.arg g.arg Node.bare := by
  refine .get_bind fun s => .ite (by simp) (Blind.advance.bind fun _ => .pure rfl) ?_
  refine (Blind.tryToken _).bind fun _ => .get_bind fun s => .ite (by simp) ?named (h.anyExpr.bind fun _ => .pure rfl)
  exact Blind.advance.bind fun _ => Blind.advance.bind fun _ => h.anyExpr.bind fun _ => .pure rfl

theorem args : Php.Blind g.args g.args (List.map Node.bare) := (h.arg.commaListUntil _).enclosedBy _ _

theorem optionalArgs : Php.Blind g.optionalArgs g.optionalArgs (List.map Node.bare) :=
  .get_bind fun _ => .ite (by simp) h.args (.pure rfl)

theorem param : Php.Blind g.param g.param Node.bare := by
  refine Plain.attributes.bind fun _ => (Plain.refine (fun m => .get_bind fun s => ?promotion) _).bind fun _ => ?_
  case promotion =>
    rw [s.nextModifier?_bare]
    split
    · exact (Plain.addModifier _ _).bind fun _ => .pure rfl
    · exact .pure rfl
  refine .get_bind fun s => .ite (by simp) (.pure_bind ?_) ((Plain.typeHint.map _).bind fun type => ?_)
  all_goals
    exact (Blind.tryToken _).bind fun _ => (Blind.tryToken _).bind fun _ => Blind.expectVariable.bind fun _ =>
      h.initialValue.bind fun _ => .pure (by simp)

theorem params : Php.Blind g.params g.params (List.map Node.bare) := (h.param.commaListUntil _).enclosedBy _ _

theorem definitions : Php.Blind g.definitions g.definitions (List.map Node.bare) :=
  .commaList <| (Blind.expectIdent _).bind fun _ => (Blind.expect _).bind fun _ => h.anyExpr.bind fun _ => .pure rfl

theorem varItems : Php.Blind g.varItems g.varItems (List.map Node.bare) :=
  .commaList <| Blind.expectVariable.bind fun _ => h.initialValue.bind fun _ => .pure (by simp)

/-! ### Bodies of class-like declarations -/

omit h in
theorem traitUse : Php.Blind Parse.traitUse Parse.traitUse Node.bare := by
  refine (Blind.expectKeyword _).bind fun _ => (Plain.nameList _).bind fun _ => (Blind.tryToken _).bind fun _ =>
    .ite Iff.rfl ?rules (Blind.expectSemicolon.bind fun _ => .pure rfl)
  refine (Plain.collect ((Blind.tryToken _).bind fun _ => .ite Iff.rfl (.pure rfl) ?rule)).bind fun _ => .pure rfl
  exact .get_bind fun s => .ite (by simp) (.failExpected _) (Plain.adaptation.bind fun _ => .pure rfl)

theorem enumCase (doc : Option String) (attributes : List String) :
    Php.Blind (g.enumCase doc attributes) (g.enumCase none attributes) Node.bare :=
  (Blind.expectIdent _).bind fun _ => h.initialValue.bind fun _ => Blind.expectSemicolon.bind fun _ => .pure (by simp)

theorem classConst (m : Modifiers) (doc : Option String) (attributes : List String) :
    Php.Blind (g.classConst m doc attributes) (g.classConst m none attributes) Node.bare :=
  h.definitions.bind fun _ => Blind.expectSemicolon.bind fun _ => .pure (by simp)

theorem method (start : Nat) (m : Modifiers) (doc : Option String) (attributes : List String) :
    Php.Blind (g.method start m doc attributes) (g.method start m none attributes) Node.bare := by
  refine (Blind.tryToken _).bind fun _ => (Blind.expectIdent _).bind fun _ => h.params.bind fun params =>
    Plain.returnType.bind fun _ => .get_bind fun s => .ite (by simp) (.bind h.block.map_some fun body => ?_) ?_
  · exact .get_bind fun _ => .pure (by simp)
  · exact Blind.expectSemicolon.bind fun _ => .pure_bind <| .get_bind fun _ => .pure (by simp)

theorem property (start : Nat) (m : Modifiers) (doc : Option String) (attributes : List String) :
    Php.Blind (g.property start m doc attributes) (g.property start m none attributes) Node.bare := by
  refine .get_bind fun s => .ite (by simp) (.pure_bind ?_) ((Plain.typeHint.map _).bind fun type => ?_)
  all_goals
    exact h.varItems.bind fun _ => .get_bind fun _ => .ite (by simp) (.failWith _) <|
      Blind.expectSemicolon.bind fun _ => .get_bind fun _ => .pure (by simp)

theorem member : Php.Blind g.member g.member Node.bare := by
  refine .get_bind fun s => .ite (by simp) traitUse <| .get_bind fun s => .bind .takeDoc fun before =>
    Plain.attributes.bind fun attributes => ?_
  rw [s.peek_bare, Token.span_bare]
  cases before
  case' some => refine .doc_bind ?_
  case' none => refine .bind .takeDoc fun doc => ?_
  all_goals
    exact (Blind.tryKeyword _).bind fun _ => .ite Iff.rfl (h.enumCase _ _) <| Plain.memberModifiers.bind fun _ =>
      (Blind.tryKeyword _).bind fun _ => .ite Iff.rfl (h.classConst _ _ _) <| (Blind.tryKeyword _).bind fun _ =>
        .ite Iff.rfl (h.method _ _ _ _) (h.property _ _ _ _)

omit h in
theorem member_noComment : NoComment g.member := by
  refine .bind fun s => .ite ?traitUse <| .bind fun s => .bind fun before => .bind fun attributes => ?_
  case traitUse =>
    refine .bind fun _ => .bind fun _ => .bind fun _ => .ite ?_ ?_
    all_goals exact .bind fun _ => .pure rfl
  cases before
  all_goals
    refine .bind fun doc => .bind fun _ => .ite ?case <| .bind fun _ => .bind fun _ => .ite ?const <|
      .bind fun _ => .ite ?method ?property
    case case => exact .bind fun _ => .bind fun _ => .bind fun _ => .pure rfl
    case const => exact .bind fun _ => .bind fun _ => .pure rfl
    case method =>
      refine .bind fun _ => .bind fun _ => .bind fun _ => .bind fun _ => .bind fun _ => .ite ?_ ?_
      · exact .bind fun _ => .bind fun _ => .pure rfl
      · exact .bind fun _ => .bind fun _ => .bind fun _ => .pure rfl
    case property =>
      refine .bind fun _ => .ite ?_ ?_
      all_goals
        refine .bind fun _ => .bind fun _ => .bind fun _ => .ite (fun _ => .failWith _) ?_
        exact .bind fun _ => .bind fun _ => .pure rfl

theorem members : Php.Blind g.members g.members Node.bares := by
  refine .enclosedBy (.collect Node.bares_append (.bind .takeComments fun texts => .get_bind fun s =>
    .ite (by simp) (.bind .takeDoc fun doc => ?_) (.pure_bind ?_))) _ _
  all_goals
    refine .ite (by simp) (.pure (by simp)) <| .ite (by simp) (.failExpected _) ?_
    exact h.member.bind_of member_noComment fun x hx => .pure (by simp [Node.bares_singleton hx])

/-! ### Operands -/

theorem parenthesized : Php.Blind g.parenthesized g.parenthesized Node.bare := h.anyExpr.enclosedBy _ _

theorem inBraces : Php.Blind g.inBraces g.inBraces Node.bare := h.anyExpr.enclosedBy _ _

theorem arrayItem : Php.Blind g.arrayItem g.arrayItem Node.bare := by
  refine .get_bind fun _ => .ite (by simp) (.failWith _) <| (Blind.tryToken _).bind fun _ =>
    .ite Iff.rfl (h.anyExpr.bind fun _ => .pure rfl) <| (Blind.tryToken _).bind fun _ =>
    .ite Iff.rfl (h.anyExpr.bind fun _ => .pure rfl) <| h.anyExpr.bind fun first => (Blind.tryToken _).bind fun _ =>
    .ite Iff.rfl ?_ (.pure rfl)
  exact (Blind.tryToken _).bind fun _ => h.anyExpr.bind fun _ => .pure rfl

theorem arrayItems (close : TokenKind) : Php.Blind (g.arrayItems close) (g.arrayItems close) Node.bare :=
  (h.arrayItem.commaListUntil _).bind fun _ => (Blind.expect _).bind fun _ => .pure (by simp)

theorem closure (isStatic : Bool) : Php.Blind (g.closure isStatic) (g.closure isStatic) Node.bare :=
  (Blind.expectKeyword _).bind fun _ => (Blind.tryToken _).bind fun _ => h.params.bind fun _ =>
    Plain.captures.bind fun _ => Plain.returnType.bind fun _ => h.block.bind fun _ => .pure (by simp)

theorem arrowFn (isStatic : Bool) : Php.Blind (g.arrowFn isStatic) (g.arrowFn isStatic) Node.bare :=
  (Blind.expectKeyword _).bind fun _ => (Blind.tryToken _).bind fun _ => h.params.bind fun _ =>
    Plain.returnType.bind fun _ => (Blind.expect _).bind fun _ => h.assignmentExpr.bind fun _ => .pure (by simp)

theorem matchArm : Php.Blind g.matchArm g.matchArm Node.bare := by
  refine .get_bind fun s => .ite (by simp) ?default ?conditions
  case default =>
    exact Blind.advance.bind fun _ => (Blind.tryToken _).bind fun _ => .pure_bind <|
      (Blind.expect _).bind fun _ => h.anyExpr.bind fun _ => .pure rfl
  case conditions =>
    exact .bind (h.anyExpr.commaListUntil _).map_some fun _ => (Blind.expect _).bind fun _ =>
      h.anyExpr.bind fun _ => .pure (by simp [Function.comp_def])

theorem matchExpr : Php.Blind g.matchExpr g.matchExpr Node.bare :=
  (Blind.expectKeyword _).bind fun _ => h.parenthesized.bind fun _ =>
    .bind ((h.matchArm.commaListUntil _).enclosedBy _ _) fun _ => .pure (by simp)

omit h in
theorem plainName : Php.Blind Grammar.plainName Grammar.plainName Node.bare :=
  .get_bind fun _ => Blind.advance.bind fun _ => .ite (by simp) (.pure rfl) (.pure rfl)

theorem identPrimary : Php.Blind g.identPrimary g.identPrimary Node.bare := by
  refine .get_bind fun s => ?_
  simp only [s.peek_bare, Token.text_bare, s.hasAt_bare, s.keywordAt_bare]
  refine .ite Iff.rfl ?literal <| .ite Iff.rfl ?array <| .ite Iff.rfl ?isset <| .ite Iff.rfl ?empty <|
    .ite Iff.rfl ?exit <| .ite Iff.rfl (h.closure false) <| .ite Iff.rfl (h.arrowFn false) <| .ite Iff.rfl ?closure <|
    .ite Iff.rfl ?arrowFn <| .ite Iff.rfl h.matchExpr <| .ite Iff.rfl (.failExpected _) plainName
  case literal => exact Blind.advance.bind fun _ => .pure rfl
  case array =>
    exact Blind.advance.bind fun _ => Blind.advance.bind fun _ => (h.arrayItems _).bind fun _ => .pure rfl
  case isset =>
    exact Blind.advance.bind fun _ => h.args.bind fun _ => .pure (by simp [Function.comp_def, Node.bare_argValue])
  case empty => exact Blind.advance.bind fun _ => h.parenthesized.bind fun _ => .pure rfl
  case exit => exact Blind.advance.bind fun _ => h.optionalArgs.bind fun _ => .pure (by simp)
  case closure => exact Blind.advance.bind fun _ => h.closure true
  case arrowFn => exact Blind.advance.bind fun _ => h.arrowFn true

theorem primaryExpr : Php.Blind g.primaryExpr g.primaryExpr Node.bare := by
  refine .get_bind fun s => ?_
  rw [s.kind_bare]
  split
  · exact Blind.advance.bind fun _ => .pure rfl
  · exact Blind.advance.bind fun _ => .pure rfl
  · exact Blind.advance.bind fun _ => .pure rfl
  · exact Blind.advance.bind fun _ => .pure rfl
  · exact Blind.advance.bind fun _ => (h.arrayItems _).bind fun _ => .pure rfl
  · exact h.parenthesized.bind fun _ => .pure rfl
  · refine Blind.advance.bind fun _ => .get_bind fun s => ?_
    rw [s.kind_bare]
    split
    · exact h.inBraces.bind fun _ => .pure rfl
    · exact h.primary.bind fun _ => .pure rfl
    · exact h.primary.bind fun _ => .pure rfl
    · exact .failExpected _
  · exact h.identPrimary
  · exact .failExpected _

theorem anonymousClass : Php.Blind g.anonymousClass g.anonymousClass Node.bare := by
  refine .get_bind fun s => ?_
  rw [s.peek_bare, Token.span_bare]
  exact (Blind.tryKeyword _).bind fun _ => (Blind.expectKeyword _).bind fun _ => h.optionalArgs.bind fun _ =>
    Plain.parent.bind fun _ => (Plain.interfaces _).bind fun _ => h.members.bind fun _ => .get_bind fun _ =>
    .pure (by simp)

theorem classAccess (cls : Expr) :
    Php.Blind (g.classAccess cls) (g.classAccess cls.bare) (Option.map Node.bare) := by
  refine .get_bind fun s => .ite (by simp) ?_ <| .ite (by simp) ?_ <| .ite (by simp) ?_ (.pure rfl)
  · rw [s.at_bare]
    exact Blind.advance.bind fun _ => Blind.advance.bind fun _ => .pure rfl
  · exact Blind.advance.bind fun _ => Blind.advance.bind fun _ => .pure rfl
  · exact .bind (h.anyExpr.enclosedBy _ _) fun _ => .pure rfl

theorem classExpr : Php.Blind g.classExpr g.classExpr Node.bare := by
  refine .get_bind fun s => ?_
  rw [s.kind_bare]
  split
  · exact Blind.advance.bind fun _ => .pure rfl
  · exact Blind.advance.bind fun t => .refine h.classAccess (.variable t.text)
  · exact h.parenthesized.bind fun _ => .pure rfl
  · exact .failExpected _

theorem newExpr : Php.Blind g.newExpr g.newExpr Node.bare :=
  (Blind.expectKeyword _).bind fun _ => .get_bind fun _ => .ite (by simp) h.anonymousClass <|
    h.classExpr.bind fun _ => h.optionalArgs.bind fun _ => .pure (by simp)

theorem memberName : Php.Blind g.memberName g.memberName Node.bare := by
  refine .get_bind fun s => ?_
  rw [s.kind_bare]
  split
  · exact Blind.advance.bind fun _ => .pure rfl
  · exact Blind.advance.bind fun _ => .pure rfl
  · exact h.inBraces.bind fun _ => .pure rfl
  · exact .failExpected _

theorem staticMember (cls : Expr) : Php.Blind (g.staticMember cls) (g.staticMember cls.bare) Node.bare := by
  refine .get_bind fun s => ?_
  rw [s.kind_bare]
  split
  · exact Blind.advance.bind fun _ => .get_bind fun _ =>
      .ite (by simp) (h.args.bind fun _ => .pure (by simp)) (.pure rfl)
  · exact Blind.advance.bind fun _ => .get_bind fun _ =>
      .ite (by simp) (h.args.bind fun _ => .pure (by simp)) (.pure rfl)
  · exact h.inBraces.bind fun _ => h.args.bind fun _ => .pure (by simp)
  · exact .failExpected _

theorem arrowMember (object : Expr) (nullsafe : Bool) :
    Php.Blind (g.arrowMember object nullsafe) (g.arrowMember object.bare nullsafe) Node.bare :=
  h.memberName.bind fun _ => .get_bind fun _ => .ite (by simp) (h.args.bind fun _ => .pure (by simp)) (.pure rfl)

theorem access (e : Expr) : Php.Blind (g.access e) (g.access e.bare) (Option.map Node.bare) := by
  refine .get_bind fun s => ?_
  rw [s.kind_bare]
  split
  · refine Blind.advance.bind fun _ =>
      .get_bind fun _ => .ite (by simp) (.pure_bind ?_) (.bind h.anyExpr.map_some fun _ => ?_)
    · exact (Blind.expect _).bind fun _ => .pure rfl
    · exact (Blind.expect _).bind fun _ => .pure (by simp)
  · exact Blind.advance.bind fun _ => (h.arrowMember _ _).map_some
  · exact Blind.advance.bind fun _ => (h.arrowMember _ _).map_some
  · exact Blind.advance.bind fun _ => (h.staticMember _).map_some
  · exact h.args.bind fun _ => .pure (by simp)
  · exact Blind.advance.bind fun _ => .pure rfl
  · exact Blind.advance.bind fun _ => .pure rfl
  · exact .pure rfl

theorem accesses (e : Expr) : Php.Blind (g.accesses e) (g.accesses e.bare) Node.bare := .refine h.access e

/-! ### Operators -/

theorem yieldExpr : Php.Blind g.yieldExpr g.yieldExpr Node.bare := by
  refine (Blind.expectKeyword _).bind fun _ => (Blind.tryKeyword _).bind fun _ =>
    .ite Iff.rfl (h.assignmentExpr.bind fun _ => .pure rfl) <| .get_bind fun _ => .ite (by simp) (.pure rfl) <|
    h.assignmentExpr.bind fun _ => (Blind.tryToken _).bind fun _ => .ite Iff.rfl ?keyed (.pure rfl)
  exact h.assignmentExpr.bind fun _ => .pure rfl

theorem wordOperand : Php.Blind g.wordOperand g.wordOperand Node.bare := by
  refine .get_bind fun s => .ite (by simp) h.newExpr <| .ite (by simp) ?clone <| .ite (by simp) ?print <|
    .ite (by simp) ?throw <| .ite (by simp) h.yieldExpr ?_
  case clone => exact Blind.advance.bind fun _ => h.operand.bind fun _ => .pure rfl
  case print => exact Blind.advance.bind fun _ => h.assignmentExpr.bind fun _ => .pure rfl
  case throw => exact Blind.advance.bind fun _ => h.assignmentExpr.bind fun _ => .pure rfl
  rw [s.peek_bare, Token.text_bare]
  split
  · exact Blind.advance.bind fun _ => h.assignmentExpr.bind fun _ => .pure rfl
  · exact h.primary.bind fun e => h.accesses e

theorem operandExpr : Php.Blind g.operandExpr g.operandExpr Node.bare := by
  refine .get_bind fun s => ?_
  rw [s.kind_bare]
  split
  all_goals try exact Blind.advance.bind fun _ => (h.expr _).bind fun _ => .pure rfl
  case h_7 => exact Blind.advance.bind fun _ => h.operand.bind fun _ => .pure rfl
  case h_8 => exact Blind.advance.bind fun _ => h.operand.bind fun _ => .pure rfl
  case h_9 => exact h.wordOperand
  case h_10 => exact h.primary.bind fun e => h.accesses e

theorem assignmentTo (target : Expr) : Php.Blind (g.assignmentTo target) (g.assignmentTo target.bare) Node.bare := by
  refine .get_bind fun s => ?_
  rw [s.kind_bare, Node.isAssignable_bare]
  generalize (if target.isAssignable then AssignOp.ofKind? s.kind else none) = op
  cases op with
  | none => exact .pure rfl
  | some op =>
    refine Blind.advance.bind fun _ => .ite Iff.rfl ((Blind.tryToken _).bind fun _ => .ite Iff.rfl ?_ ?_) ?_
    all_goals exact h.assignmentExpr.bind fun _ => .pure rfl

theorem branches (cond : Expr) : Php.Blind (g.branches cond) (g.branches cond.bare) Node.bare := by
  refine (Blind.expect _).bind fun _ => .get_bind fun s =>
    .ite (by simp) (.pure_bind ?_) (.bind h.assignmentExpr.map_some fun _ => ?_)
  all_goals exact (Blind.expect _).bind fun _ => (h.expr _).bind fun _ => .pure (by simp)

theorem operator (least : Level) (left : Expr) :
    Php.Blind (g.operator least left) (g.operator least left.bare) (Option.map Node.bare) := by
  refine .get_bind fun s => .ite (by simp) (.ite Iff.rfl (.pure rfl) (h.branches left).map_some) <|
    .ite (by simp) (.ite Iff.rfl (.pure rfl) ?instanceOf) ?_
  case instanceOf =>
    exact Blind.advance.bind fun _ => h.operand.bind fun _ => .pure (by simp [Node.bare_asClass])
  rw [s.peek_bare, BinaryOp.ofToken?_bare]
  split
  · exact .pure rfl
  · exact .ite Iff.rfl (.pure rfl) <| Blind.advance.bind fun _ => (h.expr _).bind fun _ => .pure rfl

theorem operatorExpr (least : Level) : Php.Blind (g.operatorExpr least) (g.operatorExpr least) Node.bare :=
  h.operand.bind fun first => (h.assignmentTo first).bind fun left => .refine (h.operator least) left

end Grammar.Blind

end Codewright.Php
