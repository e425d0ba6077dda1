import Codewright.Php.Parser
import Codewright.Proofs.Php.Comments

/-!
# Comments in expressions and members

No production of the grammar loses a comment or makes one, as long as the readers it refers to do not. Comments that no
declaration takes as its doc comment stay pending until the list of statements or members around them goes on.

* `Grammar.Conserving` – the readers of the grammar neither lose comments nor make them;
* `Silent.typeHint`, `Silent.attributes`, … – what is read without making a tree;
* `Grammar.Conserving.block`, … – one lemma for each production.
-/

namespace Codewright.Php

open Source

/-- The readers of the grammar neither lose comments nor make them. -/
structure Grammar.Conserving (g : Grammar) : Prop where
  expr (least : Level) : Conserves 0 (g.expr least) Node.comments
  operand : Conserves 0 g.operand Node.comments
  primary : Conserves 0 g.primary Node.comments
  stmt : Conserves 0 g.stmt Node.comments

/-! ## Readers without trees -/

namespace Silent

open Parse

theorem typeAtomUpTo (n : Nat) : Silent (Parse.typeAtomUpTo n) := by
  induction n with
  | zero => exact .failWith _
  | succ n ih =>
    refine (Conserves.tryToken _).bind fun _ => .ite ?group ?name
    case group =>
      refine ih.bind fun _ => Silent.bind ((ih.behind (.tryToken _)).congr fun _ => by simp) fun _ => ?_
      exact (Conserves.expect _).bind fun _ => .pure rfl
    case name => exact (Conserves.expectIdent _).bind fun _ => .pure rfl

theorem typeAtom : Silent Parse.typeAtom :=
  .get_bind fun s => typeAtomUpTo (s.unread + 1)

theorem tryIntersection : Silent Parse.tryIntersection :=
  .get_bind fun _ => .ite (.tryToken _) (.pure rfl)

/-- Items read by a silent reader behind separators. -/
theorem behind {α : Type} {p : Parse α} {separator : Parse Bool} (hp : Silent p) (hs : Silent separator) :
    Silent (Parse.behind separator p) :=
  (Conserves.behind hp hs).congr fun _ => by simp

theorem commaList {α : Type} {p : Parse α} (hp : Silent p) : Silent (Parse.commaList p) :=
  (Conserves.commaList hp).congr fun _ => by simp

theorem commaListUntil {α : Type} {p : Parse α} (hp : Silent p) (close : TokenKind) :
    Silent (Parse.commaListUntil close p) :=
  (Conserves.commaListUntil hp close).congr fun _ => by simp

theorem collect {α : Type} {step : Parse (List α × Bool)} (h : Silent step) : Silent (Parse.collect step) := by
  have round : Conserves 0 step fun r => total (fun _ => 0) r.1 := h.congr fun _ => total_zero _
  exact (Conserves.collect round).congr fun _ => (total_zero _).symm

theorem afterKeyword {α : Type} {p : Parse α} (hp : Silent p) (word : String) : Silent (Parse.afterKeyword word p) :=
  (Conserves.afterKeyword hp word).congr fun _ => by simp

theorem afterToken {α : Type} {p : Parse α} (hp : Silent p) (k : TokenKind) : Silent (Parse.afterToken k p) :=
  (Conserves.afterToken hp k).congr fun _ => by simp

theorem typeHint : Silent Parse.typeHint := by
  refine (Conserves.tryToken _).bind fun _ => .ite (typeAtom.bind fun _ => .pure rfl) ?_
  refine typeAtom.bind fun _ => (typeAtom.behind (.tryToken _)).bind fun _ => .ite ?_ (.pure rfl)
  exact (typeAtom.behind tryIntersection).bind fun _ => .ite (.pure rfl) (.pure rfl)

theorem returnType : Silent Parse.returnType := typeHint.afterToken _

theorem nameList (what : String) : Silent (Parse.nameList what) := commaList (.expectIdent what)

theorem attributes : Silent Parse.attributes :=
  collect <| .get_bind fun _ => .ite (Conserves.advance.bind fun _ => .pure rfl) (.pure rfl)

theorem failModifier {α : Type} (reason : String) : Silent (Parse.failModifier (α := α) reason) :=
  .get_bind fun _ => .failWith _

theorem addModifier (m : Modifiers) (flag : Modifier) : Silent (Parse.addModifier m flag) :=
  .ite (failModifier _) <| .ite (failModifier _) <| Conserves.advance.bind fun _ => .pure rfl

theorem parent : Silent Parse.parent := afterKeyword (.expectIdent _) _

theorem interfaces (word : String) : Silent (Parse.interfaces word) :=
  ((nameList _).afterKeyword word).bind fun _ => .pure rfl

theorem memberModifiers : Silent Parse.memberModifiers := by
  refine Silent.bind (.refine (fun m => .get_bind fun s => ?_) _) fun _ => .ite (failModifier _) (.pure rfl)
  split
  · exact (addModifier _ _).bind fun _ => .pure rfl
  · exact .ite (Conserves.advance.bind fun _ => .pure rfl) (.pure rfl)

theorem classModifiers : Silent Parse.classModifiers := by
  refine Silent.bind (.refine (fun m => .get_bind fun s => ?_) _) fun _ => .ite (failModifier _) (.pure rfl)
  split
  · exact .ite (failModifier _) (Conserves.advance.bind fun _ => .pure rfl)
  · exact .pure rfl

theorem importRename : Silent Parse.importRename := afterKeyword (.expectIdent _) _

theorem importItems : Silent Parse.importItems := by
  refine (Conserves.expectIdent _).bind fun _ => .get_bind fun s => .ite ?group ?single
  case group =>
    refine Conserves.advance.bind fun _ => .enclosedBy (commaListUntil ?_ _) _ _
    exact (Conserves.expectIdent _).bind fun _ => importRename.bind fun _ => .pure rfl
  case single => exact importRename.bind fun _ => .pure rfl

theorem importKind : Silent Parse.importKind :=
  (Conserves.tryKeyword _).bind fun _ => .ite (.pure rfl) <|
    (Conserves.tryKeyword _).bind fun _ => .ite (.pure rfl) (.pure rfl)

theorem captures : Silent Grammar.captures := by
  refine (Conserves.tryKeyword _).bind fun _ => .ite (.enclosedBy (commaListUntil ?_ _) _ _) (.pure rfl)
  exact (Conserves.tryToken _).bind fun _ => Conserves.expectVariable.bind fun _ => .pure rfl

theorem adaptation : Silent Parse.adaptation := by
  refine (Conserves.expectIdent _).bind fun first => (Conserves.tryToken _).bind fun _ =>
    .ite ((Conserves.expectIdent _).bind fun _ => .pure_bind <| .get_bind fun _ => ?_) <|
      .pure_bind <| .get_bind fun _ => ?_
  all_goals
    split
    · exact Conserves.advance.bind fun _ => (nameList _).bind fun _ => Conserves.expectSemicolon.bind fun _ => .pure rfl
    · refine (Conserves.expectKeyword _).bind fun _ => .get_bind fun s => .ite (Conserves.advance.bind fun _ => ?_) ?_
      all_goals
        refine .get_bind fun _ => .ite (Conserves.advance.bind fun _ => .pure_bind ?_) (.pure_bind ?_)
        all_goals exact .ite (.failExpected _) (Conserves.expectSemicolon.bind fun _ => .pure rfl)

end Silent

/-! ## Productions -/

theorem Node.comments_asClass (e : Expr) : e.asClass.comments = e.comments := by
  cases e <;> rfl

namespace Grammar.Conserving

open Parse

variable {g : Grammar} (h : g.Conserving)

theorem leadingComments : Conserves 0 Parse.leadingComments (total Node.comments) := by
  refine .bind .takeComments fun texts => .get_bind fun s => .ite (.pure_bind ?_) (.bind .takeDoc fun doc => ?_)
  · exact .pure (by simp)
  · exact .pure (by simp [docComments])

include h

/-! ### Parts -/

theorem anyExpr : Conserves 0 g.anyExpr Node.comments := h.expr _

theorem assignmentExpr : Conserves 0 g.assignmentExpr Node.comments := h.expr _

theorem exprList : Conserves 0 g.exprList (total Node.comments) := h.anyExpr.commaList

theorem initialValue : Conserves 0 g.initialValue (perhaps Node.comments) := h.anyExpr.afterToken _

theorem statementsUntil (stops : List String) : Conserves 0 (g.statementsUntil stops) (total Node.comments) := by
  refine .collect <| (Conserves.skipAll _).bind fun _ => .bind leadingComments fun comments => .get_bind fun s => ?_
  exact .ite (.pure (by simp)) <| .ite (.failExpected _) <| h.stmt.bind fun stmt => .pure (by simp)

theorem block : Conserves 0 g.block (total Node.comments) := (h.statementsUntil _).enclosedBy _ _

theorem arg : Conserves 0 g.arg Node.comments := by
  refine .get_bind fun s => .ite (Conserves.advance.bind fun _ => .pure rfl) ?_
  refine (Conserves.tryToken _).bind fun _ => .get_bind fun s => .ite ?named (h.anyExpr.bind fun e => .pure (by simp))
  exact Conserves.advance.bind fun _ => Conserves.advance.bind fun _ => h.anyExpr.bind fun e => .pure (by simp)

theorem args : Conserves 0 g.args (total Node.comments) := (h.arg.commaListUntil _).enclosedBy _ _

theorem optionalArgs : Conserves 0 g.optionalArgs (total Node.comments) :=
  .get_bind fun _ => .ite h.args (.pure rfl)

theorem param : Conserves 0 g.param Node.comments := by
  refine Silent.attributes.bind fun _ => Silent.bind (.refine (fun m => .get_bind fun s => ?promotion) _) fun _ => ?_
  case promotion =>
    split
    · exact (Silent.addModifier _ _).bind fun _ => .pure rfl
    · exact .pure rfl
  have afterType (type : Option TypeHint) (m : Modifiers) (attributes : List String) : Conserves 0 (do
      let byRef ← tryToken .amp
      let variadic ← tryToken .ellipsis
      let name ← expectVariable
      let default ← g.initialValue
      return Node.param ⟨name, type, byRef, variadic, m, attributes⟩ (.ofOption default)) Node.comments :=
    (Conserves.tryToken _).bind fun _ => (Conserves.tryToken _).bind fun _ => Conserves.expectVariable.bind fun _ =>
      h.initialValue.bind fun _ => .pure (by simp)
  refine .get_bind fun s => .ite (.pure_bind (afterType _ _ _)) ?_
  exact Silent.bind (.map Silent.typeHint) fun type => afterType _ _ _

theorem params : Conserves 0 g.params (total Node.comments) := (h.param.commaListUntil _).enclosedBy _ _

theorem definitions : Conserves 0 g.definitions (total Node.comments) :=
  .commaList <| (Conserves.expectIdent _).bind fun _ => (Conserves.expect _).bind fun _ =>
    h.anyExpr.bind fun _ => .pure (by simp)

theorem varItems : Conserves 0 g.varItems (total Node.comments) :=
  .commaList <| Conserves.expectVariable.bind fun _ => h.initialValue.bind fun _ => .pure (by simp)

/-! ### Bodies of class-like declarations -/

omit h in
theorem traitUse : Conserves 0 Parse.traitUse Node.comments := by
  refine (Conserves.expectKeyword _).bind fun _ => (Silent.nameList _).bind fun _ =>
    (Conserves.tryToken _).bind fun _ => .ite ?rules (Conserves.expectSemicolon.bind fun _ => .pure rfl)
  refine Silent.bind (.collect ((Conserves.tryToken _).bind fun _ => .ite (.pure rfl) ?rule)) fun _ => .pure rfl
  exact .get_bind fun s => .ite (.failExpected _) (Silent.adaptation.bind fun _ => .pure rfl)

theorem enumCase (doc : Option String) (attributes : List String) :
    Conserves (docComments doc) (g.enumCase doc attributes) Node.comments :=
  (Conserves.expectIdent _).bind fun _ => h.initialValue.bind fun _ => Conserves.expectSemicolon.bind fun _ =>
    .pure (by simp)

theorem classConst (m : Modifiers) (doc : Option String) (attributes : List String) :
    Conserves (docComments doc) (g.classConst m doc attributes) Node.comments :=
  h.definitions.bind fun _ => Conserves.expectSemicolon.bind fun _ => .pure (by simp)

theorem method (start : Nat) (m : Modifiers) (doc : Option String) (attributes : List String) :
    Conserves (docComments doc) (g.method start m doc attributes) Node.comments := by
  refine (Conserves.tryToken _).bind fun _ => (Conserves.expectIdent _).bind fun _ => h.params.bind fun params =>
    Silent.returnType.bind fun _ => .get_bind fun s => .ite (.bind h.block.map_some fun body => ?_) ?_
  · exact .get_bind fun _ => .pure (by simp [add_assoc])
  · exact Conserves.expectSemicolon.bind fun _ => .pure_bind <| .get_bind fun _ => .pure (by simp)

theorem property (start : Nat) (m : Modifiers) (doc : Option String) (attributes : List String) :
    Conserves (docComments doc) (g.property start m doc attributes) Node.comments := by
  have afterType (type : Option TypeHint) : Conserves (docComments doc) (do
      let items ← g.varItems
      if (← get).at_ .openBrace then failUnsupported "property hooks"
      else
        expectSemicolon
        let span := (← get).spanFrom start
        return Node.property ⟨m, type, doc, attributes, span⟩ (.ofList items)) Node.comments :=
    h.varItems.bind fun _ => .get_bind fun _ => .ite (.failWith _) <|
      Conserves.expectSemicolon.bind fun _ => .get_bind fun _ => .pure (by simp)
  exact .get_bind fun s => .ite (.pure_bind (afterType _)) (Silent.bind (.map Silent.typeHint) fun _ => afterType _)

theorem member : Conserves 0 g.member Node.comments := by
  refine .get_bind fun s => .ite traitUse <| .get_bind fun s => .bind .takeDoc fun before =>
    Silent.attributes.bind fun attributes => ?_
  have afterDoc (doc : Option String) : Conserves (docComments doc) (do
      if ← tryKeyword "case" then g.enumCase doc attributes
      else
        let modifiers ← memberModifiers
        if ← tryKeyword "const" then g.classConst modifiers doc attributes
        else if ← tryKeyword "function" then g.method s.peek.span.start modifiers doc attributes
        else g.property s.peek.span.start modifiers doc attributes) Node.comments :=
    (Conserves.tryKeyword _).bind fun _ => .ite (h.enumCase _ _) <| Silent.memberModifiers.bind fun _ =>
      (Conserves.tryKeyword _).bind fun _ => .ite (h.classConst _ _ _) <| (Conserves.tryKeyword _).bind fun _ =>
        .ite (h.method _ _ _ _) (h.property _ _ _ _)
  cases before with
  | some doc => exact .pure_bind (by simpa using afterDoc (some doc))
  | none => exact .bind .takeDoc fun doc => by simpa using afterDoc doc

theorem members : Conserves 0 g.members (total Node.comments) := by
  refine .enclosedBy (.collect (.bind .takeComments fun texts => .get_bind fun s =>
    .ite (.bind .takeDoc fun doc => ?_) (.pure_bind ?_))) _ _
  all_goals
    exact .ite (.pure (by simp [docComments])) <| .ite (.failExpected _) <| h.member.bind fun _ =>
      .pure (by simp [docComments, ← add_assoc])

/-! ### Operands -/

theorem parenthesized : Conserves 0 g.parenthesized Node.comments := h.anyExpr.enclosedBy _ _

theorem inBraces : Conserves 0 g.inBraces Node.comments := h.anyExpr.enclosedBy _ _

theorem arrayItem : Conserves 0 g.arrayItem Node.comments := by
  refine .get_bind fun _ => .ite (.failWith _) <| (Conserves.tryToken _).bind fun _ =>
    .ite (h.anyExpr.bind fun _ => .pure (by simp)) <| (Conserves.tryToken _).bind fun _ =>
    .ite (h.anyExpr.bind fun _ => .pure (by simp)) <| h.anyExpr.bind fun first => (Conserves.tryToken _).bind fun _ =>
    .ite ?_ (.pure (by simp))
  exact (Conserves.tryToken _).bind fun _ => h.anyExpr.bind fun _ => .pure (by simp)

theorem arrayItems (close : TokenKind) : Conserves 0 (g.arrayItems close) Node.comments :=
  (h.arrayItem.commaListUntil _).bind fun _ => (Conserves.expect _).bind fun _ => .pure (by simp)

theorem closure (isStatic : Bool) : Conserves 0 (g.closure isStatic) Node.comments :=
  (Conserves.expectKeyword _).bind fun _ => (Conserves.tryToken _).bind fun _ => h.params.bind fun _ =>
    Silent.captures.bind fun _ => Silent.returnType.bind fun _ => h.block.bind fun _ => .pure (by simp)

theorem arrowFn (isStatic : Bool) : Conserves 0 (g.arrowFn isStatic) Node.comments :=
  (Conserves.expectKeyword _).bind fun _ => (Conserves.tryToken _).bind fun _ => h.params.bind fun _ =>
    Silent.returnType.bind fun _ => (Conserves.expect _).bind fun _ => h.assignmentExpr.bind fun _ => .pure (by simp)

theorem matchArm : Conserves 0 g.matchArm Node.comments := by
  refine .get_bind fun s => .ite ?default ?conditions
  case default =>
    exact Conserves.advance.bind fun _ => (Conserves.tryToken _).bind fun _ => .pure_bind <|
      (Conserves.expect _).bind fun _ => h.anyExpr.bind fun _ => .pure (by simp)
  case conditions =>
    exact .bind (h.anyExpr.commaListUntil _).map_some fun _ => (Conserves.expect _).bind fun _ =>
      h.anyExpr.bind fun _ => .pure (by simp)

theorem matchExpr : Conserves 0 g.matchExpr Node.comments :=
  (Conserves.expectKeyword _).bind fun _ => h.parenthesized.bind fun _ =>
    .bind ((h.matchArm.commaListUntil _).enclosedBy _ _) fun _ => .pure (by simp)

omit h in
theorem plainName : Conserves 0 Grammar.plainName Node.comments :=
  .get_bind fun _ => Conserves.advance.bind fun _ => .ite (.pure rfl) (.pure rfl)

theorem identPrimary : Conserves 0 g.identPrimary Node.comments := by
  refine .get_bind fun s => .ite ?literal <| .ite ?array <| .ite ?isset <| .ite ?empty <| .ite ?exit <|
    .ite (h.closure false) <| .ite (h.arrowFn false) <| .ite ?closure <| .ite ?arrowFn <| .ite h.matchExpr <|
    .ite (.failExpected _) plainName
  case literal => exact Conserves.advance.bind fun _ => .pure (by simp)
  case array =>
    exact Conserves.advance.bind fun _ => Conserves.advance.bind fun _ => (h.arrayItems _).bind fun _ => .pure (by simp)
  case isset =>
    have value (a : Node .arg) : a.argValue.comments = a.comments := by
      cases a
      rfl
    exact Conserves.advance.bind fun _ => h.args.bind fun _ => .pure (by simp [total_map, value])
  case empty => exact Conserves.advance.bind fun _ => h.parenthesized.bind fun _ => .pure (by simp)
  case exit => exact Conserves.advance.bind fun _ => h.optionalArgs.bind fun _ => .pure (by simp)
  case closure => exact Conserves.advance.bind fun _ => h.closure true
  case arrowFn => exact Conserves.advance.bind fun _ => h.arrowFn true

theorem primaryExpr : Conserves 0 g.primaryExpr Node.comments := by
  refine .get_bind fun s => ?_
  split
  · exact Conserves.advance.bind fun _ => .pure rfl
  · exact Conserves.advance.bind fun _ => .pure rfl
  · exact Conserves.advance.bind fun _ => .pure rfl
  · exact Conserves.advance.bind fun _ => .pure rfl
  · exact Conserves.advance.bind fun _ => (h.arrayItems _).bind fun _ => .pure (by simp)
  · exact h.parenthesized.bind fun _ => .pure (by simp)
  · refine Conserves.advance.bind fun _ => .get_bind fun s => ?_
    split
    · exact h.inBraces.bind fun _ => .pure (by simp)
    · exact h.primary.bind fun _ => .pure (by simp)
    · exact h.primary.bind fun _ => .pure (by simp)
    · exact .failExpected _
  · exact h.identPrimary
  · exact .failExpected _

theorem anonymousClass : Conserves 0 g.anonymousClass Node.comments :=
  .get_bind fun _ => (Conserves.tryKeyword _).bind fun _ => (Conserves.expectKeyword _).bind fun _ =>
    h.optionalArgs.bind fun _ => Silent.parent.bind fun _ => (Silent.interfaces _).bind fun _ =>
    h.members.bind fun _ => .get_bind fun _ => .pure (by simp)

theorem classAccess (cls : Expr) :
    Conserves cls.comments (g.classAccess cls) fun r => (r.getD cls).comments := by
  refine .get_bind fun s => .ite ?_ <| .ite ?_ <| .ite ?_ (.pure rfl)
  · exact Conserves.advance.bind fun _ => Conserves.advance.bind fun _ => .pure (by simp)
  · exact Conserves.advance.bind fun _ => Conserves.advance.bind fun _ => .pure (by simp)
  · exact .bind (h.anyExpr.enclosedBy _ _) fun _ => .pure (by simp)

theorem classExpr : Conserves 0 g.classExpr Node.comments := by
  refine .get_bind fun s => ?_
  split
  · exact Conserves.advance.bind fun _ => .pure rfl
  · exact Conserves.advance.bind fun t => .refine h.classAccess (.variable t.text)
  · exact h.parenthesized.bind fun _ => .pure (by simp)
  · exact .failExpected _

theorem newExpr : Conserves 0 g.newExpr Node.comments :=
  (Conserves.expectKeyword _).bind fun _ => .get_bind fun _ => .ite h.anonymousClass <|
    h.classExpr.bind fun _ => h.optionalArgs.bind fun _ => .pure (by simp)

theorem memberName : Conserves 0 g.memberName Node.comments := by
  refine .get_bind fun s => ?_
  split
  · exact Conserves.advance.bind fun _ => .pure rfl
  · exact Conserves.advance.bind fun _ => .pure rfl
  · exact h.inBraces.bind fun _ => .pure (by simp)
  · exact .failExpected _

theorem staticMember (cls : Expr) : Conserves cls.comments (g.staticMember cls) Node.comments := by
  refine .get_bind fun s => ?_
  split
  · exact Conserves.advance.bind fun _ => .get_bind fun _ => .ite (h.args.bind fun _ => .pure (by simp)) (.pure rfl)
  · exact Conserves.advance.bind fun _ => .get_bind fun _ => .ite (h.args.bind fun _ => .pure (by simp)) (.pure rfl)
  · exact h.inBraces.bind fun _ => h.args.bind fun _ => .pure (by simp)
  · exact .failExpected _

theorem arrowMember (object : Expr) (nullsafe : Bool) :
    Conserves object.comments (g.arrowMember object nullsafe) Node.comments :=
  h.memberName.bind fun _ => .get_bind fun _ => .ite (h.args.bind fun _ => .pure (by simp)) (.pure (by simp))

/-- An access takes in the comments of what it is an access to. -/
theorem access (e : Expr) : Conserves e.comments (g.access e) fun r => (r.getD e).comments := by
  refine .get_bind fun s => ?_
  split
  · refine Conserves.advance.bind fun _ =>
      .get_bind fun _ => .ite (.pure_bind ?_) (.bind h.anyExpr.map_some fun _ => ?_)
    · exact (Conserves.expect _).bind fun _ => .pure (by simp)
    · exact (Conserves.expect _).bind fun _ => .pure (by simp)
  · exact Conserves.advance.bind fun _ => .map (h.arrowMember _ _)
  · exact Conserves.advance.bind fun _ => .map (h.arrowMember _ _)
  · exact Conserves.advance.bind fun _ => .map (h.staticMember _)
  · exact h.args.bind fun _ => .pure (by simp)
  · exact Conserves.advance.bind fun _ => .pure (by simp)
  · exact Conserves.advance.bind fun _ => .pure (by simp)
  · exact .pure rfl

theorem accesses (e : Expr) : Conserves e.comments (g.accesses e) Node.comments := .refine h.access e

/-! ### Operators -/

theorem yieldExpr : Conserves 0 g.yieldExpr Node.comments := by
  refine (Conserves.expectKeyword _).bind fun _ => (Conserves.tryKeyword _).bind fun _ =>
    .ite (h.assignmentExpr.bind fun _ => .pure (by simp)) <| .get_bind fun _ => .ite (.pure (by simp)) <|
    h.assignmentExpr.bind fun _ => (Conserves.tryToken _).bind fun _ => .ite ?keyed (.pure (by simp))
  exact h.assignmentExpr.bind fun _ => .pure (by simp)

theorem wordOperand : Conserves 0 g.wordOperand Node.comments := by
  refine .get_bind fun s => .ite h.newExpr <| .ite ?clone <| .ite ?print <| .ite ?throw <| .ite h.yieldExpr ?_
  case clone => exact Conserves.advance.bind fun _ => h.operand.bind fun _ => .pure (by simp)
  case print => exact Conserves.advance.bind fun _ => h.assignmentExpr.bind fun _ => .pure (by simp)
  case throw => exact Conserves.advance.bind fun _ => h.assignmentExpr.bind fun _ => .pure (by simp)
  split
  · exact Conserves.advance.bind fun _ => h.assignmentExpr.bind fun _ => .pure (by simp)
  · exact h.primary.bind fun e => by simpa using h.accesses e

theorem operandExpr : Conserves 0 g.operandExpr Node.comments := by
  refine .get_bind fun s => ?_
  split
  all_goals try exact Conserves.advance.bind fun _ => (h.expr _).bind fun _ => .pure (by simp)
  case h_7 => exact Conserves.advance.bind fun _ => h.operand.bind fun _ => .pure (by simp)
  case h_8 => exact Conserves.advance.bind fun _ => h.operand.bind fun _ => .pure (by simp)
  case h_9 => exact h.wordOperand
  case h_10 => exact h.primary.bind fun e => by simpa using h.accesses e

theorem assignmentTo (target : Expr) : Conserves target.comments (g.assignmentTo target) Node.comments := by
  refine .get_bind fun s => ?_
  generalize (if target.isAssignable then AssignOp.ofKind? s.kind else none) = op
  cases op with
  | none => exact .pure rfl
  | some op =>
    have assigned : Conserves target.comments (do return .assign target op (← g.assignmentExpr)) Node.comments :=
      h.assignmentExpr.bind fun _ => .pure (by simp)
    refine Conserves.advance.bind fun _ => .ite ((Conserves.tryToken _).bind fun _ => .ite ?_ assigned) assigned
    exact h.assignmentExpr.bind fun _ => .pure (by simp)

theorem branches (cond : Expr) : Conserves cond.comments (g.branches cond) Node.comments := by
  have afterYes (yes : Option Expr) : Conserves (cond.comments + perhaps Node.comments yes) (do
      let _ ← expect .colon
      return .ternary cond (.ofOption yes) (← g.expr .coalesce)) Node.comments :=
    (Conserves.expect _).bind fun _ => (h.expr _).bind fun _ => .pure (by simp)
  refine (Conserves.expect _).bind fun _ => .get_bind fun s => .ite (.pure_bind ?_) (.bind h.assignmentExpr.map_some ?_)
  · exact cast (by simp) (afterYes none)
  · exact afterYes

theorem operator (least : Level) (left : Expr) :
    Conserves left.comments (g.operator least left) fun r => (r.getD left).comments := by
  refine .get_bind fun s => .ite (.ite (.pure rfl) (.map (h.branches left))) <| .ite (.ite (.pure rfl) ?instanceOf) ?_
  case instanceOf =>
    exact Conserves.advance.bind fun _ => h.operand.bind fun _ => .pure (by simp [Node.comments_asClass])
  split
  · exact .pure rfl
  · exact .ite (.pure rfl) <| Conserves.advance.bind fun _ => (h.expr _).bind fun _ => .pure (by simp)

theorem operatorExpr (least : Level) : Conserves 0 (g.operatorExpr least) Node.comments := by
  refine h.operand.andThen fun first => (h.assignmentTo first).andThen fun left => ?_
  exact .refine (h.operator least) left

end Grammar.Conserving

end Codewright.Php
