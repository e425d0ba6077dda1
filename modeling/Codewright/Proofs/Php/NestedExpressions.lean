import Codewright.Proofs.Php.NestedReading
import Codewright.Proofs.Php.ProgressExpressions

/-!
# Expressions and members stand inside one another

* `Grammar.Building` – the readers of the grammar put together trees whose spans are nested and whose modifiers are legal;
* `Grammar.Building.block`, … – one lemma for each production of expressions and members.
-/

namespace Codewright.Php

open Source

variable {B : ℕ → Prop}

/-- The readers of the grammar put trees together, and each reads a token. -/
structure Grammar.Building (B : ℕ → Prop) (g : Grammar) : Prop where
  expr (least : Level) {s : Stream} : Builds B s (g.expr least) one
  operand {s : Stream} : Builds B s g.operand one
  primary {s : Stream} : Builds B s g.primary one
  stmt {s : Stream} : Builds B s g.stmt one
  consuming : g.Consuming 0

namespace Formed

variable {lo hi : ℕ}

theorem leaves {c : Category} {f : String → Node c} (parts : ∀ text, (f text).parts = [])
    (no_span : ∀ text, (f text).span? = none) (legal : ∀ text, (f text).HasLegalModifiers) (texts : List String) :
    Formed B lo hi ((texts.map f).flatMap one) := by
  induction texts with
  | nil => exact .nil
  | cons text texts ih =>
    have first : Formed B lo 0 [(f text).any] := by
      refine .node ?_ (no_span text) (legal text)
      rw [parts]
      exact .nil
    exact first.append ih (Nat.zero_le _) (le_refl _) (Nat.zero_le _)

theorem asClass {e : Expr} (h : Formed B lo hi (one e)) : Formed B lo hi (one e.asClass) := by
  cases e with
  | constantRef name => exact .node .nil rfl trivial
  | _ => exact h

/-- The values of arguments stand where the arguments do. -/
theorem argValues {args : List (Node .arg)} (h : Formed B lo hi (listed args)) :
    Formed B lo hi (listed (args.map Node.argValue)) := by
  have values : (args.map Node.any).flatMap AnyNode.parts = (args.map Node.argValue).map Node.any := by
    rw [List.flatMap_map, List.map_map, List.map_eq_flatMap]
    congr 1
    funext a
    cases a
    rfl
  have below := h.entries.below
  rw [values] at below
  exact below.list

end Formed

namespace Grammar.Building

open Parse

variable {g : Grammar} {s : Stream} (h : g.Building B)

theorem leadingComments : Builds B s Parse.leadingComments fun xs => xs.flatMap one := by
  have comments (texts : List String) {s : Stream} {lo reached : ℕ} :
      Forms B s lo reached [] (pure (texts.map Node.comment)) fun xs => xs.flatMap one :=
    .add _ (.leaves (f := Node.comment) (fun _ => rfl) (fun _ => rfl) (fun _ => trivial) texts) (.pure rfl)
  exact .skip .takeComments fun _ => .get_bind <| .ite (.pure_bind (comments _)) <| .skip .takeDoc fun _ => comments _

include h

/-! ### Parts -/

theorem anyExpr : Builds B s g.anyExpr one := h.expr _

theorem assignmentExpr : Builds B s g.assignmentExpr one := h.expr _

theorem exprList : Builds B s g.exprList fun xs => xs.flatMap one := .commaList h.anyExpr

theorem initialValue : Builds B s g.initialValue oneIfAny := .afterToken h.anyExpr rfl (fun _ => rfl) _

theorem statementsUntil (stops : List String) : Builds B s (g.statementsUntil stops) listed := by
  refine Builds.listed <| .collect <| .skip (.skipAll _) fun _ => .bind leadingComments fun _ => .get_bind ?_
  exact .ite (.pure rfl) <| .ite (.failExpected _) <| .bind h.stmt fun _ => .pure List.flatMap_append

theorem block : Builds B s g.block listed := .enclosedBy (h.statementsUntil _) _ _

theorem arg : Builds B s g.arg one := by
  refine .get_bind <| .ite ?placeholder <| .skip (.tryToken _) fun _ => .get_bind <| .ite ?named ?value
  case placeholder =>
    exact .skip .advance fun _ => .around .callablePlaceholder rfl rfl trivial (.node rfl rfl trivial)
  case named => exact .skip .advance fun _ => .skip .advance fun _ => .bind h.anyExpr fun _ => .node rfl rfl trivial
  case value => exact .bind h.anyExpr fun _ => .node rfl rfl trivial

theorem args : Builds B s g.args listed := .enclosedBy (Builds.listed (.commaListUntil h.arg _)) _ _

theorem optionalArgs : Builds B s g.optionalArgs listed :=
  .get_bind <| .ite h.args (.add [(Node.nil : Node (.list .arg)).any] (.node .nil rfl trivial) (.pure rfl))

theorem param : Builds B s g.param one := by
  refine .skip .attributes fun groups => .skip_gives (.refine (fun m => .get_bind ?round) _) promoted_gives fun m legal => ?_
  case round =>
    split
    · exact .skip (.addModifier _ _) fun _ => .pure rfl
    · exact .pure rfl
  have afterType (type : Option TypeHint) {s : Stream} {lo reached : ℕ} : Forms B s lo reached [] (do
      let byRef ← tryToken .amp
      let variadic ← tryToken .ellipsis
      let name ← expectVariable
      let default ← g.initialValue
      return Node.param ⟨name, type, byRef, variadic, m, groups⟩ (.ofOption default)) one :=
    .skip (.tryToken _) fun _ => .skip (.tryToken _) fun _ => .skip .expectVariable fun _ =>
      .bind h.initialValue fun _ => .node rfl rfl legal
  exact .get_bind <| .ite (.pure_bind (afterType none)) (.skip (.map Skips.typeHint) fun type => afterType type)

theorem params : Builds B s g.params listed := .enclosedBy (Builds.listed (.commaListUntil h.param _)) _ _

theorem definitions : Builds B s g.definitions listed :=
  Builds.listed <| .commaList <| .skip (.expectIdent _) fun _ => .skip (.expect _) fun _ =>
    .bind h.anyExpr fun _ => .node rfl rfl trivial

theorem varItems : Builds B s g.varItems listed :=
  Builds.listed <| .commaList <| .skip .expectVariable fun _ => .bind h.initialValue fun _ => .node rfl rfl trivial

/-! ### Bodies of class-like declarations -/

omit h in
theorem traitUse : Builds B s Parse.traitUse one := by
  refine .skip (.expectKeyword _) fun _ => .skip (.nameList _) fun _ => .skip (.tryToken _) fun _ =>
    .ite (.skip (.collect ?rule) fun _ => .node rfl rfl trivial) (.skip .expectSemicolon fun _ => .node rfl rfl trivial)
  case rule =>
    exact .skip (.tryToken _) fun _ => .ite (.pure rfl) <| .get_bind <| .ite (.failExpected _) <|
      .skip .adaptation fun _ => .pure rfl

section

variable {lo reached : ℕ} (doc : Option String) (groups : List String)

theorem enumCase : Forms B s lo reached [] (g.enumCase doc groups) one :=
  .skip (.expectIdent _) fun _ => .bind h.initialValue fun _ => .skip .expectSemicolon fun _ => .node rfl rfl trivial

variable {m : Modifiers} (legal : m.IsOfMember)

include legal

theorem classConst : Forms B s lo reached [] (g.classConst m doc groups) one :=
  .bind h.definitions fun _ => .skip .expectSemicolon fun _ => .node rfl rfl legal

theorem method : Forms B s lo reached [] (g.method lo m doc groups) one := by
  refine .skip (.tryToken _) fun _ => .skip_start (.expectIdent _) (Runs.expectIdent _) fun _ => .bind h.params fun _ =>
    .skip .returnType fun _ => .get_bind <| .ite ?body ?declared
  case body => exact .bind (m := listedIfAny) (.map h.block) fun _ => .get_bind (.spanned rfl rfl legal)
  case declared => exact .skip .expectSemicolon fun _ => .pure_bind <| .get_bind (.spanned rfl rfl legal)

theorem property : Forms B s lo reached [] (g.property lo m doc groups) one := by
  have afterType (type : Option TypeHint) {s : Stream} : Forms B s lo reached [] (do
      let items ← g.varItems
      if (← get).at_ .openBrace then failUnsupported "property hooks"
      else
        expectSemicolon
        let span := (← get).spanFrom lo
        return Node.property ⟨m, type, doc, groups, span⟩ (.ofList items)) one :=
    .start h.varItems h.consuming.varItems fun _ => .get_bind <| .ite (.failWith _) <| .skip .expectSemicolon fun _ =>
      .get_bind (.spanned rfl rfl legal)
  exact .get_bind <| .ite (.pure_bind (afterType none)) (.skip (.map Skips.typeHint) fun type => afterType type)

end

theorem member : Builds B s g.member one := by
  have afterDoc (groups : List String) (doc : Option String) {s : Stream} {lo : ℕ} : Forms B s lo 0 [] (do
      if ← tryKeyword "case" then g.enumCase doc groups
      else
        let modifiers ← Parse.memberModifiers
        if ← tryKeyword "const" then g.classConst modifiers doc groups
        else if ← tryKeyword "function" then g.method lo modifiers doc groups
        else g.property lo modifiers doc groups) one :=
    .skip (.tryKeyword _) fun _ => .ite (h.enumCase doc groups) <|
      .skip_gives .memberModifiers memberModifiers_gives fun m legal => .skip (.tryKeyword _) fun _ =>
        .ite (h.classConst doc groups legal) <| .skip (.tryKeyword _) fun _ =>
          .ite (h.method doc groups legal) (h.property doc groups legal)
  refine .get_bind <| .ite traitUse <| .get_bind <| .skip .takeDoc fun before => .skip .attributes fun groups => ?_
  cases before with
  | some doc => exact .pure_bind (afterDoc groups _)
  | none => exact .skip .takeDoc fun doc => afterDoc groups doc

theorem members : Builds B s g.members listed := by
  have rest (texts : List String) (s₀ : Stream) {s : Stream} {lo : ℕ} : Forms B s lo 0 [] (do
      let entries : List Member := texts.map .memberComment
      if s₀.at_ .closeBrace then return (entries, false)
      else if s₀.atEnd then failExpected "'\x7d'"
      else return (entries ++ [← g.member], true)) fun r => r.1.flatMap one :=
    .add _ (.leaves (f := Node.memberComment) (fun _ => rfl) (fun _ => rfl) (fun _ => trivial) texts) <|
      .ite (.pure rfl) <| .ite (.failExpected _) <| .bind h.member fun _ => .pure List.flatMap_append
  refine .enclosedBy (Builds.listed (.collect (.skip .takeComments fun texts => .get_bind (.ite ?taken ?left)))) _ _
  case taken => exact .skip .takeDoc fun doc => rest _ _
  case left => exact .pure_bind (rest _ _)

/-! ### Operands -/

theorem parenthesized : Builds B s g.parenthesized one := .enclosedBy h.anyExpr _ _

theorem inBraces : Builds B s g.inBraces one := .enclosedBy h.anyExpr _ _

theorem arrayItem : Builds B s g.arrayItem one := by
  refine .get_bind <| .ite (.failWith _) <| .skip (.tryToken _) fun _ =>
    .ite (.bind h.anyExpr fun _ => .node rfl rfl trivial) <| .skip (.tryToken _) fun _ =>
    .ite (.bind h.anyExpr fun _ => .node rfl rfl trivial) <| .bind h.anyExpr fun _ => .skip (.tryToken _) fun _ =>
    .ite ?keyed (.node rfl rfl trivial)
  case keyed => exact .skip (.tryToken _) fun _ => .bind h.anyExpr fun _ => .node rfl rfl trivial

theorem arrayItems (close : TokenKind) : Builds B s (g.arrayItems close) one :=
  .bind (Builds.listed (.commaListUntil h.arrayItem _)) fun _ => .skip (.expect _) fun _ => .pure rfl

theorem closure (isStatic : Bool) : Builds B s (g.closure isStatic) one :=
  .skip (.expectKeyword _) fun _ => .skip (.tryToken _) fun _ => .bind h.params fun _ => .skip .captures fun _ =>
    .skip .returnType fun _ => .bind h.block fun _ => .node rfl rfl trivial

theorem arrowFn (isStatic : Bool) : Builds B s (g.arrowFn isStatic) one :=
  .skip (.expectKeyword _) fun _ => .skip (.tryToken _) fun _ => .bind h.params fun _ => .skip .returnType fun _ =>
    .skip (.expect _) fun _ => .bind h.assignmentExpr fun _ => .node rfl rfl trivial

theorem matchArm : Builds B s g.matchArm one := by
  refine .get_bind <| .ite ?default ?conditions
  case default =>
    exact .skip .advance fun _ => .skip (.tryToken _) fun _ => .pure_bind <| .skip (.expect _) fun _ =>
      .bind h.anyExpr fun _ => .node rfl rfl trivial
  case conditions =>
    exact .bind (m := listedIfAny) (.map (Builds.listed (.commaListUntil h.anyExpr _))) fun _ => .skip (.expect _) fun _ =>
      .bind h.anyExpr fun _ => .node rfl rfl trivial

theorem matchExpr : Builds B s g.matchExpr one :=
  .skip (.expectKeyword _) fun _ => .bind h.parenthesized fun _ =>
    .bind (.enclosedBy (Builds.listed (.commaListUntil h.matchArm _)) _ _) fun _ => .node rfl rfl trivial

omit h in
theorem plainName : Builds B s Grammar.plainName one :=
  .get_bind <| .skip .advance fun _ => .ite (.node rfl rfl trivial) (.node rfl rfl trivial)

theorem identPrimary : Builds B s g.identPrimary one := by
  refine .get_bind <| .ite ?literal <| .ite ?array <| .ite ?isset <| .ite ?empty <| .ite ?exit <|
    .ite (h.closure false) <| .ite (h.arrowFn false) <| .ite ?closure <| .ite ?arrowFn <| .ite h.matchExpr <|
    .ite (.failExpected _) plainName
  case literal => exact .skip .advance fun _ => .node rfl rfl trivial
  case array => exact .skip .advance fun _ => .skip .advance fun _ => .bind (h.arrayItems _) fun _ => .node rfl rfl trivial
  case isset =>
    refine .skip .advance fun _ => .bind (m := fun args => listed (args.map Node.argValue)) ?_ fun _ => .node rfl rfl trivial
    exact h.args.mono fun _ _ _ => Formed.argValues
  case empty => exact .skip .advance fun _ => .bind h.parenthesized fun _ => .node rfl rfl trivial
  case exit =>
    exact .skip .advance fun _ => .add [(Node.nameRef s.peek.text).any] (.node .nil rfl trivial) <| .bind h.optionalArgs fun _ =>
      .node rfl rfl trivial
  case closure => exact .skip .advance fun _ => (h.closure true).forms
  case arrowFn => exact .skip .advance fun _ => (h.arrowFn true).forms

theorem primaryExpr : Builds B s g.primaryExpr one := by
  refine .get_bind ?_
  split
  · exact .skip .advance fun _ => .node rfl rfl trivial
  · exact .skip .advance fun _ => .node rfl rfl trivial
  · exact .skip .advance fun _ => .node rfl rfl trivial
  · exact .skip .advance fun _ => .node rfl rfl trivial
  · exact .skip .advance fun _ => .bind (h.arrayItems _) fun _ => .node rfl rfl trivial
  · exact .bind h.parenthesized fun _ => .node rfl rfl trivial
  · refine .skip .advance fun _ => .get_bind ?_
    split
    · exact .bind h.inBraces fun _ => .node rfl rfl trivial
    · exact .bind h.primary fun _ => .node rfl rfl trivial
    · exact .bind h.primary fun _ => .node rfl rfl trivial
    · exact .failExpected _
  · exact h.identPrimary
  · exact .failExpected _

theorem anonymousClass : Builds B s g.anonymousClass one := by
  refine .get_bind <| .skip (.tryKeyword _) fun isReadonly => .skip_start (.expectKeyword _) (Runs.expectKeyword _) fun _ =>
    .bind h.optionalArgs fun _ => .skip .parent fun _ => .skip (.interfaces _) fun _ => .bind h.members fun _ =>
    .get_bind (.spanned rfl rfl ?_)
  show Modifiers.IsOfClass _
  split
  · have among : (Modifiers.none.union (.single .readonly)).IsAmong [.abstract, .final, .readonly] :=
      (Modifiers.IsAmong.none _).union (by decide)
    exact ⟨among, by decide⟩
  · exact ⟨.none _, by decide⟩

section

variable {lo reached : ℕ} {e : Expr}

theorem classAccess : Forms B s lo reached (one e) (g.classAccess e) fun r => one (r.getD e) := by
  refine .get_bind <| .ite ?property <| .ite ?static <| .ite ?subscript (.pure rfl)
  case property =>
    exact .skip .advance fun _ => .skip .advance fun t => .add [(Node.ident t.text).any] (.node .nil rfl trivial) <|
      .around (.propertyFetch e (.ident t.text) (s.at_ .nullsafeArrow)) rfl rfl trivial (.pure rfl)
  case static =>
    exact .skip .advance fun _ => .skip .advance fun t => .around (.staticProperty e t.text) rfl rfl trivial (.pure rfl)
  case subscript =>
    exact .bind (.enclosedBy h.anyExpr _ _) fun index =>
      .around (.subscript e (.present index)) rfl rfl trivial (.pure rfl)

end

theorem classExpr : Builds B s g.classExpr one := by
  refine .get_bind ?_
  split
  · exact .skip .advance fun _ => .node rfl rfl trivial
  · exact .skip .advance fun t => .around (.variable t.text) rfl rfl trivial (.refine fun _ => h.classAccess)
  · exact .bind h.parenthesized fun _ => .node rfl rfl trivial
  · exact .failExpected _

theorem newExpr : Builds B s g.newExpr one :=
  .skip (.expectKeyword _) fun _ => .get_bind <| .ite h.anonymousClass.forms <| .bind h.classExpr fun _ =>
    .bind h.optionalArgs fun _ => .node rfl rfl trivial

theorem memberName : Builds B s g.memberName one := by
  refine .get_bind ?_
  split
  · exact .skip .advance fun _ => .node rfl rfl trivial
  · exact .skip .advance fun t => .around (.variable t.text) rfl rfl trivial (.node rfl rfl trivial)
  · exact .bind h.inBraces fun _ => .node rfl rfl trivial
  · exact .failExpected _

section

variable {lo reached : ℕ} {e : Expr}

theorem staticMember : Forms B s lo reached (one e) (g.staticMember e) one := by
  refine .get_bind ?_
  split
  · refine .skip .advance fun t => .get_bind <| .ite ?_ (.node rfl rfl trivial)
    exact .add [(Node.computed (.variable t.text)).any] (.node (.node .nil rfl trivial) rfl trivial) <|
      .bind h.args fun _ => .node rfl rfl trivial
  · refine .skip .advance fun t => .get_bind <| .ite ?_ (.node rfl rfl trivial)
    exact .add [(Node.ident t.text).any] (.node .nil rfl trivial) <| .bind h.args fun _ => .node rfl rfl trivial
  · refine .bind (m := fun name => one (Node.computed name)) ?_ fun _ => .bind h.args fun _ => .node rfl rfl trivial
    exact h.inBraces.mono fun _ _ _ name => name.node rfl trivial
  · exact .failExpected _

theorem arrowMember (nullsafe : Bool) : Forms B s lo reached (one e) (g.arrowMember e nullsafe) one :=
  .bind h.memberName fun _ => .get_bind <| .ite (.bind h.args fun _ => .node rfl rfl trivial) (.node rfl rfl trivial)

theorem access : Forms B s lo reached (one e) (g.access e) fun r => one (r.getD e) := by
  refine .get_bind ?_
  split
  · refine .skip .advance fun _ => .get_bind <| .ite (.pure_bind ?_) (.bind (m := oneIfAny) (.map h.anyExpr) fun index => ?_)
    · exact .skip (.expect _) fun _ => .around (.subscript e .absent) rfl rfl trivial (.pure rfl)
    · exact .skip (.expect _) fun _ => .around (.subscript e (.ofOption index)) rfl rfl trivial (.pure rfl)
  · exact .skip .advance fun _ => .andThen (h.arrowMember _) fun _ => .pure rfl
  · exact .skip .advance fun _ => .andThen (h.arrowMember _) fun _ => .pure rfl
  · exact .skip .advance fun _ => .andThen h.staticMember fun _ => .pure rfl
  · exact .bind h.args fun args => .around (.call e (.ofList args)) rfl rfl trivial (.pure rfl)
  · exact .skip .advance fun _ => .around (.incDec .postInc e) rfl rfl trivial (.pure rfl)
  · exact .skip .advance fun _ => .around (.incDec .postDec e) rfl rfl trivial (.pure rfl)
  · exact .pure rfl

theorem accesses : Forms B s lo reached (one e) (g.accesses e) one := .refine fun _ => h.access

end

/-! ### Operators -/

theorem yieldExpr : Builds B s g.yieldExpr one := by
  refine .skip (.expectKeyword _) fun _ => .skip (.tryKeyword _) fun _ =>
    .ite (.bind h.assignmentExpr fun _ => .node rfl rfl trivial) <| .get_bind <| .ite (.node rfl rfl trivial) <|
    .bind h.assignmentExpr fun _ => .skip (.tryToken _) fun _ => .ite ?keyed (.node rfl rfl trivial)
  case keyed => exact .bind h.assignmentExpr fun _ => .node rfl rfl trivial

theorem wordOperand : Builds B s g.wordOperand one := by
  refine .get_bind <| .ite h.newExpr <| .ite ?clone <| .ite ?print <| .ite ?throw <| .ite h.yieldExpr ?_
  case clone => exact .skip .advance fun _ => .bind h.operand fun _ => .node rfl rfl trivial
  case print => exact .skip .advance fun _ => .bind h.assignmentExpr fun _ => .node rfl rfl trivial
  case throw => exact .skip .advance fun _ => .bind h.assignmentExpr fun _ => .node rfl rfl trivial
  split
  · exact .skip .advance fun _ => .bind h.assignmentExpr fun _ => .node rfl rfl trivial
  · exact .andThen h.primary fun _ => h.accesses

theorem operandExpr : Builds B s g.operandExpr one := by
  refine .get_bind ?_
  split
  case h_7 => exact .skip .advance fun _ => .bind h.operand fun _ => .node rfl rfl trivial
  case h_8 => exact .skip .advance fun _ => .bind h.operand fun _ => .node rfl rfl trivial
  case h_9 => exact h.wordOperand
  case h_10 => exact .andThen h.primary fun _ => h.accesses
  all_goals exact .skip .advance fun _ => .bind (h.expr _) fun _ => .node rfl rfl trivial

section

variable {lo reached : ℕ} {e : Expr}

theorem assignmentTo : Forms B s lo reached (one e) (g.assignmentTo e) one := by
  refine .get_bind ?_
  generalize (if e.isAssignable then AssignOp.ofKind? s.kind else none) = op
  cases op with
  | none => exact .pure rfl
  | some op =>
    have assigned {s : Stream} : Forms B s lo reached (one e) (do return .assign e op (← g.assignmentExpr)) one :=
      .bind h.assignmentExpr fun _ => .node rfl rfl trivial
    refine .skip .advance fun _ => .ite (.skip (.tryToken _) fun _ => .ite ?_ assigned) assigned
    exact .bind h.assignmentExpr fun _ => .node rfl rfl trivial

theorem branches : Forms B s lo reached (one e) (g.branches e) one := by
  refine .skip (.expect _) fun _ => .get_bind <| .ite (.pure_bind ?short) (.bind (m := oneIfAny) (.map h.assignmentExpr) ?full)
  case short => exact .skip (.expect _) fun _ => .bind (h.expr _) fun _ => .node rfl rfl trivial
  case full => exact fun _ => .skip (.expect _) fun _ => .bind (h.expr _) fun _ => .node rfl rfl trivial

theorem operator (least : Level) : Forms B s lo reached (one e) (g.operator least e) fun r => one (r.getD e) := by
  refine .get_bind <| .ite (.ite (.pure rfl) (.andThen h.branches fun _ => .pure rfl)) <|
    .ite (.ite (.pure rfl) ?instanceOf) ?_
  case instanceOf =>
    refine .skip .advance fun _ => .bind (m := fun cls => one cls.asClass) (h.operand.mono fun _ _ _ => Formed.asClass) ?_
    exact fun cls => .around (.instanceOf e cls.asClass) rfl rfl trivial (.pure rfl)
  split
  · exact .pure rfl
  · next op _ =>
    refine .ite (.pure rfl) <| .skip .advance fun _ => .bind (h.expr _) fun right => ?_
    exact .around (.binary op e right) rfl rfl trivial (.pure rfl)

end

theorem operatorExpr (least : Level) : Builds B s (g.operatorExpr least) one :=
  .andThen h.operand fun _ => .andThen h.assignmentTo fun _ => .refine fun _ => h.operator least

end Grammar.Building

end Codewright.Php
