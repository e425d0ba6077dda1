import Codewright.Php.Grammar.Operators
import Codewright.Proofs.Php.Progress

/-!
# Progress in expressions and members

Every production for types, members and expressions reads a token before it comes back to itself: by then the readers that
it refers to have one token less to have depth for.

* `Grammar.Consuming g depth` – the readers of the grammar run with this depth and read a token each;
* `Runs.typeHint`, `Runs.attributes`, … – what refers to no other reader;
* `Grammar.Consuming.member`, … – one lemma for each production.
-/

namespace Codewright.Php

open Source

/-- The readers of the grammar run, and each reads a token. -/
structure Grammar.Consuming (g : Grammar) (depth : Nat) : Prop where
  expr (least : Level) : Consumes depth (g.expr least)
  operand : Consumes depth g.operand
  primary : Consumes depth g.primary
  stmt : Consumes depth g.stmt

/-! ## Readers that refer to no other -/

namespace Runs

variable {d : Nat}

/-- A type in parentheses has a token less inside them. -/
theorem typeAtomUpTo (n : Nat) : Consumes n (Parse.typeAtomUpTo n) := by
  induction n with
  | zero => exact failWith_tooDeep
  | succ n ih =>
    refine .choice (tryToken .openParen nofun) ?group ?name
    case group =>
      refine .next ih fun first => .next (ih.behind (tryToken .amp nofun)) fun rest => ?_
      exact .next (expect .closeParen nofun) fun _ => .pure rfl
    case name => exact .start (expectIdent _) fun _ => .pure rfl

theorem typeAtom : Consumes d Parse.typeAtom := by
  refine .get_bind fun s => ?_
  apply RunsFrom.of_unread_lt (typeAtomUpTo (s.unread + 1) s)
  omega

theorem tryIntersection : Runs d Parse.tryIntersection Bool.toNat :=
  .look fun _ => .ite (tryToken .amp nofun) (.pure rfl)

theorem typeHint : Consumes d Parse.typeHint := by
  have any (d : Nat) : Consumes (d + 1) Parse.typeHint := by
    refine .choice (tryToken .question nofun) (.next typeAtom fun _ => .pure rfl) ?_
    refine .start typeAtom fun first => .next (typeAtom.behind (tryToken .pipe nofun)) fun others => ?_
    refine .ite (.next (typeAtom.behind tryIntersection) fun parts => ?_) (.pure rfl)
    exact .ite (.pure rfl) (.pure rfl)
  exact (any d).shallower (Nat.le_succ d)

theorem returnType : Safe d Parse.returnType := typeHint.afterToken .colon nofun

theorem nameList (what : String) : Consumes d (Parse.nameList what) := (expectIdent what).commaList

theorem attributes : Safe d Parse.attributes := by
  refine .collect (.get_bind fun s => .ite (fun here => ?_) fun _ => .pure rfl)
  apply (RunsFrom.advance (Stream.kind_ne_eof_of_at here nofun)).bind
  intro t s₁
  exact .pure rfl

theorem leadingComments : Safe d Parse.leadingComments := by
  refine .next takeComments fun comments => .look fun s => .ite (.pure_bind (.pure rfl)) ?_
  exact .next takeDoc fun doc => .pure rfl

theorem failModifier {α : Type} {least : α → Nat} (reason : String) : Runs d (Parse.failModifier reason) least :=
  .look fun _ => .failWith nofun

/-- A modifier is an identifier. -/
theorem addModifier (m : Modifiers) (flag : Modifier) {s : Stream} (h : s.kind ≠ .eof) :
    RunsFrom s d (Parse.addModifier m flag) fun _ => 1 := by
  refine .ite (fun _ => failModifier _ s) fun _ => .ite (fun _ => failModifier _ s) fun _ => ?_
  exact advance_map h

theorem kind_ne_eof_of_nextModifier? {flags : List Modifier} {s : Stream} {flag : Modifier}
    (h : Parse.nextModifier? flags s = some flag) : s.kind ≠ .eof := by
  unfold Parse.nextModifier? at h
  have here := List.find?_some h
  exact Stream.kind_ne_eof_of_atKeyword (show s.atKeyword flag.keyword = true from here)

theorem parent : Safe d Parse.parent := (expectIdent _).afterKeyword _

theorem interfaces (word : String) : Safe d (Parse.interfaces word) :=
  .next ((nameList _).afterKeyword word) fun _ => .pure rfl

theorem adaptation : Consumes (d + 1) Parse.adaptation := by
  refine .start (expectIdent _) fun first => .next (tryToken .doubleColon nofun) fun _ =>
    .ite (.next (expectIdent _) fun method => .pure_bind (.look fun s => ?named)) (.pure_bind (.look fun s => ?bare))
  case' named =>
    dsimp only
    split
    · exact .next advance fun _ => .next (nameList _) fun _ => .next expectSemicolon fun _ => .pure rfl
  -- Both ways, what is left reads another name or visibility.
  all_goals
    refine .next (expectKeyword _) fun _ => .look fun s => .ite (.next advance fun _ => ?_) ?_
    all_goals
      refine .look fun _ => .ite (.next advance fun _ => .pure_bind ?_) (.pure_bind ?_)
      all_goals exact .ite (.failExpected _) (.next expectSemicolon fun _ => .pure rfl)

theorem traitUse : Consumes (d + 1) Parse.traitUse := by
  refine .start (expectKeyword _) fun _ => .next (nameList _) fun traits => .next (tryToken .openBrace nofun) fun _ => ?_
  refine .ite (.next (.collect ?rule) fun _ => .pure rfl) (.next expectSemicolon fun _ => .pure rfl)
  case rule =>
    refine .next (tryToken .closeBrace nofun) fun _ => .ite (.pure rfl) (.look fun s => .ite (.failExpected _) ?_)
    apply (adaptation.shallower (Nat.le_succ d)).bind
    intro rule
    exact .pure rfl

theorem memberModifiers : Safe d Parse.memberModifiers := by
  refine .next (.refine (fun m => .get_bind fun s => ?_) _) fun m => .ite (failModifier _) (.pure rfl)
  split
  · next flag found =>
    apply (addModifier m flag (kind_ne_eof_of_nextModifier? found)).bind
    intro m' s₁
    exact .pure rfl
  · refine .ite (fun here => ?_) fun _ => .pure rfl
    apply (RunsFrom.advance (Stream.kind_ne_eof_of_atKeyword here)).bind
    intro t s₁
    exact .pure rfl

theorem captures : Safe d Grammar.captures := by
  have capture : Safe d (do
      let byRef ← Parse.tryToken .amp
      return Capture.mk (← Parse.expectVariable) byRef) :=
    .next (tryToken .amp nofun) fun _ => .next expectVariable fun _ => .pure rfl
  refine .next (tryKeyword _) fun _ => .ite ?_ (.pure rfl)
  exact ((capture.commaListUntil .closeParen).enclosedBy .openParen .closeParen nofun nofun).later

end Runs

/-! ## Productions -/

namespace Grammar.Consuming

open Parse

variable {g : Grammar} {d : Nat} (h : g.Consuming d)

include h

/-! ### Parts -/

theorem anyExpr : Consumes d g.anyExpr := h.expr _

theorem assignmentExpr : Consumes d g.assignmentExpr := h.expr _

theorem exprList : Consumes d g.exprList := h.anyExpr.commaList

theorem initialValue : Safe d g.initialValue := h.anyExpr.afterToken .assign nofun

theorem statementsUntil (stops : List String) : Safe d (g.statementsUntil stops) := by
  refine .collect (.next (.skipAll rfl) fun _ => .next .leadingComments fun comments => .look fun s => ?_)
  refine .ite (.pure rfl) (.ite (.failExpected _) ?_)
  apply h.stmt.bind
  intro stmt
  exact .pure rfl

theorem block : Consumes (d + 1) g.block := (h.statementsUntil _).enclosedBy .openBrace .closeBrace nofun nofun

theorem arg : Safe d g.arg := by
  refine .look fun s => .ite (.next .advance fun _ => .pure rfl) ?_
  refine .next (.tryToken .ellipsis nofun) fun spread => .look fun s => .ite ?named ?value
  case named => exact .next .advance fun name => .next .advance fun _ => .next h.anyExpr fun value => .pure rfl
  case value => exact .next h.anyExpr fun value => .pure rfl

theorem args : Consumes (d + 1) g.args := (h.arg.commaListUntil _).enclosedBy .openParen .closeParen nofun nofun

theorem optionalArgs : Safe (d + 1) g.optionalArgs := .look fun _ => .ite h.args.safe (.pure rfl)

theorem param : Consumes (d + 1) g.param := by
  have afterType (type : Option TypeHint) (m : Modifiers) (attributes : List String) : Consumes (d + 1) (do
      let byRef ← tryToken .amp
      let variadic ← tryToken .ellipsis
      let name ← expectVariable
      let default ← g.initialValue
      return Node.param ⟨name, type, byRef, variadic, m, attributes⟩ (.ofOption default)) := by
    refine .next (.tryToken .amp nofun) fun _ => .next (.tryToken .ellipsis nofun) fun _ => ?_
    exact .start .expectVariable fun _ => .next h.initialValue fun _ => .pure rfl
  refine .next .attributes fun attributes => .next (.refine (fun m => .get_bind fun s => ?promotion) _) fun m => ?_
  case promotion =>
    split
    · next flag found =>
      apply (Runs.addModifier m flag (Runs.kind_ne_eof_of_nextModifier? found)).bind
      intro m' s₁
      exact .pure rfl
    · exact .pure rfl
  refine .look fun s => .ite (.pure_bind (afterType none m attributes)) ?_
  exact .next (.map Runs.typeHint) fun type => afterType type m attributes

theorem params : Consumes (d + 1) g.params := by
  have item : Safe d g.param := h.param.later
  exact (item.commaListUntil _).enclosedBy .openParen .closeParen nofun nofun

theorem definitions : Consumes (d + 1) g.definitions := by
  refine .commaList (.start (.expectIdent _) fun name => .next (.expect .assign nofun) fun _ => ?_)
  exact .next h.anyExpr fun value => .pure rfl

theorem varItems : Consumes (d + 1) g.varItems :=
  .commaList (.start .expectVariable fun _ => .next h.initialValue fun _ => .pure rfl)

/-! ### Bodies of class-like declarations -/

theorem enumCase (doc : Option String) (attributes : List String) : Consumes (d + 1) (g.enumCase doc attributes) := by
  refine .start (.expectIdent _) fun name => .next h.initialValue fun value => ?_
  exact .next .expectSemicolon fun _ => .pure rfl

theorem classConst (m : Modifiers) (doc : Option String) (attributes : List String) :
    Consumes (d + 1) (g.classConst m doc attributes) :=
  .start h.definitions fun _ => .next .expectSemicolon fun _ => .pure rfl

theorem method (start : Nat) (m : Modifiers) (doc : Option String) (attributes : List String) :
    Consumes (d + 1) (g.method start m doc attributes) := by
  refine .next (.tryToken .amp nofun) fun _ => .start (.expectIdent _) fun name => .next h.params.later fun params => ?_
  refine .next .returnType fun type => .look fun s => .ite ?body ?none
  case body => exact .next (.map h.block.later) fun body => .look fun s => .pure rfl
  case none => exact .next .expectSemicolon fun _ => .pure_bind (.look fun s => .pure rfl)

theorem property (start : Nat) (m : Modifiers) (doc : Option String) (attributes : List String) :
    Consumes (d + 1) (g.property start m doc attributes) := by
  have afterType (type : Option TypeHint) : Consumes (d + 1) (do
      let items ← g.varItems
      if (← get).at_ .openBrace then failUnsupported "property hooks"
      else
        expectSemicolon
        let span := (← get).spanFrom start
        return Node.property ⟨m, type, doc, attributes, span⟩ (.ofList items)) := by
    refine .start h.varItems fun items => .look fun s => .ite (.failWith nofun) ?_
    exact .next .expectSemicolon fun _ => .look fun s => .pure rfl
  refine .look fun s => .ite (.pure_bind (afterType none)) ?_
  exact .next (.map Runs.typeHint) afterType

theorem member : Consumes (d + 1) g.member := by
  have afterDoc (start : Nat) (doc : Option String) (attributes : List String) : Consumes (d + 1) (do
      if ← tryKeyword "case" then g.enumCase doc attributes
      else
        let modifiers ← memberModifiers
        if ← tryKeyword "const" then g.classConst modifiers doc attributes
        else if ← tryKeyword "function" then g.method start modifiers doc attributes
        else g.property start modifiers doc attributes) := by
    refine .next (.tryKeyword _) fun _ => .ite (h.enumCase _ _) (.next .memberModifiers fun m => ?_)
    refine .next (.tryKeyword _) fun _ => .ite (h.classConst _ _ _) (.next (.tryKeyword _) fun _ => ?_)
    exact .ite (h.method _ _ _ _) (h.property _ _ _ _)
  refine .look fun s => .ite .traitUse (.look fun s => .next .takeDoc fun before => .next .attributes fun attributes => ?_)
  cases before with
  | some doc => exact .pure_bind (afterDoc _ (some doc) attributes)
  | none => exact .next .takeDoc fun doc => afterDoc _ doc attributes

/-- What stands in the braces of a declaration. -/
theorem memberEntries : Safe d (collect do
    let comments ← takeComments
    let s ← get
    let doc ← if s.atKeyword "use" || s.at_ .closeBrace || s.atEnd then takeDoc else pure none
    let entries : List Member := (comments ++ doc.toList).map .memberComment
    if s.at_ .closeBrace then return (entries, false)
    else if s.atEnd then failExpected "'\x7d'"
    else return (entries ++ [← g.member], true)) := by
  have member : Consumes d g.member := h.member.shallower (Nat.le_succ d)
  have entry (s : Stream) (entries : List Member) : Runs d (do
      if s.at_ .closeBrace then return (entries, false)
      else if s.atEnd then failExpected "'\x7d'"
      else return (entries ++ [← g.member], true)) fun r : List Member × Bool => r.2.toNat := by
    refine .ite (.pure rfl) (.ite (.failExpected _) ?_)
    apply member.bind
    intro m
    exact .pure rfl
  refine .collect (.next .takeComments fun comments => .look fun s => .ite ?_ (.pure_bind (entry s _)))
  exact .next .takeDoc fun doc => entry s _

theorem members : Consumes (d + 1) g.members := h.memberEntries.enclosedBy .openBrace .closeBrace nofun nofun

/-! ### Operands -/

theorem parenthesized : Consumes (d + 1) g.parenthesized := h.anyExpr.enclosedBy .openParen .closeParen nofun nofun

theorem inBraces : Consumes (d + 1) g.inBraces := h.anyExpr.enclosedBy .openBrace .closeBrace nofun nofun

theorem arrayItem : Safe d g.arrayItem := by
  refine .look fun s => .ite (.failWith nofun) (.next (.tryToken .ellipsis nofun) fun _ => .ite ?spread ?_)
  case spread => exact .next h.anyExpr fun value => .pure rfl
  refine .next (.tryToken .amp nofun) fun _ => .ite (.next h.anyExpr fun value => .pure rfl) ?_
  refine .next h.anyExpr fun first => .next (.tryToken .fatArrow nofun) fun _ => .ite ?_ (.pure rfl)
  exact .next (.tryToken .amp nofun) fun _ => .next h.anyExpr fun value => .pure rfl

theorem arrayItems (close : TokenKind) (ne : close ≠ .eof) : Safe d (g.arrayItems close) :=
  .next (h.arrayItem.commaListUntil close) fun _ => .next (.expect close ne) fun _ => .pure rfl

theorem closure (isStatic : Bool) : Consumes (d + 1) (g.closure isStatic) := by
  refine .start (.expectKeyword _) fun _ => .next (.tryToken .amp nofun) fun byRef => ?_
  refine .next h.params.later fun params => .next .captures fun captures => .next .returnType fun type => ?_
  exact .next h.block.later fun body => .pure rfl

theorem arrowFn (isStatic : Bool) : Consumes (d + 1) (g.arrowFn isStatic) := by
  refine .start (.expectKeyword _) fun _ => .next (.tryToken .amp nofun) fun byRef => ?_
  refine .next h.params.later fun params => .next .returnType fun type => .next (.expect .fatArrow nofun) fun _ => ?_
  exact .next h.assignmentExpr fun body => .pure rfl

theorem matchArm : Safe d g.matchArm := by
  refine .look fun s => .ite ?default ?conditions
  case default =>
    refine .next .advance fun _ => .next (.tryToken .comma nofun) fun _ => .pure_bind ?_
    exact .next (.expect .fatArrow nofun) fun _ => .next h.anyExpr fun body => .pure rfl
  case conditions =>
    refine .next (.map (h.anyExpr.commaListUntil _)) fun conditions => ?_
    exact .next (.expect .fatArrow nofun) fun _ => .next h.anyExpr fun body => .pure rfl

theorem matchExpr : Consumes (d + 1) g.matchExpr := by
  refine .start (.expectKeyword _) fun _ => .next h.parenthesized.later fun subject => ?_
  exact .next ((h.matchArm.commaListUntil _).enclosedBy .openBrace .closeBrace nofun nofun).later fun arms => .pure rfl

omit h in
theorem plainName {s : Stream} (ident : s.kind = .ident) : RunsFrom s (d + 1) Grammar.plainName fun _ => 1 := by
  have more : s.kind ≠ .eof := by
    rw [ident]
    exact nofun
  exact .get_bind (.advance_start more fun t => .ite (.pure rfl) (.pure rfl))

theorem identPrimary {s : Stream} (ident : s.kind = .ident) : RunsFrom s (d + 1) g.identPrimary fun _ => 1 := by
  have more : s.kind ≠ .eof := by
    rw [ident]
    exact nofun
  refine .get_bind <| .ite (fun _ => ?literal) fun _ => .ite (fun _ => ?array) fun _ => .ite (fun _ => ?isset) fun _ =>
    .ite (fun _ => ?empty) fun _ => .ite (fun _ => ?exit) fun _ => .ite (fun _ => h.closure false s) fun _ =>
    .ite (fun _ => h.arrowFn false s) fun _ => .ite (fun _ => ?closure) fun _ => .ite (fun _ => ?arrowFn) fun _ =>
    .ite (fun _ => h.matchExpr s) fun _ => .ite (fun _ => .failExpected _) fun _ => plainName ident
  case literal => exact .advance_start more fun t => .pure rfl
  case array =>
    exact .advance_start more fun t => .next .advance fun _ => .next (h.arrayItems _ nofun) fun items => .pure rfl
  case isset => exact .advance_start more fun t => .next h.args.later fun args => .pure rfl
  case empty => exact .advance_start more fun t => .next h.parenthesized.later fun operand => .pure rfl
  case exit => exact .advance_start more fun t => .next h.optionalArgs.later fun args => .pure rfl
  case closure => exact .advance_start more fun t => (h.closure true).later
  case arrowFn => exact .advance_start more fun t => (h.arrowFn true).later

theorem primaryExpr : Consumes (d + 1) g.primaryExpr := by
  refine .get_bind fun s => ?_
  split
  · next kind => exact .advance_start (by rw [kind]; exact nofun) fun t => .pure rfl
  · next kind => exact .advance_start (by rw [kind]; exact nofun) fun t => .pure rfl
  · next kind => exact .advance_start (by rw [kind]; exact nofun) fun t => .pure rfl
  · next kind => exact .advance_start (by rw [kind]; exact nofun) fun t => .pure rfl
  · next kind =>
    refine .advance_start (by rw [kind]; exact nofun) fun t => ?_
    exact .next (h.arrayItems _ nofun) fun items => .pure rfl
  · exact RunsFrom.start (h.parenthesized s) fun inner => .pure rfl
  · next kind =>
    refine .advance_start (by rw [kind]; exact nofun) fun t => .look fun s => ?_
    split
    · exact .next h.inBraces.later fun name => .pure rfl
    · exact .next h.primary fun name => .pure rfl
    · exact .next h.primary fun name => .pure rfl
    · exact .failExpected _
  · next kind => exact h.identPrimary kind
  · exact .failExpected _

theorem anonymousClass : Safe d g.anonymousClass := by
  refine .look fun s => .next (.tryKeyword _) fun isReadonly => .next (.expectKeyword _) fun _ => ?_
  refine .next h.optionalArgs.later fun args => .next .parent fun parent => .next (.interfaces _) fun interfaces => ?_
  exact .next h.members.later fun members => .look fun s => .pure rfl

theorem classAccess (cls : Expr) : Runs (d + 1) (g.classAccess cls) fun r => r.isSome.toNat := by
  refine .get_bind fun s => .ite (fun here => ?property) fun _ => .ite (fun here => ?static) fun _ =>
    .ite (fun _ => ?subscript) fun _ => .pure rfl
  case property =>
    have more : s.kind ≠ .eof := by
      intro eof
      simp [Stream.at_, eof] at here
    exact .advance_bind more fun _ => .next .advance fun name => .pure rfl
  case static =>
    have more : s.kind ≠ .eof := by
      intro eof
      simp [Stream.at_, eof] at here
    exact .advance_bind more fun _ => .next .advance fun name => .pure rfl
  case subscript =>
    have index := h.anyExpr.enclosedBy .openBracket .closeBracket (by decide) (by decide) s
    exact index.bind fun index s₁ => .pure rfl

theorem classExpr : Consumes (d + 1) g.classExpr := by
  have access (cls : Expr) : Runs d (g.classAccess cls) fun r => r.isSome.toNat :=
    (h.classAccess cls).shallower (Nat.le_succ d)
  refine .get_bind fun s => ?_
  split
  · next kind => exact .advance_start (by rw [kind]; exact nofun) fun t => .pure rfl
  · next kind => exact .advance_start (by rw [kind]; exact nofun) fun t => .refine access _
  · exact RunsFrom.start (h.parenthesized s) fun cls => .pure rfl
  · exact .failExpected _

theorem newExpr : Consumes (d + 1) g.newExpr := by
  refine .start (.expectKeyword _) fun _ => .look fun s => .ite h.anonymousClass ?_
  exact .next h.classExpr.later fun cls => .next h.optionalArgs.later fun args => .pure rfl

theorem memberName : Consumes (d + 1) g.memberName := by
  refine .get_bind fun s => ?_
  split
  · next kind => exact .advance_start (by rw [kind]; exact nofun) fun t => .pure rfl
  · next kind => exact .advance_start (by rw [kind]; exact nofun) fun t => .pure rfl
  · exact RunsFrom.start (h.inBraces s) fun name => .pure rfl
  · exact .failExpected _

theorem staticMember (cls : Expr) : Safe d (g.staticMember cls) := by
  refine .look fun s => ?_
  split
  · exact .next .advance fun t => .look fun _ => .ite (.next h.args.later fun _ => .pure rfl) (.pure rfl)
  · exact .next .advance fun t => .look fun _ => .ite (.next h.args.later fun _ => .pure rfl) (.pure rfl)
  · exact .next h.inBraces.later fun name => .next h.args.later fun args => .pure rfl
  · exact .failExpected _

theorem arrowMember (object : Expr) (nullsafe : Bool) : Safe d (g.arrowMember object nullsafe) := by
  refine .next h.memberName.later fun name => .look fun s => .ite ?_ (.pure rfl)
  exact .next h.args.later fun args => .pure rfl

theorem access (e : Expr) : Runs (d + 1) (g.access e) fun r => r.isSome.toNat := by
  refine .get_bind fun s => ?_
  split
  · next kind =>
    refine .advance_bind (by rw [kind]; exact nofun) fun _ => .look fun s => .ite (.pure_bind ?_) ?_
    · exact .next (.expect .closeBracket nofun) fun _ => .pure rfl
    · exact .next (.map h.anyExpr) fun index => .next (.expect .closeBracket nofun) fun _ => .pure rfl
  · next kind =>
    exact .advance_bind (by rw [kind]; exact nofun) fun _ => .next (h.arrowMember _ _) fun _ => .pure rfl
  · next kind =>
    exact .advance_bind (by rw [kind]; exact nofun) fun _ => .next (h.arrowMember _ _) fun _ => .pure rfl
  · next kind =>
    exact .advance_bind (by rw [kind]; exact nofun) fun _ => .next (h.staticMember _) fun _ => .pure rfl
  · apply (h.args s).bind
    intro args s₁
    exact .pure rfl
  · next kind => exact .advance_bind (by rw [kind]; exact nofun) fun _ => .pure rfl
  · next kind => exact .advance_bind (by rw [kind]; exact nofun) fun _ => .pure rfl
  · exact .pure rfl

theorem accesses (e : Expr) : Safe (d + 1) (g.accesses e) := .refine h.access e

/-! ### Operators -/

theorem yieldExpr : Consumes (d + 1) g.yieldExpr := by
  refine .start (.expectKeyword _) fun _ => .next (.tryKeyword _) fun _ => .ite ?_ ?_
  · exact .next h.assignmentExpr fun operand => .pure rfl
  · refine .look fun s => .ite (.pure rfl) (.next h.assignmentExpr fun first => ?_)
    refine .next (.tryToken .fatArrow nofun) fun _ => .ite ?_ (.pure rfl)
    exact .next h.assignmentExpr fun value => .pure rfl

section

-- The reader of primary expressions comes first here, so its own depth counts.
variable {e : Nat} (le : e ≤ d + 1) (primary : Consumes e g.primary)

include le primary

/-- A primary expression and what follows it. -/
theorem primaryAccesses : Consumes e (do g.accesses (← g.primary)) :=
  .start_of_le le primary fun value => (h.accesses value).later

theorem wordOperand {s : Stream} (ident : s.kind = .ident) : RunsFrom s e g.wordOperand fun _ => 1 := by
  have more : s.kind ≠ .eof := by
    rw [ident]
    exact nofun
  have behindWord {make : Expr → Expr} {p : Parse Expr} (hp : Consumes d p) :
      RunsFrom s e (do let _ ← advance; return make (← p)) fun _ => 1 :=
    (RunsFrom.advance_start more fun _ => .next hp fun _ => .pure rfl).shallower le
  refine .get_bind <| .ite (fun _ => h.newExpr.shallower le s) fun _ => .ite (fun _ => behindWord h.operand) fun _ =>
    .ite (fun _ => behindWord h.assignmentExpr) fun _ => .ite (fun _ => behindWord h.assignmentExpr) fun _ =>
    .ite (fun _ => h.yieldExpr.shallower le s) fun _ => ?_
  split
  · exact behindWord h.assignmentExpr
  · exact h.primaryAccesses le primary s

theorem operandExpr : Consumes e g.operandExpr := by
  have behindSign {s : Stream} {make : Expr → Expr} {p : Parse Expr} (more : s.kind ≠ .eof) (hp : Consumes d p) :
      RunsFrom s e (do let _ ← advance; return make (← p)) fun _ => 1 :=
    (RunsFrom.advance_start more fun _ => .next hp fun _ => .pure rfl).shallower le
  refine .get_bind fun s => ?_
  split
  · next kind => exact behindSign (by rw [kind]; exact nofun) (h.expr _)
  · next kind => exact behindSign (by rw [kind]; exact nofun) (h.expr _)
  · next kind => exact behindSign (by rw [kind]; exact nofun) (h.expr _)
  · next kind => exact behindSign (by rw [kind]; exact nofun) (h.expr _)
  · next kind => exact behindSign (by rw [kind]; exact nofun) (h.expr _)
  · next kind =>
    refine RunsFrom.shallower (.advance_start (by rw [kind]; exact nofun) fun t => ?_) le
    exact .next (h.expr _) fun operand => .pure rfl
  · next kind => exact behindSign (by rw [kind]; exact nofun) h.operand
  · next kind => exact behindSign (by rw [kind]; exact nofun) h.operand
  · next kind => exact h.wordOperand le primary kind
  · exact h.primaryAccesses le primary s

end

theorem assignmentTo (target : Expr) : Safe d (g.assignmentTo target) := by
  refine .look fun s => ?_
  split
  · exact .pure rfl
  · refine .next .advance fun _ => .ite (.next (.tryToken .amp nofun) fun _ => .ite ?_ ?_) ?_
    · exact .next h.assignmentExpr fun value => .pure rfl
    · exact .next h.assignmentExpr fun value => .pure rfl
    · exact .next h.assignmentExpr fun value => .pure rfl

theorem branches (cond : Expr) : Consumes (d + 1) (g.branches cond) := by
  refine .start (.expect .question nofun) fun _ => .look fun s => .ite (.pure_bind ?_) ?_
  · exact .next (.expect .colon nofun) fun _ => .next (h.expr _) fun no => .pure rfl
  · refine .next (.map h.assignmentExpr) fun yes => ?_
    exact .next (.expect .colon nofun) fun _ => .next (h.expr _) fun no => .pure rfl

theorem operator (least : Level) (left : Expr) : Runs d (g.operator least left) fun r => r.isSome.toNat := by
  refine .look fun s => .ite (.ite (.pure rfl) ?ternary) (.ite (.ite (.pure rfl) ?instanceOf) ?_)
  case ternary =>
    apply ((h.branches left).shallower (Nat.le_succ d)).bind
    intro value
    exact .pure rfl
  case instanceOf =>
    refine .next .advance fun _ => ?_
    apply h.operand.bind
    intro cls
    exact .pure rfl
  split
  · exact .pure rfl
  · refine .ite (.pure rfl) (.next .advance fun _ => ?_)
    apply (h.expr _).bind
    intro right
    exact .pure rfl

theorem operatorExpr {e : Nat} (le : e ≤ d + 1) (operand : Consumes e g.operand) (least : Level) :
    Consumes e (g.operatorExpr least) := by
  refine .start_of_le le operand fun first => .next (h.assignmentTo first) fun left => ?_
  exact .refine (h.operator least) left

end Grammar.Consuming

end Codewright.Php
