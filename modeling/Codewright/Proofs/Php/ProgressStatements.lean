import Codewright.Php.Parser
import Codewright.Proofs.Php.ProgressExpressions

/-!
# Progress in statements

* `Grammar.Consuming.statement`, … – one lemma for each production of statements;
* `Grammar.next` – the grammar unrolled once; `Grammar.Consuming.next_four`: statements begin with expressions, these with
  operands, and these with primary expressions, which begin with a token, so four unrollings are good for one token more;
* `Grammar.consuming_upTo` – the parser's readers have depth for a quarter as many tokens as they are unrolled times.
-/

namespace Codewright.Php

open Source

namespace Runs

variable {d : Nat}

theorem classModifiers : Safe d Parse.classModifiers := by
  refine .next (.refine (fun m => .get_bind fun s => ?_) _) fun m => .ite (failModifier _) (.pure rfl)
  split
  · next flag found =>
    refine .ite (fun _ => failModifier _ s) fun _ => ?_
    apply (RunsFrom.advance (kind_ne_eof_of_nextModifier? found)).bind
    intro t s₁
    exact .pure rfl
  · exact .pure rfl

theorem importRename : Safe d Parse.importRename := (expectIdent _).afterKeyword _

theorem importItems : Consumes (d + 1) Parse.importItems := by
  refine .start (expectIdent _) fun start => .look fun s => .ite ?group ?single
  case group =>
    have item : Safe d (do
        let name ← Parse.expectIdent "imported name"
        return Import.mk (start ++ "\\" ++ name) (← Parse.importRename)) :=
      .next (expectIdent _) fun _ => .next importRename fun _ => .pure rfl
    exact .next advance fun _ => ((item.commaListUntil _).enclosedBy .openBrace .closeBrace nofun nofun).later
  case single => exact .next importRename fun rename => .pure rfl

theorem importKind : Safe d Parse.importKind := by
  refine .next (tryKeyword _) fun _ => .ite (.pure rfl) (.next (tryKeyword _) fun _ => ?_)
  exact .ite (.pure rfl) (.pure rfl)

theorem useDecl : Consumes (d + 1) Parse.useDecl := by
  refine .start (expectKeyword _) fun _ => .next importKind fun kind => .next importItems.commaList.later fun items => ?_
  exact .next expectSemicolon fun _ => .pure rfl

theorem classHead : Consumes (d + 1) Grammar.classHead := by
  refine .next classModifiers fun m => .start (expectKeyword _) fun _ => .next (expectIdent _) fun name => ?_
  exact .next parent fun parent => .next (interfaces _) fun names => .pure rfl

theorem interfaceHead : Consumes (d + 1) Grammar.interfaceHead :=
  .start (expectKeyword _) fun _ => .next (expectIdent _) fun _ => .next (interfaces _) fun _ => .pure rfl

theorem traitHead : Consumes (d + 1) Grammar.traitHead :=
  .start (expectKeyword _) fun _ => .next (expectIdent _) fun _ => .pure rfl

theorem enumHead : Consumes (d + 1) Grammar.enumHead := by
  refine .start (expectKeyword _) fun _ => .next (expectIdent _) fun name => .next returnType fun backing => ?_
  exact .next (interfaces _) fun names => .pure rfl

end Runs

namespace Grammar.Consuming

open Parse

variable {g : Grammar} {d : Nat} (h : g.Consuming d)

include h

/-! ### Declarations -/

theorem classLike (doc : Option String) (attributes : List String) {head : Parse (String × ClassKind)}
    (run : Consumes (d + 1) head) : Consumes (d + 1) (g.classLike doc attributes head) := by
  refine .look fun s => .start run fun (name, kind) => ?_
  exact .next h.members.later fun members => .look fun s => .pure rfl

theorem function (doc : Option String) (attributes : List String) : Consumes (d + 1) (g.function doc attributes) := by
  refine .look fun s => .start (.expectKeyword _) fun _ => .next (.tryToken .amp nofun) fun byRef => ?_
  refine .next (.expectIdent _) fun name => .next h.params.later fun params => .next .returnType fun type => ?_
  exact .next h.block.later fun body => .look fun s => .pure rfl

theorem declarationOf (doc : Option String) (attributes : List String) :
    Consumes (d + 1) (g.declarationOf doc attributes) := by
  refine .look fun s => .ite (h.classLike _ _ .classHead) (.ite (h.classLike _ _ .interfaceHead) ?_)
  refine .ite (h.classLike _ _ .traitHead) (.ite (h.classLike _ _ .enumHead) ?_)
  exact .ite (h.function _ _) (.failWith nofun)

theorem declaration : Consumes (d + 1) g.declaration := by
  refine .next .takeDoc fun before => .next .attributes fun attributes => ?_
  cases before with
  | some doc => exact .pure_bind (h.declarationOf (some doc) attributes)
  | none => exact .next .takeDoc fun doc => h.declarationOf doc attributes

/-! ### Control structures -/

theorem body (endWord : String) : Consumes d (g.body endWord) := by
  refine .look fun s => .ite (h.block.shallower (Nat.le_succ d)) ?_
  apply Runs.bind (.tryToken .colon nofun)
  intro b
  cases b with
  | true =>
    refine .next ((h.statementsUntil _).shallower (Nat.sub_le _ _)) fun stmts => ?_
    exact .next (.expectKeyword _) fun _ => .next .expectSemicolon fun _ => .pure rfl
  | false =>
    refine .next .leadingComments fun comments => ?_
    apply h.stmt.bind
    intro stmt
    exact .pure rfl

theorem alternativeIf (cond : Expr) : Safe d (g.alternativeIf cond) := by
  have elseIf : Safe d (do
      let cond ← g.parenthesized
      let _ ← expect .colon
      return Node.elseIf cond (.ofList (← g.statementsUntil ["elseif", "else", "endif"]))) :=
    .next h.parenthesized.later fun _ => .next (.expect .colon nofun) fun _ =>
      .next (h.statementsUntil _) fun _ => .pure rfl
  have last : Safe d (do
      let _ ← expect .colon
      g.statementsUntil ["endif"]) :=
    .next (.expect .colon nofun) fun _ => h.statementsUntil _
  refine .next (h.statementsUntil _) fun yes => .next (elseIf.behind (.tryKeyword _)) fun elseIfs => ?_
  refine .next (last.afterKeyword _) fun no => .next (.expectKeyword _) fun _ => ?_
  exact .next .expectSemicolon fun _ => .pure rfl

theorem ifStmt : Consumes (d + 1) g.ifStmt := by
  have elseIf : Safe d (do
      let cond ← g.parenthesized
      return Node.elseIf cond (.ofList (← g.body "endif"))) :=
    .next h.parenthesized.later fun _ => .next (h.body _) fun _ => .pure rfl
  refine .start (.expectKeyword _) fun _ => .next h.parenthesized.later fun cond => ?_
  refine .next (.tryToken .colon nofun) fun _ => .ite (h.alternativeIf cond) ?_
  refine .next (h.body _) fun yes => .next (elseIf.behind (.tryKeyword _)) fun elseIfs => ?_
  exact .next ((h.body _).afterKeyword _) fun no => .pure rfl

theorem whileStmt : Consumes (d + 1) g.whileStmt := by
  refine .start (.expectKeyword _) fun _ => .next h.parenthesized.later fun cond => ?_
  exact .next (h.body _) fun body => .pure rfl

theorem doWhile : Consumes (d + 1) g.doWhile := by
  refine .start (.expectKeyword _) fun _ => .look fun s => .ite (.failExpected _) (.next (h.body _) fun body => ?_)
  refine .next (.expectKeyword _) fun _ => .next h.parenthesized.later fun cond => ?_
  exact .next .expectSemicolon fun _ => .pure rfl

theorem forPart (close : TokenKind) : Safe d (g.forPart close) :=
  .look fun _ => .ite (.pure rfl) h.exprList.safe

theorem forStmt : Consumes (d + 1) g.forStmt := by
  refine .start (.expectKeyword _) fun _ => .next (.expect .openParen nofun) fun _ => .next (h.forPart _) fun init => ?_
  refine .next (.expect .semicolon nofun) fun _ => .next (h.forPart _) fun cond => ?_
  refine .next (.expect .semicolon nofun) fun _ => .next (h.forPart _) fun step => ?_
  exact .next (.expect .closeParen nofun) fun _ => .next (h.body _) fun body => .pure rfl

theorem foreachStmt : Consumes (d + 1) g.foreachStmt := by
  have afterTargets (subject : Expr) (key : Node (.opt .expr)) (value : Expr) (byRef : Bool) : Safe d (do
      let _ ← expect .closeParen
      return Node.foreach subject key value byRef (.ofList (← g.body "endforeach"))) :=
    .next (.expect .closeParen nofun) fun _ => .next (h.body _) fun _ => .pure rfl
  refine .start (.expectKeyword _) fun _ => .next (.expect .openParen nofun) fun _ => .next h.anyExpr fun subject => ?_
  refine .next (.expectKeyword _) fun _ => .next (.tryToken .amp nofun) fun byRef => .next h.anyExpr fun first => ?_
  refine .ite (.next (.tryToken .fatArrow nofun) fun _ => .ite ?_ ?_) ?_
  · refine .next (.tryToken .amp nofun) fun byRef => .next h.anyExpr fun value => .pure_bind ?_
    exact afterTargets subject (.present first) value byRef
  · exact .pure_bind (afterTargets subject .absent first false)
  · exact .pure_bind (afterTargets subject .absent first true)

theorem caseTest : Consumes (d + 1) g.caseTest := by
  refine .choice (.tryKeyword _) (.next h.anyExpr fun value => .pure rfl) ?_
  exact .choice (.tryKeyword _) (.pure rfl) (.failExpected _)

theorem switchCase : Consumes (d + 1) g.switchCase := by
  refine .start h.caseTest fun test => .next (.tryToken .colon nofun) fun _ => .ite ?_ ?_
  · exact .next (.expect .semicolon nofun) fun _ => .next (h.statementsUntil _) fun body => .pure rfl
  · exact .next (h.statementsUntil _) fun body => .pure rfl

omit h in
theorem tryEndSwitch (alternative : Bool) : Safe d (tryEndSwitch alternative) := by
  refine .ite (.next (.tryKeyword _) fun _ => .ite ?_ (.pure rfl)) (Runs.tryToken .closeBrace nofun).safe
  exact .next .expectSemicolon fun _ => .pure rfl

theorem switchStmt : Consumes (d + 1) g.switchStmt := by
  have cases (subject : Expr) (alternative : Bool) : Safe d (do
      let cases ← collect do
        skipAll fillers
        if ← Grammar.tryEndSwitch alternative then return ([], false)
        else return ([← g.switchCase], true)
      return Node.switchStmt subject (.ofList cases)) := by
    refine .next (.collect ?_) fun cases => .pure rfl
    refine .next (.skipAll rfl) fun _ => .next (tryEndSwitch alternative) fun _ => .ite (.pure rfl) ?_
    apply (h.switchCase.shallower (Nat.le_succ d)).bind
    intro c
    exact .pure rfl
  refine .start (.expectKeyword _) fun _ => .next h.parenthesized.later fun subject => ?_
  refine .next (.tryToken .colon nofun) fun alternative => .ite ?_ (cases subject alternative)
  exact .next (.expect .openBrace nofun) fun _ => cases subject alternative

theorem catchClause : Consumes (d + 1) g.catchClause := by
  have afterVar (first : Name) (others : List Name) (var : Option String) : Safe d (do
      let _ ← expect .closeParen
      return Node.catchClause (first :: others) var (.ofList (← g.block))) :=
    .next (.expect .closeParen nofun) fun _ => .next h.block.later fun _ => .pure rfl
  refine .start (.expect .openParen nofun) fun _ => .next (.expectIdent _) fun first => ?_
  refine .next (.behind (.expectIdent _) (.tryToken .pipe nofun)) fun others => .look fun s => .ite ?_ ?_
  · exact .next .advance fun t => .pure_bind (afterVar first others (some t.text))
  · exact .pure_bind (afterVar first others none)

theorem tryStmt : Consumes (d + 1) g.tryStmt := by
  have clause : Safe d g.catchClause := h.catchClause.later
  have block : Safe d g.block := h.block.later
  refine .start (.expectKeyword _) fun _ => .next block fun body => .next (clause.behind (.tryKeyword _)) fun catches => ?_
  exact .next (block.afterKeyword _) fun last => .ite (.failExpected _) (.pure rfl)

theorem declareStmt : Consumes (d + 1) g.declareStmt := by
  have directives : Safe d (commaList do
      let name ← expectIdent "directive name"
      let _ ← expect .assign
      return Node.directive name (← g.anyExpr)) := by
    refine Runs.later (.commaList (.start (.expectIdent _) fun name => ?_))
    exact .next (.expect .assign nofun) fun _ => .next h.anyExpr fun value => .pure rfl
  refine .start (.expectKeyword _) fun _ => ?_
  refine .next (directives.enclosedBy .openParen .closeParen nofun nofun).later fun directives => ?_
  refine .look fun s => .ite (.next (h.body _) fun body => .pure rfl) ?_
  exact .next .expectSemicolon fun _ => .pure rfl

/-! ### Statements -/

omit h in
theorem ended (stmt : Stmt) : Safe d (ended stmt) := .next .expectSemicolon fun _ => .pure rfl

theorem optionalValue : Safe d g.optionalValue :=
  .look fun _ => .ite (.pure rfl) (.next h.anyExpr fun _ => .pure rfl)

section

-- A statement may begin with an expression, whose reader comes first then.
variable {e : Nat} (le : e ≤ d + 1) (expr : ∀ least, Consumes e (g.expr least))

include le expr

omit h in
theorem exprStmt : Consumes e g.exprStmt :=
  .start_of_le le (expr _) fun _ => ended _

theorem wordStmt (word : String) {s : Stream} (ident : s.kind = .ident) :
    RunsFrom s e (g.wordStmt word) fun _ => 1 := by
  have more : s.kind ≠ .eof := by
    rw [ident]
    exact nofun
  have behindWord {α : Type} {make : α → Stmt} {p : Parse α} (hp : Safe d p) :
      RunsFrom s e (do let _ ← advance; Grammar.ended (make (← p))) fun _ => 1 :=
    (RunsFrom.advance_start more fun _ => .next hp fun _ => ended _).shallower le
  refine .get_bind ?_
  split
  case h_1 => exact Runs.useDecl.shallower le s
  case h_2 => exact behindWord h.definitions.later
  case h_3 => exact h.declareStmt.shallower le s
  case h_4 => exact h.ifStmt.shallower le s
  case h_5 => exact h.whileStmt.shallower le s
  case h_6 => exact h.doWhile.shallower le s
  case h_7 => exact h.forStmt.shallower le s
  case h_8 => exact h.foreachStmt.shallower le s
  case h_9 => exact h.switchStmt.shallower le s
  case h_10 => exact behindWord h.optionalValue
  case h_11 => exact behindWord h.optionalValue
  case h_12 => exact behindWord h.optionalValue
  case h_13 => exact behindWord h.exprList.safe
  case h_14 => exact behindWord h.anyExpr.safe
  case h_15 => exact h.tryStmt.shallower le s
  case h_16 => exact behindWord Runs.expectVariable.commaList.safe
  case h_17 => exact .failWith nofun
  refine .ite (fun _ => .failExpected _) fun _ => .ite (fun _ => ?staticVars) fun _ => .ite (fun _ => ?unset) fun _ =>
    .ite (fun _ => ?goto) fun _ => exprStmt le expr s
  case staticVars => exact behindWord h.varItems.later
  case unset =>
    exact behindWord (Runs.enclosedBy (h.anyExpr.commaListUntil _) .openParen .closeParen nofun nofun).later
  case goto => exact (RunsFrom.advance_start more fun _ => .next .advance fun _ => ended _).shallower le

theorem statement : Consumes e g.statement := by
  refine .get_bind fun s => .ite (fun _ => h.declaration.shallower le s) fun _ => ?_
  have nop (more : s.kind ≠ .eof) : RunsFrom s e (do
      let _ ← advance
      return Node.nop) fun _ => 1 :=
    (RunsFrom.advance_start more fun _ => .pure rfl).shallower le
  split
  · next kind => exact RunsFrom.shallower (.advance_start (by rw [kind]; exact nofun) fun _ => .pure rfl) le
  · next kind => exact nop (by rw [kind]; exact nofun)
  · next kind => exact nop (by rw [kind]; exact nofun)
  · next kind => exact nop (by rw [kind]; exact nofun)
  · next kind =>
    refine RunsFrom.shallower (.advance_start (by rw [kind]; exact nofun) fun _ => ?_) le
    exact .next h.exprList fun values => ended _
  · exact RunsFrom.shallower (.start (h.block s) fun body => .pure rfl) le
  · next kind =>
    refine .ite (fun _ => RunsFrom.shallower (.advance_start ?_ fun name => ?_) le) fun _ => h.wordStmt le expr _ kind
    · rw [kind]
      exact nofun
    · exact .next .advance fun _ => .pure rfl
  · exact exprStmt le expr s

end

/-! ### Namespaces -/

theorem namespaceBody : Safe d g.namespaceBody := by
  refine .collect (.next (.skipAll rfl) fun _ => .next .leadingComments fun comments => .look fun s => ?_)
  refine .ite (.pure rfl) ?_
  apply h.stmt.bind
  intro stmt
  exact .pure rfl

theorem namespaceDecl : Consumes (d + 1) g.namespaceDecl := by
  have afterName (start : Nat) (name : Option Name) : Safe d (do
      if (← get).at_ .openBrace then
        let stmts ← enclosedBy .openBrace .closeBrace g.namespaceBody
        return Node.namespaceDecl name (.ofList stmts) true ((← get).spanFrom start)
      else if name.isNone then failExpected "namespace name or '\x7b'"
      else
        expectSemicolon
        let stmts ← g.namespaceBody
        return Node.namespaceDecl name (.ofList stmts) false ((← get).spanFrom start)) := by
    refine .look fun s => .ite ?braces (.ite (.failExpected _) ?rest)
    case braces =>
      refine .next (h.namespaceBody.enclosedBy .openBrace .closeBrace nofun nofun).later fun stmts => ?_
      exact .look fun s => .pure rfl
    case rest =>
      exact .next .expectSemicolon fun _ => .next h.namespaceBody fun stmts => .look fun s => .pure rfl
  refine .look fun s => .start (.expectKeyword _) fun _ => .look fun s => .ite ?_ (.pure_bind (afterName _ none))
  exact .next .advance fun t => .pure_bind (afterName _ (some t.text))

theorem fileBody : Safe d g.fileBody := by
  refine .collect (.next (.skipAll rfl) fun _ => .next .leadingComments fun comments => .look fun s => ?_)
  refine .ite (.pure rfl) (.ite ?_ ?_)
  · apply (h.namespaceDecl.shallower (Nat.le_succ d)).bind
    intro stmt
    exact .pure rfl
  · apply h.stmt.bind
    intro stmt
    exact .pure rfl

theorem file : Safe d (Parse.file g) :=
  .look fun _ => .next h.fileBody fun _ => .look fun _ => .pure rfl

end Grammar.Consuming

/-! ## The knot -/

namespace Grammar

/-- The grammar whose readers are the productions over the readers of `g`. -/
def next (g : Grammar) : Grammar := ⟨g.operatorExpr, g.operandExpr, g.primaryExpr, g.statement⟩

theorem upTo_succ (n : Nat) : upTo (n + 1) = (upTo n).next := rfl

theorem upTo_add (n k : Nat) : upTo (n + k) = next^[k] (upTo n) := by
  induction k with
  | zero => rfl
  | succ k ih => rw [Function.iterate_succ_apply', ← ih, ← Nat.add_assoc, upTo_succ]

namespace Consuming

variable {g : Grammar} {d : Nat}

theorem shallower {e : Nat} (h : g.Consuming d) (le : e ≤ d) : g.Consuming e :=
  ⟨fun least => (h.expr least).shallower le, h.operand.shallower le, h.primary.shallower le, h.stmt.shallower le⟩

/-- Unrolling loses no depth. -/
theorem next (h : g.Consuming d) : g.next.Consuming d :=
  have le : d ≤ d + 1 := Nat.le_succ d
  ⟨h.operatorExpr le h.operand, h.operandExpr le h.primary, h.primaryExpr.shallower le, h.statement le h.expr⟩

/-- No token is needed for four unrollings, but at the fifth one has been read: a statement begins with an expression, that
with an operand, that with a primary expression, and that with a token. -/
theorem next_four (h : g.Consuming d) : (Grammar.next^[4] g).Consuming (d + 1) := by
  have le : d + 1 ≤ d + 1 := le_refl _
  have primary₁ : Consumes (d + 1) g.next.primary := h.primaryExpr
  have primary₂ : Consumes (d + 1) g.next.next.primary := h.next.primaryExpr
  have primary₃ : Consumes (d + 1) g.next.next.next.primary := h.next.next.primaryExpr
  have operand₂ : Consumes (d + 1) g.next.next.operand := h.next.operandExpr le primary₁
  have operand₃ : Consumes (d + 1) g.next.next.next.operand := h.next.next.operandExpr le primary₂
  have expr₃ (least : Level) : Consumes (d + 1) (g.next.next.next.expr least) := h.next.next.operatorExpr le operand₂ least
  have h₃ : g.next.next.next.Consuming d := h.next.next.next
  exact ⟨h₃.operatorExpr le operand₃, h₃.operandExpr le primary₃, h₃.primaryExpr, h₃.statement le expr₃⟩

end Consuming

/-- The parser's readers, by induction on how many tokens there is depth for. -/
theorem consuming_upTo {d n : Nat} (le : 4 * d ≤ n) : (upTo n).Consuming d := by
  induction d generalizing n with
  | zero =>
    induction n with
    | zero =>
      exact ⟨fun _ => .failWith_tooDeep, .failWith_tooDeep, .failWith_tooDeep, .failWith_tooDeep⟩
    | succ n ih => exact (ih (Nat.zero_le _)).next
  | succ d ih =>
    obtain ⟨m, rfl⟩ : ∃ m, n = m + 4 := ⟨n - 4, by omega⟩
    rw [upTo_add]
    apply Consuming.next_four
    apply ih
    omega

end Grammar

end Codewright.Php
