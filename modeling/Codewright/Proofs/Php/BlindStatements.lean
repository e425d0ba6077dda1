import Codewright.Proofs.Php.BlindExpressions

/-!
# Comments never influence what is read

* `Grammar.Blind.statement`, … – one lemma for each production of statements;
* `Grammar.blind_upTo` – the parser's readers do not see comments, by induction on how deep sources may nest;
* `parseFile_bare` – tokens without their comments give the same error, or the same tree without its comments.
-/

namespace Codewright.Php

open Source

namespace Plain

theorem classHead : Plain Grammar.classHead :=
  classModifiers.bind fun _ => (Blind.expectKeyword _).bind fun _ => (Blind.expectIdent _).bind fun _ =>
    parent.bind fun _ => (interfaces _).bind fun _ => .pure rfl

theorem interfaceHead : Plain Grammar.interfaceHead :=
  (Blind.expectKeyword _).bind fun _ => (Blind.expectIdent _).bind fun _ => (interfaces _).bind fun _ => .pure rfl

theorem traitHead : Plain Grammar.traitHead :=
  (Blind.expectKeyword _).bind fun _ => (Blind.expectIdent _).bind fun _ => .pure rfl

theorem enumHead : Plain Grammar.enumHead :=
  (Blind.expectKeyword _).bind fun _ => (Blind.expectIdent _).bind fun _ => returnType.bind fun _ =>
    (interfaces _).bind fun _ => .pure rfl

end Plain

namespace Grammar.Blind

open Parse

theorem useDecl : Php.Blind Parse.useDecl Parse.useDecl Node.bare :=
  (Blind.expectKeyword _).bind fun _ => Plain.importKind.bind fun _ => (Plain.commaList .importItems).bind fun _ =>
    Blind.expectSemicolon.bind fun _ => .pure rfl

variable {g : Grammar} (h : g.Blind)

include h

/-! ### Declarations -/

theorem classLike (doc : Option String) (attributes : List String) {head : Parse (String × ClassKind)}
    (plain : Plain head) :
    Php.Blind (g.classLike doc attributes head) (g.classLike none attributes head) Node.bare := by
  refine .get_bind fun s => plain.bind fun (_, _) => h.members.bind fun _ => .get_bind fun _ => ?_
  rw [s.peek_bare, Token.span_bare]
  exact .pure (by simp)

theorem function (doc : Option String) (attributes : List String) :
    Php.Blind (g.function doc attributes) (g.function none attributes) Node.bare := by
  refine .get_bind fun s => ?_
  rw [s.peek_bare, Token.span_bare]
  exact (Blind.expectKeyword _).bind fun _ => (Blind.tryToken _).bind fun _ => (Blind.expectIdent _).bind fun _ =>
    h.params.bind fun _ => Plain.returnType.bind fun _ => h.block.bind fun _ => .get_bind fun _ => .pure (by simp)

theorem declarationOf (doc : Option String) (attributes : List String) :
    Php.Blind (g.declarationOf doc attributes) (g.declarationOf none attributes) Node.bare :=
  .get_bind fun s => .ite (by simp) (h.classLike _ _ Plain.classHead) <|
    .ite (by simp) (h.classLike _ _ Plain.interfaceHead) <| .ite (by simp) (h.classLike _ _ Plain.traitHead) <|
    .ite (by simp) (h.classLike _ _ Plain.enumHead) <| .ite (by simp) (h.function _ _) (.failWith _)

theorem declaration : Php.Blind g.declaration g.declaration Node.bare := by
  refine .bind .takeDoc fun before => Plain.attributes.bind fun attributes => ?_
  cases before with
  | some doc => exact .doc_bind (h.declarationOf _ _)
  | none => exact .bind .takeDoc fun doc => h.declarationOf _ _

/-! ### Control structures -/

theorem body (endWord : String) : Php.Blind (g.body endWord) (g.body endWord) Node.bares := by
  refine .get_bind fun _ => .ite (by simp) h.block <| (Blind.tryToken _).bind fun _ => .ite Iff.rfl ?alternative ?single
  case alternative =>
    exact (h.statementsUntil _).bind fun _ => (Blind.expectKeyword _).bind fun _ =>
      Blind.expectSemicolon.bind fun _ => .pure rfl
  case single =>
    exact .bind leadingComments fun _ => h.stmt.bind_of h.noComment fun x hx =>
      .pure (by simp [Node.bares_singleton hx])

theorem alternativeIf (cond : Expr) : Php.Blind (g.alternativeIf cond) (g.alternativeIf cond.bare) Node.bare := by
  refine (h.statementsUntil _).bind fun _ =>
    Blind.bind (.behind ?elseIf (.tryKeyword _) : Php.Blind _ _ (List.map Node.bare)) fun _ =>
    Blind.bind (.afterKeyword ?last _ : Php.Blind _ _ (Option.map Node.bares)) fun _ =>
    (Blind.expectKeyword _).bind fun _ => Blind.expectSemicolon.bind fun _ => .pure (by simp)
  case elseIf =>
    exact h.parenthesized.bind fun _ => (Blind.expect _).bind fun _ => (h.statementsUntil _).bind fun _ =>
      .pure (by simp)
  case last => exact (Blind.expect _).bind fun _ => h.statementsUntil _

theorem ifStmt : Php.Blind g.ifStmt g.ifStmt Node.bare := by
  refine (Blind.expectKeyword _).bind fun _ => h.parenthesized.bind fun cond => (Blind.tryToken _).bind fun _ =>
    .ite Iff.rfl (h.alternativeIf cond) ?_
  refine (h.body _).bind fun _ =>
    Blind.bind (.behind ?elseIf (.tryKeyword _) : Php.Blind _ _ (List.map Node.bare)) fun _ =>
    ((h.body _).afterKeyword _).bind fun _ => .pure (by simp)
  exact h.parenthesized.bind fun _ => (h.body _).bind fun _ => .pure (by simp)

theorem whileStmt : Php.Blind g.whileStmt g.whileStmt Node.bare :=
  (Blind.expectKeyword _).bind fun _ => h.parenthesized.bind fun _ => (h.body _).bind fun _ => .pure (by simp)

theorem doWhile : Php.Blind g.doWhile g.doWhile Node.bare :=
  (Blind.expectKeyword _).bind fun _ => .get_bind fun _ => .ite (by simp) (.failExpected _) <| (h.body _).bind fun _ =>
    (Blind.expectKeyword _).bind fun _ => h.parenthesized.bind fun _ => Blind.expectSemicolon.bind fun _ =>
    .pure (by simp)

theorem forPart (close : TokenKind) : Php.Blind (g.forPart close) (g.forPart close) (List.map Node.bare) :=
  .get_bind fun _ => .ite (by simp) (.pure rfl) h.exprList

theorem forStmt : Php.Blind g.forStmt g.forStmt Node.bare :=
  (Blind.expectKeyword _).bind fun _ => (Blind.expect _).bind fun _ => (h.forPart _).bind fun _ =>
    (Blind.expect _).bind fun _ => (h.forPart _).bind fun _ => (Blind.expect _).bind fun _ =>
    (h.forPart _).bind fun _ => (Blind.expect _).bind fun _ => (h.body _).bind fun _ => .pure (by simp)

theorem foreachStmt : Php.Blind g.foreachStmt g.foreachStmt Node.bare := by
  refine (Blind.expectKeyword _).bind fun _ => (Blind.expect _).bind fun _ => h.anyExpr.bind fun subject =>
    (Blind.expectKeyword _).bind fun _ => (Blind.tryToken _).bind fun byRef => h.anyExpr.bind fun first =>
    .ite Iff.rfl ((Blind.tryToken _).bind fun _ => .ite Iff.rfl ((Blind.tryToken _).bind fun _ =>
      h.anyExpr.bind fun value => .pure_bind ?_) (.pure_bind ?_)) (.pure_bind ?_)
  all_goals exact (Blind.expect _).bind fun _ => (h.body _).bind fun _ => .pure (by simp)

theorem caseTest : Php.Blind g.caseTest g.caseTest (Option.map Node.bare) :=
  (Blind.tryKeyword _).bind fun _ => .ite Iff.rfl (h.anyExpr.bind fun _ => .pure rfl) <|
    (Blind.tryKeyword _).bind fun _ => .ite Iff.rfl (.pure rfl) (.failExpected _)

theorem switchCase : Php.Blind g.switchCase g.switchCase Node.bare := by
  refine h.caseTest.bind fun test => (Blind.tryToken _).bind fun _ =>
    .ite Iff.rfl ((Blind.expect _).bind fun _ => ?_) ?_
  all_goals exact (h.statementsUntil _).bind fun _ => .pure (by simp)

omit h in
theorem tryEndSwitch (alternative : Bool) : Plain (Grammar.tryEndSwitch alternative) :=
  .ite Iff.rfl ((Blind.tryKeyword _).bind fun _ =>
    .ite Iff.rfl (Blind.expectSemicolon.bind fun _ => .pure rfl) (.pure rfl)) (.tryToken _)

theorem switchStmt : Php.Blind g.switchStmt g.switchStmt Node.bare := by
  refine (Blind.expectKeyword _).bind fun _ => h.parenthesized.bind fun subject =>
    (Blind.tryToken _).bind fun alternative => .ite Iff.rfl ((Blind.expect _).bind fun _ => ?_) ?_
  all_goals
    refine .bind (.collect (fun _ _ => List.map_append) <| (Plain.skipAll _).bind fun _ => (tryEndSwitch _).bind
      fun _ => .ite Iff.rfl (.pure rfl) (h.switchCase.bind fun _ => .pure rfl)) fun _ => .pure (by simp)

theorem catchClause : Php.Blind g.catchClause g.catchClause Node.bare := by
  refine (Blind.expect _).bind fun _ => (Blind.expectIdent _).bind fun _ =>
    (Plain.behind (.expectIdent _) (.tryToken _)).bind fun _ => .get_bind fun s =>
    .ite (by simp) (Blind.advance.bind fun _ => .pure_bind ?_) (.pure_bind ?_)
  all_goals exact (Blind.expect _).bind fun _ => h.block.bind fun _ => .pure (by simp)

theorem tryStmt : Php.Blind g.tryStmt g.tryStmt Node.bare :=
  (Blind.expectKeyword _).bind fun _ => h.block.bind fun _ => (h.catchClause.behind (.tryKeyword _)).bind fun _ =>
    (h.block.afterKeyword _).bind fun _ => .ite (by simp) (.failExpected _) (.pure (by simp))

theorem declareStmt : Php.Blind g.declareStmt g.declareStmt Node.bare := by
  refine (Blind.expectKeyword _).bind fun _ =>
    .bind (.enclosedBy (.commaList ?directive) _ _ : Php.Blind _ _ (List.map Node.bare)) fun _ =>
    .get_bind fun _ => .ite (by simp) ((h.body _).bind fun _ => .pure (by simp))
      (Blind.expectSemicolon.bind fun _ => .pure (by simp))
  exact (Blind.expectIdent _).bind fun _ => (Blind.expect _).bind fun _ => h.anyExpr.bind fun _ => .pure rfl

/-! ### Statements -/

omit h in
theorem ended {s s' : Stmt} (same : s.bare = s') : Php.Blind (ended s) (ended s') Node.bare :=
  Blind.expectSemicolon.bind fun _ => .pure same

theorem optionalValue : Php.Blind g.optionalValue g.optionalValue Node.bare :=
  .get_bind fun _ => .ite (by simp) (.pure rfl) (h.anyExpr.bind fun _ => .pure rfl)

theorem exprStmt : Php.Blind g.exprStmt g.exprStmt Node.bare :=
  h.anyExpr.bind fun _ => ended rfl

theorem wordStmt (word : String) : Php.Blind (g.wordStmt word) (g.wordStmt word) Node.bare := by
  refine .get_bind fun s => ?_
  split
  case h_1 => exact useDecl
  case h_2 => exact Blind.advance.bind fun _ => h.definitions.bind fun _ => ended (by simp)
  case h_3 => exact h.declareStmt
  case h_4 => exact h.ifStmt
  case h_5 => exact h.whileStmt
  case h_6 => exact h.doWhile
  case h_7 => exact h.forStmt
  case h_8 => exact h.foreachStmt
  case h_9 => exact h.switchStmt
  case h_10 => exact Blind.advance.bind fun _ => h.optionalValue.bind fun _ => ended rfl
  case h_11 => exact Blind.advance.bind fun _ => h.optionalValue.bind fun _ => ended rfl
  case h_12 => exact Blind.advance.bind fun _ => h.optionalValue.bind fun _ => ended rfl
  case h_13 => exact Blind.advance.bind fun _ => h.exprList.bind fun _ => ended (by simp)
  case h_14 => exact Blind.advance.bind fun _ => h.anyExpr.bind fun _ => ended rfl
  case h_15 => exact h.tryStmt
  case h_16 => exact Blind.advance.bind fun _ => (Plain.commaList .expectVariable).bind fun _ => ended rfl
  case h_17 => exact .failWith _
  simp only [s.atNamespace_bare, s.hasAt_bare]
  refine .ite Iff.rfl (.failExpected _) <| .ite Iff.rfl ?staticVars <| .ite Iff.rfl ?unset <|
    .ite Iff.rfl ?goto h.exprStmt
  case staticVars => exact Blind.advance.bind fun _ => h.varItems.bind fun _ => ended (by simp)
  case unset =>
    exact Blind.advance.bind fun _ => .bind ((h.anyExpr.commaListUntil _).enclosedBy _ _) fun _ => ended (by simp)
  case goto => exact Blind.advance.bind fun _ => Blind.advance.bind fun _ => ended rfl

theorem statement : Php.Blind g.statement g.statement Node.bare := by
  refine .get_bind fun s => .ite (by simp) h.declaration ?_
  rw [s.kind_bare, s.peek_bare, Token.text_bare]
  split
  · exact Blind.advance.bind fun _ => .pure rfl
  · exact Blind.advance.bind fun _ => .pure rfl
  · exact Blind.advance.bind fun _ => .pure rfl
  · exact Blind.advance.bind fun _ => .pure rfl
  · exact Blind.advance.bind fun _ => h.exprList.bind fun _ => ended (by simp)
  · exact h.block.bind fun _ => .pure (by simp)
  · exact .ite (by simp) (Blind.advance.bind fun _ => Blind.advance.bind fun _ => .pure rfl) (h.wordStmt _)
  · exact h.exprStmt

/-! ### Namespaces -/

theorem namespaceBody : Php.Blind g.namespaceBody g.namespaceBody Node.bares := by
  refine .collect Node.bares_append <| (Plain.skipAll _).bind fun _ => .bind leadingComments fun _ =>
    .get_bind fun _ => .ite (by simp) (.pure rfl) ?_
  exact h.stmt.bind_of h.noComment fun x hx => .pure (by simp [Node.bares_singleton hx])

theorem namespaceDecl : Php.Blind g.namespaceDecl g.namespaceDecl Node.bare := by
  refine .get_bind fun s => ?_
  rw [s.peek_bare, Token.span_bare]
  refine (Blind.expectKeyword _).bind fun _ => .get_bind fun _ =>
    .ite (by simp) (Blind.advance.bind fun _ => .pure_bind ?_) (.pure_bind ?_)
  all_goals
    refine .get_bind fun _ => .ite (by simp) (.bind (h.namespaceBody.enclosedBy _ _) fun _ => ?_)
      (.ite (by simp) (.failExpected _) ?_)
    · exact .get_bind fun _ => .pure (by simp)
    · exact Blind.expectSemicolon.bind fun _ => h.namespaceBody.bind fun _ => .get_bind fun _ => .pure (by simp)

end Grammar.Blind

/-! ### No statement is a comment -/

namespace NoComment

open Parse Grammar

variable {g : Grammar}

theorem useDecl : NoComment Parse.useDecl :=
  .bind fun _ => .bind fun _ => .bind fun _ => .bind fun _ => .pure rfl

theorem classLike (doc : Option String) (attributes : List String) (head : Parse (String × ClassKind)) :
    NoComment (g.classLike doc attributes head) :=
  .bind fun _ => .bind fun (_, _) => .bind fun _ => .bind fun _ => .pure rfl

theorem function (doc : Option String) (attributes : List String) : NoComment (g.function doc attributes) :=
  .bind fun _ => .bind fun _ => .bind fun _ => .bind fun _ => .bind fun _ => .bind fun _ => .bind fun _ =>
    .bind fun _ => .pure rfl

theorem declarationOf (doc : Option String) (attributes : List String) : NoComment (g.declarationOf doc attributes) :=
  .bind fun _ => .ite (classLike _ _ _) <| .ite (classLike _ _ _) <| .ite (classLike _ _ _) <|
    .ite (classLike _ _ _) <| .ite (function _ _) fun _ => .failWith _

theorem declaration : NoComment g.declaration := by
  refine .bind fun before => .bind fun attributes => ?_
  cases before
  all_goals exact .bind fun _ => declarationOf _ _

theorem alternativeIf (cond : Expr) : NoComment (g.alternativeIf cond) :=
  .bind fun _ => .bind fun _ => .bind fun _ => .bind fun _ => .bind fun _ => .pure rfl

theorem ifStmt : NoComment g.ifStmt :=
  .bind fun _ => .bind fun cond => .bind fun _ => .ite (alternativeIf cond) <|
    .bind fun _ => .bind fun _ => .bind fun _ => .pure rfl

theorem doWhile : NoComment g.doWhile :=
  .bind fun _ => .bind fun _ => .ite (.failExpected _) <| .bind fun _ => .bind fun _ => .bind fun _ =>
    .bind fun _ => .pure rfl

theorem forStmt : NoComment g.forStmt :=
  .bind fun _ => .bind fun _ => .bind fun _ => .bind fun _ => .bind fun _ => .bind fun _ => .bind fun _ =>
    .bind fun _ => .bind fun _ => .pure rfl

theorem foreachStmt : NoComment g.foreachStmt := by
  refine .bind fun _ => .bind fun _ => .bind fun _ => .bind fun _ => .bind fun _ => .bind fun _ =>
    .ite (.bind fun _ => .ite (.bind fun _ => .bind fun _ => ?_) ?_) ?_
  all_goals exact .bind fun _ => .bind fun _ => .bind fun _ => .pure rfl

theorem switchStmt : NoComment g.switchStmt := by
  refine .bind fun _ => .bind fun _ => .bind fun _ => .ite (.bind fun _ => ?_) ?_
  all_goals exact .bind fun _ => .pure rfl

theorem tryStmt : NoComment g.tryStmt :=
  .bind fun _ => .bind fun _ => .bind fun _ => .bind fun _ => .ite (.failExpected _) (.pure rfl)

theorem declareStmt : NoComment g.declareStmt :=
  .bind fun _ => .bind fun _ => .bind fun _ => .ite (.bind fun _ => .pure rfl) (.bind fun _ => .pure rfl)

theorem ended {s : Stmt} (h : s.isCommentEntry = false) : NoComment (Grammar.ended s) := .bind fun _ => .pure h

theorem exprStmt : NoComment g.exprStmt := .bind fun _ => ended rfl

theorem wordStmt (word : String) : NoComment (g.wordStmt word) := by
  refine .bind fun s => ?_
  split
  case h_1 => exact useDecl
  case h_3 => exact declareStmt
  case h_4 => exact ifStmt
  case h_5 => exact .bind fun _ => .bind fun _ => .bind fun _ => .pure rfl
  case h_6 => exact doWhile
  case h_7 => exact forStmt
  case h_8 => exact foreachStmt
  case h_9 => exact switchStmt
  case h_15 => exact tryStmt
  case h_17 => exact fun _ => .failWith _
  case h_18 =>
    refine .ite (.failExpected _) <| .ite ?_ <| .ite ?_ <| .ite ?_ exprStmt
    all_goals exact .bind fun _ => .bind fun _ => ended rfl
  all_goals exact .bind fun _ => .bind fun _ => ended rfl

theorem statement : NoComment g.statement := by
  refine .bind fun s => .ite declaration ?_
  split
  case h_7 => exact .ite (.bind fun _ => .bind fun _ => .pure rfl) (wordStmt _)
  case h_8 => exact exprStmt
  case h_5 => exact .bind fun _ => .bind fun _ => ended rfl
  all_goals exact .bind fun _ => .pure rfl

theorem namespaceDecl : NoComment g.namespaceDecl := by
  refine .bind fun s => .bind fun _ => .bind fun _ => .ite (.bind fun _ => .bind fun _ => ?_) (.bind fun _ => ?_)
  all_goals
    exact .bind fun _ => .ite (.bind fun _ => .bind fun _ => .pure rfl) <| .ite (.failExpected _) <|
      .bind fun _ => .bind fun _ => .bind fun _ => .pure rfl

end NoComment

/-! ## Files -/

/-- However deep the sources may nest, the parser does not see comments. -/
theorem Grammar.blind_upTo (n : Nat) : (Grammar.upTo n).Blind := by
  induction n with
  | zero => exact ⟨fun _ => .failWith _, .failWith _, .failWith _, .failWith _, fun _ => .failWith _⟩
  | succ n ih => exact ⟨ih.operatorExpr, ih.operandExpr, ih.primaryExpr, ih.statement, NoComment.statement⟩

theorem Grammar.Blind.fileBody {g : Grammar} (h : g.Blind) : Php.Blind g.fileBody g.fileBody Node.bares := by
  refine .collect Node.bares_append <| (Plain.skipAll _).bind fun _ => .bind leadingComments fun _ =>
    .get_bind fun _ => .ite (by simp) (.pure rfl) <| .ite (by simp) ?nested ?statement
  case nested =>
    exact h.namespaceDecl.bind_of NoComment.namespaceDecl fun x hx => .pure (by simp [Node.bares_singleton hx])
  case statement => exact h.stmt.bind_of h.noComment fun x hx => .pure (by simp [Node.bares_singleton hx])

theorem Grammar.Blind.file {g : Grammar} (h : g.Blind) : Php.Blind (Parse.file g) (Parse.file g) File.bare := by
  refine .get_bind fun s => h.fileBody.bind fun _ => .get_bind fun s' => ?_
  simp only [s.peek_bare, s'.peek_bare, Token.span_bare]
  exact .pure (by simp [File.bare])

/-- Comments never influence what is read: without them the tokens of a file give the same error, or the same tree
without its comments. -/
theorem parseFile_bare (tokens : List Token) :
    parseFile (tokens.map Token.bare) = (parseFile tokens).map File.bare := by
  have runs := (Grammar.blind_upTo (nestingBound tokens.length)).file (Stream.ofTokens tokens)
  rw [Stream.bare_ofTokens] at runs
  simp only [parseFile, runOn, List.length_map, StateT.run]
  rw [runs]
  cases Parse.file (Grammar.upTo (nestingBound tokens.length)) (Stream.ofTokens tokens) <;> rfl

end Codewright.Php
