import Codewright.Proofs.Php.PlainExpressions

/-!
# Statements are plain

* `Grammar.MakesPlain.statement`, … – one lemma for each production of statements;
* `Grammar.makesPlain_upTo` – the parser's readers make plain trees, by induction on how deep sources may nest;
* `isPlain_parse` – the tree of a source is plain.
-/

namespace Codewright.Php

open Source Text Lexer

namespace Grammar.MakesPlain

open Parse

variable {g : Grammar} {s : Stream} (h : g.MakesPlain)

/-! ### Declarations -/

theorem useDecl : Makes s Parse.useDecl Node.IsPlain := by
  refine (Makes.expectKeyword _).bind fun _ _ => Makes.importKind.bind fun _ _ =>
    (Makes.commaList Makes.importItems).bind fun items hi => Makes.expectSemicolon.bind fun _ _ => .pure ?_
  show ∀ i ∈ items.flatten, i.IsPlain
  exact fun i member => let ⟨is, inside, here⟩ := List.mem_flatten.1 member; hi is inside i here

/-- The head of a class-like declaration: a name, and what is special about it. -/
def IsPlainHead (head : String × ClassKind) : Prop := IsName head.1 ∧ head.2.IsPlain

theorem classHead : Makes s Grammar.classHead IsPlainHead :=
  Makes.classModifiers.bind fun _ _ => (Makes.expectKeyword _).bind fun _ _ => (Makes.expectName _).bind fun _ hn =>
    Makes.parent.bind fun _ hp => (Makes.interfaces _).bind fun _ hi => .pure ⟨hn, hp, hi⟩

theorem interfaceHead : Makes s Grammar.interfaceHead IsPlainHead :=
  (Makes.expectKeyword _).bind fun _ _ => (Makes.expectName _).bind fun _ hn =>
    (Makes.interfaces _).bind fun _ hi => .pure ⟨hn, hi⟩

theorem traitHead : Makes s Grammar.traitHead IsPlainHead :=
  (Makes.expectKeyword _).bind fun _ _ => (Makes.expectName _).bind fun _ hn => .pure ⟨hn, trivial⟩

theorem enumHead : Makes s Grammar.enumHead IsPlainHead :=
  (Makes.expectKeyword _).bind fun _ _ => (Makes.expectName _).bind fun _ hn => Makes.returnType.bind fun _ ht =>
    (Makes.interfaces _).bind fun _ hi => .pure ⟨hn, ht, hi⟩

include h

section

variable {doc : Option String} {groups : List String} (lead : IsPlainLead doc groups)

include lead

theorem classLike {head : Parse (String × ClassKind)} (plain : ∀ {s}, Makes s head IsPlainHead) :
    Makes s (g.classLike doc groups head) Node.IsPlain :=
  .get_bind <| plain.bind fun (_, _) hh => h.members.bind fun _ hm => .get_bind <| .pure ⟨⟨hh.2, hh.1, lead⟩, hm.ofList⟩

theorem function : Makes s (g.function doc groups) Node.IsPlain :=
  .get_bind <| (Makes.expectKeyword _).bind fun _ _ => (Makes.tryToken _).bind fun _ _ => (Makes.name _).bind fun _ hn =>
    h.params.bind fun _ hp => Makes.returnType.bind fun _ ht => h.block.bind fun _ hb =>
    .get_bind <| .pure ⟨⟨hn, ht, lead⟩, hp.ofList, hb.ofList⟩

theorem declarationOf : Makes s (g.declarationOf doc groups) Node.IsPlain :=
  .get_bind <| .ite (h.classLike lead classHead) <| .ite (h.classLike lead interfaceHead) <|
    .ite (h.classLike lead traitHead) <| .ite (h.classLike lead enumHead) <| .ite (h.function lead) (.failWith _)

end

theorem declaration : Makes s g.declaration Node.IsPlain := by
  refine Makes.takeDoc.bind fun before hb => Makes.attributes.bind fun groups hg => ?_
  cases before with
  | some doc => exact .pure_bind (h.declarationOf ⟨hb, hg⟩)
  | none => exact Makes.takeDoc.bind fun doc hd => h.declarationOf ⟨hd, hg⟩

/-! ### Control structures -/

theorem body (endWord : String) : Makes s (g.body endWord) AllPlain := by
  refine .get_bind <| .ite h.block <| (Makes.tryToken _).bind fun _ _ => .ite ?alternative ?single
  case alternative =>
    exact (h.statementsUntil _).bind fun _ hs => (Makes.expectKeyword _).bind fun _ _ =>
      Makes.expectSemicolon.bind fun _ _ => .pure hs
  case single =>
    exact leadingComments.bind fun _ hc => h.stmt.bind fun _ hs =>
      .pure (List.forall_mem_append.2 ⟨hc, List.forall_mem_singleton.2 hs⟩)

theorem alternativeIf {cond : Expr} (hc : cond.IsPlain) : Makes s (g.alternativeIf cond) Node.IsPlain := by
  have elseIf {s : Stream} : Makes s (do
      let cond ← g.parenthesized
      let _ ← expect .colon
      return Node.elseIf cond (.ofList (← g.statementsUntil ["elseif", "else", "endif"]))) Node.IsPlain :=
    h.parenthesized.bind fun _ hc => (Makes.expect _).bind fun _ _ => (h.statementsUntil _).bind fun _ hs =>
      .pure ⟨hc, hs.ofList⟩
  have last {s : Stream} : Makes s (do
      let _ ← expect .colon
      g.statementsUntil ["endif"]) AllPlain :=
    (Makes.expect _).bind fun _ _ => h.statementsUntil _
  exact (h.statementsUntil _).bind fun _ hy => (Makes.behind elseIf (.tryKeyword _)).bind fun _ he =>
    (Makes.afterKeyword last _).bind fun _ hn => (Makes.expectKeyword _).bind fun _ _ =>
    Makes.expectSemicolon.bind fun _ _ => .pure ⟨hc, hy.ofList, Node.isPlain_ofList.2 he, isPlain_ofOption_ofList hn⟩

theorem ifStmt : Makes s g.ifStmt Node.IsPlain := by
  have elseIf {s : Stream} : Makes s (do
      let cond ← g.parenthesized
      return Node.elseIf cond (.ofList (← g.body "endif"))) Node.IsPlain :=
    h.parenthesized.bind fun _ hc => (h.body _).bind fun _ hb => .pure ⟨hc, hb.ofList⟩
  refine (Makes.expectKeyword _).bind fun _ _ => h.parenthesized.bind fun cond hc => (Makes.tryToken _).bind fun _ _ =>
    .ite (h.alternativeIf hc) ?_
  exact (h.body _).bind fun _ hy => (Makes.behind elseIf (.tryKeyword _)).bind fun _ he =>
    (Makes.afterKeyword (h.body _) _).bind fun _ hn =>
    .pure ⟨hc, hy.ofList, Node.isPlain_ofList.2 he, isPlain_ofOption_ofList hn⟩

theorem whileStmt : Makes s g.whileStmt Node.IsPlain :=
  (Makes.expectKeyword _).bind fun _ _ => h.parenthesized.bind fun _ hc => (h.body _).bind fun _ hb => .pure ⟨hc, hb.ofList⟩

theorem doWhile : Makes s g.doWhile Node.IsPlain :=
  (Makes.expectKeyword _).bind fun _ _ => .get_bind <| .ite (.failExpected _) <| (h.body _).bind fun _ hb =>
    (Makes.expectKeyword _).bind fun _ _ => h.parenthesized.bind fun _ hc => Makes.expectSemicolon.bind fun _ _ =>
    .pure ⟨hb.ofList, hc⟩

theorem forPart (close : TokenKind) : Makes s (g.forPart close) AllPlain := .get_bind (.ite (.pure nofun) h.exprList)

theorem forStmt : Makes s g.forStmt Node.IsPlain :=
  (Makes.expectKeyword _).bind fun _ _ => (Makes.expect _).bind fun _ _ => (h.forPart _).bind fun _ hi =>
    (Makes.expect _).bind fun _ _ => (h.forPart _).bind fun _ hc => (Makes.expect _).bind fun _ _ =>
    (h.forPart _).bind fun _ hs => (Makes.expect _).bind fun _ _ => (h.body _).bind fun _ hb =>
    .pure ⟨hi.ofList, hc.ofList, hs.ofList, hb.ofList⟩

theorem foreachStmt : Makes s g.foreachStmt Node.IsPlain := by
  have afterTargets {subject : Expr} (hs : subject.IsPlain) (key : Node (.opt .expr)) (hk : key.IsPlain) {value : Expr}
      (hv : value.IsPlain) (byRef : Bool) {s : Stream} : Makes s (do
        let _ ← expect .closeParen
        return .foreach subject key value byRef (.ofList (← g.body "endforeach"))) Node.IsPlain :=
    (Makes.expect _).bind fun _ _ => (h.body _).bind fun _ hb => .pure ⟨hs, hk, hv, hb.ofList⟩
  refine (Makes.expectKeyword _).bind fun _ _ => (Makes.expect _).bind fun _ _ => h.anyExpr.bind fun subject hs =>
    (Makes.expectKeyword _).bind fun _ _ => (Makes.tryToken _).bind fun byRef _ => h.anyExpr.bind fun first hf =>
    .ite ((Makes.tryToken _).bind fun _ _ => .ite ((Makes.tryToken _).bind fun _ _ => ?_) ?_) ?_
  · exact h.anyExpr.bind fun value hv => .pure_bind (afterTargets hs (.present first) hf hv _)
  · exact .pure_bind (afterTargets hs .absent trivial hf false)
  · exact .pure_bind (afterTargets hs .absent trivial hf true)

theorem caseTest : Makes s g.caseTest fun x => ∀ e ∈ x, e.IsPlain :=
  (Makes.tryKeyword _).bind fun _ _ => .ite (h.anyExpr.bind fun _ hx => .pure (by simpa using hx)) <|
    (Makes.tryKeyword _).bind fun _ _ => .ite (.pure nofun) (.failExpected _)

theorem switchCase : Makes s g.switchCase Node.IsPlain := by
  refine h.caseTest.bind fun test ht => (Makes.tryToken _).bind fun _ _ =>
    .ite ((Makes.expect _).bind fun _ _ => ?_) ?_
  all_goals exact (h.statementsUntil _).bind fun _ hb => .pure ⟨Node.isPlain_ofOption.2 ht, hb.ofList⟩

omit h in
theorem tryEndSwitch (alternative : Bool) : Keeps s (tryEndSwitch alternative) :=
  .ite ((Makes.tryKeyword _).bind fun _ _ => .ite (Makes.expectSemicolon.bind fun _ _ => .pure trivial) (.pure trivial))
    (.tryToken _)

theorem switchStmt : Makes s g.switchStmt Node.IsPlain := by
  have round (alternative : Bool) {s : Stream} : Makes s (do
      skipAll fillers
      if ← Grammar.tryEndSwitch alternative then return ([], false)
      else return ([← g.switchCase], true)) fun r => AllPlain r.1 :=
    (Makes.skipAll _).bind fun _ _ => (tryEndSwitch _).bind fun _ _ => .ite (.pure nofun) <|
      h.switchCase.bind fun _ hc => .pure (List.forall_mem_singleton.2 hc)
  have cases {subject : Expr} (hs : subject.IsPlain) (alternative : Bool) {s : Stream} : Makes s (do
      let cases ← collect do
        skipAll fillers
        if ← Grammar.tryEndSwitch alternative then return ([], false)
        else return ([← g.switchCase], true)
      return .switchStmt subject (.ofList cases)) Node.IsPlain :=
    (Makes.collect (round alternative)).bind fun _ hc => .pure ⟨hs, Node.isPlain_ofList.2 hc⟩
  refine (Makes.expectKeyword _).bind fun _ _ => h.parenthesized.bind fun subject hs =>
    (Makes.tryToken _).bind fun alternative _ => .ite ((Makes.expect _).bind fun _ _ => ?_) ?_
  all_goals exact cases hs alternative

theorem catchClause : Makes s g.catchClause Node.IsPlain := by
  refine (Makes.expect _).bind fun _ _ => (Makes.name _).bind fun _ hf =>
    (Makes.behind (.name _) (.tryToken _)).bind fun _ ho => .get_bind <|
    .ite_at (fun here => (Makes.advance_of here).bind fun _ text => .pure_bind ?_) (.pure_bind ?_)
  all_goals refine (Makes.expect _).bind fun _ _ => h.block.bind fun _ hb => .pure ⟨List.forall_mem_cons.2 ⟨hf, ho⟩, ?_, hb.ofList⟩
  · simpa using text.word (.inl rfl)
  · exact nofun

theorem tryStmt : Makes s g.tryStmt Node.IsPlain :=
  (Makes.expectKeyword _).bind fun _ _ => h.block.bind fun _ hb => (Makes.behind h.catchClause (.tryKeyword _)).bind fun _ hc =>
    (Makes.afterKeyword h.block _).bind fun _ hl => .ite (.failExpected _) <|
    .pure ⟨hb.ofList, Node.isPlain_ofList.2 hc, isPlain_ofOption_ofList hl⟩

theorem declareStmt : Makes s g.declareStmt Node.IsPlain := by
  have directive {s : Stream} : Makes s (do
      let name ← expectIdent "directive name"
      let _ ← expect .assign
      return Node.directive name (← g.anyExpr)) Node.IsPlain :=
    (Makes.name _).bind fun _ hn => (Makes.expect _).bind fun _ _ => h.anyExpr.bind fun _ hx => .pure ⟨hn, hx⟩
  exact (Makes.expectKeyword _).bind fun _ _ => (Makes.enclosedBy (.commaList directive) _ _).bind fun _ hd => .get_bind <|
    .ite ((h.body _).bind fun _ hb => .pure ⟨Node.isPlain_ofList.2 hd, hb.ofList⟩)
      (Makes.expectSemicolon.bind fun _ _ => .pure (Node.isPlain_ofList.2 hd))

/-! ### Statements -/

omit h in
theorem ended {stmt : Stmt} (plain : stmt.IsPlain) : Makes s (ended stmt) Node.IsPlain :=
  Makes.expectSemicolon.bind fun _ _ => .pure plain

theorem optionalValue : Makes s g.optionalValue Node.IsPlain :=
  .get_bind <| .ite (.pure trivial) (h.anyExpr.bind fun _ hx => .pure hx)

theorem exprStmt : Makes s g.exprStmt Node.IsPlain := h.anyExpr.bind fun _ hx => ended hx

theorem wordStmt (here : s.kind = .ident) (word : String) : Makes s (g.wordStmt word) Node.IsPlain := by
  refine .get_bind ?_
  split
  case h_1 => exact useDecl
  case h_2 => exact Makes.skip.bind fun _ _ => h.definitions.bind fun _ hd => ended hd.ofList
  case h_3 => exact h.declareStmt
  case h_4 => exact h.ifStmt
  case h_5 => exact h.whileStmt
  case h_6 => exact h.doWhile
  case h_7 => exact h.forStmt
  case h_8 => exact h.foreachStmt
  case h_9 => exact h.switchStmt
  case h_10 => exact Makes.skip.bind fun _ _ => h.optionalValue.bind fun _ hx => ended hx
  case h_11 => exact Makes.skip.bind fun _ _ => h.optionalValue.bind fun _ hx => ended hx
  case h_12 => exact Makes.skip.bind fun _ _ => h.optionalValue.bind fun _ hx => ended hx
  case h_13 => exact Makes.skip.bind fun _ _ => h.exprList.bind fun _ hx => ended hx.ofList
  case h_14 => exact Makes.skip.bind fun _ _ => h.anyExpr.bind fun _ hx => ended hx
  case h_15 => exact h.tryStmt
  case h_16 => exact Makes.skip.bind fun _ _ => (Makes.commaList .expectVariable).bind fun _ hn => ended hn
  case h_17 => exact .failWith _
  refine .ite (.failExpected _) <| .ite ?staticVars <| .ite ?unset ?_
  case staticVars => exact Makes.skip.bind fun _ _ => h.varItems.bind fun _ hv => ended hv.ofList
  case unset =>
    exact Makes.skip.bind fun _ _ => (Makes.enclosedBy (.commaListUntil h.anyExpr _) _ _).bind fun _ hv =>
      ended (Node.isPlain_ofList.2 hv)
  split
  · next target =>
    rw [Bool.and_eq_true] at target
    exact .advance_advance here nofun target.2 fun t text => ended (text.name rfl).code
  · exact h.exprStmt

theorem statement : Makes s g.statement Node.IsPlain := by
  refine .get_bind <| .ite h.declaration ?_
  split
  · next here => exact (Makes.advance_of here).bind fun _ text => .pure (text.html rfl)
  · exact Makes.skip.bind fun _ _ => .pure trivial
  · exact Makes.skip.bind fun _ _ => .pure trivial
  · exact Makes.skip.bind fun _ _ => .pure trivial
  · exact Makes.skip.bind fun _ _ => h.exprList.bind fun _ hx => ended hx.ofList
  · exact h.block.bind fun _ hb => .pure hb.ofList
  · next here =>
    refine .ite ?_ (h.wordStmt here _)
    exact (Makes.advance_of here).bind fun _ text => Makes.skip.bind fun _ _ => .pure (text.name rfl).code
  · exact h.exprStmt

/-! ### Namespaces and files -/

theorem namespaceBody : Makes s g.namespaceBody AllPlain :=
  .collect <| (Makes.skipAll _).bind fun _ _ => leadingComments.bind fun _ hc => .get_bind <|
    .ite (.pure hc) (h.stmt.bind fun _ hs => .pure (List.forall_mem_append.2 ⟨hc, List.forall_mem_singleton.2 hs⟩))

theorem namespaceDecl : Makes s g.namespaceDecl Node.IsPlain := by
  have afterName (name : Option Name) (hn : ∀ n ∈ name, IsCodeText n) (start : Nat) {s : Stream} : Makes s (do
      if (← get).at_ .openBrace then
        let stmts ← enclosedBy .openBrace .closeBrace g.namespaceBody
        return .namespaceDecl name (.ofList stmts) true ((← get).spanFrom start)
      else if name.isNone then failExpected "namespace name or '\x7b'"
      else
        expectSemicolon
        let stmts ← g.namespaceBody
        return .namespaceDecl name (.ofList stmts) false ((← get).spanFrom start)) Node.IsPlain := by
    refine .get_bind <| .ite ((Makes.enclosedBy h.namespaceBody _ _).bind fun _ hb => ?_) (.ite (.failExpected _) ?_)
    · exact .get_bind <| .pure ⟨hn, hb.ofList⟩
    · exact Makes.expectSemicolon.bind fun _ _ => h.namespaceBody.bind fun _ hb => .get_bind <| .pure ⟨hn, hb.ofList⟩
  refine .get_bind <| (Makes.expectKeyword _).bind fun _ _ => .get_bind <|
    .ite_at (fun here => (Makes.advance_of here).bind fun _ text => .pure_bind ?_) (.pure_bind ?_)
  · exact afterName (some _) (by simpa using (text.name rfl).code) _
  · exact afterName none nofun _

theorem fileBody : Makes s g.fileBody AllPlain := by
  refine .collect <| (Makes.skipAll _).bind fun _ _ => leadingComments.bind fun _ hc => .get_bind <| .ite (.pure hc) <|
    .ite (h.namespaceDecl.bind fun _ hs => .pure ?_) (h.stmt.bind fun _ hs => .pure ?_)
  all_goals exact List.forall_mem_append.2 ⟨hc, List.forall_mem_singleton.2 hs⟩

end Grammar.MakesPlain

/-- However deep the sources may nest, the parser makes plain trees. -/
theorem Grammar.makesPlain_upTo (n : Nat) : (Grammar.upTo n).MakesPlain := by
  induction n with
  | zero => exact ⟨fun _ => .failWith _, .failWith _, .failWith _, .failWith _⟩
  | succ n ih => exact ⟨fun least => ih.operatorExpr least, ih.operandExpr, ih.primaryExpr, ih.statement⟩

theorem Stream.isSound_ofTokens {tokens : List Token} (h : ∀ t ∈ tokens, t.IsSound) : (Stream.ofTokens tokens).IsSound := by
  have fresh (place : Span) (pos : Position) : (⟨.eof, place, pos, "", none, []⟩ : Token).IsSound := by
    have not_kept : TokenKind.eof ∉ keptKinds := by decide
    exact ⟨.of_not_kept not_kept _, nofun⟩
  refine ⟨h, ?_, nofun⟩
  show (Stream.endOf tokens).IsSound
  unfold Stream.endOf
  split
  · next t last =>
    split
    · exact h t (List.mem_of_getLast? last)
    · exact fresh _ _
  · exact fresh _ _

/-- **The tree of a source is plain.** -/
theorem isPlain_parse {source : String} {f : File} (h : parse source = .ok f) : f.stmts.IsPlain := by
  unfold parse at h
  cases read : tokenize source with
  | error _ =>
    rw [read] at h
    cases h
  | ok tokens =>
    rw [read] at h
    have plain {s : Stream} : Makes s (Parse.file (Grammar.upTo (nestingBound tokens.length))) fun f => f.stmts.IsPlain :=
      .get_bind <| (Grammar.makesPlain_upTo _).fileBody.bind fun _ hs => .get_bind <| .pure hs.ofList
    obtain ⟨⟨f, s'⟩, made, rfl⟩ := exists_of_map_eq_ok h
    exact (plain (Stream.isSound_ofTokens (isSound_of_tokenize read)) f s' made).1

end Codewright.Php
