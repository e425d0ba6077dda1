import Codewright.Proofs.Php.PrintedTypes
import Codewright.Proofs.Php.StatementLists
import Codewright.Proofs.Php.Termination

/-!
# Blocks in braces and in alternative syntax

The statements of a `while`, `for`, `foreach` or `declare` stand in braces, or between a colon and an end keyword. Both forms are
read as the same tree.

* `Construct.header`, `Construct.statement_of_header` – a statement is read as its header and then its statements;
* `Construct.Forms` – the tokens of a construct in both forms; `Forms.Stand.opened`: their headers are read alike;
* `Forms.Opened.body_alternative`, `Forms.Opened.body_inBraces` – so are their statements;
* `Construct.alternative_same_tree` – and so are they.
-/

namespace Codewright.Php

/-- A token is told by what it is and its comments. -/
theorem Token.eq_of_bare {t u : Token} (bare : t.bare = u.bare) (doc : t.doc = u.doc) (comments : t.comments = u.comments) :
    t = u := by
  obtain ⟨kind, span, pos, text, d, cs⟩ := t
  obtain ⟨kind', span', pos', text', d', cs'⟩ := u
  obtain ⟨rfl, rfl, rfl, rfl, -⟩ := Token.mk.inj bare
  cases doc
  cases comments
  rfl

/-- From the stream, the parser unrolled `n` times reads the statement `x` and leaves the tokens `rest`. -/
def Stream.ReadsStatement (s : Stream) (n : Nat) (x : Stmt) (rest : List Token) : Prop :=
  ∃ t, (Grammar.upTo n).statement s = .ok (x, t) ∧ t.tokens = rest

/-- The parser has depth for a statement. -/
theorem Grammar.statement_not_failsDeep {s : Stream} {n : Nat} (deep : nestingBound s.unread ≤ n) (closed : s.eof.kind = .eof) :
    ¬FailsDeep (Grammar.upTo n).statement s := by
  rintro ⟨e, failed, tooDeep⟩
  have runs : (Grammar.upTo n).Consuming (s.unread + 2) := Grammar.consuming_upTo deep
  have run := runs.statement (Nat.le_succ _) runs.expr s closed
  rw [failed] at run
  exact run.2 (by omega) tooDeep

/-! ## Headers -/

/-- The statements of a loop or of a `declare`. -/
def Node.blockBody : Stmt → List Stmt
  | .whileStmt _ body | .forStmt _ _ _ body | .foreach _ _ _ _ body | .declareBlock _ body => body.toList
  | _ => []

/-- What has its statements in braces or in alternative syntax. -/
inductive Construct where
  | whileLoop
  | forLoop
  | foreachLoop
  | declareBlock
deriving DecidableEq

namespace Construct

/-- The keyword that begins it. -/
def word : Construct → String
  | whileLoop => "while"
  | forLoop => "for"
  | foreachLoop => "foreach"
  | declareBlock => "declare"

/-- The keyword that ends it in alternative syntax. -/
def endWord : Construct → String
  | whileLoop => "endwhile"
  | forLoop => "endfor"
  | foreachLoop => "endforeach"
  | declareBlock => "enddeclare"

open Parse

/-- Reads all that stands in front of the statements, and gives what is to be made of them. -/
def header (g : Grammar) : Construct → Parse (List Stmt → Stmt)
  | whileLoop => do
    let _ ← expectKeyword "while"
    let cond ← g.parenthesized
    return fun body => .whileStmt cond (.ofList body)
  | forLoop => do
    let _ ← expectKeyword "for"
    let _ ← expect .openParen
    let init ← g.forPart .semicolon
    let _ ← expect .semicolon
    let cond ← g.forPart .semicolon
    let _ ← expect .semicolon
    let step ← g.forPart .closeParen
    let _ ← expect .closeParen
    return fun body => .forStmt (.ofList init) (.ofList cond) (.ofList step) (.ofList body)
  | foreachLoop => do
    let _ ← expectKeyword "foreach"
    let _ ← expect .openParen
    let subject ← g.anyExpr
    let _ ← expectKeyword "as"
    let firstByRef ← tryToken .amp
    let first ← g.anyExpr
    let (key, value, byRef) ←
      if !firstByRef then do
        if ← tryToken .fatArrow then do
          let byRef ← tryToken .amp
          pure (Node.present first, ← g.anyExpr, byRef)
        else pure (.absent, first, false)
      else pure (.absent, first, true)
    let _ ← expect .closeParen
    return fun body => .foreach subject key value byRef (.ofList body)
  | declareBlock => do
    let _ ← expectKeyword "declare"
    let directives ← enclosedBy .openParen .closeParen <| commaList do
      let name ← expectIdent "directive name"
      let _ ← expect .assign
      return Node.directive name (← g.anyExpr)
    return fun body => .declareBlock (.ofList directives) (.ofList body)

/-- The header and then the statements. -/
def block (g : Grammar) (c : Construct) : Parse Stmt := do
  let make ← c.header g
  return make (← g.body c.endWord)

variable {g g' : Grammar} {w : Fork} {n d : Nat}

theorem whileStmt_eq : g.whileStmt = whileLoop.block g := by
  simp [Grammar.whileStmt, block, header, endWord]

theorem forStmt_eq : g.forStmt = forLoop.block g := by
  simp [Grammar.forStmt, block, header, endWord]

theorem foreachStmt_eq : g.foreachStmt = foreachLoop.block g := by
  simp only [Grammar.foreachStmt, block, header, endWord, bind_assoc]
  refine bind_congr fun _ => bind_congr fun _ => bind_congr fun subject => bind_congr fun _ => bind_congr fun byRef =>
    bind_congr fun first => ?_
  cases byRef with
  | true => simp
  | false =>
    simp only [Bool.not_false, if_true, bind_assoc]
    refine bind_congr fun keyed => ?_
    cases keyed <;> simp

/-- Statements follow behind the header of a `declare` if a brace or a colon comes. -/
theorem declareStmt_eq {s : Stream}
    (next : ∀ make t, declareBlock.header g s = .ok (make, t) → (t.at_ .openBrace || t.at_ .colon) = true) :
    g.declareStmt s = declareBlock.block g s := by
  simp only [Grammar.declareStmt, block, header, endWord, bind_assoc, pure_bind] at next ⊢
  refine bind_eq_of_ok fun _ s₁ keyword => bind_eq_of_ok fun directives t read => ?_
  have here := next _ t ((bind_eq keyword _).trans (bind_eq read _))
  rw [get_bind_apply, if_pos here]

/-- A header begins with the keyword and a parenthesis. -/
theorem header_start (c : Construct) (s : Stream) :
    Yields s (c.header g) fun _ _ => s.atKeyword c.word = true ∧ s.hasAt 1 .openParen = true := by
  have start {α : Type} {word : String} {f : Token → Parse α}
      (next : ∀ t s₁, Yields s₁ (f t) fun _ _ => s₁.at_ .openParen = true) :
      Yields s (expectKeyword word >>= f) fun _ _ => s.atKeyword word = true ∧ s.hasAt 1 .openParen = true := by
    refine .bind <| .get_bind <| .ite (fun here t s₁ read => ?_) fun _ => .failExpected _
    have ident : s.kind = .ident := Token.kind_of_isKeyword here
    have peek := peek_of_advance (by rw [ident]; exact nofun) read
    refine (next t s₁).mono fun _ _ paren => ⟨here, ?_⟩
    rwa [Stream.hasAt, ← peek]
  have paren {α : Type} {s : Stream} {f : Token → Parse α} :
      Yields s (expect .openParen >>= f) fun _ _ => s.at_ .openParen = true :=
    .bind <| .get_bind <| .ite (fun here _ _ _ _ _ _ => here) fun _ => .failExpected _
  cases c with
  | whileLoop => exact start fun _ _ => .bind (paren.mono fun _ _ here => .pure here)
  | forLoop => exact start fun _ _ => paren
  | foreachLoop => exact start fun _ _ => paren
  | declareBlock => exact start fun _ _ => .bind (paren.mono fun _ _ here => .pure here)

theorem header_local (h : Grammar.Local w g g') (c : Construct) : Local w (fun _ => n) 1 (c.header g) (c.header g') := by
  cases c with
  | whileLoop => exact Local.expectKeyword.bind fun _ => h.parenthesized.bind fun _ => .done
  | forLoop =>
    exact Local.expectKeyword.bind fun _ => (Local.expect .openParen nofun).bind fun _ => (h.forPart _).bind fun _ =>
      (Local.expect .semicolon nofun).bind fun _ => (h.forPart _).bind fun _ => (Local.expect .semicolon nofun).bind fun _ =>
      (h.forPart _).bind fun _ => (Local.expect .closeParen nofun).bind fun _ => .done
  | foreachLoop =>
    refine Local.expectKeyword.bind fun _ => (Local.expect .openParen nofun).bind fun _ => h.anyExpr.bind fun subject =>
      Local.expectKeyword.bind fun _ => Local.tryToken.bind fun byRef => h.anyExpr.bind fun first =>
      .ite (Local.tryToken.bind fun _ => .ite (Local.tryToken.bind fun _ => h.anyExpr.bind fun _ => .pure_bind ?_) (.pure_bind ?_))
        (.pure_bind ?_)
    all_goals exact (Local.expect .closeParen nofun).bind fun _ => .done
  | declareBlock =>
    refine Local.expectKeyword.bind fun _ => (Local.enclosedBy (Local.commaList ?_) (by nofun) (by nofun)).bind fun _ => .done
    exact Local.expectIdent.bind fun _ => (Local.expect .assign nofun).bind fun _ => h.anyExpr.bind fun _ => .done

/-- It ends with a parenthesis. -/
theorem header_lands (h : g.Consuming d) (c : Construct) : Lands (c.header g) := by
  cases c with
  | whileLoop =>
    exact .next (d := d) (.expectKeyword _) fun _ => .rest (.enclosedBy h.anyExpr nofun nofun rfl) fun _ => .pure
  | forLoop =>
    exact .next (d := d) (.expectKeyword _) fun _ => .next (d := d) (.expect .openParen nofun) fun _ => .next (h.forPart _) fun _ =>
      .next (d := d) (.expect .semicolon nofun) fun _ => .next (h.forPart _) fun _ =>
      .next (d := d) (.expect .semicolon nofun) fun _ => .next (h.forPart _) fun _ => .rest (.expect nofun rfl) fun _ => .pure
  | foreachLoop =>
    refine .next (d := d) (.expectKeyword _) fun _ => .next (d := d) (.expect .openParen nofun) fun _ =>
      .next h.anyExpr fun _ => .next (d := d) (.expectKeyword _) fun _ => .next (d := d) (.tryToken .amp nofun) fun _ =>
      .next h.anyExpr fun _ => .ite (.next (d := d) (.tryToken .fatArrow nofun) fun _ => .ite ?_ (.pure_bind ?_)) (.pure_bind ?_)
    · exact .next (d := d) (.tryToken .amp nofun) fun _ => .next h.anyExpr fun _ => .pure_bind <|
        .rest (.expect nofun rfl) fun _ => .pure
    all_goals exact .rest (.expect nofun rfl) fun _ => .pure
  | declareBlock =>
    refine .next (d := d) (.expectKeyword _) fun _ => .rest (.enclosedBy (show Safe d _ from ?_) nofun nofun rfl) fun _ => .pure
    refine Runs.later (.commaList (.start (.expectIdent _) fun _ => ?_))
    exact .next (.expect .assign nofun) fun _ => .next h.anyExpr fun _ => .pure rfl

/-- A statement that begins with a header in front of a brace or a colon is read as the header and then the statements. -/
theorem statement_eq {c : Construct} {s : Stream} (here : s.atKeyword c.word = true) (called : s.hasAt 1 .openParen = true)
    (next : ∀ make t, c.header g s = .ok (make, t) → (t.at_ .openBrace || t.at_ .colon) = true) :
    g.statement s = c.block g s := by
  have ident : s.kind = .ident := Token.kind_of_isKeyword here
  have undeclared : s.atDeclaration = false :=
    Stream.atDeclaration_eq_false (.of_keyword (by cases c <;> decide) (by cases c <;> decide) here)
  have unlabelled : Grammar.atLabel s = false := by
    have paren : (s.peekAt 1).kind = .openParen := by simpa [Stream.hasAt] using called
    simp [Grammar.atLabel, Stream.hasAt, paren]
  have text : Text.asciiLower s.peek.text = c.word := (Stream.kind_and_text_of_atKeyword here).2
  rw [Grammar.statement, get_bind_apply, undeclared, if_neg Bool.false_ne_true, ident]
  dsimp only
  rw [unlabelled, if_neg Bool.false_ne_true, text]
  cases c with
  | whileLoop => exact congrFun whileStmt_eq s
  | forLoop => exact congrFun forStmt_eq s
  | foreachLoop => exact congrFun foreachStmt_eq s
  | declareBlock => exact declareStmt_eq next

/-- A statement that begins with a header is read as that header and what follows it. -/
theorem statement_of_header {c : Construct} {s t : Stream} {make : List Stmt → Stmt} (here : s.atKeyword c.word = true)
    (called : s.hasAt 1 .openParen = true) (header : c.header g s = .ok (make, t))
    (next : (t.at_ .openBrace || t.at_ .colon) = true) :
    g.statement s = (do return make (← g.body c.endWord) : Parse Stmt) t := by
  rw [statement_eq here called, block, bind_eq header]
  intro make' t' again
  obtain ⟨-, rfl⟩ : make = make' ∧ t = t' := by simpa [header] using again
  exact next

theorem statement_failsDeep {c : Construct} {s : Stream} (here : s.atKeyword c.word = true) (called : s.hasAt 1 .openParen = true)
    (failed : FailsDeep (c.header g) s) : FailsDeep g.statement s := by
  obtain ⟨e, failed', deep⟩ : FailsDeep (c.block g) s := failed.bind _
  refine ⟨e, (statement_eq here called fun make t read => ?_).trans failed', deep⟩
  obtain ⟨e, failed, -⟩ := failed
  rw [failed] at read
  cases read

/-- Up to a mark, a header is read on the second stream as it is on the first. -/
theorem header_follows (h : Grammar.Local w g g') {c : Construct} {s s' t : Stream} {make : List Stmt → Stmt} (beside : w.Beside s s')
    (header : c.header g s = .ok (make, t)) (bares : t.bares = (w.mark :: w.rest).map Token.bare) :
    s'.atKeyword c.word = true ∧ s'.hasAt 1 .openParen = true ∧ w.Follows (c.header g') s' make t := by
  obtain ⟨here, called⟩ := header_start c s make t header
  have size : t.unread = w.rest.length + 1 := by rw [← t.length_bares, bares, List.length_map, List.length_cons]
  obtain ⟨common, follows⟩ := header_local (n := 0) h c s s' make t header ⟨by rw [bares], size.ge⟩
  have alike : w.Alike s s' := ⟨beside, common⟩
  have ident : s.kind = .ident := Token.kind_of_isKeyword here
  exact ⟨(alike.atKeyword _).trans here, (alike.hasAt_one (by rw [ident]; rfl) _).trans called, follows beside⟩

/-- What is made of the statements has them as its statements. -/
theorem header_make (c : Construct) (s : Stream) : Yields s (c.header g) fun make _ => ∀ xs, (make xs).blockBody = xs := by
  have body (xs : List Stmt) : (Node.ofList xs).toList = xs := Node.toList_ofList xs
  cases c with
  | whileLoop => exact .bind_any fun _ _ => .bind_any fun _ _ => .pure body
  | forLoop =>
    exact .bind_any fun _ _ => .bind_any fun _ _ => .bind_any fun _ _ => .bind_any fun _ _ => .bind_any fun _ _ =>
      .bind_any fun _ _ => .bind_any fun _ _ => .bind_any fun _ _ => .pure body
  | foreachLoop =>
    refine .bind_any fun _ _ => .bind_any fun _ _ => .bind_any fun _ _ => .bind_any fun _ _ => .bind_any fun _ _ =>
      .bind_any fun _ _ => .ite (fun _ => .bind_any fun _ _ => .ite (fun _ => ?_) fun _ => ?_) fun _ => ?_
    · exact .bind_any fun _ _ => .bind_any fun _ _ => .bind_any fun (_, _, _) _ => .bind_any fun _ _ => .pure body
    all_goals exact .bind_any fun (_, _, _) _ => .bind_any fun _ _ => .pure body
  | declareBlock => exact .bind_any fun _ _ => .bind_any fun _ _ => .pure body

/-! ## Forms -/

/-- The tokens of a construct in both forms. Those around the statements stand at the same places, with the same comments. -/
structure Forms (c : Construct) where
  header : List Token
  body : List Token
  opening : Token
  closing : Token
  colon : Token
  endKeyword : Token
  semicolon : Token
  isOpening : opening.kind = .openBrace
  isClosing : closing.kind = .closeBrace
  isColon : colon.kind = .colon
  isEndKeyword : endKeyword.isKeyword c.endWord = true
  isSemicolon : semicolon.kind = .semicolon
  sameStart : colon.doc = opening.doc ∧ colon.comments = opening.comments ∧ colon.span.stop = opening.span.stop
  sameEnd : endKeyword.doc = closing.doc ∧ endKeyword.comments = closing.comments

/-! ### Bodies -/

theorem body_of_brace {e : String} {t u : Stream} {o : Token} (here : t.at_ .openBrace = true) (first : advance t = .ok (o, u)) :
    g.body e t = (do
      let xs ← g.statementsUntil []
      let _ ← expect .closeBrace
      return xs : Parse (List Stmt)) u := by
  rw [Grammar.body, get_bind_apply, if_pos here, Grammar.block, enclosedBy, bind_eq ((expect_eq here).trans first)]

theorem body_of_colon {e : String} {t u : Stream} {o : Token} (here : t.at_ .openBrace = false ∧ t.at_ .colon = true)
    (first : advance t = .ok (o, u)) :
    g.body e t = (do
      let xs ← g.statementsUntil [e]
      let _ ← expectKeyword e
      expectSemicolon
      return xs : Parse (List Stmt)) u := by
  have colon : tryToken .colon t = .ok (true, u) := by
    rw [tryToken, get_bind_apply, if_pos here.2, bind_eq first]
    rfl
  rw [Grammar.body, get_bind_apply, here.1, if_neg Bool.false_ne_true, bind_eq colon]
  rfl

namespace Forms

variable {c : Construct} (f : c.Forms)

/-- What follows the header in braces, up to `rest` behind the construct. -/
def afterBrace (rest : List Token) : List Token := f.opening :: (f.body ++ f.closing :: rest)

/-- What follows it in alternative syntax. -/
def afterColon (rest : List Token) : List Token := f.colon :: (f.body ++ f.endKeyword :: f.semicolon :: rest)

/-- The forms part behind the header. -/
def headerFork (rest rest' : List Token) : Fork where
  mark := f.opening
  rest := f.body ++ f.closing :: rest
  mark' := f.colon
  rest' := f.body ++ f.endKeyword :: f.semicolon :: rest'
  isMark := ⟨by simp [f.isOpening], by simp [Token.isKeyword, f.isOpening], by simp [Token.isKeyword, f.isOpening]⟩
  isMark' := ⟨by simp [f.isColon], by simp [Token.isKeyword, f.isColon], by simp [Token.isKeyword, f.isColon]⟩

/-- They part again behind the statements. -/
def bodyFork (rest rest' : List Token) : Fork where
  mark := f.closing
  rest := rest
  mark' := f.endKeyword
  rest' := f.semicolon :: rest'
  isMark := ⟨by simp [f.isClosing], by simp [Token.isKeyword, f.isClosing], by simp [Token.isKeyword, f.isClosing]⟩
  isMark' := .of_endWord (by cases c <;> decide) f.isEndKeyword

/-- The streams stand in front of the two forms. -/
structure Stand (rest rest' : List Token) (s s' : Stream) : Prop where
  tokens : s.tokens = f.header ++ f.afterBrace rest
  tokens' : s'.tokens = f.header ++ f.afterColon rest'
  pending : s'.pending = s.pending
  lastEnd : s'.lastEnd = s.lastEnd
  closed : s.eof.kind = .eof
  closed' : s'.eof.kind = .eof

variable {f} {rest rest' : List Token} {s s' t t' : Stream} {make : List Stmt → Stmt} {xs : List Stmt}

/-- The streams stand in front of the statements in both forms. -/
structure Opened (f : c.Forms) (rest rest' : List Token) (t t' : Stream) : Prop where
  kind : t.at_ .openBrace = true
  kind' : t'.at_ .openBrace = false ∧ t'.at_ .colon = true
  opened : ∃ o o' u u', advance t = .ok (o, u) ∧ advance t' = .ok (o', u') ∧ u.tokens = f.body ++ f.closing :: rest ∧
    u'.tokens = f.body ++ f.endKeyword :: f.semicolon :: rest' ∧ u'.pending = u.pending ∧ u'.lastEnd = u.lastEnd ∧
    u.eof.kind = .eof ∧ u'.eof.kind = .eof

theorem Stand.beside (stand : f.Stand rest rest' s s') (plain : ∀ t ∈ f.header.getLast?, t.kind.looksAhead = false) :
    (f.headerFork rest rest').Beside s s' :=
  .of_tokens stand.tokens stand.tokens' ⟨f.sameStart.1, f.sameStart.2.1⟩ stand.pending stand.lastEnd plain

/-- If the header is read in front of the colon, it is read in front of the brace. -/
theorem Stand.header_inBraces (stand : f.Stand rest rest' s s') (hl : ∀ w, Grammar.Local w g' g) (runs' : g'.Consuming d)
    (deep : ¬FailsDeep g.statement s) (header : c.header g' s' = .ok (make, t')) (left : t'.tokens = f.afterColon rest') :
    ∃ t, c.header g s = .ok (make, t) ∧ t.tokens = f.afterBrace rest := by
  have bares : t'.bares = (f.afterColon rest').map Token.bare := by rw [Stream.bares, left]
  have kind : t'.kind = .colon := (Stream.kind_of_tokens left).trans f.isColon
  have lands : s'.Lands t' := header_lands runs' c s' stand.closed' make t' header trivial
  have beside := (stand.beside (Stream.Rests.last_read (.inr lands) stand.tokens' bares (by rw [kind]; decide))).swap
  obtain ⟨here, called, follows⟩ := header_follows (hl _) beside header bares
  rcases follows with failed | ⟨t, header', beside'⟩
  · exact absurd (statement_failsDeep here called failed) deep
  obtain ⟨mark, mark', tokens, tokens', bare', doc, comments⟩ := beside'.at_mark (by rw [t'.unread_eq, left]; rfl)
  obtain rfl : f.colon = mark := (List.cons.inj (left.symm.trans tokens)).1
  obtain rfl : mark' = f.opening := Token.eq_of_bare bare' (doc.trans f.sameStart.1) (comments.trans f.sameStart.2.1)
  exact ⟨t, header', tokens'⟩

/-- If the header is read in front of the brace, it is read in front of the colon; in both forms the statements follow. -/
theorem Stand.opened (stand : f.Stand rest rest' s s') (hl : ∀ w, Grammar.Local w g g') (runs : g.Consuming d)
    (runs' : g'.Consuming d) (deep' : ¬FailsDeep g'.statement s') (header : c.header g s = .ok (make, t))
    (left : t.tokens = f.afterBrace rest) :
    g.statement s = (do return make (← g.body c.endWord) : Parse Stmt) t ∧
      ∃ t', g'.statement s' = (do return make (← g'.body c.endWord) : Parse Stmt) t' ∧ f.Opened rest rest' t t' := by
  have bares : t.bares = (f.afterBrace rest).map Token.bare := by rw [Stream.bares, left]
  have kind : t.kind = .openBrace := (Stream.kind_of_tokens left).trans f.isOpening
  have lands : s.Lands t := header_lands runs c s stand.closed make t header trivial
  have beside := stand.beside (Stream.Rests.last_read (.inr lands) stand.tokens bares (by rw [kind]; decide))
  obtain ⟨here, called⟩ := header_start c s make t header
  obtain ⟨here', called', follows⟩ := header_follows (hl _) beside header bares
  rcases follows with failed | ⟨t', header', beside'⟩
  · exact absurd (statement_failsDeep here' called' failed) deep'
  obtain ⟨mark, mark', tokens, tokens', bare', doc, comments⟩ := beside'.at_mark (by rw [t.unread_eq, left]; rfl)
  obtain rfl : f.opening = mark := (List.cons.inj (left.symm.trans tokens)).1
  have colon : mark'.kind = .colon := (congrArg (fun t => t.kind) bare').trans f.isColon
  have stop : mark'.span.stop = f.opening.span.stop := (congrArg (fun t => t.span.stop) bare').trans f.sameStart.2.2
  have kind' : t'.kind = .colon := (Stream.kind_of_tokens tokens').trans colon
  refine ⟨?_, t', ?_, by simp [Stream.at_, kind], by simp [Stream.at_, kind'], ?_⟩
  · exact statement_of_header here called header (by simp [Stream.at_, kind])
  · exact statement_of_header here' called' header' (by simp [Stream.at_, kind'])
  · obtain ⟨u, read, left, pending, lastEnd, eof⟩ := advance_of_tokens tokens (by rw [f.isOpening]; decide)
    obtain ⟨u', read', left', pending', lastEnd', eof'⟩ := advance_of_tokens tokens' (by rw [colon]; decide)
    have comments : mark'.allComments = f.opening.allComments := by rw [Token.allComments, doc, comments, Token.allComments]
    refine ⟨_, _, u, u', read, read', left, left', ?_, ?_, ?_, ?_⟩
    · rw [pending, pending', beside'.pending, comments]
    · rw [lastEnd, lastEnd', stop]
    · rw [eof, lands.eof, stand.closed]
    · rw [eof', (header_lands runs' c s' stand.closed' make t' header' trivial).eof, stand.closed']

/-! ### Ends of bodies -/

/-- The closing brace is read. -/
theorem closing_reads {v : Stream} {brace : Token} (tokens : v.tokens = brace :: rest) (bare : brace.bare = f.closing.bare) :
    ∃ v', expect .closeBrace v = .ok (brace.bare, v') ∧ v'.tokens = rest := by
  have kind : brace.kind = .closeBrace := (congrArg (fun t => t.kind) bare).trans f.isClosing
  have here : v.at_ .closeBrace = true := by rw [Stream.at_, Stream.kind_of_tokens tokens, kind, beq_self_eq_true]
  obtain ⟨v', read, left, -⟩ := advance_of_tokens tokens (by rw [kind]; decide)
  exact ⟨v', (expect_eq here).trans read, left⟩

/-- The end keyword and the semicolon are read. -/
theorem endWord_reads {v : Stream} {word : Token} (tokens : v.tokens = word :: f.semicolon :: rest')
    (bare : word.bare = f.endKeyword.bare) :
    ∃ v₁ v', expectKeyword c.endWord v = .ok (word.bare, v₁) ∧ expectSemicolon v₁ = .ok ((), v') ∧ v'.tokens = rest' := by
  have keyword : word.isKeyword c.endWord = true := (congrArg (fun t => t.isKeyword c.endWord) bare).trans f.isEndKeyword
  have here : v.atKeyword c.endWord = true := by rw [Stream.atKeyword, Stream.peek_of_tokens tokens, keyword]
  obtain ⟨v₁, read, left, -⟩ := advance_of_tokens tokens (by rw [Token.kind_of_isKeyword keyword]; decide)
  have semicolon : v₁.at_ .semicolon = true := by rw [Stream.at_, Stream.kind_of_tokens left, f.isSemicolon, beq_self_eq_true]
  obtain ⟨v', read', left', -⟩ := advance_of_tokens left (by rw [f.isSemicolon]; decide)
  exact ⟨v₁, v', (expectKeyword_eq here).trans read, expectSemicolon_eq semicolon read', left'⟩

/-- The closing brace in front of `rest` has been read. -/
theorem unread_closing {v₀ v : Stream} {x : Token} (closed : v₀.eof.kind = .eof) (last : expect .closeBrace v₀ = .ok (x, v))
    (left : v.tokens = rest) : v₀.kind = .closeBrace ∧ v₀.unread = rest.length + 1 := by
  obtain ⟨here, last⟩ := expect_eq_ok last
  have kind : v₀.kind = .closeBrace := Stream.kind_of_at here
  obtain ⟨u₀, tokens₀, -⟩ := first_of_advance closed (by rw [kind]; decide) last
  exact ⟨kind, by rw [v₀.unread_eq, tokens₀, left]; rfl⟩

/-- The end keyword and the semicolon in front of `rest'` have been read. -/
theorem unread_endWord {u v₀ v₁ v : Stream} {x : Token} {y : Unit} (closed : u.eof.kind = .eof) (rests : u.Rests v₀)
    (tokens : u.tokens = f.body ++ f.endKeyword :: f.semicolon :: rest') (last : expectKeyword c.endWord v₀ = .ok (x, v₁))
    (ended : expectSemicolon v₁ = .ok (y, v)) (left : v.tokens = rest') :
    v₀.kind = .ident ∧ v₀.unread = (f.semicolon :: rest').length + 1 := by
  have closed₀ : v₀.eof.kind = .eof := rests.eof.symm ▸ closed
  obtain ⟨here, last⟩ := expectKeyword_eq_ok last
  have kind : v₀.kind = .ident := Token.kind_of_isKeyword here
  obtain ⟨u₀, tokens₀, next, eof⟩ := first_of_advance closed₀ (by rw [kind]; decide) last
  refine ⟨kind, ?_⟩
  rcases expectSemicolon_eq_ok ended with ⟨semicolon, y, ended⟩ | rfl
  · have kind₁ : v₁.kind = .semicolon := Stream.kind_of_at semicolon
    obtain ⟨u₁, tokens₁, -⟩ := first_of_advance (eof ▸ closed₀) (by rw [kind₁]; decide) ended
    rw [v₀.unread_eq, tokens₀, tokens₁, left]
    rfl
  · -- The end keyword is no semicolon.
    have cut : u.tokens = (f.body ++ [f.endKeyword]) ++ f.semicolon :: rest' := by simp [tokens]
    have bares : v₀.bares = (f.semicolon :: rest').map Token.bare :=
      rests.bares_left cut (by rw [v₀.unread_eq, tokens₀, left]; rfl)
    rw [Stream.bares, tokens₀] at bares
    have same : u₀.kind = f.semicolon.kind := congrArg (fun t => t.kind) (List.cons.inj bares).1
    rw [← next, same, f.isSemicolon] at kind
    cases kind

/-- Statements in braces that none of which begins with the end keyword are the same in alternative syntax. -/
theorem Opened.body_alternative (opened : f.Opened rest rest' t t') (hl : ∀ w, Grammar.Local w g g') (ending : g.Ending d)
    (leads : ∀ s, s.atKeyword c.endWord = true → Yields s g.stmt fun x _ => x.opensWith c.endWord = true) {v : Stream}
    (read : g.body c.endWord t = .ok (xs, v)) (left : v.tokens = rest) (free : ∀ x ∈ xs, x.opensWith c.endWord = false) :
    FailsDeep (g'.body c.endWord) t' ∨ ∃ v', g'.body c.endWord t' = .ok (xs, v') ∧ v'.tokens = rest' := by
  obtain ⟨o, o', u, u', first, first', tokens, tokens', pending, lastEnd, closed, closed'⟩ := opened.opened
  have read' := body_of_colon (g := g') (e := c.endWord) opened.kind' first'
  rw [body_of_brace opened.kind first] at read
  obtain ⟨ys, v₀, stmts, read⟩ := exists_of_bind_eq_ok read
  obtain ⟨x, v₁, last, given⟩ := exists_of_bind_eq_ok read
  cases given
  have rests : u.Rests v₀ := ending.statementsUntil [] u closed xs v₀ stmts
  obtain ⟨kind, size⟩ := unread_closing (rests.eof.symm ▸ closed) last left
  have bares : v₀.bares = (f.closing :: rest).map Token.bare := rests.bares_left tokens size
  have beside : (f.bodyFork rest rest').Beside u u' :=
    .of_tokens tokens tokens' f.sameEnd pending lastEnd (rests.last_read tokens bares (by rw [kind]; decide))
  have ends' : (f.bodyFork rest rest').mark'.Stops [c.endWord] := .inr ⟨_, List.mem_singleton_self _, f.isEndKeyword⟩
  rcases (hl _).statementsUntil_follows ends' (by simpa using leads) stmts (by simpa using free) size ⟨by rw [bares]; rfl, size.ge⟩
    beside with deep | ⟨v₀', stmts', beside₀⟩
  · obtain ⟨e, failed, deep⟩ := deep.bind _
    exact .inl ⟨e, read'.trans failed, deep⟩
  · obtain ⟨-, word, -, tokens₀', bare', -⟩ := beside₀.at_mark size
    obtain ⟨v₁', v', word', semicolon', left'⟩ := endWord_reads tokens₀' bare'
    refine .inr ⟨v', ?_, left'⟩
    rw [read', bind_eq stmts', bind_eq word', bind_eq semicolon']
    rfl

/-- Statements in alternative syntax are the same in braces. -/
theorem Opened.body_inBraces (opened : f.Opened rest rest' t t') (hl : ∀ w, Grammar.Local w g' g) (ending : g'.Ending d) {v : Stream}
    (read : g'.body c.endWord t' = .ok (xs, v)) (left : v.tokens = rest') :
    FailsDeep (g.body c.endWord) t ∨ ∃ v', g.body c.endWord t = .ok (xs, v') ∧ v'.tokens = rest := by
  obtain ⟨o, o', u, u', first, first', tokens, tokens', pending, lastEnd, closed, closed'⟩ := opened.opened
  have read' := body_of_brace (g := g) (e := c.endWord) opened.kind first
  rw [body_of_colon opened.kind' first'] at read
  obtain ⟨ys, v₀, stmts, read⟩ := exists_of_bind_eq_ok read
  obtain ⟨x, v₁, last, read⟩ := exists_of_bind_eq_ok read
  obtain ⟨_, v₂, ended, given⟩ := exists_of_bind_eq_ok read
  cases given
  have rests : u'.Rests v₀ := ending.statementsUntil [c.endWord] u' closed' xs v₀ stmts
  obtain ⟨kind, size⟩ := unread_endWord closed' rests tokens' last ended left
  have bares : v₀.bares = (f.endKeyword :: f.semicolon :: rest').map Token.bare := rests.bares_left tokens' size
  have beside : (f.bodyFork rest rest').Beside u u' :=
    .of_tokens tokens tokens' f.sameEnd pending lastEnd (rests.last_read tokens' bares (by rw [kind]; decide))
  have ends' : (f.bodyFork rest rest').swap.mark'.Stops [] := .inl f.isClosing
  rcases (hl _).statementsUntil_follows ends' (by simp) stmts (by simp) size ⟨by rw [bares]; rfl, size.ge⟩ beside.swap
    with deep | ⟨v₀', stmts', beside₀⟩
  · obtain ⟨e, failed, deep⟩ := deep.bind _
    exact .inl ⟨e, read'.trans failed, deep⟩
  · obtain ⟨-, brace, -, tokens₀', bare', -⟩ := beside₀.at_mark size
    obtain ⟨v', brace', left'⟩ := closing_reads tokens₀' bare'
    refine .inr ⟨v', ?_, left'⟩
    rw [read', bind_eq stmts', bind_eq brace']
    rfl

/-- The header is read as far as a brace or a colon. -/
def IsHeaded (f : c.Forms) (rest rest' : List Token) (n m : Nat) (s s' : Stream) : Prop :=
  (∃ make t, c.header (Grammar.upTo n) s = .ok (make, t) ∧ t.tokens = f.afterBrace rest) ∨
    ∃ make t', c.header (Grammar.upTo m) s' = .ok (make, t') ∧ t'.tokens = f.afterColon rest'

end Forms

variable {c : Construct} {f : c.Forms} {rest rest' : List Token} {s s' : Stream} {m : Nat}

/-- **Alternative syntax gives the same tree.** The forms of a `while`, `for`, `foreach` or `declare` stand in front of any tokens,
and the parser has depth for them. A construct in braces is read in alternative syntax as the same tree, unless one of the statements
in it begins with the end keyword, as a label or as the name of a class in front of a double colon. A construct in alternative syntax
is always read in braces as the same tree. -/
theorem alternative_same_tree (stand : f.Stand rest rest' s s') (deep : nestingBound s.unread ≤ n)
    (deep' : nestingBound s'.unread ≤ m) (headed : f.IsHeaded rest rest' n m s s') (x : Stmt) :
    (s.ReadsStatement n x rest → (∀ y ∈ x.blockBody, y.opensWith c.endWord = false) → s'.ReadsStatement m x rest') ∧
      (s'.ReadsStatement m x rest' → s.ReadsStatement n x rest) := by
  have endWord : c.endWord ∈ endWords := by cases c <;> decide
  have ok := Grammar.statement_not_failsDeep deep stand.closed
  have ok' := Grammar.statement_not_failsDeep deep' stand.closed'
  have runs (k : Nat) : (Grammar.upTo k).Consuming 0 := Grammar.consuming_upTo (Nat.zero_le k)
  obtain ⟨make, t, header, left⟩ : ∃ make t, c.header (Grammar.upTo n) s = .ok (make, t) ∧ t.tokens = f.afterBrace rest := by
    rcases headed with headed | ⟨make, t', header, left⟩
    · exact headed
    · exact ⟨make, stand.header_inBraces (fun _ => Grammar.local_upTo m n) (runs m) ok header left⟩
  have body (xs : List Stmt) : (make xs).blockBody = xs := header_make c s make t header xs
  obtain ⟨run, t', run', opened⟩ := stand.opened (fun _ => Grammar.local_upTo n m) (runs n) (runs m) ok' header left
  constructor
  · rintro ⟨v, read, left⟩ free
    obtain ⟨xs, v₁, stmts, given⟩ := exists_of_bind_eq_ok (run.symm.trans read)
    cases given
    rw [body] at free
    rcases opened.body_alternative (fun _ => Grammar.local_upTo n m) (Grammar.ending_upTo n)
      (fun s here => Grammar.stmt_upTo_opensWith endWord n here) stmts left free with failed | ⟨v', stmts', left'⟩
    · obtain ⟨e, failed, deep⟩ := failed.bind _
      exact absurd ⟨e, run'.trans failed, deep⟩ ok'
    · exact ⟨v', run'.trans (bind_eq stmts' _), left'⟩
  · rintro ⟨v', read, left'⟩
    obtain ⟨xs, v₁, stmts', given⟩ := exists_of_bind_eq_ok (run'.symm.trans read)
    cases given
    rcases opened.body_inBraces (fun _ => Grammar.local_upTo m n) (Grammar.ending_upTo m) stmts' left' with failed | ⟨v, stmts, left⟩
    · obtain ⟨e, failed, deep⟩ := failed.bind _
      exact absurd ⟨e, run.trans failed, deep⟩ ok
    · exact ⟨v, run.trans (bind_eq stmts _), left⟩

/-! ### A loop -/

/-- A token that stands nowhere. -/
def token (kind : TokenKind) (text : String) : Token := ⟨kind, .nowhere, .origin, text, none, []⟩

/-- A `while` around these statements. -/
def whileForms (body : List Token) : whileLoop.Forms where
  header := [token .ident "while", token .openParen "(", token .variable "x", token .closeParen ")"]
  body := body
  opening := token .openBrace "\x7b"
  closing := token .closeBrace "\x7d"
  colon := token .colon ":"
  endKeyword := token .ident "endwhile"
  semicolon := token .semicolon ";"
  isOpening := rfl
  isClosing := rfl
  isColon := rfl
  isEndKeyword := by decide
  isSemicolon := rfl
  sameStart := ⟨rfl, rfl, rfl⟩
  sameEnd := ⟨rfl, rfl⟩

/-- The stream in front of the loop in braces. -/
def whileBraces (body : List Token) : Stream := .ofTokens ((whileForms body).header ++ (whileForms body).afterBrace [])

/-- The stream in front of the loop in alternative syntax. -/
def whileAlternative (body : List Token) : Stream := .ofTokens ((whileForms body).header ++ (whileForms body).afterColon [])

theorem stand_while (body : List Token) : (whileForms body).Stand [] [] (whileBraces body) (whileAlternative body) :=
  ⟨rfl, rfl, rfl, rfl, Stream.kind_endOf _, Stream.kind_endOf _⟩

/-- The call `f()` as a statement. -/
def callStatement : List Token := [token .ident "f", token .openParen "(", token .closeParen ")", token .semicolon ";"]

theorem alternative_same_tree_while : ∃ x, (whileBraces callStatement).ReadsStatement 48 x [] ∧
    (whileAlternative callStatement).ReadsStatement 52 x [] := by
  obtain ⟨⟨make, t⟩, header, left⟩ := exists_of_any_toOption (r := whileLoop.header (Grammar.upTo 48) (whileBraces callStatement))
    (p := fun r => r.2.tokens == (whileForms callStatement).afterBrace []) (by decide +kernel)
  obtain ⟨⟨x, v⟩, read, told⟩ := exists_of_any_toOption (r := (Grammar.upTo 48).statement (whileBraces callStatement))
    (p := fun r => r.2.tokens == [] && r.1.blockBody.all fun y => !y.opensWith whileLoop.endWord) (by decide +kernel)
  simp only [Bool.and_eq_true, beq_iff_eq, List.all_eq_true, Bool.not_eq_true'] at left told
  refine ⟨x, ⟨v, read, told.1⟩, ?_⟩
  exact (alternative_same_tree (stand_while callStatement) (by decide) (by decide) (.inl ⟨make, t, header, left⟩) x).1
    ⟨v, read, told.1⟩ told.2

/-- The call `endwhile::f()` as a statement. -/
def endWordCall : List Token :=
  [token .ident "endwhile", token .doubleColon "::", token .ident "f", token .openParen "(", token .closeParen ")",
    token .semicolon ";"]

/-- It is not enough that no statement is a label spelled like the end keyword. -/
theorem not_alternative_same_tree : ¬∀ (c : Construct) (f : c.Forms) (rest rest' : List Token) (s s' : Stream) (n m : Nat),
    f.Stand rest rest' s s' → nestingBound s.unread ≤ n → nestingBound s'.unread ≤ m → f.IsHeaded rest rest' n m s s' → ∀ x,
    s.ReadsStatement n x rest → (∀ y ∈ x.blockBody, y.labels c.endWord = false) → s'.ReadsStatement m x rest' := by
  intro same_tree
  obtain ⟨⟨make, t⟩, header, left⟩ := exists_of_any_toOption (r := whileLoop.header (Grammar.upTo 56) (whileBraces endWordCall))
    (p := fun r => r.2.tokens == (whileForms endWordCall).afterBrace []) (by decide +kernel)
  obtain ⟨⟨x, v⟩, read, told⟩ := exists_of_any_toOption (r := (Grammar.upTo 56).statement (whileBraces endWordCall))
    (p := fun r => r.2.tokens == [] && r.1.blockBody.all fun y => !y.labels whileLoop.endWord) (by decide +kernel)
  simp only [Bool.and_eq_true, beq_iff_eq, List.all_eq_true, Bool.not_eq_true'] at left told
  obtain ⟨v', read', -⟩ := same_tree _ _ _ _ _ _ 56 60 (stand_while endWordCall) (by decide) (by decide)
    (.inl ⟨make, t, header, left⟩) x ⟨v, read, told.1⟩ told.2
  have rejected : ((Grammar.upTo 60).statement (whileAlternative endWordCall)).toOption.isNone = true := by decide +kernel
  rw [read'] at rejected
  cases rejected

end Construct

end Codewright.Php
