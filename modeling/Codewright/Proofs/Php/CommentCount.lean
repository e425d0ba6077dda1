import Codewright.Proofs.Php.CommentFlow

/-!
# No comment is lost

* `Grammar.Conserving.statement`, … – one lemma for each production of statements;
* `Grammar.conserving_upTo` – the parser's readers neither lose comments nor make them, by induction on how deep sources
  may nest.

Reading a source puts every comment of it into the tree, once. The comments in front of the end of the source are read
too, and the mark of the end comes only there.

* `eofLast_tokenize` – the mark of the end is the last of the tokens of a source, and no other one;
* `Grammar.fileBody_yields` – behind the statements of a file nothing waits to be taken;
* `comments_parse` – the comments of the tree are those of the tokens.
-/

namespace Codewright.Php

open Source

namespace Silent

theorem useDecl : Conserves 0 Parse.useDecl Node.comments :=
  (Conserves.expectKeyword _).bind fun _ => importKind.bind fun _ => (commaList importItems).bind fun _ =>
    Conserves.expectSemicolon.bind fun _ => .pure rfl

theorem classHead : Silent Grammar.classHead :=
  classModifiers.bind fun _ => (Conserves.expectKeyword _).bind fun _ => (Conserves.expectIdent _).bind fun _ =>
    parent.bind fun _ => (interfaces _).bind fun _ => .pure rfl

theorem interfaceHead : Silent Grammar.interfaceHead :=
  (Conserves.expectKeyword _).bind fun _ => (Conserves.expectIdent _).bind fun _ =>
    (interfaces _).bind fun _ => .pure rfl

theorem traitHead : Silent Grammar.traitHead :=
  (Conserves.expectKeyword _).bind fun _ => (Conserves.expectIdent _).bind fun _ => .pure rfl

theorem enumHead : Silent Grammar.enumHead :=
  (Conserves.expectKeyword _).bind fun _ => (Conserves.expectIdent _).bind fun _ => returnType.bind fun _ =>
    (interfaces _).bind fun _ => .pure rfl

end Silent

namespace Grammar.Conserving

open Parse

variable {g : Grammar} (h : g.Conserving)

include h

/-! ### Declarations -/

theorem classLike (doc : Option String) (attributes : List String) {head : Parse (String × ClassKind)}
    (silent : Silent head) : Conserves (docComments doc) (g.classLike doc attributes head) Node.comments :=
  .get_bind fun _ => silent.bind fun (_, _) => h.members.bind fun _ => .get_bind fun _ => .pure (by simp)

theorem function (doc : Option String) (attributes : List String) :
    Conserves (docComments doc) (g.function doc attributes) Node.comments :=
  .get_bind fun _ => (Conserves.expectKeyword _).bind fun _ => (Conserves.tryToken _).bind fun _ =>
    (Conserves.expectIdent _).bind fun _ => h.params.bind fun _ => Silent.returnType.bind fun _ =>
    h.block.bind fun _ => .get_bind fun _ => .pure (by simp)

theorem declarationOf (doc : Option String) (attributes : List String) :
    Conserves (docComments doc) (g.declarationOf doc attributes) Node.comments := by
  refine .get_bind fun s => .ite (h.classLike _ _ Silent.classHead) <| .ite (h.classLike _ _ Silent.interfaceHead) <|
    .ite (h.classLike _ _ Silent.traitHead) <| .ite (h.classLike _ _ Silent.enumHead) <|
    .ite (h.function _ _) (.failWith _)

theorem declaration : Conserves 0 g.declaration Node.comments := by
  refine .bind .takeDoc fun before => Silent.attributes.bind fun attributes => ?_
  cases before with
  | some doc => exact .pure_bind (by simpa using h.declarationOf (some doc) attributes)
  | none => exact .bind .takeDoc fun doc => by simpa using h.declarationOf doc attributes

/-! ### Control structures -/

theorem body (endWord : String) : Conserves 0 (g.body endWord) (total Node.comments) := by
  refine .get_bind fun _ => .ite h.block <| (Conserves.tryToken _).bind fun _ => .ite ?alternative ?single
  case alternative =>
    exact (h.statementsUntil _).bind fun _ => (Conserves.expectKeyword _).bind fun _ =>
      Conserves.expectSemicolon.bind fun _ => .pure (by simp)
  case single => exact .bind leadingComments fun _ => h.stmt.bind fun _ => .pure (by simp)

theorem alternativeIf (cond : Expr) : Conserves cond.comments (g.alternativeIf cond) Node.comments := by
  have elseIf : Conserves 0 (do
      let cond ← g.parenthesized
      let _ ← expect .colon
      return Node.elseIf cond (.ofList (← g.statementsUntil ["elseif", "else", "endif"]))) Node.comments :=
    h.parenthesized.bind fun _ => (Conserves.expect _).bind fun _ => (h.statementsUntil _).bind fun _ =>
      .pure (by simp)
  have last : Conserves 0 (do
      let _ ← expect .colon
      g.statementsUntil ["endif"]) (total Node.comments) :=
    (Conserves.expect _).bind fun _ => by simpa using h.statementsUntil _
  exact (h.statementsUntil _).bind fun _ => (elseIf.behind (.tryKeyword _)).bind fun _ =>
    (last.afterKeyword _).bind fun _ => (Conserves.expectKeyword _).bind fun _ =>
    Conserves.expectSemicolon.bind fun _ => .pure (by simp)

theorem ifStmt : Conserves 0 g.ifStmt Node.comments := by
  have elseIf : Conserves 0 (do
      let cond ← g.parenthesized
      return Node.elseIf cond (.ofList (← g.body "endif"))) Node.comments :=
    h.parenthesized.bind fun _ => (h.body _).bind fun _ => .pure (by simp)
  refine (Conserves.expectKeyword _).bind fun _ => h.parenthesized.bind fun cond => (Conserves.tryToken _).bind fun _ =>
    .ite (by simpa using h.alternativeIf cond) ?_
  exact (h.body _).bind fun _ => (elseIf.behind (.tryKeyword _)).bind fun _ =>
    ((h.body _).afterKeyword _).bind fun _ => .pure (by simp)

theorem whileStmt : Conserves 0 g.whileStmt Node.comments :=
  (Conserves.expectKeyword _).bind fun _ => h.parenthesized.bind fun _ => (h.body _).bind fun _ => .pure (by simp)

theorem doWhile : Conserves 0 g.doWhile Node.comments :=
  (Conserves.expectKeyword _).bind fun _ => .get_bind fun _ => .ite (.failExpected _) <| (h.body _).bind fun _ =>
    (Conserves.expectKeyword _).bind fun _ => h.parenthesized.bind fun _ => Conserves.expectSemicolon.bind fun _ =>
    .pure (by simp)

theorem forPart (close : TokenKind) : Conserves 0 (g.forPart close) (total Node.comments) :=
  .get_bind fun _ => .ite (.pure rfl) h.exprList

theorem forStmt : Conserves 0 g.forStmt Node.comments :=
  (Conserves.expectKeyword _).bind fun _ => (Conserves.expect _).bind fun _ => (h.forPart _).bind fun _ =>
    (Conserves.expect _).bind fun _ => (h.forPart _).bind fun _ => (Conserves.expect _).bind fun _ =>
    (h.forPart _).bind fun _ => (Conserves.expect _).bind fun _ => (h.body _).bind fun _ => .pure (by simp)

theorem foreachStmt : Conserves 0 g.foreachStmt Node.comments := by
  have afterTargets (subject : Expr) (key : Node (.opt .expr)) (value : Expr) (byRef : Bool) :
      Conserves (subject.comments + (key.comments + value.comments)) (do
        let _ ← expect .closeParen
        return .foreach subject key value byRef (.ofList (← g.body "endforeach"))) Node.comments :=
    (Conserves.expect _).bind fun _ => (h.body _).bind fun _ => .pure (by simp [add_assoc])
  refine (Conserves.expectKeyword _).bind fun _ => (Conserves.expect _).bind fun _ => h.anyExpr.bind fun subject =>
    (Conserves.expectKeyword _).bind fun _ => (Conserves.tryToken _).bind fun byRef => h.anyExpr.bind fun first =>
    .ite ((Conserves.tryToken _).bind fun _ => .ite ((Conserves.tryToken _).bind fun _ => ?_) ?_) ?_
  · exact h.anyExpr.bind fun value =>
      .pure_bind (by simpa [add_assoc] using afterTargets subject (.present first) value _)
  · exact .pure_bind (by simpa using afterTargets subject .absent first false)
  · exact .pure_bind (by simpa using afterTargets subject .absent first true)

theorem caseTest : Conserves 0 g.caseTest (perhaps Node.comments) :=
  (Conserves.tryKeyword _).bind fun _ => .ite (h.anyExpr.bind fun _ => .pure (by simp)) <|
    (Conserves.tryKeyword _).bind fun _ => .ite (.pure rfl) (.failExpected _)

theorem switchCase : Conserves 0 g.switchCase Node.comments := by
  refine h.caseTest.bind fun test => (Conserves.tryToken _).bind fun _ =>
    .ite ((Conserves.expect _).bind fun _ => ?_) ?_
  all_goals exact (h.statementsUntil _).bind fun _ => .pure (by simp)

omit h in
theorem tryEndSwitch (alternative : Bool) : Silent (tryEndSwitch alternative) :=
  .ite ((Conserves.tryKeyword _).bind fun _ => .ite (Conserves.expectSemicolon.bind fun _ => .pure rfl) (.pure rfl))
    (.tryToken _)

theorem switchStmt : Conserves 0 g.switchStmt Node.comments := by
  have round (alternative : Bool) : Conserves 0 (do
      skipAll fillers
      if ← Grammar.tryEndSwitch alternative then return ([], false)
      else return ([← g.switchCase], true)) fun r => total Node.comments r.1 :=
    (Conserves.skipAll _).bind fun _ => (tryEndSwitch _).bind fun _ => .ite (.pure rfl) <|
      h.switchCase.bind fun _ => .pure (by simp)
  have cases (subject : Expr) (alternative : Bool) : Conserves subject.comments (do
      let cases ← collect do
        skipAll fillers
        if ← Grammar.tryEndSwitch alternative then return ([], false)
        else return ([← g.switchCase], true)
      return .switchStmt subject (.ofList cases)) Node.comments :=
    (Conserves.collect (round alternative)).bind fun _ => .pure (by simp)
  refine (Conserves.expectKeyword _).bind fun _ => h.parenthesized.bind fun subject =>
    (Conserves.tryToken _).bind fun alternative => .ite ((Conserves.expect _).bind fun _ => ?_) ?_
  all_goals simpa using cases subject alternative

theorem catchClause : Conserves 0 g.catchClause Node.comments := by
  refine (Conserves.expect _).bind fun _ => (Conserves.expectIdent _).bind fun _ =>
    (Silent.behind (.expectIdent _) (.tryToken _)).bind fun _ => .get_bind fun s =>
    .ite (Conserves.advance.bind fun _ => .pure_bind ?_) (.pure_bind ?_)
  all_goals exact (Conserves.expect _).bind fun _ => h.block.bind fun _ => .pure (by simp)

theorem tryStmt : Conserves 0 g.tryStmt Node.comments :=
  (Conserves.expectKeyword _).bind fun _ => h.block.bind fun _ => (h.catchClause.behind (.tryKeyword _)).bind fun _ =>
    (h.block.afterKeyword _).bind fun _ => .ite (.failExpected _) (.pure (by simp))

theorem declareStmt : Conserves 0 g.declareStmt Node.comments := by
  have directive : Conserves 0 (do
      let name ← expectIdent "directive name"
      let _ ← expect .assign
      return Node.directive name (← g.anyExpr)) Node.comments :=
    (Conserves.expectIdent _).bind fun _ => (Conserves.expect _).bind fun _ => h.anyExpr.bind fun _ => .pure (by simp)
  exact (Conserves.expectKeyword _).bind fun _ => .bind (directive.commaList.enclosedBy _ _) fun _ => .get_bind fun _ =>
    .ite ((h.body _).bind fun _ => .pure (by simp)) (Conserves.expectSemicolon.bind fun _ => .pure (by simp))

/-! ### Statements -/

omit h in
theorem ended {s : Stmt} {held : Multiset String} (same : s.comments = held) :
    Conserves held (ended s) Node.comments :=
  Conserves.expectSemicolon.bind fun _ => .pure same

theorem optionalValue : Conserves 0 g.optionalValue Node.comments :=
  .get_bind fun _ => .ite (.pure rfl) (h.anyExpr.bind fun _ => .pure (by simp))

theorem exprStmt : Conserves 0 g.exprStmt Node.comments :=
  h.anyExpr.bind fun _ => ended (by simp)

theorem wordStmt (word : String) : Conserves 0 (g.wordStmt word) Node.comments := by
  refine .get_bind fun s => ?_
  split
  case h_1 => exact Silent.useDecl
  case h_2 => exact Conserves.advance.bind fun _ => h.definitions.bind fun _ => ended (by simp)
  case h_3 => exact h.declareStmt
  case h_4 => exact h.ifStmt
  case h_5 => exact h.whileStmt
  case h_6 => exact h.doWhile
  case h_7 => exact h.forStmt
  case h_8 => exact h.foreachStmt
  case h_9 => exact h.switchStmt
  case h_10 => exact Conserves.advance.bind fun _ => h.optionalValue.bind fun _ => ended (by simp)
  case h_11 => exact Conserves.advance.bind fun _ => h.optionalValue.bind fun _ => ended (by simp)
  case h_12 => exact Conserves.advance.bind fun _ => h.optionalValue.bind fun _ => ended (by simp)
  case h_13 => exact Conserves.advance.bind fun _ => h.exprList.bind fun _ => ended (by simp)
  case h_14 => exact Conserves.advance.bind fun _ => h.anyExpr.bind fun _ => ended (by simp)
  case h_15 => exact h.tryStmt
  case h_16 => exact Conserves.advance.bind fun _ => (Silent.commaList .expectVariable).bind fun _ => ended rfl
  case h_17 => exact .failWith _
  refine .ite (.failExpected _) <| .ite ?staticVars <| .ite ?unset <| .ite ?goto h.exprStmt
  case staticVars => exact Conserves.advance.bind fun _ => h.varItems.bind fun _ => ended (by simp)
  case unset =>
    exact Conserves.advance.bind fun _ => .bind ((h.anyExpr.commaListUntil _).enclosedBy _ _) fun _ =>
      ended (by simp)
  case goto => exact Conserves.advance.bind fun _ => Conserves.advance.bind fun _ => ended rfl

theorem statement : Conserves 0 g.statement Node.comments := by
  refine .get_bind fun s => .ite h.declaration ?_
  split
  · exact Conserves.advance.bind fun _ => .pure rfl
  · exact Conserves.advance.bind fun _ => .pure rfl
  · exact Conserves.advance.bind fun _ => .pure rfl
  · exact Conserves.advance.bind fun _ => .pure rfl
  · exact Conserves.advance.bind fun _ => h.exprList.bind fun _ => ended (by simp)
  · exact h.block.bind fun _ => .pure (by simp)
  · exact .ite (Conserves.advance.bind fun _ => Conserves.advance.bind fun _ => .pure rfl) (h.wordStmt _)
  · exact h.exprStmt

/-! ### Namespaces -/

theorem namespaceBody : Conserves 0 g.namespaceBody (total Node.comments) :=
  .collect <| (Conserves.skipAll _).bind fun _ => .bind leadingComments fun _ => .get_bind fun _ =>
    .ite (.pure (by simp)) (h.stmt.bind fun _ => .pure (by simp))

theorem namespaceDecl : Conserves 0 g.namespaceDecl Node.comments := by
  refine .get_bind fun _ => (Conserves.expectKeyword _).bind fun _ => .get_bind fun _ =>
    .ite (Conserves.advance.bind fun _ => .pure_bind ?_) (.pure_bind ?_)
  all_goals
    refine .get_bind fun _ => .ite (.bind (h.namespaceBody.enclosedBy _ _) fun _ => ?_) (.ite (.failExpected _) ?_)
    · exact .get_bind fun _ => .pure (by simp)
    · exact Conserves.expectSemicolon.bind fun _ => h.namespaceBody.bind fun _ => .get_bind fun _ => .pure (by simp)

end Grammar.Conserving

/-- However deep the sources may nest, the parser neither loses comments nor makes them. -/
theorem Grammar.conserving_upTo (n : Nat) : (Grammar.upTo n).Conserving := by
  induction n with
  | zero => exact ⟨fun _ => .failWith _, .failWith _, .failWith _, .failWith _⟩
  | succ n ih => exact ⟨ih.operatorExpr, ih.operandExpr, ih.primaryExpr, ih.statement⟩

end Codewright.Php

/-! ## The comments of a source -/

namespace Codewright.Php

open Source

/-! ## The end of the tokens -/

/-- Only the last token may be the one that marks the end. -/
def EofLast (faces : List Face) : Prop := ∀ f ∈ faces.dropLast, f.1 ≠ .eof

theorem EofLast.of_suffix {fs gs : List Face} (h : EofLast gs) (suffix : fs <:+ gs) : EofLast fs := by
  obtain ⟨front, rfl⟩ := suffix
  cases fs with
  | nil => exact fun f hf => absurd hf (by simp)
  | cons f fs =>
    intro f' hf'
    refine h f' ?_
    rw [List.dropLast_append_of_ne_nil (by simp)]
    exact List.mem_append_right _ hf'

theorem EofLast.append {fs gs : List Face} (h : ∀ f ∈ fs, f.1 ≠ .eof) (h' : EofLast gs) : EofLast (fs ++ gs) := by
  intro f hf
  cases gs with
  | nil =>
    rw [List.append_nil] at hf
    exact h f (List.mem_of_mem_dropLast hf)
  | cons g gs =>
    rw [List.dropLast_append_of_ne_nil (by simp)] at hf
    rcases List.mem_append.1 hf with front | back
    · exact h f front
    · exact h' f back

theorem EofLast.singleton (f : Face) : EofLast [f] := nofun

/-- Tokens in front that do not mark the end. -/
theorem EofLast.append_faces {ts us : List Token} (h : ∀ t ∈ ts, t.kind ≠ .eof) (h' : EofLast (us.map Token.face)) :
    EofLast ((ts ++ us).map Token.face) := by
  rw [List.map_append]
  refine .append (fun f hf => ?_) h'
  obtain ⟨t, ht, rfl⟩ := List.mem_map.1 hf
  exact h t ht

theorem exists_of_map_eq_ok {ε α β : Type} {f : α → β} {x : Except ε α} {y : β} (h : x.map f = .ok y) :
    ∃ a, x = .ok a ∧ f a = y := by
  cases x with
  | error _ => cases h
  | ok a =>
    cases h
    exact ⟨a, rfl, rfl⟩

namespace Lexer

/-- No lexeme is the mark of the end. -/
theorem kind_scan_ne_eof {c : Char} {cs : List Char} {lexeme : Lexeme} (h : scan c cs = .ok lexeme) :
    lexeme.kind ≠ .eof := by
  rcases kind_scan h with ⟨name, -⟩ | value | ⟨p, member, mark⟩
  · rw [name]
    exact nofun
  · intro eof
    rw [eof] at value
    exact absurd value (by decide)
  · have none_eof : ∀ p ∈ punctuation, p.2 ≠ .eof := by decide
    rw [mark]
    exact none_eof p member

/-- The kinds of opening tags. -/
theorem kind_findOpenTag? {cs : List Char} {n : Nat} {kind : TokenKind} (h : findOpenTag? cs = some (n, kind)) :
    kind = .openTag ∨ kind = .openTagEcho := by
  have tag {cs : List Char} {kind : TokenKind} (h : openTagAt? cs = some kind) : kind = .openTag ∨ kind = .openTagEcho := by
    unfold openTagAt? at h
    split at h
    · cases h
      exact .inr rfl
    · split at h
      · cases h
        exact .inl rfl
      · cases h
    · cases h
  induction cs generalizing n with
  | nil => cases h
  | cons c cs ih =>
    rw [findOpenTag?] at h
    split at h
    · next found =>
      cases h
      exact tag found
    · obtain ⟨r, found, same⟩ := Option.map_eq_some_iff.1 h
      cases same
      exact ih found

theorem kind_findOpenTag?_ne_eof {cs : List Char} {n : Nat} {kind : TokenKind} (h : findOpenTag? cs = some (n, kind)) :
    kind ≠ .eof := by
  rcases kind_findOpenTag? h with rfl | rfl <;> exact nofun

/-- The tokens of a text section are texts and tags. -/
theorem kind_textToken_ne_eof (cs : List Char) (p : Position) : ∀ t ∈ textToken cs p, t.kind ≠ .eof := by
  intro t ht
  rw [textToken] at ht
  split at ht
  · cases ht
  · rw [List.mem_singleton.1 ht]
    simp [token]

theorem kind_readText_source_ne_eof {p : Position} {cs : List Char} {tokens : List Token}
    (h : readText p cs = .source tokens) : ∀ t ∈ tokens, t.kind ≠ .eof := by
  rw [readText] at h
  split at h
  · cases h
    exact kind_textToken_ne_eof _ _
  · cases h

theorem kind_readText_code_ne_eof {p : Position} {cs : List Char} {tokens : List Token} {read : Nat}
    (h : readText p cs = .code tokens read) : ∀ t ∈ tokens, t.kind ≠ .eof := by
  rw [readText] at h
  split at h
  · cases h
  · next found =>
    cases h
    intro t ht
    rcases List.mem_append.1 ht with html | tag
    · exact kind_textToken_ne_eof _ _ t html
    · rw [List.mem_singleton.1 tag]
      exact kind_findOpenTag?_ne_eof found

/-- The tokens of code, and those of the texts inside it, come before the mark of the end. -/
theorem eofLast_readCode {p : Position} {cs : List Char} {tokens : List Token} (h : readCode p cs = .ok tokens) :
    EofLast (tokens.map Token.face) := by
  fun_induction readCode p cs generalizing tokens with
  | case1 p cs e gap => cases h
  | case2 p cs g q gap =>
    cases h
    exact .singleton _
  | case3 p cs g q c rest gap tag n q' close html =>
    cases h
    refine .append_faces (List.forall_mem_cons.2 ⟨nofun, ?_⟩) (.singleton _)
    exact kind_readText_source_ne_eof ‹_›
  | case4 p cs g q c rest gap tag n q' close ts read text =>
    rename_i ih
    obtain ⟨us, code, rfl⟩ := exists_of_map_eq_ok h
    refine .append_faces (List.forall_mem_cons.2 ⟨nofun, ?_⟩) (ih code)
    exact kind_readText_code_ne_eof text
  | case5 p cs g q c rest gap other fault => cases h
  | case6 p cs g q c rest gap other lexeme scanned q' =>
    rename_i ih
    obtain ⟨us, code, rfl⟩ := exists_of_map_eq_ok h
    have front : ∀ t ∈ [token lexeme.kind lexeme.text q q' g], t.kind ≠ .eof :=
      List.forall_mem_singleton.2 (kind_scan_ne_eof scanned)
    exact .append_faces front (ih code)

end Lexer

/-- The mark of the end comes once in the tokens of a source, as the last of them. -/
theorem eofLast_tokenize {source : String} {tokens : List Token} (h : tokenize source = .ok tokens) :
    EofLast (tokens.map Token.face) := by
  rw [tokenize] at h
  split at h
  · cases h
  · obtain ⟨us, code, rfl⟩ := exists_of_map_eq_ok h
    exact .append_faces (Lexer.kind_readText_code_ne_eof ‹_›) (Lexer.eofLast_readCode code)

/-! ## Files -/

namespace Stream

variable {s : Stream}

/-- What marks the end begins no declaration, so its doc comment belongs to nothing behind it. -/
theorem atDeclaration_of_atEnd (h : s.atEnd = true) : s.atDeclaration = false := by
  have eof : s.peek.kind = .eof := by simpa [atEnd, at_, kind] using h
  have no_keyword (word : String) : s.atKeyword word = false := by simp [atKeyword, Token.isKeyword, eof]
  have no_class : s.atClass = false := by
    obtain ⟨tokens, _, _, _, _, _⟩ := s
    cases tokens with
    | nil => rfl
    | cons t ts =>
      have eof : t.kind = .eof := eof
      have no_word (word : String) : t.isKeyword word = false := by simp [Token.isKeyword, eof]
      simp only [atClass, List.dropWhile_cons, isClassModifier, no_word, Bool.or_self, Bool.false_eq_true, if_false]
      cases ts <;> simp [no_word]
  simp [atDeclaration, at_, kind, eof, no_class, no_keyword, atAnyKeyword, atFunction]

/-- The comments in front of the next token, and those that were pending, have been taken. -/
def Taken (s : Stream) : Prop := s.comments = tokenComments s.tokens.tail

/-- Behind the mark of the end nothing is left. -/
theorem tail_of_atEnd (h : s.atEnd = true) (last : EofLast s.faces) : s.tokens.tail = [] := by
  obtain ⟨tokens, _, _, _, _, _⟩ := s
  cases tokens with
  | nil => rfl
  | cons t ts =>
    cases ts with
    | nil => rfl
    | cons u us =>
      have eof : t.kind = .eof := by simpa [atEnd, at_, kind, peek, peekAt] using h
      exact absurd eof (last t.face (by simp [faces]))

theorem comments_of_atEnd (taken : s.Taken) (h : s.atEnd = true) (last : EofLast s.faces) : s.comments = 0 := by
  rw [taken, tail_of_atEnd h last]
  rfl

end Stream

/-- What holds behind every last round of a loop holds behind the loop. -/
theorem Yields.collect {α : Type} {step : Parse (List α × Bool)} {Q : Stream → Prop}
    (h : ∀ s, Yields s step fun r s' => r.2 = false → Q s') (s : Stream) :
    Yields s (Parse.collect step) fun _ s' => Q s' := by
  have loop (n : Nat) : ∀ s, Yields s (Parse.collectUpTo step n) fun _ s' => Q s' := by
    induction n with
    | zero => exact fun _ => .failWith _
    | succ n ih =>
      refine fun s => .bind ((h s).mono fun r s₁ last => .ite (fun _ => ?more) fun stop => .pure (last ?_))
      case more => exact .bind ((ih s₁).mono fun _ _ holds => .pure holds)
      exact Bool.eq_false_of_not_eq_true stop
  exact .get_bind (loop (s.unread + 1) s)

namespace Parse

theorem takeComments_yields (s : Stream) :
    Yields s takeComments fun _ s' => s'.pending = [] ∧ ∀ t ∈ s'.tokens.head?, t.comments = [] := by
  obtain ⟨tokens, _, _, _, _, _⟩ := s
  cases tokens with
  | nil => exact fun _ _ read => by cases read; simp
  | cons t ts => exact fun _ _ read => by cases read; simp

theorem takeDoc_yields {s : Stream} (none_pending : s.pending = []) (bare : ∀ t ∈ s.tokens.head?, t.comments = []) :
    Yields s takeDoc fun _ s' => s'.Taken := by
  obtain ⟨tokens, _, _, _, _, _⟩ := s
  cases tokens with
  | nil => exact fun _ _ read => by cases read; simp_all [Stream.Taken, Stream.comments]
  | cons t ts => exact fun _ _ read => by cases read; simp_all [Stream.Taken, Stream.comments]

/-- Only a declaration keeps its doc comment. -/
theorem leadingComments_yields (s : Stream) :
    Yields s leadingComments fun _ s' => s'.atEnd = true → s'.Taken := by
  refine .bind ((takeComments_yields s).mono fun _ s₁ ⟨none_pending, bare⟩ => .get_bind <| .ite (fun here => ?_) ?_)
  · refine .pure fun atEnd => ?_
    rw [Stream.atDeclaration_of_atEnd atEnd] at here
    cases here
  · exact fun _ => .bind ((takeDoc_yields none_pending bare).mono fun _ _ taken => .pure fun _ => taken)

end Parse

/-- The statements of a file end where it ends. -/
theorem Grammar.fileBody_yields (g : Grammar) (s : Stream) :
    Yields s g.fileBody fun _ s' => s'.atEnd = true ∧ s'.Taken := by
  refine .collect (fun s => .bind_any fun _ s₁ => .bind ((Parse.leadingComments_yields s₁).mono fun _ s₂ taken => ?_)) s
  refine .get_bind <| .ite (fun atEnd => .pure fun _ => ⟨atEnd, taken atEnd⟩) fun _ => .ite (fun _ => ?_) fun _ => ?_
  all_goals exact .bind_any fun _ _ => .pure nofun

theorem Grammar.Conserving.fileBody {g : Grammar} (h : g.Conserving) : Conserves 0 g.fileBody (total Node.comments) :=
  .collect <| (Conserves.skipAll _).bind fun _ => .bind leadingComments fun _ => .get_bind fun _ =>
    .ite (.pure (by simp)) <| .ite (h.namespaceDecl.bind fun _ => .pure (by simp))
      (h.stmt.bind fun _ => .pure (by simp))

/-- A file is read to its end, so all comments of its tokens are in its tree. -/
theorem Grammar.Conserving.file {g : Grammar} (h : g.Conserving) {tokens : List Token}
    (last : EofLast (tokens.map Token.face)) :
    Yields (Stream.ofTokens tokens) (Parse.file g) fun f _ => f.stmts.comments = tokenComments tokens := by
  have read : Yields (Stream.ofTokens tokens) g.fileBody
      fun stmts _ => total Node.comments stmts = tokenComments tokens := by
    intro stmts s' result
    obtain ⟨same, back⟩ := h.fileBody _ stmts s' result
    obtain ⟨atEnd, taken⟩ := g.fileBody_yields _ stmts s' result
    rw [Stream.comments_of_atEnd taken atEnd (last.of_suffix back), add_zero, zero_add] at same
    rw [same, Stream.comments_ofTokens]
  exact .get_bind <| .bind <| read.mono fun stmts s' same => .get_bind <| .pure (by simpa using same)

/-- **No comment is lost or made.** The comments of the tree of a source, at any depth, are those of its tokens. -/
theorem comments_parse {source : String} {f : File} (h : parse source = .ok f) :
    ∃ tokens, tokenize source = .ok tokens ∧
      f.stmts.comments = (tokens.flatMap Token.allComments : Multiset String) := by
  rw [parse] at h
  cases read : tokenize source with
  | error _ =>
    rw [read] at h
    cases h
  | ok tokens =>
    rw [read] at h
    obtain ⟨⟨f', s'⟩, result, rfl⟩ := exists_of_map_eq_ok h
    exact ⟨tokens, rfl, (Grammar.conserving_upTo _).file (eofLast_tokenize read) f' s' result⟩

/-- A comment among arguments, the doc comment of a property in a closure, and a comment in front of the end. -/
def commentedSource : String := "<?php f(/* a */ 1, function () { return new class { /** b */ public $x; }; }); // c"

theorem comments_parse_nested :
    ∃ f, parse commentedSource = .ok f ∧ f.stmts.comments = (["/* a */", "/** b */", "// c"] : List String) := by
  have texts : (tokenize commentedSource).toOption.map (·.flatMap Token.allComments) =
      some ["/* a */", "/** b */", "// c"] := by
    decide +kernel
  have accepted : (parse commentedSource).toOption.isSome = true := by decide +kernel
  cases read : parse commentedSource with
  | error _ =>
    rw [read] at accepted
    cases accepted
  | ok f =>
    obtain ⟨tokens, tokenized, same⟩ := comments_parse read
    rw [tokenized] at texts
    have texts : tokens.flatMap Token.allComments = ["/* a */", "/** b */", "// c"] := Option.some.inj texts
    exact ⟨f, rfl, by rw [same, texts]⟩

end Codewright.Php
