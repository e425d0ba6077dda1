import Codewright.Proofs.Php.NestedExpressions
import Codewright.Proofs.Php.ProgressStatements
import Codewright.Proofs.Php.Termination
import Codewright.Proofs.Php.Tiling

/-!
# The spans of a source

* `Grammar.Building.statement`, … – one lemma for each production of statements;
* `Grammar.building_upTo` – the parser's readers put together trees whose spans are nested and whose modifiers are legal,
  by induction on how deep sources may nest.

* `Stream.isOrdered_ofTokens` – tokens that tile a source stand one behind the other;
* `span_of_parse` – a file covers its source; `formed_of_parse` – what its parser put together;
* `spans_nest` – the spans of a file are spans of texts, stand inside one another and one behind the other.
-/

namespace Codewright.Php

open Source

variable {B : ℕ → Prop}

namespace Grammar.Building

open Parse

variable {g : Grammar} {s : Stream} (h : g.Building B)

/-! ### Declarations -/

theorem useDecl : Builds B s Parse.useDecl one :=
  .skip (.expectKeyword _) fun _ => .skip .importKind fun _ => .skip (.commaList .importItems) fun _ =>
    .skip .expectSemicolon fun _ => .node rfl rfl trivial

/-- A reader of the head of a class-like declaration: it reads a token, makes no tree, and gives modifiers that a class may
have. -/
structure ReadsHead (B : ℕ → Prop) (head : Parse (String × ClassKind)) : Prop where
  skips {s : Stream} : Skips B s head
  consumes : Consumes 1 head
  gives : Gives head fun r => r.2.HasLegalModifiers

theorem classHead : ReadsHead B Grammar.classHead where
  skips := .skip .classModifiers fun _ => .skip (.expectKeyword _) fun _ => .skip (.expectIdent _) fun _ =>
    .skip .parent fun _ => .skip (.interfaces _) fun _ => .pure rfl
  consumes := Runs.classHead
  gives := classModifiers_gives.bind_of fun _ legal => .bind fun _ => .bind fun _ => .bind fun _ => .bind fun _ => .pure legal

theorem interfaceHead : ReadsHead B Grammar.interfaceHead where
  skips := .skip (.expectKeyword _) fun _ => .skip (.expectIdent _) fun _ => .skip (.interfaces _) fun _ => .pure rfl
  consumes := Runs.interfaceHead
  gives := .bind fun _ => .bind fun _ => .bind fun _ => .pure trivial

theorem traitHead : ReadsHead B Grammar.traitHead where
  skips := .skip (.expectKeyword _) fun _ => .skip (.expectIdent _) fun _ => .pure rfl
  consumes := Runs.traitHead
  gives := .bind fun _ => .bind fun _ => .pure trivial

theorem enumHead : ReadsHead B Grammar.enumHead where
  skips := .skip (.expectKeyword _) fun _ => .skip (.expectIdent _) fun _ => .skip .returnType fun _ =>
    .skip (.interfaces _) fun _ => .pure rfl
  consumes := Runs.enumHead
  gives := .bind fun _ => .bind fun _ => .bind fun _ => .bind fun _ => .pure trivial

include h

section

variable (doc : Option String) (groups : List String)

theorem classLike {head : Parse (String × ClassKind)} (reads : ReadsHead B head) :
    Builds B s (g.classLike doc groups head) one :=
  .get_bind <| .start_gives reads.skips reads.consumes reads.gives fun (_, _) legal => .bind h.members fun _ =>
    .get_bind (.spanned rfl rfl legal)

theorem function : Builds B s (g.function doc groups) one :=
  .get_bind <| .skip_start (.expectKeyword _) (Runs.expectKeyword _) fun _ => .skip (.tryToken _) fun _ =>
    .skip (.expectIdent _) fun _ => .bind h.params fun _ => .skip .returnType fun _ => .bind h.block fun _ =>
    .get_bind (.spanned rfl rfl trivial)

theorem declarationOf : Builds B s (g.declarationOf doc groups) one :=
  .get_bind <| .ite (h.classLike doc groups classHead) <| .ite (h.classLike doc groups interfaceHead) <|
    .ite (h.classLike doc groups traitHead) <| .ite (h.classLike doc groups enumHead) <|
    .ite (h.function doc groups) (.failWith _)

end

theorem declaration : Builds B s g.declaration one := by
  refine .skip .takeDoc fun before => .skip .attributes fun groups => ?_
  cases before with
  | some doc => exact .pure_bind (h.declarationOf _ groups).forms
  | none => exact .skip .takeDoc fun doc => (h.declarationOf doc groups).forms

/-! ### Control structures -/

theorem body (endWord : String) : Builds B s (g.body endWord) listed := by
  refine .get_bind <| .ite h.block <| .skip (.tryToken _) fun _ => .ite ?alternative (.listed ?single)
  case alternative =>
    exact .bind (h.statementsUntil _) fun _ => .skip (.expectKeyword _) fun _ => .skip .expectSemicolon fun _ => .pure rfl
  case single => exact .bind leadingComments fun _ => .bind h.stmt fun _ => .pure List.flatMap_append

section

variable {lo reached : ℕ} {e : Expr}

theorem alternativeIf : Forms B s lo reached (one e) (g.alternativeIf e) one := by
  have elseIf {s : Stream} : Builds B s (do
      let cond ← g.parenthesized
      let _ ← expect .colon
      return Node.elseIf cond (.ofList (← g.statementsUntil ["elseif", "else", "endif"]))) one :=
    .bind h.parenthesized fun _ => .skip (.expect _) fun _ => .bind (h.statementsUntil _) fun _ => .node rfl rfl trivial
  have last {s : Stream} : Builds B s (do
      let _ ← expect .colon
      g.statementsUntil ["endif"]) listed :=
    .skip (.expect _) fun _ => (h.statementsUntil _).forms
  exact .bind (h.statementsUntil _) fun _ => .bind (Builds.listed (.behind elseIf (.tryKeyword _))) fun _ =>
    .bind (m := listedIfAny) (.afterKeyword last rfl (fun _ => rfl) _) fun _ => .skip (.expectKeyword _) fun _ =>
    .skip .expectSemicolon fun _ => .node rfl rfl trivial

end

theorem ifStmt : Builds B s g.ifStmt one := by
  have elseIf {s : Stream} : Builds B s (do
      let cond ← g.parenthesized
      return Node.elseIf cond (.ofList (← g.body "endif"))) one :=
    .bind h.parenthesized fun _ => .bind (h.body _) fun _ => .node rfl rfl trivial
  refine .skip (.expectKeyword _) fun _ => .bind h.parenthesized fun _ => .skip (.tryToken _) fun _ => .ite h.alternativeIf ?_
  exact .bind (h.body _) fun _ => .bind (Builds.listed (.behind elseIf (.tryKeyword _))) fun _ =>
    .bind (m := listedIfAny) (.afterKeyword (h.body _) rfl (fun _ => rfl) _) fun _ => .node rfl rfl trivial

theorem whileStmt : Builds B s g.whileStmt one :=
  .skip (.expectKeyword _) fun _ => .bind h.parenthesized fun _ => .bind (h.body _) fun _ => .node rfl rfl trivial

theorem doWhile : Builds B s g.doWhile one :=
  .skip (.expectKeyword _) fun _ => .get_bind <| .ite (.failExpected _) <| .bind (h.body _) fun _ =>
    .skip (.expectKeyword _) fun _ => .bind h.parenthesized fun _ => .skip .expectSemicolon fun _ => .node rfl rfl trivial

theorem forPart (close : TokenKind) : Builds B s (g.forPart close) listed :=
  Builds.listed (.get_bind (.ite (.pure rfl) h.exprList))

theorem forStmt : Builds B s g.forStmt one :=
  .skip (.expectKeyword _) fun _ => .skip (.expect _) fun _ => .bind (h.forPart _) fun _ => .skip (.expect _) fun _ =>
    .bind (h.forPart _) fun _ => .skip (.expect _) fun _ => .bind (h.forPart _) fun _ => .skip (.expect _) fun _ =>
    .bind (h.body _) fun _ => .node rfl rfl trivial

theorem foreachStmt : Builds B s g.foreachStmt one := by
  have afterTargets (subject : Expr) (key : Node (.opt .expr)) (value : Expr) (byRef : Bool) {s : Stream} {lo : ℕ} :
      Forms B s lo 0 ([subject.any] ++ key.optional ++ [value.any]) (do
        let _ ← expect .closeParen
        return .foreach subject key value byRef (.ofList (← g.body "endforeach"))) one :=
    .skip (.expect _) fun _ => .bind (h.body _) fun _ => .node rfl rfl trivial
  refine .skip (.expectKeyword _) fun _ => .skip (.expect _) fun _ => .bind h.anyExpr fun subject =>
    .skip (.expectKeyword _) fun _ => .skip (.tryToken _) fun _ => .bind h.anyExpr fun first =>
    .ite (.skip (.tryToken _) fun _ => .ite (.skip (.tryToken _) fun byRef => ?_) ?_) ?_
  · exact .bind h.anyExpr fun value => .pure_bind (afterTargets subject (.present first) value byRef)
  · exact .pure_bind (afterTargets subject .absent first false)
  · exact .pure_bind (afterTargets subject .absent first true)

theorem caseTest : Builds B s g.caseTest oneIfAny :=
  .skip (.tryKeyword _) fun _ => .ite (.bind h.anyExpr fun _ => .pure rfl) <| .skip (.tryKeyword _) fun _ =>
    .ite (.pure rfl) (.failExpected _)

theorem switchCase : Builds B s g.switchCase one := by
  refine .bind h.caseTest fun _ => .skip (.tryToken _) fun _ => .ite (.skip (.expect _) fun _ => ?_) ?_
  all_goals exact .bind (h.statementsUntil _) fun _ => .node rfl rfl trivial

omit h in
theorem tryEndSwitch (alternative : Bool) : Skips B s (tryEndSwitch alternative) :=
  .ite (.skip (.tryKeyword _) fun _ => .ite (.skip .expectSemicolon fun _ => .pure rfl) (.pure rfl)) (Skips.tryToken _)

theorem switchStmt : Builds B s g.switchStmt one := by
  have round (alternative : Bool) {s : Stream} : Builds B s (do
      skipAll fillers
      if ← Grammar.tryEndSwitch alternative then return ([], false)
      else return ([← g.switchCase], true)) fun r => r.1.flatMap one :=
    .skip (.skipAll _) fun _ => .skip (tryEndSwitch _) fun _ => .ite (.pure rfl) (.bind h.switchCase fun _ => .pure rfl)
  refine .skip (.expectKeyword _) fun _ => .bind h.parenthesized fun subject => .skip (.tryToken _) fun alternative =>
    .ite (.skip (.expect _) fun _ => ?_) ?_
  all_goals exact .bind (Builds.listed (.collect (round alternative))) fun _ => .node rfl rfl trivial

theorem catchClause : Builds B s g.catchClause one := by
  refine .skip (.expect _) fun _ => .skip (.expectIdent _) fun _ => .skip (.behind (.expectIdent _) (.tryToken _)) fun _ =>
    .get_bind <| .ite (.skip .advance fun _ => .pure_bind ?_) (.pure_bind ?_)
  all_goals exact .skip (.expect _) fun _ => .bind h.block fun _ => .node rfl rfl trivial

theorem tryStmt : Builds B s g.tryStmt one :=
  .skip (.expectKeyword _) fun _ => .bind h.block fun _ => .bind (Builds.listed (.behind h.catchClause (.tryKeyword _))) fun _ =>
    .bind (m := listedIfAny) (.afterKeyword h.block rfl (fun _ => rfl) _) fun _ => .ite (.failExpected _) <|
    .node rfl rfl trivial

theorem declareStmt : Builds B s g.declareStmt one := by
  have directive {s : Stream} : Builds B s (do
      let name ← expectIdent "directive name"
      let _ ← expect .assign
      return Node.directive name (← g.anyExpr)) one :=
    .skip (.expectIdent _) fun _ => .skip (.expect _) fun _ => .bind h.anyExpr fun _ => .node rfl rfl trivial
  exact .skip (.expectKeyword _) fun _ => .bind (.enclosedBy (Builds.listed (.commaList directive)) _ _) fun _ => .get_bind <|
    .ite (.bind (h.body _) fun _ => .node rfl rfl trivial) (.skip .expectSemicolon fun _ => .node rfl rfl trivial)

/-! ### Statements -/

omit h in
theorem ended {lo reached : ℕ} {before : List AnyNode} {stmt : Stmt} (parts : stmt.parts = before)
    (no_span : stmt.span? = none) (legal : stmt.HasLegalModifiers) : Forms B s lo reached before (ended stmt) one :=
  .skip .expectSemicolon fun _ => .node parts no_span legal

theorem optionalValue : Builds B s g.optionalValue Node.optional :=
  .get_bind <| .ite (.pure rfl) (.bind h.anyExpr fun _ => .pure rfl)

theorem exprStmt : Builds B s g.exprStmt one := .bind h.anyExpr fun _ => ended rfl rfl trivial

theorem wordStmt (word : String) : Builds B s (g.wordStmt word) one := by
  refine .get_bind ?_
  split
  case h_1 => exact useDecl
  case h_2 => exact .skip .advance fun _ => .bind h.definitions fun _ => ended rfl rfl trivial
  case h_3 => exact h.declareStmt
  case h_4 => exact h.ifStmt
  case h_5 => exact h.whileStmt
  case h_6 => exact h.doWhile
  case h_7 => exact h.forStmt
  case h_8 => exact h.foreachStmt
  case h_9 => exact h.switchStmt
  case h_10 => exact .skip .advance fun _ => .bind h.optionalValue fun _ => ended rfl rfl trivial
  case h_11 => exact .skip .advance fun _ => .bind h.optionalValue fun _ => ended rfl rfl trivial
  case h_12 => exact .skip .advance fun _ => .bind h.optionalValue fun _ => ended rfl rfl trivial
  case h_13 => exact .skip .advance fun _ => .bind (Builds.listed h.exprList) fun _ => ended rfl rfl trivial
  case h_14 => exact .skip .advance fun _ => .bind h.anyExpr fun _ => ended rfl rfl trivial
  case h_15 => exact h.tryStmt
  case h_16 => exact .skip .advance fun _ => .skip (.commaList .expectVariable) fun _ => ended rfl rfl trivial
  case h_17 => exact .failWith _
  refine .ite (.failExpected _) <| .ite ?staticVars <| .ite ?unset <| .ite ?goto h.exprStmt
  case staticVars => exact .skip .advance fun _ => .bind h.varItems fun _ => ended rfl rfl trivial
  case unset =>
    exact .skip .advance fun _ => .bind (.enclosedBy (Builds.listed (.commaListUntil h.anyExpr _)) _ _) fun _ =>
      ended rfl rfl trivial
  case goto => exact .skip .advance fun _ => .skip .advance fun _ => ended rfl rfl trivial

theorem statement : Builds B s g.statement one := by
  refine .get_bind <| .ite h.declaration ?_
  split
  · exact .skip .advance fun _ => .node rfl rfl trivial
  · exact .skip .advance fun _ => .node rfl rfl trivial
  · exact .skip .advance fun _ => .node rfl rfl trivial
  · exact .skip .advance fun _ => .node rfl rfl trivial
  · exact .skip .advance fun _ => .bind (Builds.listed h.exprList) fun _ => ended rfl rfl trivial
  · exact .bind h.block fun _ => .node rfl rfl trivial
  · refine .ite ?_ (h.wordStmt _)
    exact .skip .advance fun _ => .skip .advance fun _ => .node rfl rfl trivial
  · exact h.exprStmt

/-! ### Namespaces and files -/

theorem namespaceBody : Builds B s g.namespaceBody listed :=
  Builds.listed <| .collect <| .skip (.skipAll _) fun _ => .bind leadingComments fun _ => .get_bind <|
    .ite (.pure rfl) (.bind h.stmt fun _ => .pure List.flatMap_append)

theorem namespaceDecl : Builds B s g.namespaceDecl one := by
  have afterName (name : Option Name) {s : Stream} {lo : ℕ} : Forms B s lo (lo + 1) [] (do
      if (← get).at_ .openBrace then
        let stmts ← enclosedBy .openBrace .closeBrace g.namespaceBody
        return .namespaceDecl name (.ofList stmts) true ((← get).spanFrom lo)
      else if name.isNone then failExpected "namespace name or '\x7b'"
      else
        expectSemicolon
        let stmts ← g.namespaceBody
        return .namespaceDecl name (.ofList stmts) false ((← get).spanFrom lo)) one := by
    refine .get_bind <| .ite (.bind (.enclosedBy h.namespaceBody _ _) fun _ => ?_) (.ite (.failExpected _) ?_)
    · exact .get_bind (.spanned rfl rfl trivial)
    · exact .skip .expectSemicolon fun _ => .bind h.namespaceBody fun _ => .get_bind (.spanned rfl rfl trivial)
  exact .get_bind <| .skip_start (.expectKeyword _) (Runs.expectKeyword _) fun _ => .get_bind <|
    .ite (.skip .advance fun _ => .pure_bind (afterName _)) (.pure_bind (afterName none))

theorem fileBody : Builds B s g.fileBody listed := by
  refine Builds.listed <| .collect <| .skip (.skipAll _) fun _ => .bind leadingComments fun _ => .get_bind <|
    .ite (.pure rfl) <| .ite (.bind h.namespaceDecl fun _ => ?_) (.bind h.stmt fun _ => ?_)
  all_goals exact .pure List.flatMap_append

end Grammar.Building

/-- However deep the sources may nest, the parser's readers put trees together. -/
theorem Grammar.building_upTo (n : ℕ) : (Grammar.upTo n).Building B := by
  induction n with
  | zero =>
    exact ⟨fun _ _ => .failWith _, .failWith _, .failWith _, .failWith _, consuming_upTo (Nat.zero_le _)⟩
  | succ n ih =>
    exact ⟨fun least _ => ih.operatorExpr least, ih.operandExpr, ih.primaryExpr, ih.statement, consuming_upTo (Nat.zero_le _)⟩

end Codewright.Php

/-! ## The spans of a source -/

namespace Codewright.Php

open Source Text

theorem Stream.endOf_append {front : List Token} {last : Token} (eof : last.kind = .eof) :
    Stream.endOf (front ++ [last]) = last := by
  simp [Stream.endOf, Token.isEof, eof]

/-- Tokens that tile a source stand one behind the other. -/
theorem Stream.isOrdered_ofTokens {cs : List Char} {tokens : List Token} (tiles : Tiles [] cs tokens) :
    (Stream.ofTokens tokens).IsOrdered (IsBoundary cs) := by
  obtain ⟨front, last, whole, eof, place, all⟩ := tiles.eof_last
  have endOf : Stream.endOf tokens = last := by rw [whole, endOf_append eof]
  have spans : (Stream.ofTokens tokens).spans = tokens.map Token.span ++ [last.span] := by
    rw [← endOf]
    rfl
  have each (t : Token) (member : t ∈ tokens) :
      t.span.start ≤ t.span.stop ∧ IsBoundary cs t.span.start ∧ IsBoundary cs t.span.stop :=
    (tiles.isPlace t member).isBoundary
  have last_mem : last ∈ tokens := by simp [whole]
  have among (a : Span) (member : a ∈ (Stream.ofTokens tokens).spans) : ∃ t ∈ tokens, t.span = a := by
    rw [spans] at member
    rcases List.mem_append.1 member with member | member
    · exact List.mem_map.1 member
    · exact ⟨last, last_mem, (List.mem_singleton.1 member).symm⟩
  refine ⟨?_, fun a member => ?_, fun t member not_eof => ?_, ⟨[], cs, rfl, rfl⟩, kind_endOf tokens⟩
  · rw [spans]
    refine List.pairwise_append.2 ⟨List.pairwise_map.2 tiles.pairwise, List.pairwise_singleton _ _, ?_⟩
    intro a member b at_end
    obtain ⟨t, read, rfl⟩ := List.mem_map.1 member
    rw [List.mem_singleton.1 at_end, place]
    exact (each t read).2.2.le
  · obtain ⟨t, read, rfl⟩ := among a member
    exact ⟨Nat.zero_le _, each t read⟩
  · have member : t ∈ tokens := member
    rw [whole] at member
    rcases List.mem_append.1 member with member | member
    · exact (all t member).2
    · rw [List.mem_singleton.1 member, Token.isEof, eof] at not_eof
      cases not_eof

/-- What the parser put together from a source stands between its first byte and its last one. -/
theorem formed_of_parse {source : String} {f : File} (h : parse source = .ok f) :
    Formed (IsBoundary source.toList) 0 (byteLength source.toList) [f.stmts.any] := by
  have lexes := Lexer.lexes_tokenize source
  unfold parse at h
  cases read : tokenize source with
  | error _ =>
    rw [read] at h
    cases h
  | ok tokens =>
    rw [read] at h lexes
    obtain ⟨⟨f, s'⟩, made, rfl⟩ := exists_of_map_eq_ok h
    have ordered := Stream.isOrdered_ofTokens (show Tiles [] source.toList tokens from lexes)
    have statements := (Grammar.building_upTo (nestingBound tokens.length)).fileBody ordered.stands .nil
    have file : Yields (Stream.ofTokens tokens) (Parse.file (Grammar.upTo (nestingBound tokens.length))) fun f _ =>
        Formed (IsBoundary source.toList) 0 (byteLength source.toList) [f.stmts.any] :=
      .get_bind <| .bind <| statements.mono fun _ _ ⟨last, _, formed⟩ =>
        .get_bind <| .pure <| formed.widen (Nat.zero_le _) last.last.le
    exact file f s' made

/-- The first token of a source begins at its first byte. -/
theorem start_of_tokenize {source : String} {tokens : List Token} (h : tokenize source = .ok tokens) :
    ∃ t ts, tokens = t :: ts ∧ t.span.start = 0 := by
  have text {cs : List Char} {html : List Token} {read : ℕ} (h : Lexer.readText .origin cs = .code html read) :
      ∃ t ts, html = t :: ts ∧ t.span.start = 0 := by
    unfold Lexer.readText at h
    split at h
    · cases h
    · next n kind _ =>
      cases h
      unfold Lexer.textToken
      split
      · next nothing => exact ⟨_, [], rfl, by rw [List.isEmpty_iff.1 nothing]; rfl⟩
      · exact ⟨_, _, rfl, rfl⟩
  unfold tokenize at h
  split at h
  · cases h
  · next html read begins =>
    obtain ⟨code, -, rfl⟩ := exists_of_map_eq_ok h
    obtain ⟨t, ts, rfl, start⟩ := text begins
    exact ⟨t, ts ++ code, rfl, start⟩

/-- Where nothing is left to read of a source, its last byte has been read. -/
theorem Stream.span_of_atEnd {cs : List Char} {tokens : List Token} (tiles : Tiles [] cs tokens) {s : Stream}
    (eof : s.eof = Stream.endOf tokens) (back : s.bares <:+ tokens.map Token.bare) (done : s.atEnd = true) :
    s.peek.span = ⟨byteLength cs, byteLength cs⟩ := by
  obtain ⟨front, last, rfl, mark, place, all⟩ := tiles.eof_last
  rw [endOf_append mark] at eof
  obtain ⟨left, eof', _, _, _, _⟩ := s
  cases left with
  | nil =>
    have here : eof' = last := eof
    show eof'.span = _
    rw [here, place]
    rfl
  | cons t ts =>
    have kind : t.kind = .eof := by simpa [atEnd, at_, Stream.kind, peek, peekAt] using done
    have member : t.bare ∈ (front ++ [last]).map Token.bare := back.subset List.mem_cons_self
    obtain ⟨u, member, same⟩ := List.mem_map.1 member
    have kinds : u.kind = t.kind := show u.bare.kind = t.bare.kind by rw [same]
    have spans : u.span = t.span := show u.bare.span = t.bare.span by rw [same]
    rcases List.mem_append.1 member with inside | at_end
    · exact absurd (kinds.trans kind) (all u inside).1
    · rw [List.mem_singleton.1 at_end, place] at spans
      exact spans.symm

/-- A file covers its source. -/
theorem span_of_parse {source : String} {f : File} (h : parse source = .ok f) : f.span = ⟨0, byteLength source.toList⟩ := by
  have lexes := Lexer.lexes_tokenize source
  unfold parse at h
  cases read : tokenize source with
  | error _ =>
    rw [read] at h
    cases h
  | ok tokens =>
    rw [read] at h lexes
    obtain ⟨⟨f, s'⟩, made, rfl⟩ := exists_of_map_eq_ok h
    have consuming : (Grammar.upTo (nestingBound tokens.length)).Consuming 0 := Grammar.consuming_upTo (Nat.zero_le _)
    have run := consuming.file (Stream.ofTokens tokens) (Stream.kind_endOf tokens)
    rw [show Parse.file _ _ = _ from made] at run
    obtain ⟨eof, back, -⟩ := run
    have stop := Stream.span_of_atEnd (show Tiles [] source.toList tokens from lexes) eof back
      (Parse.file_yields_atEnd _ _ f s' made)
    obtain ⟨t, ts, rfl, start⟩ := start_of_tokenize read
    have file : Yields (Stream.ofTokens (t :: ts)) (Parse.file (Grammar.upTo (nestingBound (t :: ts).length))) fun f s' =>
        f.span = ⟨t.span.start, s'.peek.span.stop⟩ :=
      .get_bind <| .bind_any fun _ _ => .get_bind <| .pure rfl
    rw [file f s' made, start, stop]

/-! ## Nesting -/

/-- **Spans nest.** The span of a file covers its source. Each namespace, class-like declaration, function, method, property
and anonymous class, at any depth, covers a piece of the text that begins and ends between characters and is not empty, and
slicing gives this piece; whatever stands in it has its span inside. The parts of a tree, and so the entries of a list, stand
one behind the other: what is in one of them ends before anything in a later one begins. -/
theorem spans_nest {source : String} {f : File} (h : parse source = .ok f) :
    f.span = ⟨0, byteLength source.toList⟩ ∧
    (∀ (n : AnyNode) (span : Span), n.StandsIn f.stmts.any → n.span? = some span →
      span.start < span.stop ∧
      (∃ before text behind, source.toList = before ++ text ++ behind ∧
        span = ⟨byteLength before, byteLength (before ++ text)⟩ ∧ span.slice source = some (String.ofList text)) ∧
      (f.span.start ≤ span.start ∧ span.stop ≤ f.span.stop) ∧
      ∀ (k : AnyNode) (below : Span), k.StandsIn n → k.span? = some below →
        span.start ≤ below.start ∧ below.stop ≤ span.stop) ∧
    (∀ n : AnyNode, n.StandsIn f.stmts.any → n.parts.Pairwise AnyNode.Before) ∧
    ∀ {c : Category} (xs : Node (.list c)), xs.any.StandsIn f.stmts.any →
      xs.toList.Pairwise fun x y => ∀ a b, x.any.HasSpan a → y.any.HasSpan b → a.stop ≤ b.start := by
  have formed := formed_of_parse h
  have nested := formed.nested _ (List.mem_singleton_self _)
  have whole := span_of_parse h
  refine ⟨whole, fun n span stands found => ?_, fun n stands => (nested n stands).ordered, fun xs stands => ?_⟩
  · obtain ⟨lt, start, stop⟩ := (nested n stands).ends span found
    refine ⟨lt, Span.exists_of_isBoundary lt.le start stop, ?_, fun k below inside found' => ?_⟩
    · rw [whole]
      exact ⟨Nat.zero_le _, stop.le⟩
    · rcases AnyNode.standsIn_iff.1 inside with rfl | ⟨part, member, inside⟩
      · have same : span = below := Option.some.inj (found.symm.trans found')
        rw [same]
        exact ⟨le_refl _, le_refl _⟩
      · exact (nested n stands).around span found part member below ⟨k, inside, found'⟩
  · have ordered : xs.parts.Pairwise AnyNode.Before := (nested xs.any stands).ordered
    rw [Node.parts_list, List.pairwise_map] at ordered
    exact ordered

/-- A class in a namespace with a name of two-byte letters; a method returns an anonymous class with a property. -/
theorem spans_nest_anonymous :
    ∃ f, parse "<?php namespace é; class A { function f() { return new class { public $x; }; } function g() {} }" = .ok f ∧
      f.span = ⟨0, 97⟩ ∧ f.stmts.toList.filterMap Node.span? = [⟨6, 97⟩] ∧
      ∀ n : AnyNode, n.StandsIn f.stmts.any → n.parts.Pairwise AnyNode.Before := by
  have accepted : ((parse
      "<?php namespace é; class A { function f() { return new class { public $x; }; } function g() {} }").toOption.map
        fun f => f.stmts.toList.filterMap Node.span?) = some [⟨6, 97⟩] := by
    decide +kernel
  cases read : parse
      "<?php namespace é; class A { function f() { return new class { public $x; }; } function g() {} }" with
  | error _ =>
    rw [read] at accepted
    cases accepted
  | ok f =>
    rw [read] at accepted
    obtain ⟨whole, -, ordered, -⟩ := spans_nest read
    exact ⟨f, rfl, whole, Option.some.inj accepted, ordered⟩

end Codewright.Php
