import Codewright.Proofs.Php.Fork
import Codewright.Proofs.Php.Locality
import Codewright.Proofs.Php.ProgressStatements

/-!
# The last tokens of statements

No statement ends with a token behind which readers look ahead: it ends with a semicolon, a brace, a tag or the like, or in front
of a closing tag.

* `Stream.Lands`, `Stream.Rests` – tokens have been read up to such a token; or none has been read;
* `Lands`, `Idles` – readers that do so;
* `Grammar.Ending.statement`, … – one lemma for each production of statements; `Grammar.ending_upTo`.
-/

namespace Codewright.Php

variable {α β : Type}

/-- Tokens have been read, and behind the last of them readers do not look ahead; or a closing tag comes next. -/
structure Stream.Lands (s t : Stream) : Prop where
  eof : t.eof = s.eof
  back : t.bares <:+ s.bares
  last : t.kind = .closeTag ∨ ∃ front last, s.bares = front ++ last :: t.bares ∧ last.kind.looksAhead = false

/-- No token has been read, or those read are as said. -/
def Stream.Rests (s t : Stream) : Prop := (t.eof = s.eof ∧ t.bares = s.bares) ∨ s.Lands t

namespace Stream

variable {s s₁ t : Stream}

theorem kind_of_bares (eof : t.eof = s.eof) (bares : t.bares = s.bares) : t.kind = s.kind := by
  unfold Stream.bares at bares
  unfold Stream.kind Stream.peek Stream.peekAt
  cases tokens : s.tokens with
  | nil =>
    rw [tokens, List.map_nil, List.map_eq_nil_iff] at bares
    simp [bares, eof]
  | cons u rest =>
    rw [tokens, List.map_cons] at bares
    obtain ⟨v, rest', tokens', same, -⟩ := List.map_eq_cons_iff.1 bares
    have same : v.kind = u.kind := congrArg (fun t => t.kind) same
    simp [tokens', same]

theorem Lands.behind (eof : s₁.eof = s.eof) (back : s₁.bares <:+ s.bares) (h : s₁.Lands t) : s.Lands t := by
  refine ⟨h.eof.trans eof, h.back.trans back, h.last.imp_right ?_⟩
  rintro ⟨front, last, read, plain⟩
  obtain ⟨first, whole⟩ := back
  exact ⟨first ++ front, last, by rw [← whole, read, List.append_assoc], plain⟩

theorem Lands.rest (h : s.Lands s₁) (r : s₁.Rests t) : s.Lands t := by
  rcases r with ⟨eof, bares⟩ | r
  · refine ⟨eof.trans h.eof, bares ▸ h.back, ?_⟩
    rw [kind_of_bares eof bares, bares]
    exact h.last
  · exact r.behind h.eof h.back

theorem Rests.trans (h : s.Rests s₁) (r : s₁.Rests t) : s.Rests t := by
  rcases h with ⟨eof, bares⟩ | h
  · rcases r with ⟨eof', bares'⟩ | r
    · exact .inl ⟨eof'.trans eof, bares'.trans bares⟩
    · exact .inr (r.behind eof (bares ▸ List.suffix_refl _))
  · exact .inr (h.rest r)

end Stream

/-- Behind a token comes the one that was seen behind it. -/
theorem Parse.peek_of_advance {s s₁ : Stream} {t : Token} (more : s.kind ≠ .eof) (read : Parse.advance s = .ok (t, s₁)) :
    s₁.peek = s.peekAt 1 := by
  obtain ⟨tokens, eof, lastEnd, pending, unread, unread_eq⟩ := s
  cases tokens with
  | nil =>
    cases read
    rfl
  | cons u rest =>
    have other : u.isEof = false := by rw [Token.isEof, beq_eq_false_iff_ne]; exact more
    simp only [Parse.advance, other] at read
    cases read
    rfl

/-- From the stream `s`, the reader comes to such a token if it gives what `c` says. -/
def LandsFrom (s : Stream) (c : α → Prop) (p : Parse α) : Prop := s.eof.kind = .eof → Yields s p fun x t => c x → s.Lands t

/-- From every stream. -/
def LandsIf (c : α → Prop) (p : Parse α) : Prop := ∀ s, LandsFrom s c p

/-- Whatever it gives. -/
abbrev Lands (p : Parse α) : Prop := LandsIf (fun _ => True) p

/-- The reader reads nothing, or comes to such a token. -/
def Idles (p : Parse α) : Prop := ∀ s, s.eof.kind = .eof → Yields s p fun _ t => s.Rests t

namespace LandsFrom

variable {s : Stream} {c : α → Prop} {c' : β → Prop} {p : Parse α} {f : α → Parse β} {d : Nat} {least : α → Nat}

theorem next (hp : RunsFrom s d p least) (hf : ∀ x s₁, p s = .ok (x, s₁) → LandsFrom s₁ c' (f x)) :
    LandsFrom s c' (p >>= f) := by
  intro closed
  refine .bind fun x s₁ read => ?_
  have run := hp closed
  rw [read] at run
  obtain ⟨eof, back, -⟩ := run
  exact (hf x s₁ read (eof ▸ closed)).mono fun y t lands holds => (lands holds).behind eof back

theorem rest (hp : LandsFrom s (fun _ => True) p) (hf : ∀ x, Idles (f x)) : LandsFrom s c' (p >>= f) := by
  intro closed
  refine .bind fun x s₁ read => ?_
  have lands := hp closed x s₁ read trivial
  exact (hf x s₁ (lands.eof ▸ closed)).mono fun y t rests _ => lands.rest rests

theorem ite {b : Prop} [Decidable b] {q : Parse α} (h : b → LandsFrom s c p) (h' : ¬b → LandsFrom s c q) :
    LandsFrom s c (if b then p else q) :=
  fun closed => .ite (fun holds => h holds closed) fun fails => h' fails closed

theorem get_bind {f : Stream → Parse β} (h : LandsFrom s c' (f s)) : LandsFrom s c' (get >>= f) := h

theorem advance {c : Token → Prop} (more : s.kind ≠ .eof) (plain : s.kind.looksAhead = false) :
    LandsFrom s c Parse.advance := by
  intro closed x t read _
  obtain ⟨u, tokens, kind, eof⟩ := Parse.first_of_advance closed more read
  have bares : s.bares = u.bare :: t.bares := by rw [Stream.bares, tokens]; rfl
  exact ⟨eof, bares ▸ List.suffix_cons _ _, .inr ⟨[], u.bare, bares, kind ▸ plain⟩⟩

end LandsFrom

namespace LandsIf

variable {c : α → Prop} {c' : β → Prop} {p : Parse α} {f : α → Parse β} {d : Nat} {least : α → Nat}

theorem pure {x : α} (fails : ¬c x) : LandsIf c (pure x) := fun _ _ => .pure fun holds => absurd holds fails

theorem failExpected {expected : String} : LandsIf c (Parse.failExpected expected) := fun _ _ => .failExpected _

theorem failWith {cause : SyntaxError.Cause} : LandsIf c (Parse.failWith cause) := fun _ _ => .failWith _

theorem next (hp : Runs d p least) (hf : ∀ x, LandsIf c' (f x)) : LandsIf c' (p >>= f) :=
  fun s => .next (hp s) fun x s₁ _ => hf x s₁

theorem rest (hp : Lands p) (hf : ∀ x, Idles (f x)) : LandsIf c' (p >>= f) := fun s => .rest (hp s) hf

/-- The second reader reads nothing behind a token that the first one has come to. -/
theorem bind (runs : Runs d p least) (hp : LandsIf c p) (hf : ∀ x, c x ∧ Idles (f x) ∨ LandsIf c' (f x)) :
    LandsIf c' (p >>= f) := by
  intro s closed
  refine .bind fun x s₁ read => ?_
  have run := runs s closed
  rw [read] at run
  obtain ⟨eof, back, -⟩ := run
  rcases hf x with ⟨holds, idles⟩ | lands
  · have first := hp s closed x s₁ read holds
    exact (idles s₁ (eof ▸ closed)).mono fun y t rests _ => first.rest rests
  · exact (lands s₁ (eof ▸ closed)).mono fun y t lands holds => (lands holds).behind eof back

theorem ite {b : Prop} [Decidable b] {q : Parse α} (h : LandsIf c p) (h' : LandsIf c q) : LandsIf c (if b then p else q) :=
  fun s => .ite (fun _ => h s) fun _ => h' s

theorem pure_bind {x : α} (h : LandsIf c' (f x)) : LandsIf c' (Pure.pure x >>= f) := h

theorem look {f : Stream → Parse β} (h : ∀ s, LandsIf c' (f s)) : LandsIf c' (get >>= f) := fun s => .get_bind (h s s)

theorem expect {c : Token → Prop} {k : TokenKind} (ne : k ≠ .eof) (plain : k.looksAhead = false) : LandsIf c (Parse.expect k) :=
  fun s => .get_bind <| .ite (fun here => .advance (Stream.kind_of_at here ▸ ne) (Stream.kind_of_at here ▸ plain)) fun _ =>
    failExpected s

theorem tryToken {k : TokenKind} (ne : k ≠ .eof) (plain : k.looksAhead = false) : LandsIf (· = true) (Parse.tryToken k) := by
  refine fun s => .get_bind <| .ite (fun here => ?_) fun _ => pure (by decide) s
  exact .rest (.advance (Stream.kind_of_at here ▸ ne) (Stream.kind_of_at here ▸ plain)) fun _ _ _ => .pure (.inl ⟨rfl, rfl⟩)

theorem expectSemicolon : Lands Parse.expectSemicolon := by
  refine bind (d := 0) (Runs.tryToken .semicolon nofun) (tryToken nofun rfl) fun found => ?_
  cases found with
  | true => exact .inl ⟨rfl, fun _ _ => .pure (.inl ⟨rfl, rfl⟩)⟩
  | false =>
    refine .inr fun s => .get_bind <| .ite (fun here _ => ?_) fun _ => failExpected s
    exact .pure fun _ => ⟨rfl, List.suffix_refl _, .inl (Stream.kind_of_at here)⟩

theorem enclosedBy {opening closing : TokenKind} (hp : Runs d p least) (ne : opening ≠ .eof) (ne' : closing ≠ .eof)
    (plain : closing.looksAhead = false) : LandsIf c (Parse.enclosedBy opening closing p) :=
  next (Runs.expect (d := 0) opening ne) fun _ => next hp fun _ => rest (expect ne' plain) fun _ _ _ => .pure (.inl ⟨rfl, rfl⟩)

end LandsIf

namespace Idles

variable {p q : Parse α} {f : α → Parse β}

theorem pure {x : α} : Idles (pure x) := fun _ _ => .pure (.inl ⟨rfl, rfl⟩)

theorem failExpected {expected : String} : Idles (Parse.failExpected (α := α) expected) := fun _ _ => .failExpected _

theorem of_lands (h : Lands p) : Idles p := fun s closed => (h s closed).mono fun _ _ lands => .inr (lands trivial)

theorem bind (hp : Idles p) (hf : ∀ x, Idles (f x)) : Idles (p >>= f) := by
  intro s closed
  refine .bind fun x s₁ read => ?_
  have first := hp s closed x s₁ read
  have eof : s₁.eof = s.eof := by
    rcases first with ⟨eof, -⟩ | lands
    · exact eof
    · exact lands.eof
  exact (hf x s₁ (eof ▸ closed)).mono fun y t rests => first.trans rests

theorem ite {b : Prop} [Decidable b] (h : Idles p) (h' : Idles q) : Idles (if b then p else q) := by
  intro s closed
  exact .ite (fun _ => h s closed) fun _ => h' s closed

theorem look {f : Stream → Parse β} (h : ∀ s, Idles (f s)) : Idles (get >>= f) := fun s closed => .get_bind (h s s closed)

theorem takeDoc : Idles Parse.takeDoc := by
  rintro ⟨tokens, eof, lastEnd, pending, unread, unread_eq⟩ closed x t read
  cases tokens <;> cases read <;> exact .inl ⟨rfl, rfl⟩

theorem takeComments : Idles Parse.takeComments := by
  rintro ⟨tokens, eof, lastEnd, pending, unread, unread_eq⟩ closed x t read
  cases tokens <;> cases read <;> exact .inl ⟨rfl, rfl⟩

/-- What is read behind a keyword counts. -/
theorem choice {word : String} (hp : Lands p) (hq : Idles q) : Idles (do if ← Parse.tryKeyword word then p else q) := by
  change Idles (get >>= fun s : Stream => (if s.atKeyword word then (do
    let _ ← Parse.advance
    Pure.pure true) else Pure.pure false) >>= fun found => if found then p else q)
  refine look fun s => ?_
  by_cases here : s.atKeyword word = true
  · rw [if_pos here]
    rw [bind_assoc]
    exact of_lands (.next (d := 0) Runs.advance fun _ => .pure_bind hp)
  · rw [if_neg here]
    exact hq

theorem collect {step : Parse (List α × Bool)} (h : Idles step) : Idles (Parse.collect step) := by
  have rounds (n : Nat) : Idles (Parse.collectUpTo step n) := by
    induction n with
    | zero => exact fun _ _ => .failWith _
    | succ n ih => exact h.bind fun (xs, more) => .ite (ih.bind fun _ => .pure) .pure
  exact look fun s => rounds (s.unread + 1)

theorem behind {word : String} (hp : Lands p) : Idles (Parse.behind (Parse.tryKeyword word) p) :=
  collect (choice (.rest hp fun _ => .pure) .pure)

theorem afterKeyword {word : String} (hp : Lands p) : Idles (Parse.afterKeyword word p) := choice (.rest hp fun _ => .pure) .pure

theorem skipFillers : Idles (Parse.skipAll Parse.fillers) := by
  have filler {s : Stream} (here : Parse.fillers.contains s.kind = true) : LandsFrom s (fun _ => True) (do
      let _ ← Parse.advance
      return (([] : List Unit), true)) := by
    refine .rest ?_ fun _ => .pure
    have kind : s.kind = .openTag ∨ s.kind = .closeTag ∨ s.kind = .semicolon := by simpa [Parse.fillers] using here
    rcases kind with kind | kind | kind <;> exact .advance (by rw [kind]; decide) (by rw [kind]; rfl)
  refine .bind (collect fun s closed => .get_bind <| .ite (fun here => ?_) fun _ => .pure (.inl ⟨rfl, rfl⟩)) fun _ => .pure
  exact (filler here closed).mono fun _ _ lands => .inr (lands trivial)

theorem leadingComments : Idles Parse.leadingComments :=
  takeComments.bind fun _ => look fun _ => .ite .pure (takeDoc.bind fun _ => .pure)

end Idles

/-! ## Productions -/

/-- The reader of statements comes to such a token. -/
structure Grammar.Ending (g : Grammar) (d : Nat) : Prop where
  runs : g.Consuming d
  stmt : Lands g.stmt

namespace LandsIf

theorem useDecl : Lands Parse.useDecl :=
  .next (d := 0) (.expectKeyword _) fun _ => .next (d := 0) .importKind fun _ => .next (d := 1) Runs.importItems.commaList fun _ =>
    .rest .expectSemicolon fun _ => .pure

theorem ended {stmt : Stmt} : Lands (Grammar.ended stmt) := .rest .expectSemicolon fun _ => .pure

theorem tryEndSwitch (alternative : Bool) : LandsIf (· = true) (Grammar.tryEndSwitch alternative) := by
  refine .ite (.next (d := 0) (.tryKeyword _) fun _ => .ite ?_ (.pure (by decide))) (.tryToken nofun rfl)
  exact .rest .expectSemicolon fun _ => .pure

/-- The last round of a loop. -/
theorem collect {α : Type} {step : Parse (List α × Bool)} {d : Nat} (runs : Runs d step fun r => r.2.toNat)
    (h : LandsIf (fun r => r.2 = false) step) : Lands (Parse.collect step) := by
  have rounds (n : Nat) : Lands (Parse.collectUpTo step n) := by
    induction n with
    | zero => exact .failWith
    | succ n ih =>
      refine .bind runs h fun (xs, more) => ?_
      cases more with
      | true => exact .inr (ih.rest fun _ => .pure)
      | false => exact .inl ⟨rfl, .pure⟩
  exact .look fun s => rounds (s.unread + 1)

end LandsIf

namespace Grammar.Ending

open Parse

variable {g : Grammar} {d : Nat} (h : g.Ending d)

include h

theorem statementsUntil (stops : List String) : Idles (g.statementsUntil stops) := by
  refine .collect (Idles.skipFillers.bind fun _ => Idles.leadingComments.bind fun _ => .look fun _ =>
    .ite .pure (.ite .failExpected ?_))
  exact (Idles.of_lands h.stmt).bind fun _ => .pure

theorem block : Lands g.block := .enclosedBy (h.runs.statementsUntil _) nofun nofun rfl

theorem members : Lands g.members := .enclosedBy h.runs.memberEntries nofun nofun rfl

/-! ### Declarations -/

theorem classLike (doc : Option String) (attributes : List String) {head : Parse (String × ClassKind)} (hh : Consumes (d + 1) head) :
    Lands (g.classLike doc attributes head) :=
  .look fun _ => .next hh fun (_, _) => .rest h.members fun _ => .look fun _ => .pure

theorem function (doc : Option String) (attributes : List String) : Lands (g.function doc attributes) :=
  .look fun _ => .next (d := d) (.expectKeyword _) fun _ => .next (d := d) (.tryToken .amp nofun) fun _ =>
    .next (d := d) (.expectIdent _) fun _ => .next h.runs.params fun _ => .next (d := d) .returnType fun _ =>
    .rest h.block fun _ => .look fun _ => .pure

theorem declarationOf (doc : Option String) (attributes : List String) : Lands (g.declarationOf doc attributes) :=
  .look fun _ => .ite (h.classLike _ _ .classHead) <| .ite (h.classLike _ _ .interfaceHead) <|
    .ite (h.classLike _ _ .traitHead) <| .ite (h.classLike _ _ .enumHead) <| .ite (h.function _ _) .failWith

theorem declaration : Lands g.declaration := by
  refine .next (d := d) .takeDoc fun before => .next (d := d) .attributes fun attributes => ?_
  cases before with
  | some doc => exact h.declarationOf _ _
  | none => exact .next (d := d) .takeDoc fun _ => h.declarationOf _ _

/-! ### Control structures -/

theorem body (endWord : String) : Lands (g.body endWord) := by
  refine .look fun _ => .ite h.block <| .next (d := d) (.tryToken .colon nofun) fun _ => .ite ?alternative ?single
  case alternative =>
    exact .next (h.runs.statementsUntil _) fun _ => .next (d := d) (.expectKeyword _) fun _ => .rest .expectSemicolon fun _ => .pure
  case single => exact .next (d := d) .leadingComments fun _ => .rest h.stmt fun _ => .pure

theorem alternativeIf (cond : Expr) : Lands (g.alternativeIf cond) := by
  refine .next (h.runs.statementsUntil _) fun _ => .next (d := d) (.behind (show Safe d _ from ?elseIf) (.tryKeyword _)) fun _ =>
    .next (d := d) (.afterKeyword (show Safe d _ from ?last) _) fun _ => .next (d := d) (.expectKeyword _) fun _ =>
    .rest .expectSemicolon fun _ => .pure
  case elseIf =>
    exact .next h.runs.parenthesized.later fun _ => .next (.expect .colon nofun) fun _ => .next (h.runs.statementsUntil _) fun _ =>
      .pure rfl
  case last => exact .next (.expect .colon nofun) fun _ => h.runs.statementsUntil _

theorem ifStmt : Lands g.ifStmt := by
  refine .next (d := d) (.expectKeyword _) fun _ => .next h.runs.parenthesized fun cond =>
    .next (d := d) (.tryToken .colon nofun) fun _ => .ite (h.alternativeIf cond) <| .rest (h.body _) fun _ => ?_
  refine (Idles.behind ?elseIf).bind fun _ => (Idles.afterKeyword (h.body _)).bind fun _ => .pure
  exact .next h.runs.parenthesized fun _ => .rest (h.body _) fun _ => .pure

theorem whileStmt : Lands g.whileStmt :=
  .next (d := d) (.expectKeyword _) fun _ => .next h.runs.parenthesized fun _ => .rest (h.body _) fun _ => .pure

theorem doWhile : Lands g.doWhile :=
  .next (d := d) (.expectKeyword _) fun _ => .look fun _ => .ite .failExpected <| .next (h.runs.body _) fun _ =>
    .next (d := d) (.expectKeyword _) fun _ => .next h.runs.parenthesized fun _ => .rest .expectSemicolon fun _ => .pure

theorem forStmt : Lands g.forStmt :=
  .next (d := d) (.expectKeyword _) fun _ => .next (d := d) (.expect .openParen nofun) fun _ => .next (h.runs.forPart _) fun _ =>
    .next (d := d) (.expect .semicolon nofun) fun _ => .next (h.runs.forPart _) fun _ =>
    .next (d := d) (.expect .semicolon nofun) fun _ => .next (h.runs.forPart _) fun _ =>
    .next (d := d) (.expect .closeParen nofun) fun _ => .rest (h.body _) fun _ => .pure

theorem foreachStmt : Lands g.foreachStmt := by
  refine .next (d := d) (.expectKeyword _) fun _ => .next (d := d) (.expect .openParen nofun) fun _ =>
    .next h.runs.anyExpr fun _ => .next (d := d) (.expectKeyword _) fun _ => .next (d := d) (.tryToken .amp nofun) fun _ =>
    .next h.runs.anyExpr fun _ => .ite (.next (d := d) (.tryToken .fatArrow nofun) fun _ => .ite ?_ (.pure_bind ?_)) (.pure_bind ?_)
  · exact .next (d := d) (.tryToken .amp nofun) fun _ => .next h.runs.anyExpr fun _ => .pure_bind <|
      .next (d := d) (.expect .closeParen nofun) fun _ => .rest (h.body _) fun _ => .pure
  all_goals exact .next (d := d) (.expect .closeParen nofun) fun _ => .rest (h.body _) fun _ => .pure

theorem switchStmt : Lands g.switchStmt := by
  refine .next (d := d) (.expectKeyword _) fun _ => .next h.runs.parenthesized fun _ =>
    .next (d := d) (.tryToken .colon nofun) fun alternative => .ite (.next (d := d) (.expect .openBrace nofun) fun _ => ?_) ?_
  all_goals
    refine .rest (.collect (d := d) ?runs ?last) fun _ => .pure
    case runs =>
      refine .next (.skipAll rfl) fun _ => .next (Grammar.Consuming.tryEndSwitch alternative) fun _ => .ite (.pure rfl) ?_
      exact .bind (h.runs.switchCase.shallower (Nat.le_succ d)) fun _ => .pure rfl
    case last =>
      refine .next (d := d) (.skipAll rfl) fun _ => .bind (d := d) (Grammar.Consuming.tryEndSwitch alternative)
        (.tryEndSwitch alternative) fun ended => ?_
      cases ended with
      | true => exact .inl ⟨rfl, .pure⟩
      | false => exact .inr (.next h.runs.switchCase fun _ => .pure (by simp))

theorem catchClause : Lands g.catchClause := by
  refine .next (d := d) (.expect .openParen nofun) fun _ => .next (d := d) (.expectIdent _) fun _ =>
    .next (d := d) (.behind (.expectIdent _) (.tryToken .pipe nofun)) fun _ => .look fun _ =>
    .ite (.next (d := d) .advance fun _ => .pure_bind ?_) (.pure_bind ?_)
  all_goals exact .next (d := d) (.expect .closeParen nofun) fun _ => .rest h.block fun _ => .pure

theorem tryStmt : Lands g.tryStmt :=
  .next (d := d) (.expectKeyword _) fun _ => .rest h.block fun _ => (Idles.behind h.catchClause).bind fun _ =>
    (Idles.afterKeyword h.block).bind fun _ => .ite .failExpected .pure

theorem declareStmt : Lands g.declareStmt := by
  refine .next (d := d) (.expectKeyword _) fun _ =>
    .next (.enclosedBy (show Safe d _ from ?directives) .openParen .closeParen nofun nofun) fun _ => .look fun _ =>
    .ite (.rest (h.body _) fun _ => .pure) (.rest .expectSemicolon fun _ => .pure)
  refine Runs.later (.commaList (.start (.expectIdent _) fun _ => ?_))
  exact .next (.expect .assign nofun) fun _ => .next h.runs.anyExpr fun _ => .pure rfl

/-! ### Statements -/

theorem exprStmt : Lands g.exprStmt := .next h.runs.anyExpr fun _ => .ended

theorem wordStmt (word : String) : Lands (g.wordStmt word) := by
  have behindWord {α : Type} {make : α → Stmt} {p : Parse α} (hp : Safe d p) :
      Lands (do let _ ← advance; Grammar.ended (make (← p))) :=
    .next (d := d) .advance fun _ => .next hp fun _ => .ended
  refine .look fun s => ?_
  split
  case h_1 => exact .useDecl
  case h_2 => exact behindWord h.runs.definitions.later
  case h_3 => exact h.declareStmt
  case h_4 => exact h.ifStmt
  case h_5 => exact h.whileStmt
  case h_6 => exact h.doWhile
  case h_7 => exact h.forStmt
  case h_8 => exact h.foreachStmt
  case h_9 => exact h.switchStmt
  case h_10 => exact behindWord h.runs.optionalValue
  case h_11 => exact behindWord h.runs.optionalValue
  case h_12 => exact behindWord h.runs.optionalValue
  case h_13 => exact behindWord h.runs.exprList.safe
  case h_14 => exact behindWord h.runs.anyExpr.safe
  case h_15 => exact h.tryStmt
  case h_16 => exact behindWord Runs.expectVariable.commaList.safe
  case h_17 => exact .failWith
  refine .ite .failExpected <| .ite (behindWord h.runs.varItems.later) <| .ite ?unset <| .ite ?goto h.exprStmt
  case unset => exact behindWord (Runs.enclosedBy (h.runs.anyExpr.commaListUntil _) .openParen .closeParen nofun nofun).later
  case goto => exact .next (d := d) .advance fun _ => .next (d := d) .advance fun _ => .ended

theorem statement : Lands g.statement := by
  refine fun s => .get_bind <| .ite (fun _ => h.declaration s) fun _ => ?_
  have single (make : Token → Stmt) (more : s.kind ≠ .eof) (plain : s.kind.looksAhead = false) :
      LandsFrom s (fun _ => True) (do return make (← advance)) :=
    .rest (.advance more plain) fun _ => .pure
  split
  · next kind => exact single (fun t => .inlineHtml t.text) (by rw [kind]; decide) (by rw [kind]; rfl)
  · next kind => exact single (fun _ => .nop) (by rw [kind]; decide) (by rw [kind]; rfl)
  · next kind => exact single (fun _ => .nop) (by rw [kind]; decide) (by rw [kind]; rfl)
  · next kind => exact single (fun _ => .nop) (by rw [kind]; decide) (by rw [kind]; rfl)
  · exact .next (Runs.advance (d := d) s) fun _ s₁ _ => .next (h.runs.exprList s₁) fun _ s₂ _ => LandsIf.ended s₂
  · exact .rest (h.block s) fun _ => .pure
  · next kind =>
    refine .ite (fun label => ?_) fun _ => h.wordStmt _ s
    have colon : (s.peekAt 1).kind = .colon := by
      simp only [atLabel, Bool.and_eq_true, Stream.hasAt, beq_iff_eq] at label
      exact label.1.2
    refine .next (Runs.advance (d := d) s) fun name s₁ read => ?_
    have next : s₁.kind = .colon := (congrArg Token.kind (peek_of_advance (by rw [kind]; decide) read)).trans colon
    exact .rest (.advance (by rw [next]; decide) (by rw [next]; rfl)) fun _ => .pure
  · exact h.exprStmt s

end Grammar.Ending

/-- The statements of the parser end so, however deep its readers are unrolled. -/
theorem Grammar.ending_upTo (n : Nat) : (Grammar.upTo n).Ending 0 := by
  refine ⟨Grammar.consuming_upTo (Nat.zero_le n), ?_⟩
  induction n with
  | zero => exact .failWith
  | succ n ih => exact Ending.statement (d := 0) ⟨Grammar.consuming_upTo (Nat.zero_le n), ih⟩

end Codewright.Php
