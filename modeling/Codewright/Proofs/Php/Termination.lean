import Codewright.Proofs.Php.CommentCount
import Codewright.Proofs.Php.ProgressStatements

/-!
# The parser comes to an end

Reading never goes back, a statement, an expression, a type and a member each take a token, and the depth to which the
grammar is unrolled for so many tokens is never used up.

* `Stream.StandsAt s tokens i` – the stream stands in front of the token with the index `i`;
* `MovesOn tokens least p` – the reader moves on among these tokens, by at least so many;
* `Runs.movesOn`, `Runs.cause_ne_tooDeep` – what it means for tokens that a reader runs;
* `parse_progress` – the parser moves on, comes to an end, and reads a file to its end.
-/

namespace Codewright.Php

open Source

namespace Stream

/-- The stream stands in front of the token with the index `i`, or behind the last one. -/
structure StandsAt (s : Stream) (tokens : List Token) (i : Nat) : Prop where
  le_length : i ≤ tokens.length
  eof : s.eof = endOf tokens
  bares : s.bares = (tokens.drop i).map Token.bare

example (tokens : List Token) : (ofTokens tokens).StandsAt tokens 0 := ⟨Nat.zero_le _, rfl, rfl⟩

theorem kind_endOf (tokens : List Token) : (endOf tokens).kind = .eof := by
  unfold endOf
  split
  · split
    · next t _ last =>
      unfold Token.isEof at last
      simpa using last
    · rfl
  · rfl

variable {s s' : Stream} {tokens : List Token} {i : Nat}

theorem StandsAt.unread_eq (h : s.StandsAt tokens i) : s.unread = tokens.length - i := by
  rw [← length_bares, h.bares, List.length_map, List.length_drop]

/-- A stream that has moved on stands further behind. -/
theorem StandsAt.of_suffix (h : s.StandsAt tokens i) (eof : s'.eof = s.eof) (back : s'.bares <:+ s.bares) :
    s'.StandsAt tokens (tokens.length - s'.unread) := by
  refine ⟨Nat.sub_le _ _, eof.trans h.eof, ?_⟩
  have le : s'.unread ≤ s.unread := by
    rw [← length_bares, ← length_bares]
    exact back.length_le
  have unread := h.unread_eq
  have start := h.le_length
  rw [List.suffix_iff_eq_drop.1 back, length_bares, length_bares, h.bares, ← List.map_drop, List.drop_drop]
  congr 2
  omega

end Stream

variable {α : Type}

/-- Wherever among the tokens the reader starts, it ends among them, and at least so many further. -/
def MovesOn (tokens : List Token) (least : Nat) (p : Parse α) : Prop :=
  ∀ s i x s', s.StandsAt tokens i → p s = .ok (x, s') → ∃ j, s'.StandsAt tokens j ∧ i + least ≤ j

theorem Runs.movesOn {d least : Nat} {p : Parse α} (h : Runs d p fun _ => least) (tokens : List Token) :
    MovesOn tokens least p := by
  intro s i x s' stands read
  have run := h s (by rw [stands.eof]; exact Stream.kind_endOf tokens)
  rw [read] at run
  obtain ⟨eof, back, fewer⟩ := run
  have unread := stands.unread_eq
  have start := stands.le_length
  refine ⟨tokens.length - s'.unread, stands.of_suffix eof back, ?_⟩
  dsimp only at fewer
  omega

/-- A reader with more depth than there are tokens does not miss any. -/
theorem Runs.cause_ne_tooDeep {d : Nat} {p : Parse α} {least : α → Nat} {tokens : List Token} {e : SyntaxError}
    (h : Runs d p least) (enough : tokens.length < d) (failed : p (Stream.ofTokens tokens) = .error e) :
    e.cause ≠ .tooDeep := by
  have run := h (Stream.ofTokens tokens) (Stream.kind_endOf tokens)
  rw [failed] at run
  obtain ⟨-, deep⟩ := run
  exact deep enough

/-! ## Readers for whole texts -/

namespace Runs

variable {d : Nat}

/-- The end itself may be expected, too. -/
theorem expect_safe (k : TokenKind) : Safe d (Parse.expect k) :=
  .look fun _ => .ite advance (.failExpected _)

theorem standalone {p : Parse α} (h : Safe d p) : Safe d (Parse.standalone p) := by
  refine .next (.skipAll rfl) fun _ => .next h fun x => ?_
  exact .next (.skipAll rfl) fun _ => .next (expect_safe _) fun _ => .pure rfl

end Runs

theorem Grammar.Consuming.exprAlone {g : Grammar} {d : Nat} (h : g.Consuming d) : Safe d (Parse.exprAlone g) :=
  .next h.anyExpr fun _ => .next (.tryToken .semicolon nofun) fun _ => .pure rfl

/-- A file has been read when nothing is left. -/
theorem Parse.file_yields_atEnd (g : Grammar) (s : Stream) : Yields s (Parse.file g) fun _ s' => s'.atEnd = true :=
  .get_bind <| .bind <| (g.fileBody_yields s).mono fun _ _ ⟨atEnd, _⟩ => .get_bind (.pure atEnd)

theorem EofLast.front {fs gs : List Face} (h : EofLast gs) (start : fs <+: gs) : EofLast fs := by
  obtain ⟨back, rfl⟩ := start
  intro f hf
  by_cases nil : back = []
  · subst nil
    rw [List.append_nil] at h
    exact h f hf
  · apply h
    rw [List.dropLast_append_of_ne_nil nil]
    exact List.mem_append_left _ (List.mem_of_mem_dropLast hf)

/-- At the end, nothing but the mark of the end is left. -/
theorem Stream.kind_of_atEnd {s : Stream} (atEnd : s.atEnd = true) (last : EofLast s.faces) :
    ∀ t ∈ s.tokens, t.kind = .eof := by
  have tail := s.tail_of_atEnd atEnd last
  obtain ⟨tokens, _, _, _, _, _⟩ := s
  cases tokens with
  | nil => exact nofun
  | cons t ts =>
    obtain rfl : ts = [] := tail
    have eof : t.kind = .eof := by simpa [Stream.atEnd, Stream.at_, Stream.kind, Stream.peek, Stream.peekAt] using atEnd
    intro u hu
    rw [List.mem_singleton.1 hu]
    exact eof

/-- What is left behind the statements of a file, when the tokens are the first ones of a source. -/
theorem Parse.kind_left_file {g : Grammar} {tokens all : List Token} {source : String} {f : File} {s' : Stream}
    (h : g.Consuming 0) (lexed : tokenize source = .ok all) (start : tokens <+: all)
    (read : Parse.file g (Stream.ofTokens tokens) = .ok (f, s')) : ∀ t ∈ s'.tokens, t.kind = .eof := by
  have run := h.file (Stream.ofTokens tokens) (Stream.kind_endOf tokens)
  rw [read] at run
  obtain ⟨-, back, -⟩ := run
  have faces (s : Stream) : s.faces = s.bares.map Token.face := by
    simp only [Stream.faces, Stream.bares, List.map_map]
    rfl
  have back : s'.faces <:+ tokens.map Token.face := by
    have same : tokens.map Token.face = (Stream.ofTokens tokens).bares.map Token.face := faces (Stream.ofTokens tokens)
    rw [faces, same]
    exact back.map _
  have last : EofLast (tokens.map Token.face) := (eofLast_tokenize lexed).front (start.map _)
  exact Stream.kind_of_atEnd (Parse.file_yields_atEnd g _ f s' read) (last.of_suffix back)

/-! ## The parser -/

open Parse in
/-- **The parser makes progress and comes to an end.** Among any tokens, however deep the grammar is unrolled, its readers
never go back, and a statement, an expression, an operand, a type and a member each take a token. Four unrollings are good
for one more token, so a bound that is linear in the number of tokens is never reached. A file is read to its end, and of the
first tokens of a source nothing is left but perhaps the mark of the end. -/
theorem parse_progress (tokens : List Token) :
    (∀ n, let g := Grammar.upTo n
      MovesOn tokens 1 g.statement ∧ MovesOn tokens 1 g.anyExpr ∧ (∀ least, MovesOn tokens 1 (g.operatorExpr least)) ∧
      MovesOn tokens 1 g.operandExpr ∧ MovesOn tokens 1 typeHint ∧ MovesOn tokens 1 g.member ∧
      MovesOn tokens 0 (file g) ∧ MovesOn tokens 0 (standalone typeHint) ∧
      MovesOn tokens 0 (standalone (exprAlone g))) ∧
    (∀ (g : Grammar) (d : Nat), g.Consuming d → (Grammar.next^[4] g).Consuming (d + 1)) ∧
    (∀ n e, nestingBound tokens.length ≤ n →
      file (Grammar.upTo n) (Stream.ofTokens tokens) = .error e ∨
        standalone typeHint (Stream.ofTokens tokens) = .error e ∨
        standalone (exprAlone (Grammar.upTo n)) (Stream.ofTokens tokens) = .error e →
      e.cause ≠ .tooDeep) ∧
    (∀ n f s', file (Grammar.upTo n) (Stream.ofTokens tokens) = .ok (f, s') →
      s'.atEnd = true ∧
      ∀ source all, tokenize source = .ok all → tokens <+: all → ∀ t ∈ s'.tokens, t.kind = .eof) := by
  refine ⟨?_, fun g d h => h.next_four, ?_, ?_⟩
  · intro n g
    have h : g.Consuming 0 := Grammar.consuming_upTo (Nat.zero_le n)
    have le : 0 ≤ 0 + 1 := Nat.zero_le _
    have type : Consumes 0 typeHint := .typeHint
    refine ⟨(h.statement le h.expr).movesOn _, h.anyExpr.movesOn _, fun least => ?_, ?_, type.movesOn _, ?_, ?_, ?_, ?_⟩
    · exact (h.operatorExpr le h.operand least).movesOn _
    · exact (h.operandExpr le h.primary).movesOn _
    · exact h.member.movesOn _
    · exact h.file.movesOn _
    · exact type.safe.standalone.movesOn _
    · exact h.exprAlone.standalone.movesOn _
  · intro n e bound failed
    have h : (Grammar.upTo n).Consuming (tokens.length + 2) := Grammar.consuming_upTo bound
    have enough : tokens.length < tokens.length + 2 := by omega
    rcases failed with failed | failed | failed
    · exact h.file.cause_ne_tooDeep enough failed
    · exact (Runs.typeHint.safe.standalone).cause_ne_tooDeep enough failed
    · exact h.exprAlone.standalone.cause_ne_tooDeep enough failed
  · intro n f s' read
    refine ⟨file_yields_atEnd _ _ f s' read, ?_⟩
    intro source all lexed start
    exact kind_left_file (Grammar.consuming_upTo (Nat.zero_le n)) lexed start read

/-- The tokens of a statement without the mark of the end are read to the last; cut further, they are an error, but not one of
depth. -/
theorem parse_progress_cut :
    ∃ all, tokenize "<?php echo 1;" = .ok all ∧
      (∃ f s', Parse.file (Grammar.upTo 24) (Stream.ofTokens (all.take 4)) = .ok (f, s') ∧ ∀ t ∈ s'.tokens, t.kind = .eof) ∧
      ∃ e, Parse.file (Grammar.upTo 24) (Stream.ofTokens (all.take 2)) = .error e ∧ e.cause ≠ .tooDeep := by
  have results : (tokenize "<?php echo 1;").toOption.map (fun all => (all.length,
      (Parse.file (Grammar.upTo 24) (Stream.ofTokens (all.take 4))).toOption.isSome,
      (Parse.file (Grammar.upTo 24) (Stream.ofTokens (all.take 2))).toOption.isSome)) = some (5, true, false) := by
    decide +kernel
  cases lexed : tokenize "<?php echo 1;" with
  | error _ =>
    rw [lexed] at results
    cases results
  | ok all =>
    rw [lexed] at results
    have results := Option.some.inj results
    simp only [Prod.mk.injEq] at results
    obtain ⟨length, accepted, rejected⟩ := results
    refine ⟨all, rfl, ?_, ?_⟩
    · cases read : Parse.file (Grammar.upTo 24) (Stream.ofTokens (all.take 4)) with
      | error _ =>
        rw [read] at accepted
        cases accepted
      | ok r =>
        obtain ⟨f, s'⟩ := r
        refine ⟨f, s', rfl, ?_⟩
        exact ((parse_progress (all.take 4)).2.2.2 24 f s' read).2 _ all lexed (List.take_prefix 4 all)
    · cases read : Parse.file (Grammar.upTo 24) (Stream.ofTokens (all.take 2)) with
      | ok _ =>
        rw [read] at rejected
        cases rejected
      | error e =>
        refine ⟨e, rfl, (parse_progress (all.take 2)).2.2.1 24 e ?_ (.inl read)⟩
        rw [List.length_take, length]
        decide

end Codewright.Php
