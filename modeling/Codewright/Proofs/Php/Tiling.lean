import Codewright.Proofs.Php.LexedTokens
import Codewright.Proofs.Php.ProgressStatements

/-!
# Tokens tile the source

* `Tiles before rest tokens` – behind the text `before`, the text `rest` is gaps and tokens by turns, each token carries the
  comments of the gap in front of it, and its place is right;
* `Tiles.isPlace`, `Tiles.pairwise`, `Tiles.eof_last` – what follows for all tokens together;
* `Lexer.lexes_tokenize` – the lexer gives such tokens, or an error whose place is right;
* `tokens_tile` – tokens tile the source, and the error of a source that is rejected has its place in it.
-/

namespace Codewright.Php

open Text Source

/-- Behind the text `before`, the text `rest` is gaps and tokens by turns up to the mark of the end. A token is not empty; its
span, its position and its comments are told by what stands in front of it. -/
inductive Tiles : List Char → List Char → List Token → Prop where
  | eof {before gap : List Char} {t : Token} :
      IsGap [] gap t.allComments → t.kind = .eof →
      t.span = ⟨byteLength (before ++ gap), byteLength (before ++ gap)⟩ → t.pos = .ofText (before ++ gap) →
      Tiles before gap [t]
  | cons {before gap text rest : List Char} {t : Token} {ts : List Token} :
      IsGap (text ++ rest) gap t.allComments → text ≠ [] → t.kind ≠ .eof →
      t.span = ⟨byteLength (before ++ gap), byteLength (before ++ gap ++ text)⟩ → t.pos = .ofText (before ++ gap) →
      Tiles (before ++ gap ++ text) rest ts → Tiles before (gap ++ (text ++ rest)) (t :: ts)

namespace Tiles

variable {before rest : List Char} {tokens : List Token}

theorem isPlace (h : Tiles before rest tokens) : ∀ t ∈ tokens, IsPlace (before ++ rest) t.span t.pos := by
  induction h with
  | @eof before gap t _ _ span pos =>
    intro u hu
    rw [List.mem_singleton.1 hu]
    refine ⟨before ++ gap, [], [], ?_, ?_, pos⟩
    · simp
    · rw [span, List.append_nil]
  | @cons before gap text rest t ts _ _ _ span pos _ ih =>
    intro u hu
    rcases List.mem_cons.1 hu with rfl | later
    · exact ⟨before ++ gap, text, rest, by simp, span, pos⟩
    · have place := ih u later
      simpa using place

/-- Every token begins behind the text in front of all. -/
theorem byteLength_le (h : Tiles before rest tokens) : ∀ t ∈ tokens, byteLength before ≤ t.span.start := by
  induction h with
  | @eof before gap t _ _ span pos =>
    intro u hu
    rw [List.mem_singleton.1 hu, span, byteLength_append]
    exact Nat.le_add_right _ _
  | @cons before gap text rest t ts _ _ _ span pos _ ih =>
    intro u hu
    rcases List.mem_cons.1 hu with rfl | later
    · rw [span, byteLength_append]
      exact Nat.le_add_right _ _
    · have behind := ih u later
      rw [byteLength_append, byteLength_append] at behind
      omega

/-- The spans stand in order and do not overlap. -/
theorem pairwise (h : Tiles before rest tokens) : tokens.Pairwise fun t u => t.span.stop ≤ u.span.start := by
  induction h with
  | eof => exact List.pairwise_singleton _ _
  | cons _ _ _ span _ tiles ih =>
    refine List.pairwise_cons.2 ⟨?_, ih⟩
    intro u later
    rw [span]
    exact tiles.byteLength_le u later

/-- The mark of the end stands behind the text, and it is the only token that is empty. -/
theorem eof_last (h : Tiles before rest tokens) :
    ∃ front last, tokens = front ++ [last] ∧ last.kind = .eof ∧
      last.span = ⟨byteLength (before ++ rest), byteLength (before ++ rest)⟩ ∧
      ∀ t ∈ front, t.kind ≠ .eof ∧ t.span.start < t.span.stop := by
  induction h with
  | @eof before gap t _ kind span _ => exact ⟨[], t, rfl, kind, span, nofun⟩
  | @cons before gap text rest t ts _ some_text kind span _ _ ih =>
    obtain ⟨front, last, rfl, eof, place, all⟩ := ih
    refine ⟨t :: front, last, rfl, eof, by simpa using place, ?_⟩
    refine List.forall_mem_cons.2 ⟨⟨kind, ?_⟩, all⟩
    have size := byteLength_pos some_text
    rw [span, byteLength_append (before ++ gap)]
    show byteLength (before ++ gap) < byteLength (before ++ gap) + byteLength text
    omega

end Tiles

namespace Lexer

/-! ## The lexer -/

/-- Gaps and tokens by turns tile the text. -/
theorem Lexed.tiles {before rest : List Char} {tokens : List Token} (h : Lexed before rest tokens) :
    Tiles before rest tokens := by
  induction h with
  | @eof before gap comments gaps =>
    have same : (eofToken (.ofText (before ++ gap)) (.ofTexts comments)).allComments = (Gap.ofTexts comments).all := by
      simp [eofToken, Token.allComments]
    refine .eof ?_ rfl rfl rfl
    rw [same, all_ofTexts]
    exact gaps.isGap
  | @token before gap text rest comments kind s ts gaps some_text told _ ih =>
    refine .cons ?_ some_text (ne_eof_of_told told) rfl rfl ih
    show IsGap _ _ ((Gap.ofTexts comments).all : Multiset String)
    rw [all_ofTexts]
    exact gaps.isGap

/-- A result that is right behind the text `before`, in front of `cs`. -/
def Lexes (before cs : List Char) : Except SyntaxError (List Token) → Prop
  | .ok tokens => Tiles before cs tokens
  | .error e => IsPlace (before ++ cs) e.span e.pos

/-- The lexer gives tokens that tile the source, or an error in its place. -/
theorem lexes_tokenize (source : String) : Lexes [] source.toList (tokenize source) := by
  have run := runs_tokenize source
  cases read : tokenize source with
  | ok tokens =>
    rw [read] at run
    exact Lexed.tiles run
  | error e =>
    rw [read] at run
    exact run

end Lexer

/-! ## The parser -/

/-- An error of the parser is at a token. -/
theorem isPlace_of_parseFile {cs : List Char} {tokens : List Token} {e : SyntaxError} (tiles : Tiles [] cs tokens)
    (h : parseFile tokens = .error e) : IsPlace cs e.span e.pos := by
  obtain ⟨front, last, whole, eof, -, -⟩ := tiles.eof_last
  have endOf : Stream.endOf tokens = last := by simp [Stream.endOf, whole, Token.isEof, eof]
  have consuming : (Grammar.upTo (nestingBound tokens.length)).Consuming 0 := Grammar.consuming_upTo (Nat.zero_le _)
  have run := consuming.file (Stream.ofTokens tokens) (by rw [Stream.ofTokens, endOf, eof])
  have failed : Parse.file (Grammar.upTo (nestingBound tokens.length)) (Stream.ofTokens tokens) = .error e := by
    unfold parseFile runOn at h
    cases result : Parse.file (Grammar.upTo (nestingBound tokens.length)) (Stream.ofTokens tokens) with
    | error e' =>
      rw [StateT.run, result] at h
      cases h
      rfl
    | ok r =>
      rw [StateT.run, result] at h
      cases h
  rw [failed] at run
  obtain ⟨⟨t, ht, span, pos⟩, -⟩ := run
  have at_token : ∃ u ∈ tokens, t = u.bare := by
    rcases List.mem_cons.1 ht with rfl | unread
    · refine ⟨last, by simp [whole], ?_⟩
      rw [Stream.ofTokens, endOf]
    · obtain ⟨u, hu, same⟩ := List.mem_map.1 unread
      exact ⟨u, hu, same.symm⟩
  obtain ⟨u, hu, rfl⟩ := at_token
  rw [span, pos]
  exact tiles.isPlace u hu

/-- **Tokens tile the source.** Between them stand whitespace and the comments that they carry, and nothing else; exactly the
last one marks the end, and it stands there; the others are not empty, stand in order and do not overlap; and each place is
told in characters and lines from the start of the source. Where a source is rejected, the error has its place in it, too. -/
theorem tokens_tile (source : String) :
    (∀ tokens, tokenize source = .ok tokens →
      Tiles [] source.toList tokens ∧
      (∃ front last, tokens = front ++ [last] ∧ last.kind = .eof ∧
        last.span = ⟨byteLength source.toList, byteLength source.toList⟩ ∧
        ∀ t ∈ front, t.kind ≠ .eof ∧ t.span.start < t.span.stop) ∧
      (∀ t ∈ tokens, IsPlace source.toList t.span t.pos) ∧
      tokens.Pairwise fun t u => t.span.stop ≤ u.span.start) ∧
    ∀ e, parse source = .error e → IsPlace source.toList e.span e.pos := by
  have lexes := Lexer.lexes_tokenize source
  refine ⟨?_, ?_⟩
  · intro tokens read
    rw [read] at lexes
    have tiles : Tiles [] source.toList tokens := lexes
    exact ⟨tiles, tiles.eof_last, tiles.isPlace, tiles.pairwise⟩
  · intro e rejected
    unfold parse at rejected
    cases read : tokenize source with
    | error e' =>
      rw [read] at lexes rejected
      cases rejected
      exact lexes
    | ok tokens =>
      rw [read] at lexes rejected
      exact isPlace_of_parseFile lexes rejected

/-- A comment of two-byte letters between tokens, and an error behind such letters on the second line. -/
theorem tokens_tile_letters :
    (∃ tokens, tokenize "<?php /* é */ $ä;" = .ok tokens ∧ Tiles [] "<?php /* é */ $ä;".toList tokens) ∧
      ∃ e, parse "<?php\n$ä = ;" = .error e ∧ e.pos = ⟨12, 1, 5⟩ ∧ IsPlace "<?php\n$ä = ;".toList e.span e.pos := by
  have accepted : (tokenize "<?php /* é */ $ä;").toOption.isSome = true := by decide +kernel
  have place : ((parse "<?php\n$ä = ;").map fun _ => ()).mapError (·.pos) = .error ⟨12, 1, 5⟩ := by decide +kernel
  refine ⟨?_, ?_⟩
  · cases read : tokenize "<?php /* é */ $ä;" with
    | error _ =>
      rw [read] at accepted
      cases accepted
    | ok tokens => exact ⟨tokens, rfl, ((tokens_tile _).1 tokens read).1⟩
  · cases rejected : parse "<?php\n$ä = ;" with
    | ok _ =>
      rw [rejected] at place
      cases place
    | error e =>
      rw [rejected] at place
      exact ⟨e, rfl, Except.error.inj place, (tokens_tile _).2 e rejected⟩

end Codewright.Php
