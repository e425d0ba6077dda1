import Codewright.Php.Synthesis
import Codewright.Proofs.Php.Climbing
import Codewright.Proofs.Php.CommentOrder
import Codewright.Proofs.Php.MovedTokens
import Codewright.Proofs.Text.Search

/-!
# Doc comments around texts

* `isDocBlock_iff` – which texts count as doc comments already; `endsBlock_docLines` – the lines of any other text;
* `ClosesEarly` – a text that counts as a doc comment although the lexer ends it behind its first four characters;
* `isBlockComment_docBlock` – the doc comment around any other text is one comment;
* `IsOneDoc` – as the lexer reads it, a text is the doc comment of the token behind it;
* `isOneDoc_docBlock_iff` – which doc comments are; `not_isOneDoc_docBlock`: not all of them.
-/

namespace Codewright.Php

open Text Source Lexer

/-! ## The text of a doc comment -/

theorem isDocBlock_iff {cs : List Char} :
    isDocBlock cs = true ↔ ∃ inner, cs = ['/', '*', '*'] ++ (inner ++ ['*', '/']) ∧ ¬['*', '/'] <:+: inner := by
  have opening : "/**".toList = ['/', '*', '*'] := rfl
  have closing : "*/".toList = ['*', '/'] := rfl
  rw [isDocBlock, opening, closing]
  constructor
  · intro is_doc
    split at is_doc
    · next inner found =>
      obtain ⟨rest, start, ending⟩ := Option.bind_eq_some_iff.1 found
      rw [Option.isNone_iff_eq_none, cutAt_eq_none_iff (by simp)] at is_doc
      refine ⟨inner, ?_, is_doc⟩
      rw [stripStart?_eq_some_iff.1 start, stripEnd?_eq_some_iff.1 ending]
    · cases is_doc
  · rintro ⟨inner, rfl, no_end⟩
    rw [stripStart?_eq_some_iff.2 rfl, Option.bind_some, stripEnd?_eq_some_iff.2 rfl]
    rw [Option.isNone_iff_eq_none, cutAt_eq_none_iff (by simp)]
    exact no_end

/-- The text counts as a doc comment, but begins with a complete comment. -/
def ClosesEarly (text : String) : Prop :=
  ['/', '*', '*', '/'] <+: (trimmed text).toList ∧ isDocBlock (trimmed text).toList = true

/-- A line of a doc comment has no mark of the end in it, and ends with a line feed. -/
theorem exists_docLine (line : String) : ∃ l, (docLine line).toList = l ++ ['\n'] ∧ ¬['*', '/'] <:+: l := by
  have mark : ¬['*', '/'] <:+: " *".toList := by decide
  have opening : "*/".toList = ['*', '/'] := rfl
  have broken : "*\\/".toList = ['*', '\\', '/'] := rfl
  unfold docLine
  dsimp only
  split
  · exact ⟨" *".toList, rfl, mark⟩
  · refine ⟨" * ".toList ++ (replaceAll "*/" "*\\/" (trimmedEnd line)).toList, by simp, fun inside => ?_⟩
    have whole : " * ".toList = " *".toList ++ [' '] := rfl
    rw [whole, List.append_assoc] at inside
    rcases infix_append_cons (by decide) (by decide) inside with inside | inside
    · exact mark inside
    · have inside : ['*', '/'] <:+: (replaceAll "*/" "*\\/" (trimmedEnd line)).toList := inside
      rw [replaceAll, String.toList_ofList, opening, broken] at inside
      exact not_infix_replaceFrom (by decide) (by decide) 0 _ inside

/-- The lines of a doc comment, with the end of the comment behind them. -/
theorem endsBlock_docLines (ls : List String) : EndsBlock (String.join (ls.map docLine) ++ " */").toList := by
  induction ls with
  | nil => exact ⟨[' '], rfl, by decide⟩
  | cons line ls ih =>
    obtain ⟨l, same, no_end⟩ := exists_docLine line
    have whole : (String.join ((line :: ls).map docLine) ++ " */").toList =
        l ++ '\n' :: (String.join (ls.map docLine) ++ " */").toList := by
      simp [same]
    rw [whole]
    exact ih.line no_end

/-- The doc comment around a text is one comment, and it is a doc comment. -/
theorem isBlockComment_docBlock {text : String} (h : ¬ClosesEarly text) :
    IsBlockComment (docBlock text).toList ∧ isDocText (docBlock text) = true := by
  unfold docBlock
  dsimp only
  split
  · next is_doc =>
    obtain ⟨inner, whole, no_end⟩ := isDocBlock_iff.1 is_doc
    have not_early : ¬['/', '*', '*', '/'] <+: (trimmed text).toList := fun early => h ⟨early, is_doc⟩
    refine ⟨⟨'*' :: inner, whole, fun inside => ?_⟩, isDocText_iff.2 ⟨⟨_, whole.symm⟩, not_early⟩⟩
    rw [whole] at not_early
    rcases List.infix_cons_iff.1 inside with start | later
    · cases inner with
      | nil => exact absurd start (by decide)
      | cons c inner =>
        obtain rfl : '/' = c := (List.cons_prefix_cons.1 (List.cons_prefix_cons.1 start).2).1
        exact not_early ⟨_, rfl⟩
    · rcases List.infix_concat_iff.1 later with ending | inside
      · obtain ⟨front, same⟩ := ending
        have last := congrArg List.getLast? same
        simp at last
      · exact no_end inside
  · have ends := endsBlock_docLines (linesOf (trimmed text))
    have line : EndsBlock (['*'] ++ '\n' :: (String.join ((linesOf (trimmed text)).map docLine) ++ " */").toList) :=
      ends.line (by decide)
    have whole : ("/**\n" ++ String.join ((linesOf (trimmed text)).map docLine) ++ " */").toList =
        '/' :: '*' :: '*' :: '\n' :: (String.join ((linesOf (trimmed text)).map docLine) ++ " */").toList := by
      simp
    obtain ⟨body, same, first⟩ := line
    refine ⟨⟨body, ?_, first⟩, isDocText_iff.2 ⟨?_, ?_⟩⟩
    · rw [whole, ← same]
      rfl
    · exact ⟨_, whole.symm⟩
    · rw [whole]
      rintro ⟨more, same⟩
      simp at same

/-! ## What the lexer makes of it -/

/-- Behind an opening tag, in front of a line feed and of any code whose first token has no comments of its own, the whole text is the
doc comment of that token, and the code is read as without it. -/
def IsOneDoc (block : String) : Prop :=
  ∀ blank ∈ [' ', '\n'], ∀ (code : String) (opening first : Token) (rest : List Token),
    tokenize ("<?php" ++ blank.toString ++ code) = .ok (opening :: first :: rest) → first.kind ≠ .eof → first.allComments = [] →
    ∃ first' rest', tokenize ("<?php" ++ blank.toString ++ (block ++ "\n" ++ code)) = .ok (opening :: first' :: rest') ∧
      first'.unplaced = (first.face, some block, []) ∧ rest'.map Token.unplaced = rest.map Token.unplaced

/-- A doc comment belongs to the token behind it. -/
theorem isOneDoc_of_isBlockComment {block : String} (is_block : IsBlockComment block.toList) (is_doc : isDocText block = true) :
    IsOneDoc block := by
  intro blank hb code opening first rest read code_token bare
  have chars : ("<?php" ++ blank.toString ++ code).toList = openingTag blank ++ code.toList := by simp [openingTag]
  have chars' : ("<?php" ++ blank.toString ++ (block ++ "\n" ++ code)).toList =
      openingTag blank ++ (block.toList ++ ['\n'] ++ code.toList) := by
    simp [openingTag]
  rw [tokenize_eq_readCode hb chars] at read
  obtain ⟨ts, behind, same⟩ := exists_of_map_eq_ok read
  obtain ⟨rfl, rfl⟩ := List.cons.inj same
  obtain ⟨g, q, cs, gap⟩ := exists_readGap_of_readCode behind
  have empty : g = .empty := by
    obtain ⟨us, -, same⟩ := exists_readCode_behind gap gap behind
    cases same with
    | eof p q => exact absurd rfl code_token
    | token _ =>
      obtain ⟨doc, comments⟩ := g
      obtain ⟨comments, doc⟩ := List.append_eq_nil_iff.1 bare
      exact congrArg₂ Gap.mk (Option.toList_eq_nil_iff.1 doc) comments
  subst empty
  have comment : HasComments code.toList (block.toList ++ ['\n']) [String.ofList block.toList] := .block is_block (.space rfl .nil)
  obtain ⟨q', right⟩ := exists_readGap_empty gap (.ofTexts [String.ofList block.toList])
    ((Position.origin.after (openingTag blank)).after (block.toList ++ ['\n']))
  obtain ⟨us, read', same⟩ := exists_readCode_behind gap ((readGap_of_hasComments comment .empty _).trans right) behind
  rw [tokenize_eq_readCode hb chars', read']
  cases same with
  | eof p q => exact absurd rfl code_token
  | @token kind text p p' q q' ts us same =>
    refine ⟨_, us, rfl, ?_, same⟩
    have kept : Gap.ofTexts [String.ofList block.toList] = ⟨some block, []⟩ := by
      rw [String.ofList_toList]
      exact if_pos is_doc
    rw [kept]
    rfl

/-- The reader of gaps keeps the comments that it has. -/
theorem prefix_comments_foldl (comments : List String) (g : Gap) : g.comments <+: (comments.foldl Gap.addText g).comments := by
  induction comments generalizing g with
  | nil => exact List.prefix_rfl
  | cons text comments ih =>
    refine List.IsPrefix.trans ?_ (ih (g.addText text))
    rw [Gap.addText]
    split <;> exact List.prefix_append _ _

/-- A text that begins with an empty comment is more than one comment. -/
theorem not_isOneDoc_of_prefix {block : String} (early : ['/', '*', '*', '/'] <+: block.toList) : ¬IsOneDoc block := by
  intro one
  have plain : tokenize ("<?php" ++ ' '.toString ++ "x") = .ok
      [⟨.openTag, ⟨0, 6⟩, ⟨0, 0, 0⟩, "<?php", none, []⟩, ⟨.ident, ⟨6, 7⟩, ⟨6, 0, 6⟩, "x", none, []⟩,
        ⟨.eof, ⟨7, 7⟩, ⟨7, 0, 7⟩, "", none, []⟩] := by
    decide +kernel
  obtain ⟨more, whole⟩ := early
  obtain ⟨first, rest, read, carries, -⟩ := one ' ' (by decide) "x" _ _ _ plain (by decide) rfl
  have chars : ("<?php" ++ ' '.toString ++ (block ++ "\n" ++ "x")).toList =
      openingTag ' ' ++ ('/' :: '*' :: '*' :: '/' :: (more ++ ['\n', 'x'])) := by
    simp [openingTag, ← whole]
  rw [tokenize_eq_readCode (by decide) chars] at read
  obtain ⟨ts, behind, same⟩ := exists_of_map_eq_ok read
  obtain ⟨-, rfl⟩ := List.cons.inj same
  obtain ⟨g, q, cs, gap⟩ := exists_readGap_of_readCode behind
  -- The first token carries the comments of the gap, the empty one among them.
  have comments : g.comments = [] := by
    obtain ⟨us, -, same⟩ := exists_readCode_behind gap gap behind
    cases same with
    | eof p q => cases carries
    | token _ => exact congrArg (fun t => t.2.2) carries
  have second (p : Position) : readGap .empty p ('/' :: '*' :: '*' :: '/' :: (more ++ ['\n', 'x'])) =
      readGap (Gap.empty.addPlain "/**/") (p.after ['/', '*', '*', '/']) (more ++ ['\n', 'x']) := by
    rw [readGap_cons]
    rfl
  rw [second] at gap
  obtain ⟨-, texts, -, -, -, rfl⟩ := hasComments_of_readGap gap
  have kept := prefix_comments_foldl texts (Gap.empty.addPlain "/**/")
  rw [comments] at kept
  exact absurd (List.prefix_nil.1 kept) (by decide)

/-- **Which doc comments are one.** The doc comment that is made of a text is the doc comment of what stands behind it, and nothing
of the text is read as code, unless the text counts as a doc comment although it begins with a complete comment. -/
theorem isOneDoc_docBlock_iff (text : String) : IsOneDoc (docBlock text) ↔ ¬ClosesEarly text := by
  constructor
  · rintro one ⟨early, is_doc⟩
    have kept : docBlock text = trimmed text := if_pos is_doc
    rw [kept] at one
    exact not_isOneDoc_of_prefix early one
  · intro late
    obtain ⟨is_block, is_doc⟩ := isBlockComment_docBlock late
    exact isOneDoc_of_isBlockComment is_block is_doc

/-- Code between an empty comment and a line comment is kept, and it is read as code. -/
theorem not_isOneDoc_docBlock : ¬IsOneDoc (docBlock "/**/ class Y {} //*/") :=
  not_isOneDoc_of_prefix (by decide +kernel)

end Codewright.Php
