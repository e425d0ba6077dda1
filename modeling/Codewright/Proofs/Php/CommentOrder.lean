import Codewright.Proofs.Php.LexedTokens

/-!
# The order of comments

A token keeps the last doc comment of the gap in front of it apart. A doc comment that another one follows waits in that place, and
joins the other comments when the next one comes: behind those that stand between the two.

* `HasCommentsBefore source front t comments` – what stands in front of a token;
* `lastDoc?`, `withoutLastDoc` – the comments that it should keep, in the order of the source;
* `comments_ofTexts_eq_iff`, `all_ofTexts_eq_iff` – when they are kept in this order;
* `comments_ordered_iff` – so for every token of every source; `not_commentsInOrder`: not always.
-/

namespace Codewright.Php

open Text Source Lexer

/-- The last doc comment of a gap. -/
def lastDoc? (comments : List String) : Option String := (comments.filter isDocText).getLast?

/-- The other comments of the gap. -/
def withoutLastDoc (comments : List String) : List String := (comments.reverse.eraseP isDocText).reverse

/-- Between the tokens `front` of the source and the next token `t` stand these comments, in this order. -/
def HasCommentsBefore (source : String) (front : List Token) (t : Token) (comments : List String) : Prop :=
  ∃ before gap behind, source.toList = before ++ (gap ++ behind) ∧
    byteLength before = (front.getLast?.map (·.span.stop)).getD 0 ∧ byteLength (before ++ gap) = t.span.start ∧
    HasComments behind gap comments

/-! ## One comment more -/

section

variable {comments : List String} {text : String}

theorem lastDoc?_append_doc (doc : isDocText text = true) : lastDoc? (comments ++ [text]) = some text := by
  simp [lastDoc?, doc]

theorem lastDoc?_append_other (other : isDocText text = false) : lastDoc? (comments ++ [text]) = lastDoc? comments := by
  simp [lastDoc?, other]

theorem withoutLastDoc_append_doc (doc : isDocText text = true) : withoutLastDoc (comments ++ [text]) = comments := by
  simp [withoutLastDoc, doc]

theorem withoutLastDoc_append_other (other : isDocText text = false) :
    withoutLastDoc (comments ++ [text]) = withoutLastDoc comments ++ [text] := by
  simp [withoutLastDoc, other]

theorem ofTexts_append (comments : List String) (text : String) :
    Gap.ofTexts (comments ++ [text]) = (Gap.ofTexts comments).addText text :=
  List.foldl_concat ..

theorem comments_append_doc (doc : isDocText text = true) :
    (Gap.ofTexts (comments ++ [text])).comments = (Gap.ofTexts comments).all := by
  rw [ofTexts_append, Gap.addText, if_pos doc]
  rfl

theorem comments_append_other (other : isDocText text = false) :
    (Gap.ofTexts (comments ++ [text])).comments = (Gap.ofTexts comments).comments ++ [text] := by
  rw [ofTexts_append, Gap.addText, other]
  rfl

end

/-! ## What is kept -/

/-- The doc comment that is kept apart is the last one. -/
theorem doc_ofTexts (comments : List String) : (Gap.ofTexts comments).doc = lastDoc? comments := by
  induction comments using List.reverseRecOn with
  | nil => rfl
  | append_singleton comments text ih =>
    rw [ofTexts_append, Gap.addText]
    cases doc : isDocText text with
    | true => exact (lastDoc?_append_doc doc).symm
    | false => exact ih.trans (lastDoc?_append_other doc).symm

theorem isDocText_of_lastDoc? {comments : List String} {d : String} (h : lastDoc? comments = some d) :
    d ∈ comments ∧ isDocText d = true :=
  List.mem_filter.1 (List.mem_of_getLast? h)

theorem isDocText_eq_false_of_lastDoc? {comments : List String} (h : lastDoc? comments = none) :
    ∀ c ∈ comments, isDocText c = false := by
  simpa [lastDoc?, List.filter_eq_nil_iff] using h

/-- The last doc comment comes behind the other doc comments. -/
theorem filter_withoutLastDoc (comments : List String) (doc : Bool) :
    comments.filter (isDocText · == doc) =
      (withoutLastDoc comments).filter (isDocText · == doc) ++ (lastDoc? comments).toList.filter (isDocText · == doc) := by
  induction comments using List.reverseRecOn with
  | nil => rfl
  | append_singleton comments text ih =>
    cases kind : isDocText text with
    | true => rw [withoutLastDoc_append_doc kind, lastDoc?_append_doc kind, List.filter_append, Option.toList_some]
    | false =>
      rw [withoutLastDoc_append_other kind, lastDoc?_append_other kind, List.filter_append, List.filter_append, ih]
      cases doc with
      | false =>
        have none_left : (lastDoc? comments).toList.filter (isDocText · == false) = [] := by
          rw [List.filter_eq_nil_iff]
          intro d hd
          have is_doc := (isDocText_of_lastDoc? (Option.mem_toList.1 hd)).2
          simp [is_doc]
        rw [none_left, List.append_nil, List.append_nil]
      | true => simp [kind]

/-- Doc comments among themselves, and the other comments among themselves, keep their order. -/
theorem filter_comments_ofTexts (comments : List String) (doc : Bool) :
    (Gap.ofTexts comments).comments.filter (isDocText · == doc) = (withoutLastDoc comments).filter (isDocText · == doc) := by
  induction comments using List.reverseRecOn with
  | nil => rfl
  | append_singleton comments text ih =>
    cases kind : isDocText text with
    | true =>
      rw [comments_append_doc kind, withoutLastDoc_append_doc kind, filter_withoutLastDoc comments, Gap.all, List.filter_append, ih,
        doc_ofTexts]
    | false => rw [comments_append_other kind, withoutLastDoc_append_other kind, List.filter_append, List.filter_append, ih]

/-! ## When the order is kept -/

/-- Behind the last token the comments stand in their order just if behind a doc comment come doc comments only. -/
theorem all_ofTexts_eq_iff (comments : List String) :
    (Gap.ofTexts comments).all = comments ↔ comments.Pairwise fun a b => isDocText a = true → isDocText b = true := by
  induction comments using List.reverseRecOn with
  | nil => exact iff_of_true rfl .nil
  | append_singleton comments text ih =>
    rw [List.pairwise_append, ← ih]
    cases kind : isDocText text with
    | true =>
      have whole : (Gap.ofTexts (comments ++ [text])).all = (Gap.ofTexts comments).all ++ [text] := by
        rw [Gap.all, comments_append_doc kind, doc_ofTexts, lastDoc?_append_doc kind, Option.toList_some]
      simp [whole, kind]
    | false =>
      rw [Gap.all, comments_append_other kind, doc_ofTexts, lastDoc?_append_other kind, Gap.all, doc_ofTexts]
      cases last : lastDoc? comments with
      | none =>
        have no_doc := isDocText_eq_false_of_lastDoc? last
        simp +contextual [no_doc]
      | some d =>
        obtain ⟨inside, is_doc⟩ := isDocText_of_lastDoc? last
        refine iff_of_false (fun same => ?_) fun holds => ?_
        · obtain ⟨-, same⟩ := List.append_inj' same rfl
          rw [List.singleton_inj.1 same, kind] at is_doc
          cases is_doc
        · have doc := holds.2.2 d inside text (List.mem_singleton_self text) is_doc
          rw [kind] at doc
          cases doc

/-- In front of another token they stand in their order just if between two doc comments stand doc comments only. -/
theorem comments_ofTexts_eq_iff (comments : List String) :
    (Gap.ofTexts comments).comments = withoutLastDoc comments ↔
      ∀ a b c, [a, b, c].Sublist comments → isDocText a = true → isDocText c = true → isDocText b = true := by
  induction comments using List.reverseRecOn with
  | nil => exact iff_of_true rfl fun a b c sub => absurd (List.sublist_nil.1 sub) (List.cons_ne_nil _ _)
  | append_singleton comments text ih =>
    have three (a b c : String) : [a, b, c].Sublist (comments ++ [text]) ↔
        [a, b, c].Sublist comments ∨ c = text ∧ [a, b].Sublist comments := by
      have back (front : List String) : front.reverse.Sublist comments.reverse ↔ front.Sublist comments := List.reverse_sublist
      rw [← List.reverse_sublist, List.reverse_concat]
      exact List.cons_sublist_cons'.trans (or_congr (back [a, b, c]) (and_congr_right' (back [a, b])))
    cases kind : isDocText text with
    | true =>
      rw [comments_append_doc kind, withoutLastDoc_append_doc kind, all_ofTexts_eq_iff, List.pairwise_iff_forall_sublist]
      constructor
      · intro pairs a b c sub doc _
        rcases (three a b c).1 sub with sub | ⟨-, sub⟩
        · exact pairs ((List.sublist_append_left [a, b] [c]).trans sub) doc
        · exact pairs sub doc
      · intro triples a b sub doc
        exact triples a b text ((three a b text).2 (.inr ⟨rfl, sub⟩)) doc kind
    | false =>
      rw [comments_append_other kind, withoutLastDoc_append_other kind, List.append_left_inj, ih]
      constructor
      · intro triples a b c sub doc doc'
        rcases (three a b c).1 sub with sub | ⟨rfl, -⟩
        · exact triples a b c sub doc doc'
        · rw [kind] at doc'
          cases doc'
      · intro triples a b c sub doc doc'
        exact triples a b c ((three a b c).2 (.inl sub)) doc doc'

/-! ## Tokens -/

/-- Only one list of comments stands in front of a token. -/
theorem HasCommentsBefore.unique {source : String} {front : List Token} {t : Token} {left right : List String}
    (h : HasCommentsBefore source front t left) (h' : HasCommentsBefore source front t right) : left = right := by
  obtain ⟨before, gap, behind, whole, start, stop, comments⟩ := h
  obtain ⟨before', gap', behind', whole', start', stop', comments'⟩ := h'
  obtain ⟨rfl, tail⟩ := append_inj_byteLength (whole.symm.trans whole') (start.trans start'.symm)
  have size : byteLength gap = byteLength gap' := by
    have total := stop.trans stop'.symm
    rw [byteLength_append, byteLength_append] at total
    exact Nat.add_left_cancel total
  obtain ⟨rfl, rfl⟩ := append_inj_byteLength tail size
  exact comments.unique comments'

/-- The token carries the comments, as a gap keeps them. -/
structure Carries (t : Token) (comments : List String) : Prop where
  code : t.kind ≠ .eof → t.doc = (Gap.ofTexts comments).doc ∧ t.comments = (Gap.ofTexts comments).comments
  eof : t.kind = .eof → t.doc = none ∧ t.comments = (Gap.ofTexts comments).all

/-- Behind the text `before`, each token carries the comments of the gap in front of it. -/
theorem exists_carries_of_lexed {before rest : List Char} {tokens front back : List Token} {t : Token}
    (h : Lexed before rest tokens) (split : tokens = front ++ t :: back) :
    ∃ before' gap behind comments, before ++ rest = before' ++ (gap ++ behind) ∧
      byteLength before' = (front.getLast?.map (·.span.stop)).getD (byteLength before) ∧
      byteLength (before' ++ gap) = t.span.start ∧ HasComments behind gap comments ∧ Carries t comments := by
  induction h generalizing front with
  | @eof before gap comments gaps =>
    obtain ⟨rfl, last⟩ | ⟨-, ⟨⟩⟩ := List.singleton_eq_append_iff.1 split
    obtain ⟨rfl, -⟩ := List.cons.inj last
    exact ⟨before, gap, [], comments, by simp, rfl, rfl, gaps, fun other => absurd rfl other, fun _ => ⟨rfl, rfl⟩⟩
  | @token before gap text rest comments kind s ts gaps some_text told _ ih =>
    cases front with
    | nil =>
      obtain ⟨rfl, rfl⟩ := List.cons.inj split
      exact ⟨before, gap, text ++ rest, comments, rfl, rfl, rfl, gaps, fun _ => ⟨rfl, rfl⟩,
        fun eof => absurd eof (ne_eof_of_told told)⟩
    | cons first front =>
      obtain ⟨rfl, tail⟩ := List.cons.inj split
      obtain ⟨before', gap', behind, comments', whole, start, stop, gaps', carries⟩ := ih tail
      refine ⟨before', gap', behind, comments', by rw [← whole]; simp, ?_, stop, gaps', carries⟩
      rw [start, List.getLast?_cons]
      cases front.getLast? <;> rfl

/-- **Which comments come out of order.** A token carries the comments of the gap in front of it: its doc comment is the last one
there, and doc comments among themselves, as well as the other ones among themselves, keep the order of the source. All together keep
it just if no other comment stands between two doc comments; in front of the end, if none stands behind a doc comment. -/
theorem comments_ordered_iff {source : String} {tokens front back : List Token} {t : Token} (h : tokenize source = .ok tokens)
    (split : tokens = front ++ t :: back) :
    (∃ comments, HasCommentsBefore source front t comments) ∧ ∀ comments, HasCommentsBefore source front t comments →
      (t.kind ≠ .eof → t.doc = lastDoc? comments ∧
        (∀ doc, t.comments.filter (isDocText · == doc) = (withoutLastDoc comments).filter (isDocText · == doc)) ∧
        (t.comments = withoutLastDoc comments ↔
          ∀ a b c, [a, b, c].Sublist comments → isDocText a = true → isDocText c = true → isDocText b = true)) ∧
      (t.kind = .eof → t.doc = none ∧
        (∀ doc, t.comments.filter (isDocText · == doc) = comments.filter (isDocText · == doc)) ∧
        (t.comments = comments ↔ comments.Pairwise fun a b => isDocText a = true → isDocText b = true)) := by
  have run := runs_tokenize source
  rw [h] at run
  obtain ⟨before, gap, behind, comments, whole, start, stop, gaps, carries⟩ := exists_carries_of_lexed run split
  have here : HasCommentsBefore source front t comments := ⟨before, gap, behind, whole, start, stop, gaps⟩
  refine ⟨⟨comments, here⟩, fun others there => ?_⟩
  obtain rfl := here.unique there
  refine ⟨fun code => ?_, fun eof => ?_⟩
  · obtain ⟨doc, kept⟩ := carries.code code
    rw [doc, kept]
    exact ⟨doc_ofTexts comments, filter_comments_ofTexts comments, comments_ofTexts_eq_iff comments⟩
  · obtain ⟨doc, kept⟩ := carries.eof eof
    rw [doc, kept]
    refine ⟨rfl, fun doc => ?_, all_ofTexts_eq_iff comments⟩
    rw [Gap.all, List.filter_append, filter_comments_ofTexts, doc_ofTexts, ← filter_withoutLastDoc]

/-- Doc comments one behind the other, and other comments in front of doc comments. -/
def crowdedSource : String := "<?php /** a */ /** b */ x /* c */ # d\n/** e */ /** f */"

theorem comments_ordered_iff_crowded :
    ∃ front t, tokenize crowdedSource = .ok (front ++ [t]) ∧ t.comments = ["/* c */", "# d", "/** e */", "/** f */"] ∧
      ∃ comments, HasCommentsBefore crowdedSource front t comments ∧
        (t.comments = comments ↔ comments.Pairwise fun a b => isDocText a = true → isDocText b = true) := by
  have read : tokenize crowdedSource = .ok
      [⟨.openTag, ⟨0, 6⟩, ⟨0, 0, 0⟩, "<?php", none, []⟩,
        ⟨.ident, ⟨24, 25⟩, ⟨24, 0, 24⟩, "x", some "/** b */", ["/** a */"]⟩,
        ⟨.eof, ⟨55, 55⟩, ⟨55, 1, 17⟩, "", none, ["/* c */", "# d", "/** e */", "/** f */"]⟩] := by
    decide +kernel
  refine ⟨[_, _], _, read, rfl, ?_⟩
  obtain ⟨⟨comments, here⟩, kept⟩ := @comments_ordered_iff _ _ [_, _] [] _ read rfl
  exact ⟨comments, here, ((kept comments here).2 rfl).2.2⟩

/-- Every token keeps the comments in front of it in the order of the source. -/
def CommentsInOrder (source : String) : Prop :=
  ∀ tokens, tokenize source = .ok tokens → ∀ front t back, tokens = front ++ t :: back →
    ∀ comments, HasCommentsBefore source front t comments →
      (t.kind ≠ .eof → t.doc = lastDoc? comments ∧ t.comments = withoutLastDoc comments) ∧ (t.kind = .eof → t.comments = comments)

/-- A line comment stands behind a doc comment, in front of another doc comment or in front of the end. -/
theorem not_commentsInOrder :
    ¬CommentsInOrder "<?php /** a */ // b\n/** c */ x;" ∧ ¬CommentsInOrder "<?php /** a */ // b" := by
  have doc : IsBlockComment "/** a */".toList := ⟨"* a ".toList, by decide, by decide⟩
  have later : IsBlockComment "/** c */".toList := ⟨"* c ".toList, by decide, by decide⟩
  have line {behind : List Char} (ends : behind = [] ∨ ∃ rest, behind = '\n' :: rest) : IsLineComment "// b".toList behind :=
    ⟨⟨" b".toList, .inl (by decide)⟩, by decide, by decide, ends.imp_right .inl⟩
  refine ⟨fun ordered => ?_, fun ordered => ?_⟩
  · have read : tokenize "<?php /** a */ // b\n/** c */ x;" = .ok
        [⟨.openTag, ⟨0, 6⟩, ⟨0, 0, 0⟩, "<?php", none, []⟩,
          ⟨.ident, ⟨29, 30⟩, ⟨29, 1, 9⟩, "x", some "/** c */", ["// b", "/** a */"]⟩,
          ⟨.semicolon, ⟨30, 31⟩, ⟨30, 1, 10⟩, ";", none, []⟩, ⟨.eof, ⟨31, 31⟩, ⟨31, 1, 11⟩, "", none, []⟩] := by
      decide +kernel
    have gaps : HasComments "x;".toList ("/** a */".toList ++ ' ' :: ("// b".toList ++ '\n' :: ("/** c */".toList ++ [' '])))
        ["/** a */", "// b", "/** c */"] :=
      .block doc <| .space rfl <| .line (line (.inr ⟨_, rfl⟩)) <| .space rfl <| .block later <| .space rfl .nil
    have kept := ordered _ read [_] _ _ rfl _ ⟨"<?php ".toList, _, _, by decide, rfl, rfl, gaps⟩
    exact absurd (kept.1 (by decide)).2 (by decide)
  · have read : tokenize "<?php /** a */ // b" = .ok
        [⟨.openTag, ⟨0, 6⟩, ⟨0, 0, 0⟩, "<?php", none, []⟩,
          ⟨.eof, ⟨19, 19⟩, ⟨19, 0, 19⟩, "", none, ["// b", "/** a */"]⟩] := by
      decide +kernel
    have gaps : HasComments [] ("/** a */".toList ++ ' ' :: ("// b".toList ++ [])) ["/** a */", "// b"] :=
      .block doc <| .space rfl <| .line (line (.inl rfl)) .nil
    have kept := ordered _ read [_] _ _ rfl _ ⟨"<?php ".toList, _, _, by decide, rfl, rfl, gaps⟩
    exact absurd (kept.2 rfl) (by decide)

end Codewright.Php
