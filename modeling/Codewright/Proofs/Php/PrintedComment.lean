import Codewright.Php.Printer
import Codewright.Proofs.Php.Gaps
import Codewright.Proofs.Php.RawText
import Codewright.Proofs.Text.Layout
import Codewright.Proofs.Text.Space

/-!
# Printed comments

A comment is printed line by line, each line at the level of indentation. White space at the ends of its lines is all that changes.

* `commentLines` – what the lines of a comment say; `Gap.lines` – what the comments of a gap say;
* `IsComment` – a comment as tokens carry it;
* `SameComment c d` – two texts are read as a comment of the same kind that says the same;
* `exists_sameComment` – a comment is printed as the same comment with any two units of indentation.
-/

namespace Codewright.Php

open Text

/-- What the lines of a comment say: each without the white space around it. -/
def commentLines (text : String) : List (List Char) := (lines text.toList).map trim

/-- What the comments of a gap say, the doc comment first. -/
def Lexer.Gap.lines (g : Gap) : Option (List (List Char)) × List (List (List Char)) :=
  (g.doc.map commentLines, g.comments.map commentLines)

namespace Lexer

variable {cs s t l m rest : List Char}

/-! ## Where block comments end -/

theorem blockEnd?_eq_none_iff : blockEnd? cs = none ↔ ¬['*', '/'] <:+: cs := by
  induction cs with
  | nil => simp [blockEnd?]
  | cons c cs ih =>
    have start : ['*', '/'] <+: c :: cs ↔ (c == '*' && headIs (· == '/') cs) = true := by
      rw [List.cons_prefix_cons, Bool.and_eq_true, beq_iff_eq, headIs_iff]
      refine and_congr eq_comm ?_
      cases cs with
      | nil => simp
      | cons d cs => simp [List.cons_prefix_cons, eq_comm]
    rw [blockEnd?, List.infix_cons_iff, start]
    split
    · next here => simp [here]
    · next not_here => simp [not_here, ih]

/-- The comment ends at the first mark of its end. -/
theorem blockEnd?_append {body : List Char} (first : ¬['*', '/'] <:+: body ++ ['*']) (rest : List Char) :
    blockEnd? (body ++ '*' :: '/' :: rest) = some (body.length + 2) := by
  induction body with
  | nil => rfl
  | cons c body ih =>
    rw [List.cons_append, List.infix_cons_iff, not_or] at first
    have not_here : ¬(c == '*' && headIs (· == '/') (body ++ '*' :: '/' :: rest)) = true := by
      rw [Bool.and_eq_true, beq_iff_eq, headIs_iff]
      rintro ⟨rfl, slash⟩
      refine first.1 (List.cons_prefix_cons.2 ⟨rfl, ?_⟩)
      cases body with
      | nil => cases slash
      | cons d body =>
        cases slash
        exact ⟨_, rfl⟩
    rw [List.cons_append, blockEnd?, if_neg not_here, ih first.2]
    rfl

/-- A text that ends with the first mark of an end. -/
def EndsBlock (cs : List Char) : Prop := ∃ body, cs = body ++ ['*', '/'] ∧ ¬['*', '/'] <:+: body ++ ['*']

theorem EndsBlock.blockEnd?_eq (h : EndsBlock cs) (rest : List Char) : blockEnd? (cs ++ rest) = some cs.length := by
  obtain ⟨body, rfl, first⟩ := h
  rw [List.append_assoc]
  exact (blockEnd?_append first rest).trans (by simp)

/-- A character that is no part of the mark stands in front of none. -/
theorem infix_append_cons {c : Char} (star : c ≠ '*') (slash : c ≠ '/') (h : ['*', '/'] <:+: s ++ c :: t) :
    ['*', '/'] <:+: s ∨ ['*', '/'] <:+: t := by
  induction s with
  | nil =>
    rcases List.infix_cons_iff.1 h with start | later
    · exact absurd (List.cons_prefix_cons.1 start).1.symm star
    · exact .inr later
  | cons d s ih =>
    rcases List.infix_cons_iff.1 h with start | later
    · left
      obtain ⟨rfl, behind⟩ := List.cons_prefix_cons.1 start
      cases s with
      | nil => exact absurd (List.cons_prefix_cons.1 behind).1.symm slash
      | cons e s =>
        obtain rfl : '/' = e := (List.cons_prefix_cons.1 behind).1
        exact ⟨[], s, rfl⟩
    · exact (ih later).imp_left fun inside => List.infix_cons_iff.2 (.inr inside)

theorem EndsBlock.cons (c : Char) (star : c ≠ '*') (h : EndsBlock cs) : EndsBlock (c :: cs) := by
  obtain ⟨body, rfl, first⟩ := h
  refine ⟨c :: body, rfl, fun inside => ?_⟩
  rcases List.infix_cons_iff.1 inside with start | later
  · exact star (List.cons_prefix_cons.1 start).1.symm
  · exact first later

/-- Lines without a mark of an end may stand in front. -/
theorem EndsBlock.line (h : EndsBlock cs) (no_end : ¬['*', '/'] <:+: l) : EndsBlock (l ++ '\n' :: cs) := by
  obtain ⟨body, rfl, first⟩ := h
  refine ⟨l ++ '\n' :: body, by simp, fun inside => ?_⟩
  rw [List.append_assoc, List.cons_append] at inside
  exact (infix_append_cons (by decide) (by decide) inside).elim no_end first

/-- Spaces may stand in front. -/
theorem EndsBlock.pad (h : EndsBlock cs) (blank : ∀ c ∈ s, c = ' ') : EndsBlock (s ++ cs) := by
  induction s with
  | nil => exact h
  | cons c s ih =>
    rw [List.forall_mem_cons] at blank
    exact (ih blank.2).cons c (by rw [blank.1]; decide)

theorem not_infix_pad (h : ¬['*', '/'] <:+: cs) (blank : ∀ c ∈ s, c = ' ') : ¬['*', '/'] <:+: s ++ cs := by
  induction s with
  | nil => exact h
  | cons c s ih =>
    rw [List.forall_mem_cons] at blank
    rw [List.cons_append, List.infix_cons_iff, not_or]
    refine ⟨fun start => ?_, ih blank.2⟩
    have := (List.cons_prefix_cons.1 start).1
    rw [blank.1] at this
    exact absurd this (by decide)

/-! ## The lines of block comments -/

theorem prefix_dropReturn (l : List Char) : dropReturn l <+: l := by
  unfold dropReturn
  split_ifs
  · exact List.dropLast_prefix l
  · exact List.prefix_refl l

theorem trim_dropReturn (l : List Char) : trim (dropReturn l) = trim l := by
  unfold dropReturn
  split_ifs with carriage
  · obtain ⟨l, rfl⟩ := List.getLast?_eq_some_iff.1 carriage
    rw [List.dropLast_concat, trim_append_space (List.all_eq_true.1 rfl)]
  · rfl

theorem prefix_trimEnd (l : List Char) : trimEnd l <+: l := by
  obtain ⟨tail, whole, -⟩ := exists_dropped isSpace l
  exact ⟨tail, whole.symm⟩

/-- Trimming takes from both ends. -/
theorem infix_trim (l : List Char) : trim l <:+: l := by
  have suffix : trimStart l <:+ l := List.dropWhile_suffix isSpace
  exact (prefix_trimEnd (trimStart l)).isInfix.trans suffix.isInfix

theorem EndsBlock.trimEnd_eq (h : EndsBlock l) : trimEnd l = l := by
  obtain ⟨body, rfl, -⟩ := h
  have slash : isSpace '/' = false := rfl
  have whole : body ++ ['*', '/'] = (body ++ ['*']) ++ '/' :: [] := by simp
  rw [whole]
  exact dropWhileEnd_append_cons slash

theorem EndsBlock.trimmed (h : EndsBlock l) : EndsBlock (trim l) := by
  have start : EndsBlock (trimStart l) := by
    obtain ⟨body, rfl, first⟩ := h
    refine ⟨trimStart body, ?_, fun inside => first ?_⟩
    · induction body with
      | nil => rfl
      | cons c body ih =>
        have first' : ¬['*', '/'] <:+: body ++ ['*'] := fun inside => first (List.infix_cons_iff.2 (.inr inside))
        cases space : isSpace c with
        | false => simp [trimStart, space]
        | true =>
          have dropped (t : List Char) : trimStart (c :: t) = trimStart t := List.dropWhile_cons_of_pos space
          rw [List.cons_append, dropped, dropped, ih first']
    · have suffix : trimStart body <:+ body := List.dropWhile_suffix isSpace
      obtain ⟨front, whole⟩ := suffix
      refine inside.trans ⟨front, [], ?_⟩
      rw [List.append_nil, ← List.append_assoc, whole]
  rw [trim, start.trimEnd_eq]
  exact start

/-- The lines of a block comment behind its mark: the last one ends with the first mark of an end. -/
def ClosesBlock : List (List Char) → Prop
  | [] => False
  | [l] => EndsBlock l
  | l :: m :: ls => ¬['*', '/'] <:+: l ∧ ClosesBlock (m :: ls)

theorem ClosesBlock.map {f : List Char → List Char} (keeps : ∀ l, EndsBlock l → EndsBlock (f l))
    (none_new : ∀ l, f l <:+: l) {ls : List (List Char)} (h : ClosesBlock ls) : ClosesBlock (ls.map f) := by
  fun_induction ClosesBlock ls with
  | case1 => exact h
  | case2 l => exact keeps l h
  | case3 l m ls ih => exact ⟨fun inside => h.1 (inside.trans (none_new l)), ih h.2⟩

/-- Behind a line feed a comment goes on. -/
theorem EndsBlock.of_line (h : EndsBlock (l ++ '\n' :: cs)) : ¬['*', '/'] <:+: l ∧ EndsBlock cs := by
  obtain ⟨body, whole, first⟩ := h
  rcases List.append_eq_append_iff.1 whole with ⟨t, rfl, behind⟩ | ⟨t, rfl, behind⟩
  · cases t with
    | nil => cases behind
    | cons c t =>
      cases behind
      refine ⟨fun inside => first (inside.trans ?_), t, rfl, fun inside => first (inside.trans ?_)⟩
      · exact ((List.prefix_append l _).trans (List.prefix_append _ _)).isInfix
      · exact ⟨l ++ ['\n'], [], by simp⟩
  · have feed : '\n' ∈ ['*', '/'] := by
      rw [behind]
      simp
    exact absurd feed (by decide)

theorem EndsBlock.ne_nil (h : EndsBlock l) : l ≠ [] := by
  obtain ⟨body, rfl, -⟩ := h
  simp

/-- The lines of a text that ends a comment. -/
theorem EndsBlock.closes_lines (h : EndsBlock cs) : (∀ l ∈ lines cs, '\n' ∉ l) ∧ ClosesBlock (lines cs) := by
  induction cs using lines_induction with
  | nil => exact absurd rfl h.ne_nil
  | last l one some_char =>
    rw [lines_of_no_feed one some_char]
    exact ⟨by simpa using one, h⟩
  | line l cs one ih =>
    obtain ⟨no_end, behind⟩ := h.of_line
    obtain ⟨all, closes⟩ := ih behind
    rw [lines_append_feed one]
    refine ⟨List.forall_mem_cons.2 ⟨fun feed => one ((prefix_dropReturn l).subset feed), all⟩, ?_⟩
    cases cut : lines cs with
    | nil =>
      rw [cut] at closes
      exact closes.elim
    | cons m ls =>
      rw [cut] at closes
      exact ⟨fun inside => no_end (inside.trans (prefix_dropReturn l).isInfix), closes⟩

/-- The lines of a text that ends a comment, when something without line feeds stands in front. -/
theorem EndsBlock.exists_lines {front : List Char} (one : '\n' ∉ front) (h : EndsBlock cs) :
    ∃ m ls m', '\n' ∉ m ∧ (∀ l ∈ ls, '\n' ∉ l) ∧ ClosesBlock (m :: ls) ∧ lines (front ++ cs) = m' :: ls ∧
      trim m' = trim (front ++ m) := by
  induction cs using lines_induction with
  | nil => exact absurd rfl h.ne_nil
  | last l one' some_char =>
    refine ⟨l, [], _, one', by simp, h, lines_of_no_feed ?_ (by simp [some_char]), rfl⟩
    rw [List.mem_append, not_or]
    exact ⟨one, one'⟩
  | line l cs one' _ =>
    obtain ⟨no_end, behind⟩ := h.of_line
    obtain ⟨all, closes⟩ := behind.closes_lines
    have one_line : '\n' ∉ front ++ l := by
      rw [List.mem_append, not_or]
      exact ⟨one, one'⟩
    refine ⟨l, lines cs, _, one', all, ?_, by rw [← List.append_assoc, lines_append_feed one_line], trim_dropReturn _⟩
    cases cut : lines cs with
    | nil =>
      rw [cut] at closes
      exact closes.elim
    | cons m ls =>
      rw [cut] at closes
      exact ⟨no_end, closes⟩

/-! ## Printed lines -/

/-- A line of a comment behind its first one, as it is printed. -/
def paddedLine (indent l : List Char) : List Char :=
  if l.isEmpty then ['\n'] else (if l.head? == some '*' then indent ++ [' '] else indent) ++ (l ++ ['\n'])

theorem exists_pad {indent : List Char} (blank : ∀ c ∈ indent, c = ' ') (l : List Char) :
    ∃ pad, (∀ c ∈ pad, c = ' ') ∧ paddedLine indent l = pad ++ (l ++ ['\n']) := by
  unfold paddedLine
  split
  · next empty => exact ⟨[], by simp, by simp_all⟩
  split
  · exact ⟨indent ++ [' '], by simpa [or_imp, forall_and] using blank, rfl⟩
  · exact ⟨indent, blank, rfl⟩

/-- The printed lines end with a line feed; what stands before it ends a comment and says what the lines say. -/
theorem ClosesBlock.exists_printed {indent m front : List Char} {ls : List (List Char)} (blank : ∀ c ∈ indent, c = ' ')
    (one : '\n' ∉ front ++ m) (all : ∀ l ∈ ls, '\n' ∉ l) (h : ClosesBlock (m :: ls)) :
    ∃ cs, m ++ '\n' :: ls.flatMap (paddedLine indent) = cs ++ ['\n'] ∧ EndsBlock cs ∧
      (lines (front ++ cs)).map trim = trim (front ++ m) :: ls.map trim := by
  induction ls generalizing m front with
  | nil =>
    have ends : EndsBlock m := h
    refine ⟨m, rfl, ends, ?_⟩
    rw [lines_of_no_feed one (by simp [ends.ne_nil])]
    rfl
  | cons l ls ih =>
    rw [List.forall_mem_cons] at all
    obtain ⟨pad, spaces, padded⟩ := exists_pad blank l
    have space : ∀ c ∈ pad, isSpace c = true := fun c hc => by rw [spaces c hc]; rfl
    have one' : '\n' ∉ [] ++ (pad ++ l) := by
      rw [List.nil_append, List.mem_append, not_or]
      exact ⟨fun feed => absurd (spaces _ feed) (by decide), all.1⟩
    have closes : ClosesBlock ((pad ++ l) :: ls) := by
      cases ls with
      | nil => exact EndsBlock.pad h.2 spaces
      | cons l' ls => exact ⟨not_infix_pad h.2.1 spaces, h.2.2⟩
    obtain ⟨cs, printed, ends, same⟩ := ih one' all.2 closes
    refine ⟨m ++ '\n' :: cs, ?_, ends.line h.1, ?_⟩
    · have whole : m ++ '\n' :: (l :: ls).flatMap (paddedLine indent) =
          m ++ '\n' :: (pad ++ l ++ '\n' :: ls.flatMap (paddedLine indent)) := by
        simp [padded]
      rw [whole, printed]
      simp
    · rw [← List.append_assoc, lines_append_feed one, List.map_cons, trim_dropReturn, List.map_cons]
      rw [List.nil_append, List.nil_append] at same
      rw [same, trim_space_append space]

/-! ## Printed comments -/

/-- A comment as tokens carry it: a line comment without white space at its end, or a block comment. -/
def IsComment (text : List Char) : Prop :=
  (∃ whole behind, IsLineComment whole behind ∧ text = trimEnd whole) ∨ IsBlockComment text

/-- The comments of a gap. -/
theorem isComment_of_isGap {behind gap : List Char} {comments : Multiset String} (h : IsGap behind gap comments) :
    ∀ c ∈ comments, IsComment c.toList := by
  induction h with
  | nil => simp
  | space _ _ ih => exact ih
  | line is_line _ ih =>
    refine Multiset.forall_mem_cons.2 ⟨.inl ⟨_, _, is_line, String.toList_ofList⟩, ih⟩
  | block is_block _ ih =>
    refine Multiset.forall_mem_cons.2 ⟨.inr ?_, ih⟩
    rw [String.toList_ofList]
    exact is_block

/-- In front of a line feed, each text is read as a comment, both of the same kind, and they say the same. -/
def SameComment (s t : List Char) : Prop :=
  ∃ c s' t' piece, s = c :: s' ∧ t = c :: t' ∧
    (∀ rest, gapPiece? c (s' ++ '\n' :: rest) = .ok (some (piece, s'.length))) ∧
    (∀ rest, gapPiece? c (t' ++ '\n' :: rest) = .ok (some (piece, t'.length))) ∧
    ∀ g g' : Gap, g.lines = g'.lines → (g.add s piece).lines = (g'.add t piece).lines

/-- The lines of a printed comment. -/
theorem chars_commentDoc {unit text : String} {level : Nat} {first : List Char} {ls : List (List Char)}
    (cut : lines text.toList = first :: ls) (some_char : trim first ≠ []) :
    Doc.chars unit (commentDoc level text) =
      (List.replicate level unit.toList).flatten ++
        (trim first ++ '\n' :: (ls.map trim).flatMap (paddedLine (List.replicate level unit.toList).flatten)) := by
  have later (k : Nat) (some_line : 0 < k) :
      (((ls.zipIdx k).map fun raw =>
        let l := trim raw.1
        if l.isEmpty then Doc.blankLine
        else if 0 < raw.2 && l.head? == some '*' then Doc.line level (.text " " :: [.text (String.ofList l)])
        else Doc.line level [.text (String.ofList l)]).map (Doc.chars unit)).flatten =
      (ls.map trim).flatMap (paddedLine (List.replicate level unit.toList).flatten) := by
    clear cut
    induction ls generalizing k with
    | nil => rfl
    | cons l ls ih =>
      rw [List.zipIdx_cons, List.map_cons, List.map_cons, List.flatten_cons, ih (k + 1) (by omega), List.map_cons,
        List.flatMap_cons]
      congr 1
      unfold paddedLine
      dsimp only
      split
      · exact Doc.chars_blankLine unit
      · rw [decide_eq_true some_line, Bool.true_and]
        split <;> simp [Doc.chars_line]
  have first_text : (trim first).isEmpty = false := by simpa using some_char
  rw [commentDoc, cut, List.zipIdx_cons, List.map_cons, Doc.chars_flatten, List.map_cons, List.flatten_cons, later 1 Nat.one_pos]
  simp [first_text, Doc.chars_line]

/-- A line comment ends in front of a line feed, of a closing tag and at the end of the source. -/
theorem lineCommentLength_append_behind {behind : List Char} (one : '\n' ∉ s) (no_tag : ¬['?', '>'] <:+: s)
    (ends : behind = [] ∨ (∃ rest, behind = '\n' :: rest) ∨ ∃ rest, behind = '?' :: '>' :: rest) :
    lineCommentLength (s ++ behind) = s.length := by
  induction s with
  | nil => rcases ends with rfl | ⟨rest, rfl⟩ | ⟨rest, rfl⟩ <;> rfl
  | cons c s ih =>
    rw [List.mem_cons, not_or] at one
    rw [List.infix_cons_iff, not_or] at no_tag
    have goes_on : ¬(c == '\n' || (c == '?' && headIs (· == '>') (s ++ behind))) = true := by
      rw [Bool.or_eq_true, Bool.and_eq_true, beq_iff_eq, beq_iff_eq, headIs_iff, not_or]
      refine ⟨Ne.symm one.1, ?_⟩
      rintro ⟨rfl, tag⟩
      refine no_tag.1 (List.cons_prefix_cons.2 ⟨rfl, ?_⟩)
      cases s with
      | nil => rcases ends with rfl | ⟨rest, rfl⟩ | ⟨rest, rfl⟩ <;> cases tag
      | cons d s =>
        cases tag
        exact ⟨s, rfl⟩
    rw [List.cons_append, lineCommentLength, if_neg goes_on, ih one.2 no_tag.2]
    rfl

theorem lineCommentLength_append (one : '\n' ∉ s) (no_tag : ¬['?', '>'] <:+: s) (rest : List Char) :
    lineCommentLength (s ++ '\n' :: rest) = s.length :=
  lineCommentLength_append_behind one no_tag (.inr (.inl ⟨rest, rfl⟩))

theorem lines_addPlain {g g' : Gap} {a b : String} (same : g.lines = g'.lines) (text : commentLines a = commentLines b) :
    (g.addPlain a).lines = (g'.addPlain b).lines := by
  obtain ⟨doc, comments⟩ := Prod.mk.inj same
  simp only [Gap.lines, Gap.addPlain, List.map_append, List.map_singleton, doc, comments, text]

theorem lines_addDoc {g g' : Gap} {a b : String} (same : g.lines = g'.lines) (text : commentLines a = commentLines b) :
    (g.addDoc a).lines = (g'.addDoc b).lines := by
  obtain ⟨doc, comments⟩ := Prod.mk.inj same
  have docs : g.doc.toList.map commentLines = g'.doc.toList.map commentLines := by
    rw [← Option.toList_map, ← Option.toList_map, doc]
  simp only [Gap.lines, Gap.addDoc, List.map_append, Option.map_some, docs, comments, text]

/-- A line comment is printed as it is. -/
theorem sameComment_line {whole behind : List Char} (h : IsLineComment whole behind) :
    trim (trimEnd whole) = trimEnd whole ∧ trimEnd whole ≠ [] ∧ '\n' ∉ trimEnd whole ∧
      SameComment (trimEnd whole) (trimEnd whole) := by
  have start : trimStart whole = whole := by
    obtain ⟨body, rfl | ⟨rfl, -⟩⟩ := h.opens <;> rfl
  have once : trim whole = trimEnd whole := by rw [trim, start]
  have one : '\n' ∉ trimEnd whole := fun feed => h.one_line ((prefix_trimEnd whole).subset feed)
  have no_tag : ¬['?', '>'] <:+: trimEnd whole := fun tag => h.no_tag (tag.trans (prefix_trimEnd whole).isInfix)
  refine ⟨by rw [← once, trim_trim], ?_⟩
  have keeps (g g' : Gap) (same : g.lines = g'.lines) :
      (g.add (trimEnd whole) .lineComment).lines = (g'.add (trimEnd whole) .lineComment).lines := lines_addPlain same rfl
  obtain ⟨body, text | ⟨text, no_group⟩⟩ := h.opens
  · have slashes : trimEnd whole = '/' :: '/' :: trimEnd body := by
      rw [text]
      exact dropWhileEnd_append_cons (a := ['/']) (show isSpace '/' = false from rfl)
    rw [slashes] at one no_tag keeps ⊢
    have length (rest : List Char) := lineCommentLength_append (s := '/' :: trimEnd body)
      (fun feed => one (List.mem_cons_of_mem _ feed)) (fun tag => no_tag (tag.trans (List.suffix_cons _ _).isInfix)) rest
    refine ⟨by simp, one, '/', '/' :: trimEnd body, '/' :: trimEnd body, .lineComment, rfl, rfl, fun rest => ?_, fun rest => ?_, keeps⟩
    all_goals
      rw [← length rest]
      rfl
  · have hash : trimEnd whole = '#' :: trimEnd body := by
      rw [text]
      exact dropWhileEnd_append_cons (a := []) (show isSpace '#' = false from rfl)
    rw [hash] at one no_tag keeps ⊢
    have length (rest : List Char) := lineCommentLength_append (s := trimEnd body)
      (fun feed => one (List.mem_cons_of_mem _ feed)) (fun tag => no_tag (tag.trans (List.suffix_cons _ _).isInfix)) rest
    have other (rest : List Char) : headIs (· == '[') (trimEnd body ++ '\n' :: rest) = false := by
      obtain ⟨more, whole⟩ := prefix_trimEnd body
      cases trimmed : trimEnd body with
      | nil => rfl
      | cons c t =>
        rw [trimmed] at whole
        rw [← whole] at no_group
        simpa [headIs] using no_group
    have piece (rest : List Char) :
        gapPiece? '#' (trimEnd body ++ '\n' :: rest) = .ok (some (.lineComment, (trimEnd body).length)) := by
      rw [← length rest, gapPiece?, other]
      rfl
    exact ⟨by simp, one, '#', trimEnd body, trimEnd body, .lineComment, rfl, rfl, piece, piece, keeps⟩

/-- A block comment that begins so is a doc comment. -/
def isDocMark (cs : List Char) : Bool := headIs (· == '*') cs && !headIs (· == '/') (cs.drop 1)

theorem SameLine.isDocMark_eq (h : SameLine s t) : isDocMark s = isDocMark t := by
  cases h with
  | nil => rfl
  | feed s t => rfl
  | @cons c s t h =>
    change (c == '*' && !headIs _ s) = (c == '*' && !headIs _ t)
    rw [h.headIs_eq]

theorem EndsBlock.gapPiece?_eq (h : EndsBlock cs) (rest : List Char) :
    gapPiece? '/' ('*' :: (cs ++ rest)) =
      .ok (some (if isDocMark (cs ++ rest) then .docComment else .blockComment, ('*' :: cs).length)) := by
  have found : blockComment? (cs ++ rest) =
      some (if isDocMark (cs ++ rest) then .docComment else .blockComment, cs.length + 1) := by
    rw [blockComment?, h.blockEnd?_eq]
    rfl
  have no_space : isSpace '/' = false := by decide
  simp [gapPiece?, headIs, no_space, found]

theorem ClosesBlock.printed_lines {m : List Char} {ls : List (List Char)} (h : ClosesBlock (m :: ls)) :
    ClosesBlock (trimEnd m :: ls.map trim) := by
  cases ls with
  | nil =>
    have ends : EndsBlock m := h
    have same := ends.trimEnd_eq
    exact same.symm ▸ ends
  | cons l ls =>
    exact ⟨fun inside => h.1 (inside.trans (prefix_trimEnd m).isInfix), h.2.map (fun _ => .trimmed) infix_trim⟩

theorem sameLine_append (front s t : List Char) : SameLine (front ++ '\n' :: s) (front ++ '\n' :: t) := by
  induction front with
  | nil => exact .feed s t
  | cons c front ih => exact .cons c ih

/-- **Printed comments.** With any two indentations of spaces, a comment is printed as texts that are read as comments of the same kind and
say the same. -/
theorem exists_sameComment {text u v : String} (h : IsComment text.toList) (hu : ∀ c ∈ u.toList, c = ' ')
    (hv : ∀ c ∈ v.toList, c = ' ') (level : Nat) :
    ∃ i j s t, (∀ c ∈ i, c = ' ') ∧ (∀ c ∈ j, c = ' ') ∧ SameComment s t ∧
      Doc.chars u (commentDoc level text) = i ++ (s ++ ['\n']) ∧ Doc.chars v (commentDoc level text) = j ++ (t ++ ['\n']) := by
  have spaces {unit : String} (blank : ∀ c ∈ unit.toList, c = ' ') :
      ∀ c ∈ (List.replicate level unit.toList).flatten, c = ' ' := by
    intro c hc
    obtain ⟨l, hl, hc⟩ := List.mem_flatten.1 hc
    exact blank c (List.eq_of_mem_replicate hl ▸ hc)
  rcases h with ⟨whole, behind, is_line, same⟩ | ⟨body, same, first⟩
  · obtain ⟨trimmed, some_char, one, comment⟩ := sameComment_line is_line
    rw [← same] at trimmed some_char one comment
    have cut := lines_of_no_feed one some_char
    refine ⟨_, _, _, _, spaces hu, spaces hv, comment, ?_, ?_⟩
    all_goals
      rw [chars_commentDoc cut (trimmed.symm ▸ some_char), trimmed]
      rfl
  · have ends : EndsBlock (body ++ ['*', '/']) := ⟨body, rfl, first⟩
    obtain ⟨m, ls, m', one, all, closes, cut, same'⟩ := ends.exists_lines (show '\n' ∉ ['/', '*'] by decide)
    have first_line : trim m' = '/' :: '*' :: trimEnd m := by
      rw [same']
      exact dropWhileEnd_append_cons (a := ['/']) (show isSpace '*' = false from rfl)
    have cut : lines text.toList = m' :: ls := by rw [same]; exact cut
    have one_line : '\n' ∉ ['/', '*'] ++ trimEnd m := by
      rw [List.mem_append, not_or]
      exact ⟨by decide, fun feed => one ((prefix_trimEnd m).subset feed)⟩
    have all_lines : ∀ l ∈ ls.map trim, '\n' ∉ l := by
      intro l hl feed
      obtain ⟨l, member, rfl⟩ := List.mem_map.1 hl
      exact all l member ((infix_trim l).subset feed)
    obtain ⟨x, printed, ends_x, said⟩ := closes.printed_lines.exists_printed (spaces hu) one_line all_lines
    obtain ⟨y, printed', ends_y, said'⟩ := closes.printed_lines.exists_printed (spaces hv) one_line all_lines
    have some_char : trim m' ≠ [] := by simp [first_line]
    -- Whether it is a doc comment is told by the first line, which is printed the same.
    have piece {z tail : List Char} (ends : EndsBlock z) (printed : trimEnd m ++ '\n' :: tail = z ++ ['\n']) (rest : List Char) :
        gapPiece? '/' (('*' :: z) ++ '\n' :: rest) =
          .ok (some (if isDocMark (trimEnd m ++ ['\n']) then .docComment else .blockComment, ('*' :: z).length)) := by
      have whole : z ++ '\n' :: rest = trimEnd m ++ '\n' :: (tail ++ rest) := by
        rw [List.append_cons, ← printed]
        simp
      rw [(sameLine_append (trimEnd m) [] (tail ++ rest)).isDocMark_eq, ← whole]
      exact ends.gapPiece?_eq _
    refine ⟨_, _, '/' :: '*' :: x, '/' :: '*' :: y, spaces hu, spaces hv,
      ⟨'/', '*' :: x, '*' :: y, _, rfl, rfl, piece ends_x printed, piece ends_y printed', fun g g' same => ?_⟩, ?_, ?_⟩
    · have text : commentLines (String.ofList ('/' :: '*' :: x)) = commentLines (String.ofList ('/' :: '*' :: y)) := by
        rw [commentLines, commentLines, String.toList_ofList, String.toList_ofList]
        exact said.trans said'.symm
      split
      · exact lines_addDoc same text
      · exact lines_addPlain same text
    · rw [chars_commentDoc cut some_char, first_line, List.cons_append, List.cons_append, printed]
      rfl
    · rw [chars_commentDoc cut some_char, first_line, List.cons_append, List.cons_append, printed']
      rfl

end Lexer

end Codewright.Php
