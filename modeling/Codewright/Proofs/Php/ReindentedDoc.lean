import Codewright.Php.Printer
import Codewright.Proofs.Php.Reindent
import Codewright.Proofs.Text.Layout

/-!
# Documents written out with two units of indentation

* `IsCodeText w` – a text that stands on a line with what follows it, in whatever way that is indented;
* `Inline u v d` – the document `d`, written out with the units `u` and `v`, is the same code in two indentations, in front of code
  that goes on with no name;
* `OnLines u v d` – the same for a document of whole lines;
* `Inline.text`, `Inline.before`, `Inline.inBraces`, `OnLines.line`, … – one rule for each way to build documents.
-/

namespace Codewright.Php

open Text Lexer

/-! ## Texts of code -/

/-- In front of two texts that differ in their indentation, the text makes such texts. -/
structure IsCodeText (w : String) : Prop where
  reindented : ∀ s t, Reindented s t → Reindented (w.toList ++ s) (w.toList ++ t)

/-- The character is one of code in front of the list, whatever stands behind the list. -/
def isCodeBefore (c : Char) : List Char → Bool
  | [] => isInner c
  | [d] => d != '<' && isCode c [d]
  | d :: e :: _ => isCode c [d, e]

theorem isCode_append {c : Char} {cs : List Char} (h : isCodeBefore c cs = true) (rest : List Char) :
    isCode c (cs ++ rest) = true := by
  match cs with
  | [] => exact isCode_of_isInner h _
  | [d] =>
    rw [isCodeBefore, Bool.and_eq_true, bne_iff_ne] at h
    have no_bracket : ('<' == d) = false := beq_eq_false_iff_ne.2 (Ne.symm h.1)
    have code := h.2
    simp only [isCode, headIs, List.isPrefixOf, no_bracket, Bool.false_and, List.cons_append, List.nil_append] at code ⊢
    exact code
  | d :: e :: cs => exact h

/-- All characters of the list are ones of code where they stand, whatever stands behind the list. -/
def isCodeWord : List Char → Bool
  | [] => true
  | c :: cs => isCodeBefore c cs && isCodeWord cs

namespace IsCodeText

variable {v w : String}

theorem of_isCodeWord (h : isCodeWord w.toList = true) : IsCodeText w := by
  refine ⟨fun s t same => ?_⟩
  induction cut : w.toList generalizing w with
  | nil => exact same
  | cons c cs ih =>
    rw [cut, isCodeWord.eq_def, Bool.and_eq_true] at h
    have later := ih (w := String.ofList cs) (by simpa using h.2) String.toList_ofList
    exact .char (isCode_append h.1 s) later

theorem of_inner (h : ∀ c ∈ w.toList, isInner c = true) : IsCodeText w := by
  refine ⟨fun s t same => ?_⟩
  generalize w.toList = cs at h
  induction cs with
  | nil => exact same
  | cons c cs ih =>
    rw [List.forall_mem_cons] at h
    exact .char (isCode_of_isInner h.1 _) (ih h.2)

theorem empty : IsCodeText "" := .of_isCodeWord rfl

theorem append (h : IsCodeText v) (h' : IsCodeText w) : IsCodeText (v ++ w) := by
  refine ⟨fun s t same => ?_⟩
  rw [String.toList_append, List.append_assoc, List.append_assoc]
  exact h.reindented _ _ (h'.reindented _ _ same)

theorem intercalate {separator : String} (h : IsCodeText separator) {ws : List String} (hs : ∀ w ∈ ws, IsCodeText w) :
    IsCodeText (String.intercalate separator ws) := by
  induction ws with
  | nil => exact .empty
  | cons w ws ih =>
    rw [List.forall_mem_cons] at hs
    cases ws with
    | nil => exact String.intercalate_singleton ▸ hs.1
    | cons w' ws =>
      rw [String.intercalate_cons_cons]
      exact (hs.1.append h).append (ih hs.2)

theorem join {ws : List String} (hs : ∀ w ∈ ws, IsCodeText w) : IsCodeText (String.join ws) := by
  induction ws with
  | nil => exact .empty
  | cons w ws ih =>
    rw [List.forall_mem_cons] at hs
    rw [String.join_cons]
    exact hs.1.append (ih hs.2)

end IsCodeText

/-- The text begins, and with no character of a name. -/
def EndsName (w : String) : Prop := ∀ s, headIs isIdentChar (w.toList ++ s) = false

theorem EndsName.append {v : String} (h : EndsName v) (w : String) : EndsName (v ++ w) := by
  intro s
  rw [String.toList_append, List.append_assoc]
  exact h _

theorem EndsName.chars {w : String} (h : EndsName w) (unit : String) (d : Doc) (s : List Char) :
    headIs isIdentChar (Doc.chars unit (.text w :: d) ++ s) = false := by
  rw [Doc.chars_text_cons, List.append_assoc]
  exact h _

/-- A token that keeps its text, with such a text behind it. -/
theorem IsCodeText.raw_append {v w : String} (h : IsRaw v.toList) (h' : IsCodeText w) (ends : EndsName w) :
    IsCodeText (v ++ w) := by
  refine ⟨fun s t same => ?_⟩
  rw [String.toList_append, List.append_assoc, List.append_assoc]
  exact .raw h (ends s) (h'.reindented _ _ same)

/-! ## Documents of code -/

/-- Written out with either unit in front of code that goes on with no name, the document makes code that differs in its
indentation. -/
structure Inline (u v : String) (d : Doc) : Prop where
  reindented : ∀ s t, Reindented s t → headIs isIdentChar s = false → Reindented (d.chars u ++ s) (d.chars v ++ t)

/-- Written out with either unit at the start of a line, the document makes lines of code that differ in their indentation. -/
structure OnLines (u v : String) (d : Doc) : Prop where
  reindented : ∀ s t, Reindented ('\n' :: s) ('\n' :: t) →
    Reindented ('\n' :: (d.chars u ++ s)) ('\n' :: (d.chars v ++ t))

variable {u v w : String} {d e : Doc}

namespace Inline

theorem nil : Inline u v [] := ⟨fun _ _ same _ => same⟩

theorem text (h : IsCodeText w) (hd : Inline u v d) : Inline u v (.text w :: d) := by
  refine ⟨fun s t same ends => ?_⟩
  rw [Doc.chars_text_cons, Doc.chars_text_cons, List.append_assoc, List.append_assoc]
  exact h.reindented _ _ (hd.reindented s t same ends)

theorem raw (h : IsRaw w.toList) : Inline u v [.text w] := by
  refine ⟨fun s t same ends => ?_⟩
  simpa using Reindented.raw h ends same

/-- A document in front of one that begins with no character of a name. -/
theorem append (hd : Inline u v d) (he : Inline u v e) (ends : ∀ s, headIs isIdentChar (e.chars u ++ s) = false) :
    Inline u v (d ++ e) := by
  refine ⟨fun s t same ends' => ?_⟩
  rw [Doc.chars_append, Doc.chars_append, List.append_assoc, List.append_assoc]
  exact hd.reindented _ _ (he.reindented s t same ends') (ends s)

/-- A document in front of a text that begins with no character of a name. -/
theorem before (hd : Inline u v d) (h : IsCodeText w) (ends : EndsName w) (he : Inline u v e) :
    Inline u v (d ++ .text w :: e) :=
  hd.append (text h he) (ends.chars u e)

/-- Documents with commas between them. -/
theorem commas {ds : List Doc} (h : ∀ d ∈ ds, Inline u v d) : Inline u v (Doc.commas ds) := by
  unfold Doc.commas
  fun_induction Doc.sepBy ", " ds with
  | case1 => exact .nil
  | case2 d => exact h d (by simp)
  | case3 d ds _ ih =>
    rw [List.forall_mem_cons] at h
    exact h.1.before (.of_isCodeWord rfl) (fun _ => rfl) (ih h.2)

/-- An initial value, if there is one. -/
theorem initDoc {value : Option Doc} (h : ∀ d ∈ value, Inline u v d) : Inline u v (initDoc value) := by
  cases value with
  | none => exact .nil
  | some d => exact .text (.of_isCodeWord rfl) (h d rfl)

end Inline

/-! ## Lines -/

theorem spaces_indent {unit : String} (blank : ∀ c ∈ unit.toList, c = ' ') (level : Nat) :
    ∀ c ∈ (List.replicate level unit.toList).flatten, c = ' ' := by
  intro c hc
  obtain ⟨l, hl, hc⟩ := List.mem_flatten.1 hc
  rw [List.eq_of_mem_replicate hl] at hc
  exact blank c hc

namespace OnLines

theorem nil : OnLines u v [] := ⟨fun _ _ same => same⟩

theorem append (h : OnLines u v d) (h' : OnLines u v e) : OnLines u v (d ++ e) := by
  refine ⟨fun s t same => ?_⟩
  rw [Doc.chars_append, Doc.chars_append, List.append_assoc, List.append_assoc]
  exact h.reindented _ _ (h'.reindented s t same)

theorem flatten {ds : List Doc} (h : ∀ d ∈ ds, OnLines u v d) : OnLines u v ds.flatten := by
  induction ds with
  | nil => exact .nil
  | cons d ds ih =>
    rw [List.forall_mem_cons] at h
    exact h.1.append (ih h.2)

theorem blankLine : OnLines u v Doc.blankLine := by
  refine ⟨fun s t same => ?_⟩
  rw [Doc.chars_blankLine, Doc.chars_blankLine]
  exact .feed (i := []) (j := []) (by simp) (by simp) same

/-- A text section with the tags around it. -/
theorem inlineHtml (h : IsHtml w.toList) : OnLines u v [.text ("?>" ++ w ++ "<?php\n")] := by
  refine ⟨fun s t same => ?_⟩
  have chars (unit : String) (rest : List Char) : Doc.chars unit [.text ("?>" ++ w ++ "<?php\n")] ++ rest =
      '?' :: '>' :: (w.toList ++ (openingTag '\n' ++ rest)) := by
    simp [openingTag]
  rw [chars, chars]
  exact .html h same

variable (hu : ∀ c ∈ u.toList, c = ' ') (hv : ∀ c ∈ v.toList, c = ' ')

include hu hv

theorem line (h : Inline u v d) (level : Nat) : OnLines u v (Doc.line level d) := by
  refine ⟨fun s t same => ?_⟩
  rw [Doc.chars_line, Doc.chars_line, List.append_assoc, List.append_assoc, List.append_assoc, List.append_assoc]
  exact .feed (spaces_indent hu level) (spaces_indent hv level) (h.reindented _ _ same rfl)

theorem comment (h : IsComment w.toList) (level : Nat) : OnLines u v (commentDoc level w) := by
  refine ⟨fun s t same => ?_⟩
  obtain ⟨i, j, a, b, hi, hj, alike, left, right⟩ := exists_sameComment h hu hv level
  rw [left, right]
  simp only [List.append_assoc, List.cons_append, List.nil_append]
  exact .comment hi hj alike same

end OnLines

section

variable (hu : ∀ c ∈ u.toList, c = ' ') (hv : ∀ c ∈ v.toList, c = ' ')

include hu hv

/-- Lines in braces inside an expression. -/
theorem Inline.inBraces {w' : String} (h : IsCodeText w) (opens : w' = w ++ " \x7b\n") (hd : OnLines u v d) (level : Nat) :
    Inline u v (.text w' :: (d ++ [.indent level, .text "\x7d"])) := by
  refine ⟨fun s t same _ => ?_⟩
  have closing := (IsCodeText.of_isCodeWord (w := "\x7d") rfl).reindented s t same
  have lines := hd.reindented _ _ (.feed (spaces_indent hu level) (spaces_indent hv level) closing)
  have whole := (h.append (w := " \x7b") (.of_isCodeWord rfl)).reindented _ _ lines
  rw [opens]
  simpa using whole

namespace OnLines

/-- A line that ends with a comma. -/
theorem entry (h : Inline u v d) (level : Nat) : OnLines u v (.indent level :: d ++ [.text ",\n"]) := by
  have whole := line hu hv (h.before (w := ",") (.of_isCodeWord rfl) (fun _ => rfl) .nil) level
  exact ⟨fun s t same => by simpa [Doc.line] using whole.reindented s t same⟩

theorem braced {head body : Doc} (hd : Inline u v head) (hb : OnLines u v body) (level : Nat) :
    OnLines u v (braced level head body) :=
  ((line hu hv (hd.before (.of_isCodeWord rfl) (fun _ => rfl) .nil) level).append hb).append
    (line hu hv (.text (.of_isCodeWord rfl) .nil) level)

theorem bracedBelow {body : Doc} (hb : OnLines u v body) (level : Nat) : OnLines u v (bracedBelow level body) :=
  ((line hu hv (.text (.of_isCodeWord rfl) .nil) level).append hb).append
    (line hu hv (.text (.of_isCodeWord rfl) .nil) level)

theorem jumpDoc {value : Option Doc} (h : IsCodeText w) (hd : ∀ d ∈ value, Inline u v d) (level : Nat) :
    OnLines u v (jumpDoc level w value) := by
  cases value with
  | none => exact line hu hv (.text (h.append (.of_isCodeWord rfl)) .nil) level
  | some d =>
    refine line hu hv (.text (h.append (.of_isCodeWord rfl)) ?_) level
    exact (hd d rfl).before (.of_isCodeWord rfl) (fun _ => rfl) .nil

end OnLines

end

/-! ## Lists of statements and members -/

theorem OnLines.separateStmts {before : Option StmtGroup} {afterComment : Bool} {ps : List (Stmt × Doc)}
    (h : ∀ p ∈ ps, OnLines u v p.2) : OnLines u v (separateStmts before afterComment ps) := by
  induction ps generalizing before afterComment with
  | nil => exact .nil
  | cons p ps ih =>
    rw [List.forall_mem_cons] at h
    obtain ⟨stmt, d⟩ := p
    rw [Php.separateStmts.eq_def]
    dsimp only
    refine .append (.append ?_ h.1) (ih h.2)
    split
    · split
      · exact .blankLine
      · exact .nil
    · exact .nil

theorem OnLines.printedTopLevel {ds : List Doc} (h : ∀ d ∈ ds, OnLines u v d) (stmts : List Stmt) :
    OnLines u v (printedTopLevel stmts ds) :=
  .separateStmts fun _ member => h _ (List.of_mem_zip (List.mem_filter.1 member).1).2

theorem OnLines.separateMembers {before : Option MemberKind} {afterComment : Bool} {ps : List (Member × Doc)}
    (h : ∀ p ∈ ps, OnLines u v p.2) : OnLines u v (separateMembers before afterComment ps) := by
  induction ps generalizing before afterComment with
  | nil => exact .nil
  | cons p ps ih =>
    rw [List.forall_mem_cons] at h
    obtain ⟨m, d⟩ := p
    rw [Php.separateMembers.eq_def]
    dsimp only
    refine .append (.append ?_ h.1) (ih h.2)
    split
    · split
      · exact .blankLine
      · exact .nil
    · exact .nil

theorem OnLines.printedMembers {ds : List Doc} (h : ∀ d ∈ ds, OnLines u v d) (members : List Member) :
    OnLines u v (printedMembers members ds) :=
  .separateMembers fun _ member => h _ (List.of_mem_zip member).2

end Codewright.Php
