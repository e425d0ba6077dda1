import Codewright.Proofs.Script.Insertion

/-!
# Text that is added to a script

An operation that adds something puts it at one spot of the source, on lines of its own. White space may go there; all the rest
stays, whether the source is valid or not.

* `letterLines text` – the lines of a text that are not blank;
* `SetsOut added inserted` – the lines of what is added, each behind an indentation: `setsOut_self`, `setsOut_indentLines`;
* `PutsIn source added result` – what is added is set out at one spot of the source; `PutsIn.letters`: no letter of the source goes;
* `revise_putsIn` – what an operation does that adds a method, a property, an import or a text; `editWith_letters`: several of them.
-/

namespace Codewright.Script

open Text Json

variable {text added member unit indent w l x y a line piece : List Char}

/-! ## Lines that are set out -/

/-- The lines of a text that are not blank, as they stand between line feeds. -/
def letterLines (text : List Char) : List (List Char) := (splitOn '\n' text).filter fun line => !isBlankList line

theorem letterLines_append_feed (one : '\n' ∉ l) (text : List Char) :
    letterLines (l ++ '\n' :: text) = letterLines l ++ letterLines text := by
  rw [letterLines, splitOn_append_cons one, ← List.singleton_append, List.filter_append, ← splitOn_of_not_mem one]
  rfl

/-- A line that stands behind an indentation, perhaps with a carriage return behind it. -/
def StandsOn (line piece : List Char) : Prop :=
  ∃ indent ending, IsIndent indent ∧ (ending = [] ∨ ending = ['\r']) ∧ piece = indent ++ (line ++ ending)

theorem standsOn_self (line : List Char) : StandsOn line line := ⟨[], [], by simp [IsIndent], .inl rfl, by simp⟩

theorem standsOn_indented (is_indent : IsIndent indent) (line : List Char) : StandsOn line (indent ++ line) :=
  ⟨indent, [], is_indent, .inl rfl, by rw [List.append_nil]⟩

theorem standsOn_dropReturn (l : List Char) : StandsOn (dropReturn l) l := by
  obtain ⟨ending, whole, return_⟩ := exists_dropReturn l
  exact ⟨[], ending, by simp [IsIndent], return_, whole⟩

theorem StandsOn.isBlankList_eq (h : StandsOn line piece) : isBlankList piece = isBlankList line := by
  obtain ⟨indent, ending, is_indent, return_, rfl⟩ := h
  have blank : IsBlank ending := by rcases return_ with rfl | rfl <;> simp [IsBlank, isSpace]
  rw [Bool.eq_iff_iff, isBlankList_iff, isBlankList_iff, List.forall_mem_append, List.forall_mem_append]
  exact ⟨fun h => h.2.1, fun h => ⟨is_indent.isBlank, h, blank⟩⟩

/-- The lines of what is added that are not blank are those of what is inserted, each behind an indentation. -/
def SetsOut (added inserted : List Char) : Prop :=
  List.Forall₂ StandsOn ((lines added).filter fun line => !isBlankList line) (letterLines inserted)

/-- One line is set out. -/
theorem StandsOn.setsOut (h : StandsOn line piece) (one : '\n' ∉ piece) :
    List.Forall₂ StandsOn ([line].filter fun line => !isBlankList line) (letterLines piece) := by
  rw [letterLines, splitOn_of_not_mem one]
  cases blank : isBlankList line with
  | true => simp [h.isBlankList_eq, blank]
  | false => simpa [h.isBlankList_eq, blank] using h

theorem setsOut_self (text : List Char) : SetsOut text text := by
  induction text using lines_induction with
  | nil => exact .nil
  | last l one some_char =>
    rw [SetsOut, lines_of_no_feed one some_char]
    exact (standsOn_self l).setsOut one
  | line l s one ih =>
    rw [SetsOut, lines_append_feed one, ← List.singleton_append, List.filter_append, letterLines_append_feed one]
    exact List.rel_append ((standsOn_dropReturn l).setsOut one) ih

theorem no_feed_of_indentLine (is_indent : IsIndent indent) (one : '\n' ∉ l) : '\n' ∉ indentLine indent l := by
  unfold indentLine
  split_ifs
  · simp
  · intro feed
    rcases List.mem_append.1 feed with feed | feed
    · rcases is_indent _ feed with no | no <;> cases no
    · exact one feed

/-- A line with what indentation makes of it. -/
theorem setsOut_indentLine (is_indent : IsIndent indent) (one : '\n' ∉ l) :
    List.Forall₂ StandsOn ([l].filter fun line => !isBlankList line) (letterLines (indentLine indent l)) := by
  have no_feed := no_feed_of_indentLine is_indent one
  unfold indentLine at no_feed ⊢
  split_ifs at no_feed ⊢ with blank
  · rw [List.filter_cons_of_neg (by simp [blank])]
    exact .nil
  · exact (standsOn_indented is_indent l).setsOut no_feed

theorem setsOut_indentLines (is_indent : IsIndent indent) (text : List Char) : SetsOut text (indentLines text indent) := by
  induction text using lines_induction with
  | nil => exact .nil
  | last l one some_char =>
    rw [SetsOut, lines_of_no_feed one some_char, indentLines_of_no_feed one some_char]
    exact setsOut_indentLine is_indent one
  | line l s one ih =>
    have one' : '\n' ∉ dropReturn l := by
      obtain ⟨ending, whole, -⟩ := exists_dropReturn l
      rw [whole] at one
      exact fun feed => one (List.mem_append_left _ feed)
    have first := setsOut_indentLine is_indent one'
    rw [SetsOut, lines_append_feed one]
    by_cases more : s = []
    · subst more
      have last : indentLines (l ++ ['\n']) indent = indentLine indent (dropReturn l) := by
        rw [indentLines, lines_append_feed one]
        simp [lines, linesWithEnds, List.intercalate, indentLine]
      rw [last]
      exact first
    · rw [indentLines_append_feed one more, letterLines_append_feed (no_feed_of_indentLine is_indent one'), ← List.singleton_append,
        List.filter_append]
      exact List.rel_append first ih

/-! ## One spot -/

/-- What is added is set out at one spot of the source: between a front and a back of it, with white space and line feeds around it,
so that it begins where a line begins and ends where one ends. White space of the source may be taken away there. -/
def PutsIn (source added result : List Char) : Prop :=
  ∃ front gap back lead inserted tail, source = front ++ (gap ++ back) ∧ IsBlank gap ∧
    result = front ++ ((lead ++ (inserted ++ tail)) ++ back) ∧ IsBlank lead ∧ IsBlank tail ∧ SetsOut added inserted ∧
    (front ++ lead = [] ∨ (front ++ lead).getLast? = some '\n') ∧ (tail ++ back = [] ∨ (tail ++ back).head? = some '\n')

theorem isBlank_nil : IsBlank [] := List.forall_mem_nil _

theorem isBlank_feed (blank : IsBlank w) : IsBlank ('\n' :: w) := List.forall_mem_cons.2 ⟨rfl, blank⟩

/-- The characters of a text that are no white space. -/
def letters (text : List Char) : List Char := text.filter fun c => !isSpace c

/-- No letter of the source goes, and they stay in order. -/
theorem PutsIn.letters (h : PutsIn text added w) : (letters text).Sublist (letters w) := by
  obtain ⟨front, gap, back, lead, inserted, tail, rfl, blank, rfl, -⟩ := h
  have none : gap.filter (fun c => !isSpace c) = [] := List.filter_eq_nil_iff.2 fun c hc => by simp [blank c hc]
  rw [Script.letters, Script.letters, List.filter_append, List.filter_append, none, List.nil_append, List.filter_append,
    List.filter_append _ back]
  exact (List.Sublist.refl _).append (List.sublist_append_right _ _)

/-- A member at the end of a block. -/
theorem putsIn_insertLast (whole : text = x ++ '\x7b' :: (a ++ y)) (is_unit : IsIndent unit) :
    PutsIn text member (insertLast text x.length (x.length + a.length + 1) member unit true) := by
  obtain ⟨body, gap, lead, space, rfl, blank, blank_lead, ends, blank_space, result⟩ :=
    insertLast_eq member unit true rfl whole rfl rfl
  have indent : IsIndent (lineIndent text x.length ++ unit) := List.forall_mem_append.2 ⟨isIndent_indentOf _, is_unit⟩
  refine ⟨x ++ '\x7b' :: body, gap, y, lead, _, '\n' :: space, by simp [whole], fun c hc => (blank c hc).1, ?_, blank_lead,
    isBlank_feed blank_space, setsOut_indentLines indent member, .inr ?_, .inr rfl⟩
  · rw [result]
    simp
  · rw [List.append_assoc, List.cons_append, List.getLast?_append, List.getLast?_cons, ends]
    rfl

/-- A member at the start of a block. -/
theorem putsIn_insertFirst (whole : text = x ++ '\x7b' :: (a ++ y)) (is_unit : IsIndent unit) :
    PutsIn text member (insertFirst text x.length (x.length + a.length + 1) member unit) := by
  cases filled : blockIsBlank text x.length (x.length + a.length + 1) with
  | true =>
    rw [insertFirst, if_pos filled]
    exact putsIn_insertLast whole is_unit
  | false =>
    obtain ⟨gap, lead, space, back, cut, blank, blank_lead, ends, blank_space, result⟩ :=
      insertFirst_eq member unit whole rfl filled is_unit.isBlank
    have indent : IsIndent (lineIndent text x.length ++ unit) := List.forall_mem_append.2 ⟨isIndent_indentOf _, is_unit⟩
    refine ⟨x ++ ['\x7b'], gap, back, lead, _, '\n' :: space, by simp [whole, cut], blank, ?_, blank_lead,
      isBlank_feed blank_space, setsOut_indentLines indent member, .inr ?_, .inr rfl⟩
    · rw [result]
      simp
    · rw [List.getLast?_append, ends]
      rfl

/-- A member that is for a block of the text. -/
theorem Insertion.putsIn {i : Insertion} (found : IsFound text i.block) (is_unit : IsIndent i.unit) :
    PutsIn text i.member (i.apply text) := by
  obtain ⟨x, inner, y, whole, opening, closing⟩ := exists_braces found
  rw [Insertion.apply, opening, closing]
  split_ifs
  · exact putsIn_insertFirst whole is_unit
  · exact putsIn_insertLast whole is_unit

/-- A line ends where the text ends or a line feed stands. -/
theorem drop_takeWhile_feed (text : List Char) :
    text.drop (text.takeWhile (· != '\n')).length = [] ∨ (text.drop (text.takeWhile (· != '\n')).length).head? = some '\n' := by
  induction text with
  | nil => exact .inl rfl
  | cons c text ih =>
    by_cases feed : c = '\n'
    · subst feed
      exact .inr rfl
    · rwa [List.takeWhile_cons_of_pos (by simpa using feed), List.length_cons, List.drop_succ_cons]

/-- An import goes behind the last one, or to the start. -/
theorem putsIn_addImport {source result : String} {i : Import} (done : addImport source i = .ok result) :
    PutsIn source.toList i.print.toList result.toList := by
  unfold addImport at done
  split_ifs at done
  have own : (Reading.ofText source.toList).text = source.toList := rfl
  dsimp only at done
  rw [own] at done
  split at done
  next stop _ =>
    cases done
    have ends := drop_takeWhile_feed (source.toList.drop stop)
    rw [List.drop_drop] at ends
    generalize stop + _ = place at ends
    rw [String.toList_ofList]
    exact ⟨source.toList.take place, [], source.toList.drop place, ['\n'], i.print.toList, [], by simp, isBlank_nil, by simp,
      isBlank_feed isBlank_nil, isBlank_nil, setsOut_self _, .inr List.getLast?_concat, ends⟩
  next =>
    split_ifs at done with blank
    · cases done
      rw [String.toList_ofList]
      exact ⟨[], source.toList, [], [], i.print.toList, ['\n'], by simp, isBlankList_iff.1 blank, by simp, isBlank_nil,
        isBlank_feed isBlank_nil, setsOut_self _, .inl rfl, .inr rfl⟩
    · cases done
      rw [String.toList_ofList]
      refine ⟨[], source.toList.takeWhile (· == '\n'), source.toList.dropWhile (· == '\n'), [], i.print.toList, ['\n', '\n'],
        by simp, ?_, by simp, isBlank_nil, isBlank_feed (isBlank_feed isBlank_nil), setsOut_self _, .inl rfl, .inr rfl⟩
      intro c hc
      obtain rfl : c = '\n' := by simpa using List.all_eq_true.1 List.all_takeWhile c hc
      rfl

/-- A text goes to the end, without the white space at its own end. -/
theorem putsIn_append (source content : String) :
    PutsIn source.toList (trimEnd content.toList) (append source content).toList := by
  obtain ⟨space, cut, blank⟩ := exists_dropped isSpace source.toList
  rw [append, String.toList_ofList, appendBlock]
  split_ifs with none
  · have none : trimEnd source.toList = [] := List.isEmpty_iff.1 none
    have blank : IsBlank source.toList := by
      rw [cut, ← trimEnd, none]
      exact blank
    exact ⟨[], source.toList, [], [], trimEnd content.toList, ['\n'], by simp, blank, by simp, isBlank_nil,
      isBlank_feed isBlank_nil, setsOut_self _, .inl rfl, .inr rfl⟩
  · refine ⟨trimEnd source.toList, space, [], ['\n', '\n'], trimEnd content.toList, ['\n'], by simpa [trimEnd] using cut, blank,
      by simp, isBlank_feed (isBlank_feed isBlank_nil), isBlank_feed isBlank_nil, setsOut_self _, .inr ?_, .inr rfl⟩
    rw [List.getLast?_append]
    rfl

/-! ## Operations -/

/-- What an operation adds: an import, a text without the white space at its end, or a member. -/
def addition (s : Style) (source : String) (operation : Json) : Except CraftError (List Char) := do
  match ← operationTag operation with
  | "add_import" => return (← readOptions Import.record operation).print.toList
  | "append" => return trimEnd (← readOptions contentRecord operation).toList
  | _ => return (← insertion s source operation).member

/-- The operation adds something. -/
def Adds (operation : Json) : Prop :=
  ∃ tag ∈ ["add_method", "add_property", "add_import", "append"], operationTag operation = .ok tag

variable {s : Style} {source result : String} {operation : Json}

theorem editOne_of_revise (done : revise s source operation = .ok result) :
    editOne s source operation = .ok result := by
  unfold revise at done
  split_ifs at done
  exact done

theorem addition_of_insertion {i : Insertion}
    (tag : operationTag operation = .ok "add_method" ∨ operationTag operation = .ok "add_property")
    (asked : insertion s source operation = .ok i) : addition s source operation = .ok i.member := by
  unfold addition
  rcases tag with tag | tag <;> rw [tag] <;> dsimp only [bind, Except.bind] <;> rw [asked] <;> rfl

theorem addition_of_import {i : Import} (tag : operationTag operation = .ok "add_import")
    (read : readOptions Import.record operation = .ok i) : addition s source operation = .ok i.print.toList := by
  unfold addition
  rw [tag]
  dsimp only [bind, Except.bind]
  rw [read]
  rfl

theorem addition_of_append {content : String} (tag : operationTag operation = .ok "append")
    (read : readOptions contentRecord operation = .ok content) : addition s source operation = .ok (trimEnd content.toList) := by
  unfold addition
  rw [tag]
  dsimp only [bind, Except.bind]
  rw [read]
  rfl

/-- A member is set out. -/
theorem editOne_insertion_putsIn (settings : Settings) (dialect : Dialect)
    (tag : operationTag operation = .ok "add_method" ∨ operationTag operation = .ok "add_property")
    (done : editOne ⟨dialect, settings.unit⟩ source operation = .ok result) :
    ∃ added, addition ⟨dialect, settings.unit⟩ source operation = .ok added ∧ PutsIn source.toList added result.toList := by
  rw [editOne_eq tag] at done
  cases asked : insertion ⟨dialect, settings.unit⟩ source operation with
  | error e =>
    rw [asked] at done
    cases done
  | ok i =>
    rw [asked] at done
    cases done
    obtain ⟨found, unit⟩ := isFound_of_insertion asked
    rw [String.toList_ofList]
    exact ⟨i.member, addition_of_insertion tag asked, i.putsIn found (unit ▸ isIndent_unitIn _ _ (isIndent_unit settings))⟩

/-- An import is set out. -/
theorem editOne_import_putsIn (tag : operationTag operation = .ok "add_import") (done : editOne s source operation = .ok result) :
    ∃ added, addition s source operation = .ok added ∧ PutsIn source.toList added result.toList := by
  unfold editOne at done
  obtain ⟨_, read_tag, done⟩ := exists_ok_of_bind done
  cases tag.symm.trans read_tag
  obtain ⟨i, read, done⟩ := exists_ok_of_bind done
  exact ⟨i.print.toList, addition_of_import tag read, putsIn_addImport done⟩

/-- A text at the end is set out. -/
theorem editOne_append_putsIn (tag : operationTag operation = .ok "append") (done : editOne s source operation = .ok result) :
    ∃ added, addition s source operation = .ok added ∧ PutsIn source.toList added result.toList := by
  unfold editOne at done
  obtain ⟨_, read_tag, done⟩ := exists_ok_of_bind done
  cases tag.symm.trans read_tag
  obtain ⟨content, read, done⟩ := exists_ok_of_bind done
  cases done
  exact ⟨trimEnd content.toList, addition_of_append tag read, putsIn_append source content⟩

/-- What an operation adds is set out. -/
theorem editOne_putsIn (settings : Settings) (dialect : Dialect) (adds : Adds operation)
    (done : editOne ⟨dialect, settings.unit⟩ source operation = .ok result) :
    ∃ added, addition ⟨dialect, settings.unit⟩ source operation = .ok added ∧ PutsIn source.toList added result.toList := by
  obtain ⟨tag, known, tagged⟩ := adds
  simp only [List.mem_cons, List.not_mem_nil, or_false] at known
  rcases known with rfl | rfl | rfl | rfl
  · exact editOne_insertion_putsIn settings dialect (.inl tagged) done
  · exact editOne_insertion_putsIn settings dialect (.inr tagged) done
  · exact editOne_import_putsIn tagged done
  · exact editOne_append_putsIn tagged done

/-- An operation that adds something sets it out at one spot of the source, and no letter of the source goes. -/
theorem revise_putsIn (settings : Settings) (dialect : Dialect) (adds : Adds operation)
    (done : revise ⟨dialect, settings.unit⟩ source operation = .ok result) :
    ∃ added, addition ⟨dialect, settings.unit⟩ source operation = .ok added ∧ PutsIn source.toList added result.toList ∧
      (letters source.toList).Sublist (letters result.toList) := by
  obtain ⟨added, asked, puts⟩ := editOne_putsIn settings dialect adds (editOne_of_revise done)
  exact ⟨added, asked, puts, puts.letters⟩

/-- A property at the start of a class, in a source with an open string. -/
theorem revise_putsIn_unclosed :
    isValid "class A \x7b x;\r\n  y;\n\x7d '" = false ∧
      revise ⟨.typescript, Settings.unit {}⟩ "class A \x7b x;\r\n  y;\n\x7d '"
        (.object [("type", .string "add_property"), ("class", .string "A"), ("property", .object [("name", .string "z")])]) =
        .ok "class A \x7b\n  z;\n  x;\r\n  y;\n\x7d '" ∧
      PutsIn "class A \x7b x;\r\n  y;\n\x7d '".toList "z;".toList "class A \x7b\n  z;\n  x;\r\n  y;\n\x7d '".toList := by
  have done : revise ⟨.typescript, Settings.unit {}⟩ "class A \x7b x;\r\n  y;\n\x7d '"
      (.object [("type", .string "add_property"), ("class", .string "A"), ("property", .object [("name", .string "z")])]) =
      .ok "class A \x7b\n  z;\n  x;\r\n  y;\n\x7d '" := by decide +kernel
  obtain ⟨added, asked, puts, -⟩ := revise_putsIn {} .typescript ⟨"add_property", by simp, rfl⟩ done
  have rendered : addition ⟨.typescript, Settings.unit {}⟩ "class A \x7b x;\r\n  y;\n\x7d '"
      (.object [("type", .string "add_property"), ("class", .string "A"), ("property", .object [("name", .string "z")])]) =
      .ok "z;".toList := by decide +kernel
  cases asked.symm.trans rendered
  exact ⟨by decide +kernel, done, puts⟩

/-- No letter of a source goes where something is added by one operation after the other. -/
theorem editWith_letters (settings : Settings) (dialect : Dialect) {source result : String} {operations : List Json}
    (adds : ∀ operation ∈ operations, Adds operation)
    (done : editWith (revise ⟨dialect, settings.unit⟩) source operations = .ok result) :
    (letters source.toList).Sublist (letters result.toList) := by
  refine editWith_keeps (p := fun v => (letters source.toList).Sublist (letters v.toList)) (fun operation here v w kept step => ?_)
    (List.Sublist.refl _) done
  obtain ⟨added, -, puts⟩ := editOne_putsIn settings dialect (adds operation here) (editOne_of_revise step)
  exact kept.trans puts.letters

end Codewright.Script
