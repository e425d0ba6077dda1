import Mathlib
import Codewright.Proofs.Json.Proper
import Codewright.Proofs.Json.Textual
import Codewright.Proofs.Text.Lines

/-!
# The indentation of a document

A document is written with the indentation that its source uses, and what is written uses it again, if it has a line on
which it can be seen. So operations may be done at once, or some of them on what was saved after the others: both come to the
same document, as long as what is saved can be read.

* `isUnit_detectIndent` – an indentation is made of spaces and tabs, and is not empty;
* `opensLines v` – the value takes more than one line; `print_of_not_opensLines`: otherwise its text has no indentation;
* `detectIndent_print` – the indentation of what is printed;
* `edit_nil` – a document that is saved without a change holds the same value, and saving it again changes nothing;
* `after source operations` – the document as it is then; `edit_eq`: its text is what editing gives;
* `edit_print`, `edit_print_of_deep` – going on with what was saved;
* `Splits source a b` – the text is the same, if the document is saved between `a` and `b`; it is not always (`not_splits`);
* `edit_append` – what becomes of the document and of its text.
-/

namespace Codewright.Document

open Text Json

section Unchanged

variable {v : Json} {source unit : String} {line cs w : List Char} {c : Char}

/-! ## Indentations -/

theorem isUnit_of_lineUnit? (h : lineUnit? line = some unit) : IsUnit unit.toList ∧ unit.toList ≠ [] := by
  unfold lineUnit? at h
  dsimp only at h
  split at h
  · cases h
  · next some_blank =>
    cases h
    rw [String.toList_ofList]
    refine ⟨fun c hc => ?_, ?_⟩
    · have blank := List.all_eq_true.1 List.all_takeWhile c hc
      simpa using blank
    · simp only [Bool.or_eq_true, not_or] at some_blank
      simpa using some_blank.1

theorem isUnit_usualIndent : IsUnit usualIndent.toList ∧ usualIndent.toList ≠ [] := by
  have spaces : usualIndent.toList = [' ', ' ', ' ', ' '] := rfl
  rw [spaces]
  exact ⟨fun c hc => .inl (by simpa using hc), by simp⟩

/-- An indentation is made of spaces and tabs, and there is at least one. -/
theorem isUnit_detectIndent (source : String) :
    IsUnit (detectIndent source).toList ∧ (detectIndent source).toList ≠ [] := by
  unfold detectIndent
  cases found : ((lines source.toList).drop 1).findSome? lineUnit? with
  | none => exact isUnit_usualIndent
  | some unit =>
    obtain ⟨line, -, h⟩ := List.exists_of_findSome?_eq_some found
    exact isUnit_of_lineUnit? h

theorem no_feed_of_isUnit (is_unit : IsUnit w) : '\n' ∉ w := by
  intro feed
  rcases is_unit _ feed with same | same <;> cases same

/-- The indentation of a line is what stands in front of its first letter. -/
theorem lineUnit?_append (is_unit : IsUnit w) (some_blank : w ≠ []) (letter : isSpace c = false) (cs : List Char) :
    lineUnit? (w ++ c :: cs) = some (String.ofList w) := by
  have blank : ∀ d ∈ w, (d == ' ' || d == '\t') = true := fun d hd => by simpa using is_unit d hd
  have ne {d : Char} (space : isSpace d = true) : c ≠ d := by
    rintro rfl
    rw [space] at letter
    cases letter
  have stops : (c :: cs).takeWhile (fun d => d == ' ' || d == '\t') = [] :=
    List.takeWhile_cons_of_neg (by simp [ne (d := ' ') rfl, ne (d := '\t') rfl])
  have some_letter : (w ++ c :: cs).all isSpace = false := by simp [letter]
  rw [lineUnit?, List.takeWhile_append_of_pos blank, stops, List.append_nil, some_letter]
  simp [some_blank]

/-- The first line of a text begins as the text does, as far as a letter. -/
theorem exists_lines (one : '\n' ∉ w) (letter : isSpace c = false) (cs : List Char) :
    ∃ cs' ls, lines (w ++ c :: cs) = (w ++ c :: cs') :: ls := by
  have no_feed : c ≠ '\n' := by
    rintro rfl
    cases letter
  by_cases feed : '\n' ∈ cs
  · obtain ⟨l, rest, rfl, one'⟩ := List.eq_append_cons_of_mem feed
    have first : '\n' ∉ w ++ c :: l := by simp [one, no_feed.symm, one']
    have whole : w ++ c :: (l ++ '\n' :: rest) = (w ++ c :: l) ++ '\n' :: rest := by simp
    rw [whole, lines_append_feed first, dropReturn]
    split
    next carriage =>
      rcases List.eq_nil_or_concat l with rfl | ⟨l, d, rfl⟩
      · rw [List.getLast?_append_of_ne_nil _ (by simp)] at carriage
        cases carriage
        cases letter
      · have last : (w ++ c :: l.concat d).dropLast = w ++ c :: l := by
          rw [List.concat_eq_append, ← List.cons_append, ← List.append_assoc, List.dropLast_concat]
        exact ⟨l, _, by rw [last]⟩
    next => exact ⟨l, _, rfl⟩
  · exact ⟨cs, [], lines_of_no_feed (by simp [one, no_feed.symm, feed]) (by simp)⟩

/-! ## What is printed -/

/-- The value takes more than one line when it is printed: it is a container, and not empty. -/
def opensLines : Json → Bool
  | .array (_ :: _) => true
  | .object (_ :: _) => true
  | _ => false

theorem prettyChars_of_not_opensLines (closed : opensLines v = false) (unit : List Char) (level : Nat) (tail : List Char) :
    prettyChars unit level tail v = v.scalarChars tail := by
  cases v with
  | array items => cases items with
    | nil => rfl
    | cons v vs => cases closed
  | object es => cases es with
    | nil => rfl
    | cons e es => cases closed
  | _ => rfl

/-- The text of a value that takes one line has no indentation in it. -/
theorem print_of_not_opensLines (closed : opensLines v = false) (unit unit' : String) : print unit v = print unit' v := by
  rw [print, print, pretty, pretty, prettyChars_of_not_opensLines closed, prettyChars_of_not_opensLines closed]

theorem no_feed_of_isDigits (h : Php.IsDigits cs) : '\n' ∉ cs := by
  intro feed
  cases h.2 _ feed

theorem no_feed_of_isKeptNumber {text : String} (kept : IsKeptNumber text) : '\n' ∉ text.toList := by
  obtain ⟨cs, ⟨whole, fraction, exponent, rfl, is_whole, is_fraction, is_exponent⟩, is_text⟩ := kept
  have no_whole : '\n' ∉ whole := by
    rcases is_whole with rfl | ⟨digits, -⟩
    · decide
    · exact no_feed_of_isDigits digits
  have no_fraction : '\n' ∉ fraction := by
    rcases is_fraction with rfl | ⟨ds, rfl, digits⟩
    · simp
    · simp [no_feed_of_isDigits digits]
  have no_exponent : '\n' ∉ exponent := by
    rcases is_exponent with rfl | ⟨sign, ds, rfl, signs, digits⟩
    · simp
    · rcases signs with rfl | rfl <;> simp [no_feed_of_isDigits digits]
  rcases is_text with same | same <;> simp [same, no_whole, no_fraction, no_exponent]

theorem no_feed_of_escaped (c : Char) : '\n' ∉ escaped c := by
  have digits : ∀ n < 32, '\n' ∉ Nat.toDigits 16 n := by decide
  unfold escaped
  split
  all_goals try decide
  split_ifs with lower low
  · simpa using digits c.toNat (by omega)
  · simpa using digits c.toNat low
  · next _ _ _ _ no_feed _ _ => simpa using Ne.symm no_feed

/-- The text of a value that takes one line is one line. -/
theorem no_feed_of_not_opensLines {keys : List String → Prop} (kept : Each IsKeptNumber keys v) (closed : opensLines v = false) :
    '\n' ∉ v.scalarChars [] := by
  cases kept with
  | null => decide
  | bool b => cases b <;> decide
  | number here => simpa [scalarChars] using no_feed_of_isKeptNumber here
  | string s =>
    have inside : '\n' ∉ s.toList.flatMap escaped := by
      intro feed
      obtain ⟨c, -, feed⟩ := List.mem_flatMap.1 feed
      exact no_feed_of_escaped c feed
    simpa [scalarChars, quotedChars] using inside
  | array | object => simp [scalarChars]

/-- The second line of a value that takes more than one is indented by one unit. -/
theorem exists_second_line {keys : List String → Prop} (kept : Each IsKeptNumber keys v) (opens : opensLines v = true)
    (unit tail : List Char) :
    ∃ c d cs, prettyChars unit 0 tail v = c :: '\n' :: (unit ++ d :: cs) ∧ c ≠ '\n' ∧ isSpace d = false := by
  cases kept with
  | @array items each =>
    cases items with
    | nil => cases opens
    | cons v vs =>
      obtain ⟨d, cs, begins, letter, -⟩ := exists_cons_prettyChars (each v List.mem_cons_self) unit 1
        (prettyItems unit 1 (newLine unit 0 (']' :: tail)) vs)
      exact ⟨'[', d, cs, by rw [← begins]; simp [prettyChars, newLine], by decide, letter⟩
  | @object es here each =>
    cases es with
    | nil => cases opens
    | cons e es => exact ⟨'\x7b', '"', _, by simp [prettyChars, newLine, quotedChars]; rfl, by decide, rfl⟩
  | _ => cases opens

/-- What is printed has the indentation that it is printed with, if it takes more than one line. -/
theorem detectIndent_print {keys : List String → Prop} (kept : Each IsKeptNumber keys v) (is_unit : IsUnit unit.toList)
    (some_blank : unit.toList ≠ []) : detectIndent (print unit v) = if opensLines v then unit else usualIndent := by
  rw [detectIndent, toList_print]
  cases opens : opensLines v with
  | true =>
    obtain ⟨c, d, cs, text, no_feed, letter⟩ := exists_second_line kept opens unit.toList ['\n']
    obtain ⟨cs', ls, second⟩ := exists_lines (no_feed_of_isUnit is_unit) letter cs
    have first : '\n' ∉ [c] := by simpa using Ne.symm no_feed
    rw [text, ← List.singleton_append, lines_append_feed first, second, List.drop_succ_cons, List.drop_zero,
      List.findSome?_cons, lineUnit?_append is_unit some_blank letter, String.ofList_toList]
    rfl
  | false =>
    have one := no_feed_of_not_opensLines kept opens
    have text : prettyChars unit.toList 0 ['\n'] v = v.scalarChars [] ++ '\n' :: [] := by
      have whole := prettyChars_append unit.toList 0 [] ['\n'] v
      rwa [prettyChars_of_not_opensLines opens unit.toList 0 []] at whole
    rw [text, lines_append_feed one]
    rfl

/-! ## A document without a change -/

/-- A document that is saved without a change is read as the same value, and saving it again changes nothing. -/
theorem edit_nil (parsed : Json.parse? source = some v) :
    ∃ text, edit source [] = .ok text ∧ Json.parse? text = some v ∧ edit text [] = .ok text := by
  obtain ⟨textual, shallow⟩ := isTextual_of_parse? parsed
  obtain ⟨is_unit, some_blank⟩ := isUnit_detectIndent source
  have again := parse?_print textual shallow is_unit
  have saved {source : String} (parsed : Json.parse? source = some v) :
      edit source [] = .ok (print (detectIndent source) v) := by
    rw [edit, read, parsed]
    rfl
  refine ⟨_, saved parsed, again, ?_⟩
  rw [saved again, detectIndent_print textual is_unit some_blank]
  split_ifs with opens
  · rfl
  · rw [print_of_not_opensLines (by simpa using opens) usualIndent (detectIndent source)]

/-- With a tab, and with an exponent that is written in another way. -/
theorem edit_nil_tab : ∃ text, edit "[1,\n\t[1E5]]" [] = .ok text ∧
    Json.parse? text = some (.array [.number "1", .array [.number "1e+5"]]) ∧ edit text [] = .ok text :=
  edit_nil (by cbv)

end Unchanged

/-! ## Saving between operations -/

section Split

variable {source unit unit' whole : String} {a b operations : List Json} {v w : Json}

/-- The document of a source after some operations. -/
def after (source : String) (operations : List Json) : Except CraftError Json := do
  editWith editOne (← read source) operations

theorem edit_eq (source : String) (operations : List Json) :
    edit source operations = (after source operations).map (print (detectIndent source)) := by
  unfold edit after
  cases read source with
  | error e => rfl
  | ok v => cases h : editWith editOne v operations <;> simp [Except.map] <;> rfl

theorem after_append (source : String) (a b : List Json) :
    after source (a ++ b) = after source a >>= fun v => editWith editOne v b := by
  unfold after
  cases read source with
  | error e => rfl
  | ok v => exact editWith_append editOne v a b

theorem read_of_parse? (parsed : Json.parse? source = some v) : read source = .ok v := by
  rw [read, parsed]

/-- The document is proper, if the operations are. -/
theorem isProper_of_after (given : ∀ operation ∈ operations, IsProper operation) (done : after source operations = .ok v) :
    IsProper v := by
  obtain ⟨start, parsed, done⟩ := exists_ok_of_bind done
  unfold read at parsed
  split at parsed
  · next textual =>
    cases parsed
    exact IsProper.editWith (isTextual_of_parse? textual).1.isProper given done
  · cases parsed

/-! ## Going on with what was saved -/

/-- Going on with what was saved is going on with the document. The indentation is the usual one if the text had a single
line. -/
theorem edit_print (proper : IsProper v) (shallow : v.depth ≤ maxDepth) (no_number : HasNoNumberKey v)
    (is_unit : IsUnit unit.toList) (some_blank : unit.toList ≠ []) (operations : List Json) :
    edit (print unit v) operations =
      (editWith editOne v operations).map (print (if opensLines v then unit else usualIndent)) := by
  have again := parse?_print (proper.isTextual no_number) shallow is_unit
  rw [edit_eq, after, read_of_parse? again, detectIndent_print proper is_unit some_blank]
  rfl

theorem edit_print_of_deep (proper : IsProper v) (deep : maxDepth < v.depth) (is_unit : IsUnit unit.toList)
    (operations : List Json) : edit (print unit v) operations = .error .notJson := by
  rw [edit, read, parse?_print_of_deep proper deep is_unit]
  rfl

/-- The indentation can be told from a text of several lines, and from no other. -/
theorem print_eq_print_iff (proper : IsProper w) (is_unit : IsUnit unit.toList) (some_blank : unit.toList ≠ [])
    (is_unit' : IsUnit unit'.toList) (some_blank' : unit'.toList ≠ []) :
    print unit w = print unit' w ↔ opensLines w = false ∨ unit = unit' := by
  constructor
  · intro same
    have seen := detectIndent_print proper is_unit some_blank
    rw [same, detectIndent_print proper is_unit' some_blank'] at seen
    cases opens : opensLines w with
    | false => exact .inl rfl
    | true => exact .inr (by simpa [opens] using seen.symm)
  · rintro (closed | rfl)
    · exact print_of_not_opensLines closed unit unit'
    · rfl

/-- The text is the same, if the document is saved between the operations. -/
def Splits (source : String) (a b : List Json) : Prop :=
  ∀ whole, edit source (a ++ b) = .ok whole → ∃ saved, edit source a = .ok saved ∧ edit saved b = .ok whole

theorem not_splits_of {saved : String} (done : edit source (a ++ b) = .ok whole) (start : edit source a = .ok saved)
    (other : edit saved b ≠ .ok whole) : ¬Splits source a b := by
  intro splits
  obtain ⟨saved', start', rest⟩ := splits whole done
  cases start.symm.trans start'
  exact other rest

/-- The operation that sets the value at a path. -/
def setting (path : String) (value : Json) : Json :=
  .object [("type", .string "set"), ("path", .string path), ("value", value)]

/-- The operation that removes what stands at a path. -/
def removing (path : String) : Json := .object [("type", .string "remove"), ("path", .string path)]

theorem editOne_setting (v : Json) (path : String) (new : Json) :
    editOne v (setting path new) = segmentsOf path >>= fun segments => followed (v.set segments new.plain) := by
  have tag : operationTag (setting path new) = .ok "set" := rfl
  have options : readOptions PathValue.record (setting path new) = .ok ⟨path, new.plain⟩ := rfl
  simp only [editOne, tag, options, bind, Except.bind]

theorem editOne_removing (v : Json) (path : String) :
    editOne v (removing path) = segmentsOf path >>= fun segments => .ok (v.remove segments) := by
  have tag : operationTag (removing path) = .ok "remove" := rfl
  have options : readOptions pathRecord (removing path) = .ok path := rfl
  simp only [editOne, tag, options, bind, Except.bind]
  rfl

theorem isProper_setting (path : String) (proper : IsProper v) : IsProper (setting path v) :=
  isProper_object_iff.2 ⟨by simp [Entries.keys], by simpa [IsProper, Each.string] using proper⟩

theorem isProper_removing (path : String) : IsProper (removing path) :=
  isProper_object_iff.2 ⟨by simp [Entries.keys], by simp [IsProper, Each.string]⟩

/-- So many arrays, one in the other. -/
def nested : Nat → Json
  | 0 => .null
  | n + 1 => .array [nested n]

theorem plain_nested (n : Nat) : (nested n).plain = nested n := by
  induction n with
  | zero => rfl
  | succ n ih => rw [nested, plain, plainItems, ih, plainItems]

theorem depth_nested (n : Nat) : (nested n).depth = n := by
  induction n with
  | zero => rfl
  | succ n ih => simp [nested, depth, depthOfItems, ih, Nat.add_comm]

theorem isProper_nested (n : Nat) : IsProper (nested n) := by
  induction n with
  | zero => exact .null
  | succ n ih => exact isProper_array_iff.2 (List.forall_mem_singleton.2 ih)

/-- Arrays that nest as deep as they may can be put into three more objects, and are then too deep to be read. -/
theorem not_splits_of_deep : ¬Splits "\x7b\x7d" [setting "a.a.a" (nested 125)] [removing "a"] := by
  let deep : Json := .object [("a", .object [("a", .object [("a", nested 125)])])]
  have start : read "\x7b\x7d" = .ok (.object []) := by cbv
  have put : editOne (.object []) (setting "a.a.a" (nested 125)) = .ok deep := by
    have path : segmentsOf "a.a.a" = .ok ["a", "a", "a"] := by decide +kernel
    rw [editOne_setting, path, plain_nested]
    rfl
  have taken : editOne deep (removing "a") = .ok (.object []) := by
    have path : segmentsOf "a" = .ok ["a"] := by decide +kernel
    rw [editOne_removing, path]
    rfl
  have between : after "\x7b\x7d" [setting "a.a.a" (nested 125)] = .ok deep := by
    simp only [after, start, editWith, put, bind, Except.bind]
  have whole : after "\x7b\x7d" ([setting "a.a.a" (nested 125)] ++ [removing "a"]) = .ok (.object []) := by
    rw [after_append, between]
    simp only [editWith, taken, bind, Except.bind]
  have proper : IsProper deep := by
    have object {v : Json} (inner : IsProper v) : IsProper (.object [("a", v)]) :=
      isProper_object_iff.2 ⟨by simp [Entries.keys], List.forall_mem_singleton.2 inner⟩
    exact object (object (object (isProper_nested 125)))
  have too_deep : maxDepth < deep.depth := by
    simp [deep, depth, depthOfEntries, depth_nested, maxDepth]
  refine not_splits_of (by rw [edit_eq, whole]; rfl) (by rw [edit_eq, between]; rfl) ?_
  rw [edit_print_of_deep proper too_deep (isUnit_detectIndent _).1]
  simp

/-- Saving in between makes a difference if nothing is left in between to be indented, if an object then begins with the key
under which a number is written, and if the document then nests too deep. -/
theorem not_splits :
    ¬Splits "\x7b\n  \"a\": 1\n\x7d" [removing "a"] [setting "b" (.number "2")] ∧
    ¬Splits "\x7b\"x\": 1, \"$serde_json::private::Number\": \"5\"\x7d" [removing "x"] [setting "y" (.number "2")] ∧
    ¬Splits "\x7b\x7d" [setting "a.a.a" (nested 125)] [removing "a"] := by
  refine ⟨?_, ?_, not_splits_of_deep⟩
  · have whole : edit "\x7b\n  \"a\": 1\n\x7d" ([removing "a"] ++ [setting "b" (.number "2")]) =
        .ok "\x7b\n  \"b\": 2\n\x7d\n" := by decide +kernel
    have saved : edit "\x7b\n  \"a\": 1\n\x7d" [removing "a"] = .ok "\x7b\x7d\n" := by decide +kernel
    exact not_splits_of whole saved (by decide +kernel)
  · have whole : edit "\x7b\"x\": 1, \"$serde_json::private::Number\": \"5\"\x7d"
          ([removing "x"] ++ [setting "y" (.number "2")]) =
        .ok "\x7b\n    \"$serde_json::private::Number\": \"5\",\n    \"y\": 2\n\x7d\n" := by decide +kernel
    have saved : edit "\x7b\"x\": 1, \"$serde_json::private::Number\": \"5\"\x7d" [removing "x"] =
        .ok "\x7b\n    \"$serde_json::private::Number\": \"5\"\n\x7d\n" := by decide +kernel
    exact not_splits_of whole saved (by decide +kernel)

/-- If some operations succeed, those of them that come first do, and they are saved in the indentation of the source. Going
on with what was saved gives the same document, unless it nests too deep to be read, or an object in it begins with the key
under which a number is written. The text is the same, unless what was saved stands on one line, the text in the end does
not, and the indentation of the source is not the usual one. -/
theorem edit_append (given : ∀ operation ∈ a ++ b, IsProper operation) (done : edit source (a ++ b) = .ok whole) :
    ∃ v w, after source a = .ok v ∧ after source (a ++ b) = .ok w ∧
      edit source a = .ok (print (detectIndent source) v) ∧ whole = print (detectIndent source) w ∧
      (v.depth ≤ maxDepth → HasNoNumberKey v →
        edit (print (detectIndent source) v) b =
          .ok (print (if opensLines v then detectIndent source else usualIndent) w) ∧
        (Splits source a b ↔ opensLines v = true ∨ opensLines w = false ∨ detectIndent source = usualIndent)) ∧
      (maxDepth < v.depth → edit (print (detectIndent source) v) b = .error .notJson) := by
  obtain ⟨is_unit, some_blank⟩ := isUnit_detectIndent source
  obtain ⟨first, second⟩ := List.forall_mem_append.1 given
  rw [edit_eq] at done
  obtain ⟨w, result, rfl⟩ : ∃ w, after source (a ++ b) = .ok w ∧ print (detectIndent source) w = whole := by
    cases h : after source (a ++ b) with
    | error e =>
      rw [h] at done
      cases done
    | ok w =>
      rw [h] at done
      cases done
      exact ⟨w, rfl, rfl⟩
  rw [after_append] at result
  obtain ⟨v, start, rest⟩ := exists_ok_of_bind result
  have proper := isProper_of_after first start
  have proper' := IsProper.editWith proper second rest
  have saved : edit source a = .ok (print (detectIndent source) v) := by
    rw [edit_eq, start]
    rfl
  have whole : edit source (a ++ b) = .ok (print (detectIndent source) w) := by
    rw [edit_eq, after_append, result]
    rfl
  refine ⟨v, w, start, by rw [after_append, result], saved, rfl, fun shallow no_number => ?_, fun deep => ?_⟩
  · have further : edit (print (detectIndent source) v) b =
        .ok (print (if opensLines v then detectIndent source else usualIndent) w) := by
      rw [edit_print proper shallow no_number is_unit some_blank, rest]
      rfl
    have splits : Splits source a b ↔
        print (if opensLines v then detectIndent source else usualIndent) w = print (detectIndent source) w := by
      unfold Splits
      simp only [whole, saved, Except.ok.injEq, forall_eq', exists_eq_left', further]
    refine ⟨further, splits.trans ?_⟩
    cases opensLines v with
    | true => simp
    | false =>
      have told := print_eq_print_iff proper' isUnit_usualIndent.1 isUnit_usualIndent.2 is_unit some_blank
      simpa [eq_comm (a := usualIndent)] using told
  · exact edit_print_of_deep proper deep is_unit b

/-- A document whose indentation is seen in what is saved. -/
theorem edit_append_two_spaces :
    edit "[\n  1\n]" ([setting "1" (.array [.bool true])] ++ [removing "0"]) = .ok "[\n  [\n    true\n  ]\n]\n" ∧
    Splits "[\n  1\n]" [setting "1" (.array [.bool true])] [removing "0"] := by
  have array : IsProper (.array [.bool true]) := isProper_array_iff.2 (List.forall_mem_singleton.2 (.bool true))
  have given : ∀ operation ∈ [setting "1" (.array [.bool true])] ++ [removing "0"], IsProper operation :=
    List.forall_mem_cons.2 ⟨isProper_setting "1" array, List.forall_mem_singleton.2 (isProper_removing "0")⟩
  have done : edit "[\n  1\n]" ([setting "1" (.array [.bool true])] ++ [removing "0"]) =
      .ok "[\n  [\n    true\n  ]\n]\n" := by decide +kernel
  have between : after "[\n  1\n]" [setting "1" (.array [.bool true])] = .ok (.array [.number "1", .array [.bool true]]) := by
    have start : read "[\n  1\n]" = .ok (.array [.number "1"]) := by cbv
    have path : segmentsOf "1" = .ok ["1"] := by decide +kernel
    have put : (Json.array [.number "1"]).set ["1"] (.array [.bool true]) =
        .ok (.array [.number "1", .array [.bool true]]) := rfl
    simp only [after, start, editWith, editOne_setting, path, plain, plainItems, put, followed, Except.mapError, bind, Except.bind]
  obtain ⟨v, w, start, -, -, -, further, -⟩ := edit_append given done
  cases between.symm.trans start
  have no_number : HasNoNumberKey (.array [.number "1", .array [.bool true]]) :=
    .array (List.forall_mem_cons.2 ⟨.number trivial, List.forall_mem_singleton.2 (.array (List.forall_mem_singleton.2 (.bool true)))⟩)
  exact ⟨done, (further (by decide) no_number).2.2 (.inl rfl)⟩

end Split

end Codewright.Document
