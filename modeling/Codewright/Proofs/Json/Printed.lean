import Codewright.Json.Parse
import Codewright.Json.Text
import Codewright.Proofs.Json.Numeral
import Codewright.Proofs.Text.Space

/-!
# Reading what is printed

A value that is printed on several lines is read again as it was written, in front of everything that does not go on with it.

* `stringRest_quotedChars` – a string in quotes; `exists_cons_prettyChars`: how a value begins;
* `Each number keys v` – what holds of the numbers and of the lists of keys in a value;
* `written v` – what the text of a value says; `valueUpTo_prettyChars`: it is read so, if it does not nest too deep;
* `itemsUpTo_members` – what holds of the members of a list holds of the list, be they items or entries.
-/

namespace Codewright.Json

open Text

variable {unit tail : List Char} {v : Json} {n size level : Nat}

/-! ## Strings -/

/-- What stands for a character in a string is one piece, and this piece stands for the character. -/
theorem exists_piece (c : Char) (rest : List Char) :
    ∃ p, stringPieces (escaped c ++ rest) = (stringPieces rest).map (fun r => (p :: r.1, r.2)) ∧
      ∀ ps, charsOf? (p :: ps) = (charsOf? ps).map (c :: ·) := by
  have unit_piece (low : c.toNat < 32) (ps : List Piece) : charsOf? (.unit c.toNat :: ps) = (charsOf? ps).map (c :: ·) := by
    have no_high : isHighSurrogate c.toNat = false := by
      simp only [isHighSurrogate, Bool.and_eq_false_iff, decide_eq_false_iff_not]
      omega
    have no_low : isLowSurrogate c.toNat = false := by
      simp only [isLowSurrogate, Bool.and_eq_false_iff, decide_eq_false_iff_not]
      omega
    conv_lhs => unfold charsOf?
    simp [no_high, no_low]
  unfold escaped
  split
  all_goals try exact ⟨.char _, rfl, fun _ => rfl⟩
  split_ifs with lower low
  · have value : ∀ m < 16, hexValue4? '0' '0' '0' m.digitChar = some m := by decide
    refine ⟨.unit c.toNat, ?_, unit_piece (by omega)⟩
    rw [Nat.toDigits_of_lt_base lower]
    simp [stringPieces, value c.toNat lower]
  · have value : ∀ m < 16, hexValue4? '0' '0' '1' m.digitChar = some (16 + m) := by decide
    refine ⟨.unit c.toNat, ?_, unit_piece low⟩
    have one : c.toNat / 16 = 1 := by omega
    have whole : 16 + c.toNat % 16 = c.toNat := by omega
    rw [Nat.toDigits_of_base_le (by decide) (by omega), one, Nat.toDigits_of_lt_base (by decide)]
    have digit : Nat.digitChar 1 = '1' := rfl
    have read := value (c.toNat % 16) (Nat.mod_lt _ (by decide))
    rw [whole] at read
    simp [stringPieces, digit, read]
  · next no_quote no_backslash _ _ _ _ _ =>
    refine ⟨.char c, ?_, fun _ => rfl⟩
    rw [List.singleton_append, stringPieces]
    all_goals simp_all

theorem exists_stringPieces (cs tail : List Char) :
    ∃ ps, stringPieces (cs.flatMap escaped ++ '"' :: tail) = some (ps, tail) ∧ charsOf? ps = some cs := by
  induction cs with
  | nil => exact ⟨[], rfl, rfl⟩
  | cons c cs ih =>
    obtain ⟨ps, read, chars⟩ := ih
    obtain ⟨p, first, stands⟩ := exists_piece c (cs.flatMap escaped ++ '"' :: tail)
    refine ⟨p :: ps, ?_, by rw [stands, chars, Option.map_some]⟩
    rw [List.flatMap_cons, List.append_assoc, first, read, Option.map_some]

/-- A string in quotes is read as it is. -/
theorem stringRest_quotedChars (s : String) (tail : List Char) :
    ∃ rest, quotedChars s tail = '"' :: rest ∧ stringRest rest = some (some s, tail) := by
  obtain ⟨ps, read, chars⟩ := exists_stringPieces s.toList tail
  refine ⟨_, rfl, ?_⟩
  rw [stringRest, List.append_eq, read, Option.map_some, chars, Option.map_some, String.ofList_toList]

/-! ## Values -/

/-- What holds of the text of every number in a value, and of the keys of every object in it, in their order. -/
inductive Each (number : String → Prop) (keys : List String → Prop) : Json → Prop where
  | null : Each number keys .null
  | bool (b : Bool) : Each number keys (.bool b)
  | number {text : String} (here : number text) : Each number keys (.number text)
  | string (s : String) : Each number keys (.string s)
  | array {items : List Json} (each : ∀ v ∈ items, Each number keys v) : Each number keys (.array items)
  | object {es : Entries} (here : keys (Entries.keys es)) (each : ∀ e ∈ es, Each number keys e.2) :
    Each number keys (.object es)

mutual

/-- What the text of a value says. -/
def written : Json → Written
  | .null => .null
  | .bool b => .bool b
  | .number text => .number text
  | .string s => .string s
  | .array vs => .array (writtenItems vs)
  | .object es => .object (writtenEntries es)

/-- What the texts of items say. -/
def writtenItems : List Json → List Written
  | [] => []
  | v :: vs => v.written :: writtenItems vs

/-- What the texts of entries say. -/
def writtenEntries : Entries → List (Option String × Written)
  | [] => []
  | (k, v) :: es => (some k, v.written) :: writtenEntries es

end

/-- Spaces and tabs, and nothing else. -/
def IsUnit (unit : List Char) : Prop := ∀ c ∈ unit, c = ' ' ∨ c = '\t'

theorem skipSpace_newLine (is_unit : IsUnit unit) (level : Nat) (tail : List Char) :
    skipSpace (newLine unit level tail) = skipSpace tail := by
  have space : ∀ c ∈ '\n' :: (List.replicate level unit).flatten, isJsonSpace c = true := by
    refine List.forall_mem_cons.2 ⟨rfl, fun c hc => ?_⟩
    obtain ⟨l, hl, hc⟩ := List.mem_flatten.1 hc
    rw [List.eq_of_mem_replicate hl] at hc
    rcases is_unit c hc with rfl | rfl <;> rfl
  rw [newLine, skipSpace, List.dropWhile_append_of_pos space, skipSpace]

theorem isSpace_of_isJsonSpace {c : Char} (h : isJsonSpace c = true) : isSpace c = true := by
  have : ((c = ' ' ∨ c = '\t') ∨ c = '\n') ∨ c = '\x0d' := by simpa [isJsonSpace] using h
  rcases this with ((rfl | rfl) | rfl) | rfl <;> rfl

theorem skipSpace_of_letter {c : Char} (letter : isSpace c = false) (cs : List Char) : skipSpace (c :: cs) = c :: cs := by
  refine List.dropWhile_cons_of_neg fun space => ?_
  rw [isSpace_of_isJsonSpace space] at letter
  cases letter

/-! ### Appending to what is printed -/

theorem newLine_append (unit : List Char) (level : Nat) (tail more : List Char) :
    newLine unit level (tail ++ more) = newLine unit level tail ++ more := by
  simp [newLine]

theorem quotedChars_append (s : String) (tail more : List Char) : quotedChars s (tail ++ more) = quotedChars s tail ++ more := by
  simp [quotedChars]

theorem scalarChars_append (v : Json) (tail more : List Char) : v.scalarChars (tail ++ more) = v.scalarChars tail ++ more := by
  unfold scalarChars
  split <;> simp [quotedChars]

mutual

theorem prettyChars_append (unit : List Char) (level : Nat) (tail more : List Char) :
    ∀ v : Json, prettyChars unit level (tail ++ more) v = prettyChars unit level tail v ++ more
  | .array (v :: vs) => by
    rw [prettyChars, prettyChars, ← List.cons_append, newLine_append, prettyItems_append, prettyChars_append, newLine_append]
    rfl
  | .object ((k, v) :: es) => by
    rw [prettyChars, prettyChars, ← List.cons_append, newLine_append, prettyEntries_append, prettyChars_append]
    rw [← List.cons_append, ← List.cons_append, quotedChars_append, newLine_append]
    rfl
  | .array [] => scalarChars_append _ tail more
  | .object [] => scalarChars_append _ tail more
  | .null => scalarChars_append _ tail more
  | .bool _ => scalarChars_append _ tail more
  | .number _ => scalarChars_append _ tail more
  | .string _ => scalarChars_append _ tail more

theorem prettyItems_append (unit : List Char) (level : Nat) (tail more : List Char) :
    ∀ vs : List Json, prettyItems unit level (tail ++ more) vs = prettyItems unit level tail vs ++ more
  | [] => rfl
  | v :: vs => by
    rw [prettyItems, prettyItems, prettyItems_append, prettyChars_append, newLine_append]
    rfl

theorem prettyEntries_append (unit : List Char) (level : Nat) (tail more : List Char) :
    ∀ es : Entries, prettyEntries unit level (tail ++ more) es = prettyEntries unit level tail es ++ more
  | [] => rfl
  | (k, v) :: es => by
    rw [prettyEntries, prettyEntries, prettyEntries_append, prettyChars_append]
    rw [← List.cons_append, ← List.cons_append, quotedChars_append, newLine_append]
    rfl

end

theorem length_prettyChars_le (unit : List Char) (level : Nat) (tail : List Char) (v : Json) :
    tail.length ≤ (prettyChars unit level tail v).length := by
  have whole := prettyChars_append unit level [] tail v
  rw [List.nil_append] at whole
  rw [whole, List.length_append]
  omega

/-- A value begins with a letter, which does not close an array. -/
theorem exists_cons_prettyChars {keys : List String → Prop} (kept : Each IsKeptNumber keys v) (unit : List Char) (level : Nat)
    (tail : List Char) :
    ∃ c cs, prettyChars unit level tail v = c :: cs ∧ isSpace c = false ∧ c ≠ ']' := by
  cases kept with
  | null => exact ⟨'n', _, rfl, rfl, by decide⟩
  | bool b => cases b with
    | true => exact ⟨'t', _, rfl, rfl, by decide⟩
    | false => exact ⟨'f', _, rfl, rfl, by decide⟩
  | @number text here =>
    obtain ⟨c, cs, start, first⟩ := here.exists_cons
    have alike : c = '-' ∨ c.isDigit = true := by simpa using first
    refine ⟨c, cs ++ tail, ?_, ?_, ?_⟩
    · rw [prettyChars, scalarChars, start]
      rfl
      all_goals nofun
    · rcases alike with rfl | digit
      · rfl
      · exact isSpace_of_isAlphanum (by simp [Char.isAlphanum, digit])
    · rintro rfl
      cases first
  | string s => exact ⟨'"', _, rfl, rfl, by decide⟩
  | @array items _ => cases items with
    | nil => exact ⟨'[', _, rfl, rfl, by decide⟩
    | cons v vs => exact ⟨'[', _, rfl, rfl, by decide⟩
  | @object es _ _ => cases es with
    | nil => exact ⟨'\x7b', _, rfl, rfl, by decide⟩
    | cons e es => exact ⟨'\x7b', _, rfl, rfl, by decide⟩

/-! ### Lists -/

section

variable {α β : Type} {item : Reader α} {member : List Char → β → List Char} {value : β → α} {close : Char}

/-- Members with a comma and a new line in front of each, in front of a text. -/
def members (member : List Char → β → List Char) (unit : List Char) (level : Nat) (tail : List Char) (xs : List β) : List Char :=
  xs.foldr (fun x rest => ',' :: newLine unit level (member rest x)) tail

theorem members_cons (unit : List Char) (level : Nat) (tail : List Char) (x : β) (xs : List β) :
    members member unit level tail (x :: xs) = ',' :: newLine unit level (member (members member unit level tail xs) x) := rfl

theorem prettyItems_eq (unit : List Char) (level : Nat) (tail : List Char) (vs : List Json) :
    prettyItems unit level tail vs = members (prettyChars unit level) unit level tail vs := by
  induction vs with
  | nil => rfl
  | cons v vs ih => rw [prettyItems, ih]; rfl

/-- An entry, in front of a text. -/
def prettyEntry (unit : List Char) (level : Nat) (rest : List Char) (e : String × Json) : List Char :=
  quotedChars e.1 (':' :: ' ' :: prettyChars unit level rest e.2)

theorem prettyEntries_eq (unit : List Char) (level : Nat) (tail : List Char) (es : Entries) :
    prettyEntries unit level tail es = members (prettyEntry unit level) unit level tail es := by
  induction es with
  | nil => rfl
  | cons e es ih => rw [prettyEntries, ih]; rfl

theorem length_newLine (unit : List Char) (level : Nat) (tail : List Char) : tail.length < (newLine unit level tail).length := by
  simp only [newLine, List.cons_append, List.length_cons, List.length_append]
  omega

theorem length_members (longer : ∀ rest y, rest.length ≤ (member rest y).length) (unit : List Char) (level : Nat)
    (tail : List Char) (xs : List β) : xs.length + tail.length ≤ (members member unit level tail xs).length := by
  induction xs with
  | nil => simp [members]
  | cons x xs ih =>
    have more := longer (members member unit level tail xs) x
    have more' := length_newLine unit level (member (members member unit level tail xs) x)
    simp only [members_cons, List.length_cons]
    omega

theorem itemsUpTo_skipSpace (skips : ∀ cs, item (skipSpace cs) = item cs) (m : Nat) (cs : List Char) :
    itemsUpTo item close m (skipSpace cs) = itemsUpTo item close m cs := by
  cases m with
  | zero => rfl
  | succ m => rw [itemsUpTo, itemsUpTo, skips]

/-- Members that are read one by one are read as a list. -/
theorem itemsUpTo_members (is_unit : IsUnit unit) (letter : isSpace close = false) (no_comma : close ≠ ',')
    (skips : ∀ cs, item (skipSpace cs) = item cs) {xs : List β} {x : β}
    (reads : ∀ y ∈ x :: xs, ∀ rest, EndsNumber rest → (member rest y).length ≤ size → item (member rest y) = some (value y, rest))
    (longer : ∀ rest y, rest.length ≤ (member rest y).length) {m level' : Nat} (enough : xs.length < m)
    (short : (member (members member unit level (newLine unit level' (close :: tail)) xs) x).length ≤ size) :
    itemsUpTo item close m (member (members member unit level (newLine unit level' (close :: tail)) xs) x) =
      some ((x :: xs).map value, tail) := by
  induction xs generalizing x m with
  | nil =>
    obtain ⟨m, rfl⟩ : ∃ k, m = k + 1 := ⟨m - 1, by omega⟩
    have ends : EndsNumber (newLine unit level' (close :: tail)) := by
      rintro c ⟨⟩
      decide
    change itemsUpTo item close (m + 1) (member (newLine unit level' (close :: tail)) x) = _
    rw [itemsUpTo, reads x List.mem_cons_self _ ends short]
    simp only [Option.bind_eq_bind, Option.bind_some, skipSpace_newLine is_unit, skipSpace_of_letter letter]
    simp
  | cons y ys ih =>
    obtain ⟨m, rfl⟩ : ∃ k, m = k + 1 := ⟨m - 1, by omega⟩
    obtain ⟨first, more⟩ := List.forall_mem_cons.1 reads
    have ends : EndsNumber (members member unit level (newLine unit level' (close :: tail)) (y :: ys)) := by
      rintro c ⟨⟩
      decide
    have rest := ih more (m := m) (by simpa using enough) (by
      have longer' := longer (members member unit level (newLine unit level' (close :: tail)) (y :: ys)) x
      have feed := length_newLine unit level (member (members member unit level (newLine unit level' (close :: tail)) ys) y)
      rw [members_cons, List.length_cons] at longer'
      rw [members_cons] at short
      omega)
    rw [itemsUpTo, first _ ends short, members_cons]
    simp only [Option.bind_eq_bind, Option.bind_some, skipSpace_of_letter (show isSpace ',' = false from rfl)]
    rw [← itemsUpTo_skipSpace skips, skipSpace_newLine is_unit, itemsUpTo_skipSpace skips, rest]
    rfl

/-- The list of a container, behind its opening bracket, if it is not empty. -/
theorem items_members (is_unit : IsUnit unit) (letter : isSpace close = false) (no_comma : close ≠ ',')
    (skips : ∀ cs, item (skipSpace cs) = item cs) {xs : List β} {x : β}
    (reads : ∀ y ∈ x :: xs, ∀ rest, EndsNumber rest → (member rest y).length ≤ size → item (member rest y) = some (value y, rest))
    (longer : ∀ rest y, rest.length ≤ (member rest y).length)
    (begins : ∀ rest, ∃ c cs, member rest x = c :: cs ∧ isSpace c = false ∧ c ≠ close) {level' : Nat}
    (short : (newLine unit level
      (member (members member unit level (newLine unit level' (close :: tail)) xs) x)).length ≤ size) :
    items item close size (newLine unit level (member (members member unit level (newLine unit level' (close :: tail)) xs) x)) =
      some ((x :: xs).map value, tail) := by
  have inner := length_newLine unit level (member (members member unit level (newLine unit level' (close :: tail)) xs) x)
  have commas := length_members longer unit level (newLine unit level' (close :: tail)) xs
  have closing := length_newLine unit level' (close :: tail)
  have longer' := longer (members member unit level (newLine unit level' (close :: tail)) xs) x
  rw [List.length_cons] at closing
  have enough : xs.length < size := by omega
  have short : (member (members member unit level (newLine unit level' (close :: tail)) xs) x).length ≤ size := by omega
  have read := itemsUpTo_members is_unit letter no_comma skips reads longer enough short
  obtain ⟨c, cs, start, other, no_close⟩ := begins (members member unit level (newLine unit level' (close :: tail)) xs)
  rw [start] at read ⊢
  rw [items, skipSpace_newLine is_unit, skipSpace_of_letter other]
  simp [no_close, read]

end

/-! ### Values and the lists in them -/

theorem skipSpace_skipSpace (cs : List Char) : skipSpace (skipSpace cs) = skipSpace cs :=
  Php.Lexer.dropWhile_dropWhile (fun _ space => space) cs

theorem valueUpTo_skipSpace (size n : Nat) (cs : List Char) : valueUpTo size n (skipSpace cs) = valueUpTo size n cs := by
  cases n with
  | zero => rw [valueUpTo, valueUpTo, skipSpace_skipSpace]
  | succ n => rw [valueUpTo, valueUpTo, skipSpace_skipSpace]

theorem entry_skipSpace {α : Type} (value : Reader α) (cs : List Char) : entry value (skipSpace cs) = entry value cs := by
  rw [entry, entry, skipSpace_skipSpace]

/-- What begins with a letter other than an opening bracket is read as a scalar. -/
theorem valueUpTo_scalar {c : Char} (letter : isSpace c = false) (no_array : c ≠ '[') (no_object : c ≠ '\x7b') (size n : Nat)
    (cs : List Char) : valueUpTo size n (c :: cs) = scalarValue (c :: cs) := by
  cases n with
  | zero => rw [valueUpTo, skipSpace_of_letter letter]
  | succ n =>
    rw [valueUpTo, skipSpace_of_letter letter]
    split
    next same => exact absurd (List.cons.inj same).1 no_array
    next same => exact absurd (List.cons.inj same).1 no_object
    next => rfl

theorem valueUpTo_number {text : String} (kept : IsKeptNumber text) (ends : EndsNumber tail) (size n : Nat) :
    valueUpTo size n (text.toList ++ tail) = some (.number text, tail) := by
  obtain ⟨c, cs, start, first⟩ := kept.exists_cons
  have alike : c = '-' ∨ c.isDigit = true := by simpa using first
  have ne {d : Char} (other : (d == '-' || d.isDigit) = false) : c ≠ d := by
    rintro rfl
    rw [first] at other
    cases other
  have letter : isSpace c = false := by
    rcases alike with rfl | digit
    · rfl
    · exact isSpace_of_isAlphanum (by simp [Char.isAlphanum, digit])
  have read := numberText_append kept ends
  rw [start, List.cons_append] at read ⊢
  rw [valueUpTo_scalar letter (ne rfl) (ne rfl), scalarValue, if_pos first, read]
  · rfl
  · exact ne rfl

/-- An entry is read as its key and its value. -/
theorem entry_prettyEntry (key : String) {w : Written} (read : valueUpTo size n (prettyChars unit level tail v) = some (w, tail)) :
    entry (valueUpTo size n) (prettyEntry unit level tail (key, v)) = some ((some key, w), tail) := by
  obtain ⟨rest, quoted, string⟩ := stringRest_quotedChars key (':' :: ' ' :: prettyChars unit level tail v)
  have space : valueUpTo size n (' ' :: prettyChars unit level tail v) = some (w, tail) := by
    rw [← valueUpTo_skipSpace, skipSpace, List.dropWhile_cons_of_pos rfl, ← skipSpace, valueUpTo_skipSpace, read]
  rw [prettyEntry, quoted, entry, skipSpace_of_letter rfl]
  simp only [string, Option.bind_eq_bind, Option.bind_some, skipSpace_of_letter (show isSpace ':' = false from rfl), space,
    Option.map_some]

theorem depth_le_depthOfItems {items : List Json} (hv : v ∈ items) : v.depth ≤ depthOfItems items := by
  induction items with
  | nil => cases hv
  | cons w items ih =>
    rw [depthOfItems]
    rcases List.mem_cons.1 hv with rfl | later
    · exact le_max_left _ _
    · exact (ih later).trans (le_max_right _ _)

theorem depth_le_depthOfEntries {es : Entries} {e : String × Json} (he : e ∈ es) : e.2.depth ≤ depthOfEntries es := by
  induction es with
  | nil => cases he
  | cons first es ih =>
    rw [depthOfEntries]
    rcases List.mem_cons.1 he with rfl | later
    · exact le_max_left _ _
    · exact (ih later).trans (le_max_right _ _)

theorem writtenItems_eq (vs : List Json) : writtenItems vs = vs.map written := by
  induction vs with
  | nil => rfl
  | cons v vs ih => rw [writtenItems, ih, List.map_cons]

theorem writtenEntries_eq (es : Entries) : writtenEntries es = es.map fun e => (some e.1, e.2.written) := by
  induction es with
  | nil => rfl
  | cons e es ih => rw [writtenEntries, ih, List.map_cons]

theorem length_prettyEntry_le (unit : List Char) (level : Nat) (rest : List Char) (e : String × Json) :
    rest.length ≤ (prettyEntry unit level rest e).length := by
  have longer := length_prettyChars_le unit level rest e.2
  simp only [prettyEntry, quotedChars, List.cons_append, List.length_cons, List.length_append]
  omega

/-- A value is read as it is written. -/
theorem valueUpTo_prettyChars {keys : List String → Prop} (kept : Each IsKeptNumber keys v) (is_unit : IsUnit unit)
    (shallow : v.depth ≤ n) (ends : EndsNumber tail) (short : (prettyChars unit level tail v).length ≤ size) :
    valueUpTo size n (prettyChars unit level tail v) = some (v.written, tail) := by
  induction kept generalizing n level tail with
  | null => exact valueUpTo_scalar rfl (by decide) (by decide) size n _
  | bool b => cases b with
    | true => exact valueUpTo_scalar rfl (by decide) (by decide) size n _
    | false => exact valueUpTo_scalar rfl (by decide) (by decide) size n _
  | number here => exact valueUpTo_number here ends size n
  | string s =>
    obtain ⟨rest, quoted, string⟩ := stringRest_quotedChars s tail
    change valueUpTo size n (quotedChars s tail) = _
    rw [quoted, valueUpTo_scalar rfl (by decide) (by decide), scalarValue, string]
    rfl
  | @array items each ih =>
    rw [depth] at shallow
    obtain ⟨n, rfl⟩ : ∃ m, n = m + 1 := ⟨n - 1, by omega⟩
    cases items with
    | nil => rfl
    | cons v vs =>
      rw [prettyChars, prettyItems_eq, List.length_cons] at short
      rw [prettyChars, prettyItems_eq, valueUpTo, skipSpace_of_letter rfl]
      have reads : ∀ w ∈ v :: vs, ∀ rest, EndsNumber rest → (prettyChars unit (level + 1) rest w).length ≤ size →
          valueUpTo size n (prettyChars unit (level + 1) rest w) = some (w.written, rest) := by
        intro w hw rest ends' short'
        have inner := depth_le_depthOfItems hw
        exact ih w hw (by omega) ends' short'
      have begins := exists_cons_prettyChars (each v List.mem_cons_self) unit (level + 1)
      have read := items_members is_unit (show isSpace ']' = false from rfl) (by decide) (valueUpTo_skipSpace size n) reads
        (fun rest w => length_prettyChars_le unit (level + 1) rest w) begins (Nat.le_of_succ_le short)
      simp only [read, Option.map_some, written, writtenItems_eq]
  | @object es _ each ih =>
    rw [depth] at shallow
    obtain ⟨n, rfl⟩ : ∃ m, n = m + 1 := ⟨n - 1, by omega⟩
    cases es with
    | nil => rfl
    | cons e es =>
      have text : prettyChars unit level tail (.object (e :: es)) = '\x7b' :: newLine unit (level + 1)
          (prettyEntry unit (level + 1) (members (prettyEntry unit (level + 1)) unit (level + 1)
            (newLine unit level ('\x7d' :: tail)) es) e) := by
        rw [← prettyEntries_eq]
        rfl
      rw [text, List.length_cons] at short
      rw [text, valueUpTo, skipSpace_of_letter rfl]
      have reads : ∀ f ∈ e :: es, ∀ rest, EndsNumber rest → (prettyEntry unit (level + 1) rest f).length ≤ size →
          entry (valueUpTo size n) (prettyEntry unit (level + 1) rest f) = some ((some f.1, f.2.written), rest) := by
        intro f hf rest ends' short'
        have inner := depth_le_depthOfEntries hf
        simp only [prettyEntry, quotedChars, List.cons_append, List.length_cons, List.length_append] at short'
        exact entry_prettyEntry f.1 (ih f hf (by omega) ends' (by omega))
      have begins (rest : List Char) :
          ∃ c cs, prettyEntry unit (level + 1) rest e = c :: cs ∧ isSpace c = false ∧ c ≠ '\x7d' :=
        ⟨'"', _, rfl, rfl, by decide⟩
      have read := items_members is_unit (show isSpace '\x7d' = false from rfl) (by decide)
        (entry_skipSpace (valueUpTo size n)) reads (length_prettyEntry_le unit (level + 1)) begins (Nat.le_of_succ_le short)
      simp only [read, Option.map_some, written, writtenEntries_eq]

end Codewright.Json
