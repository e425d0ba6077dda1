import Codewright.Json.Document
import Codewright.Proofs.Json.Merge
import Codewright.Proofs.Json.Printed

/-!
# Values that a text holds

What is read from a text can be printed and read again, and it is the same.

* `IsTextual v` – the numbers of a value are kept as they are, no object has a key twice, and none begins with the key
  under which a number is written; `Json.depth` bounds how deep it nests;
* `isTextual_of_parse?` – so is everything that is read;
* `parse?_print` – and all that is so is read again when it is printed.
-/

namespace Codewright.Json

open Text

variable {v : Json} {n size : Nat} {cs rest : List Char}

/-- A value that can be read from a text: its numbers are as they are kept, no object has a key twice, and none begins
with the key under which a number is written. -/
def IsTextual : Json → Prop := Each IsKeptNumber fun keys => keys.Nodup ∧ keys.head? ≠ some numberKey

/-! ## What is read -/

/-- What a text can say if its containers nest at most `n` deep. -/
inductive Within : Nat → Written → Prop
  | null {n : Nat} : Within n .null
  | bool {n : Nat} (b : Bool) : Within n (.bool b)
  | number {n : Nat} {text : String} (kept : IsKeptNumber text) : Within n (.number text)
  | string {n : Nat} (s : String) : Within n (.string s)
  | array {n : Nat} {ws : List Written} (each : ∀ w ∈ ws, Within n w) : Within (n + 1) (.array ws)
  | object {n : Nat} {es : List (Option String × Written)} (each : ∀ e ∈ es, Within n e.2) : Within (n + 1) (.object es)
  | unreadable {n : Nat} : Within n .unreadable

theorem within_of_scalarValue {w : Written} (h : scalarValue cs = some (w, rest)) : Within n w := by
  unfold scalarValue at h
  split at h
  · obtain ⟨⟨s, rest'⟩, -, same⟩ := Option.map_eq_some_iff.1 h
    cases same
    cases s with
    | none => exact .unreadable
    | some s => exact .string s
  · split at h
    · obtain ⟨⟨text, rest'⟩, number, same⟩ := Option.map_eq_some_iff.1 h
      cases same
      exact .number (isKeptNumber_of_numberText number)
    · unfold wordValue at h
      split at h
      · cases h
        exact .null
      · cases h
        exact .bool true
      · cases h
        exact .bool false
      · cases h
  · cases h

section

variable {α : Type} {item : Reader α} {close : Char} {p : α → Prop}

theorem forall_of_itemsUpTo (each : ∀ {cs x rest}, item cs = some (x, rest) → p x) {m : Nat} {xs : List α}
    (h : itemsUpTo item close m cs = some (xs, rest)) : ∀ x ∈ xs, p x := by
  induction m generalizing cs xs with
  | zero => cases h
  | succ m ih =>
    obtain ⟨⟨x, behind⟩, first, h⟩ := Option.bind_eq_some_iff.1 h
    dsimp only at h
    split at h
    · obtain ⟨⟨ys, rest'⟩, more, same⟩ := Option.map_eq_some_iff.1 h
      cases same
      exact List.forall_mem_cons.2 ⟨each first, ih more⟩
    · split at h
      · cases h
        exact List.forall_mem_singleton.2 (each first)
      · cases h
    · cases h

/-- What holds of all that is read one by one holds of the members of a list. -/
theorem forall_of_items (each : ∀ {cs x rest}, item cs = some (x, rest) → p x) {m : Nat} {xs : List α}
    (h : items item close m cs = some (xs, rest)) : ∀ x ∈ xs, p x := by
  unfold items at h
  split at h
  · cases h
  · split at h
    · cases h
      exact List.forall_mem_nil _
    · exact forall_of_itemsUpTo each h

end

theorem exists_value_of_entry {α : Type} {value : Reader α} {e : Option String × α} (h : entry value cs = some (e, rest)) :
    ∃ cs', value cs' = some (e.2, rest) := by
  unfold entry at h
  split at h
  · obtain ⟨⟨key, behind⟩, -, h⟩ := Option.bind_eq_some_iff.1 h
    dsimp only at h
    split at h
    · obtain ⟨⟨x, rest'⟩, read, same⟩ := Option.map_eq_some_iff.1 h
      cases same
      exact ⟨_, read⟩
    · cases h
  · cases h

theorem within_of_valueUpTo {w : Written} (h : valueUpTo size n cs = some (w, rest)) : Within n w := by
  induction n generalizing cs w rest with
  | zero => exact within_of_scalarValue h
  | succ n ih =>
    unfold valueUpTo at h
    split at h
    · obtain ⟨⟨ws, rest'⟩, list, same⟩ := Option.map_eq_some_iff.1 h
      cases same
      exact .array (forall_of_items ih list)
    · obtain ⟨⟨es, rest'⟩, list, same⟩ := Option.map_eq_some_iff.1 h
      cases same
      refine .object (forall_of_items (fun read => ?_) list)
      obtain ⟨cs', value⟩ := exists_value_of_entry read
      exact ih value
    · exact within_of_scalarValue h

/-! ## What it means -/

theorem isTextual_of_numberOfEntries? {es : List (Option String × Written)} (h : numberOfEntries? es = some v) :
    IsTextual v ∧ v.depth = 0 := by
  unfold numberOfEntries? numberOfText? at h
  split at h
  · split at h
    next number =>
      cases h
      exact ⟨.number (isKeptNumber_of_numberText number), rfl⟩
    · cases h
  · cases h

theorem forall_of_itemsOfWritten? {p : Json → Prop} {ws : List Written} {vs : List Json}
    (each : ∀ w ∈ ws, ∀ v, ofWritten? w = some v → p v) (h : itemsOfWritten? ws = some vs) : ∀ v ∈ vs, p v := by
  induction ws generalizing vs with
  | nil =>
    cases h
    exact List.forall_mem_nil _
  | cons w ws ih =>
    obtain ⟨here, later⟩ := List.forall_mem_cons.1 each
    obtain ⟨v, first, h⟩ := Option.bind_eq_some_iff.1 h
    obtain ⟨vs', rest, h⟩ := Option.bind_eq_some_iff.1 h
    cases h
    exact List.forall_mem_cons.2 ⟨here v first, ih later rest⟩

theorem forall_of_entriesOfWritten? {p : Json → Prop} {es : List (Option String × Written)} {ps : List (String × Json)}
    (each : ∀ e ∈ es, ∀ v, ofWritten? e.2 = some v → p v) (h : entriesOfWritten? es = some ps) :
    (∀ e ∈ ps, p e.2) ∧ es.map (·.1) = ps.map fun e => some e.1 := by
  induction es generalizing ps with
  | nil =>
    cases h
    exact ⟨List.forall_mem_nil _, rfl⟩
  | cons e es ih =>
    obtain ⟨here, later⟩ := List.forall_mem_cons.1 each
    obtain ⟨key, has_key, h⟩ := Option.bind_eq_some_iff.1 h
    obtain ⟨v, first, h⟩ := Option.bind_eq_some_iff.1 h
    obtain ⟨ps', rest, h⟩ := Option.bind_eq_some_iff.1 h
    cases h
    obtain ⟨all, keys⟩ := ih later rest
    exact ⟨List.forall_mem_cons.2 ⟨here v first, all⟩, by rw [List.map_cons, has_key, keys]; rfl⟩

theorem depthOfItems_le {items : List Json} (each : ∀ v ∈ items, v.depth ≤ n) : depthOfItems items ≤ n := by
  induction items with
  | nil => exact Nat.zero_le n
  | cons v items ih =>
    obtain ⟨here, later⟩ := List.forall_mem_cons.1 each
    exact max_le here (ih later)

theorem depthOfEntries_le {es : Entries} (each : ∀ e ∈ es, e.2.depth ≤ n) : depthOfEntries es ≤ n := by
  induction es with
  | nil => exact Nat.zero_le n
  | cons e es ih =>
    obtain ⟨here, later⟩ := List.forall_mem_cons.1 each
    exact max_le here (ih later)

theorem Entries.nodup_keys_ofPairs (ps : List (String × Json)) : (keys (ofPairs ps)).Nodup := by
  induction ps using List.reverseRecOn with
  | nil => exact List.nodup_nil
  | append_singleton ps p ih =>
    rw [ofPairs, List.foldl_append, ← ofPairs]
    exact nodup_keys_put ih p.1 p.2

theorem head?_keys_ofPairs (ps : List (String × Json)) : (Entries.keys (Entries.ofPairs ps)).head? = ps.head?.map (·.1) := by
  rw [Entries.keys_ofPairs]
  cases ps with
  | nil => rfl
  | cons p ps => simp [List.eraseDups_cons]

theorem isNumberObject_of_head? {es : List (Option String × Written)} {ps : List (String × Json)}
    (keys : es.map (·.1) = ps.map fun e => some e.1) (number : ps.head?.map (·.1) = some numberKey) :
    isNumberObject es = true := by
  cases ps with
  | nil => cases number
  | cons p ps =>
    cases es with
    | nil => cases keys
    | cons e es =>
      have first : e.1 = some p.1 := (List.cons.inj keys).1
      have key : p.1 = numberKey := Option.some.inj number
      simp [isNumberObject, first, key]

theorem isTextual_of_ofWritten? {w : Written} (within : Within n w) (h : ofWritten? w = some v) :
    IsTextual v ∧ v.depth ≤ n := by
  induction within generalizing v with
  | null =>
    cases h
    exact ⟨.null, Nat.zero_le _⟩
  | bool b =>
    cases h
    exact ⟨.bool b, Nat.zero_le _⟩
  | number kept =>
    cases h
    exact ⟨.number kept, Nat.zero_le _⟩
  | string s =>
    cases h
    exact ⟨.string s, Nat.zero_le _⟩
  | array each ih =>
    obtain ⟨items, read, rfl⟩ := Option.map_eq_some_iff.1 h
    have all := forall_of_itemsOfWritten? (fun w hw v => ih w hw) read
    have depths := depthOfItems_le fun v hv => (all v hv).2
    exact ⟨.array fun v hv => (all v hv).1, by rw [depth]; omega⟩
  | object each ih =>
    rw [ofWritten?] at h
    split at h
    · obtain ⟨textual, flat⟩ := isTextual_of_numberOfEntries? h
      exact ⟨textual, by omega⟩
    · next no_number =>
      obtain ⟨ps, read, rfl⟩ := Option.map_eq_some_iff.1 h
      obtain ⟨all, keys⟩ := forall_of_entriesOfWritten? (fun e he v => ih e he) read
      have all : ∀ e ∈ Entries.ofPairs ps, IsTextual e.2 ∧ e.2.depth ≤ _ := fun e he => all e (Entries.mem_of_mem_ofPairs he)
      have depths := depthOfEntries_le fun e he => (all e he).2
      refine ⟨.object ⟨Entries.nodup_keys_ofPairs ps, fun number => no_number ?_⟩ fun e he => (all e he).1, by
        rw [depth]; omega⟩
      rw [head?_keys_ofPairs] at number
      exact isNumberObject_of_head? keys number
  | unreadable => cases h

/-- Everything that is read is textual, and nests at most as deep as it may. -/
theorem isTextual_of_parse? {text : String} (h : parse? text = some v) : IsTextual v ∧ v.depth ≤ maxDepth := by
  obtain ⟨w, read, meaning⟩ := Option.bind_eq_some_iff.1 h
  unfold Written.parseUpTo? at read
  split at read
  · next value =>
    split at read
    · cases read
      exact isTextual_of_ofWritten? (within_of_valueUpTo value) meaning
    · cases read
  · cases read

/-! ## Reading what is printed -/

theorem itemsOfWritten?_map {vs : List Json} (each : ∀ v ∈ vs, ofWritten? v.written = some v) :
    itemsOfWritten? (vs.map written) = some vs := by
  induction vs with
  | nil => rfl
  | cons v vs ih =>
    obtain ⟨here, later⟩ := List.forall_mem_cons.1 each
    rw [List.map_cons, itemsOfWritten?, here, ih later]
    rfl

theorem entriesOfWritten?_map {es : Entries} (each : ∀ e ∈ es, ofWritten? e.2.written = some e.2) :
    entriesOfWritten? (es.map fun e => (some e.1, e.2.written)) = some es := by
  induction es with
  | nil => rfl
  | cons e es ih =>
    obtain ⟨here, later⟩ := List.forall_mem_cons.1 each
    rw [List.map_cons, entriesOfWritten?, here, ih later]
    rfl

theorem Entries.ofPairs_of_nodup {es : Entries} (nodup : (keys es).Nodup) : ofPairs es = es := by
  induction es using List.reverseRecOn with
  | nil => rfl
  | append_singleton es e ih =>
    rw [keys, List.map_append, List.nodup_append] at nodup
    obtain ⟨nodup, -, apart⟩ := nodup
    rw [ofPairs, List.foldl_append, ← ofPairs, ih nodup]
    exact put_of_not_mem (fun here => apart e.1 here e.1 (by simp) rfl) e.2

/-- What a text says is what it means, if the value is textual. -/
theorem ofWritten?_written (textual : IsTextual v) : ofWritten? v.written = some v := by
  unfold IsTextual at textual
  induction textual with
  | null => rfl
  | bool b => rfl
  | number here => rfl
  | string s => rfl
  | array each ih => rw [written, writtenItems_eq, ofWritten?, itemsOfWritten?_map ih, Option.map_some]
  | @object es here each ih =>
    have no_number : isNumberObject (es.map fun e => (some e.1, e.2.written)) = false := by
      cases es with
      | nil => rfl
      | cons e es => simpa [isNumberObject, Entries.keys] using here.2
    rw [written, writtenEntries_eq, ofWritten?, no_number, if_neg (by simp), entriesOfWritten?_map ih, Option.map_some,
      Entries.ofPairs_of_nodup here.1]

theorem toList_print (unit : String) (v : Json) : (Document.print unit v).toList = prettyChars unit.toList 0 ['\n'] v := by
  have whole := prettyChars_append unit.toList 0 [] ['\n'] v
  rw [List.nil_append] at whole
  rw [Document.print, pretty, String.toList_append, String.toList_ofList, whole]
  rfl

/-- The text that is printed says what is written, and nothing is left over. -/
theorem parseUpTo?_print {keys : List String → Prop} {unit : String} (kept : Each IsKeptNumber keys v)
    (shallow : v.depth ≤ n) (is_unit : IsUnit unit.toList) : Written.parseUpTo? n (Document.print unit v) = some v.written := by
  have text := toList_print unit v
  have ends : EndsNumber ['\n'] := by
    rintro c ⟨⟩
    decide
  have short : (prettyChars unit.toList 0 ['\n'] v).length ≤ (prettyChars unit.toList 0 ['\n'] v).length := Nat.le_refl _
  have read := valueUpTo_prettyChars kept is_unit shallow ends short
  rw [Written.parseUpTo?, text, ← String.length_toList, text, read]
  rfl

/-- What is textual and does not nest too deep is read again when it is printed. -/
theorem parse?_print {unit : String} (textual : IsTextual v) (shallow : v.depth ≤ maxDepth) (is_unit : IsUnit unit.toList) :
    parse? (Document.print unit v) = some v := by
  rw [parse?, parseUpTo?_print textual shallow is_unit, Option.bind_some, ofWritten?_written textual]

/-! ## What nests too deep -/

section

variable {α : Type} {item item' : Reader α} {close : Char}

theorem itemsUpTo_mono (more : ∀ {cs r}, item cs = some r → item' cs = some r) {m : Nat} {r : List α × List Char}
    (h : itemsUpTo item close m cs = some r) : itemsUpTo item' close m cs = some r := by
  induction m generalizing cs r with
  | zero => cases h
  | succ m ih =>
    obtain ⟨⟨x, behind⟩, first, h⟩ := Option.bind_eq_some_iff.1 h
    rw [itemsUpTo, more first]
    dsimp only [Option.bind_eq_bind, Option.bind_some] at h ⊢
    split at h
    · obtain ⟨r', later, same⟩ := Option.map_eq_some_iff.1 h
      rw [ih later, Option.map_some, same]
    · exact h
    · cases h

theorem items_mono (more : ∀ {cs r}, item cs = some r → item' cs = some r) {m : Nat} {r : List α × List Char}
    (h : items item close m cs = some r) : items item' close m cs = some r := by
  unfold items at h ⊢
  split at h
  · cases h
  · split at h
    next closes => rwa [if_pos closes]
    next opens =>
      rw [if_neg opens]
      exact itemsUpTo_mono more h

theorem entry_mono (more : ∀ {cs r}, item cs = some r → item' cs = some r) {r : (Option String × α) × List Char}
    (h : entry item cs = some r) : entry item' cs = some r := by
  unfold entry at h ⊢
  split at h
  · obtain ⟨⟨key, behind⟩, quoted, h⟩ := Option.bind_eq_some_iff.1 h
    rw [quoted]
    dsimp only [Option.bind_eq_bind, Option.bind_some] at h ⊢
    split at h
    · obtain ⟨r', value, same⟩ := Option.map_eq_some_iff.1 h
      rw [more value, Option.map_some, same]
    · cases h
  · cases h

end

/-- What is read within a depth is read alike within a greater one. -/
theorem valueUpTo_mono {m : Nat} (le : n ≤ m) {r : Written × List Char} (h : valueUpTo size n cs = some r) :
    valueUpTo size m cs = some r := by
  have step {n : Nat} {cs : List Char} {r : Written × List Char} (h : valueUpTo size n cs = some r) :
      valueUpTo size (n + 1) cs = some r := by
    induction n generalizing cs r with
    | zero =>
      have h : scalarValue (skipSpace cs) = some r := h
      unfold valueUpTo
      split
      next start =>
        rw [start] at h
        cases h
      next start =>
        rw [start] at h
        cases h
      next => exact h
    | succ n ih =>
      rw [valueUpTo] at h ⊢
      split at h
      · obtain ⟨r', list, same⟩ := Option.map_eq_some_iff.1 h
        rw [items_mono ih list, Option.map_some, same]
      · obtain ⟨r', list, same⟩ := Option.map_eq_some_iff.1 h
        rw [items_mono (entry_mono ih) list, Option.map_some, same]
      · exact h
  induction le with
  | refl => exact h
  | step _ ih => exact step ih

/-- What is written within a depth nests no deeper. -/
theorem depth_le_of_within {number : String → Prop} {keys : List String → Prop} (kept : Each number keys v)
    (within : Within n v.written) : v.depth ≤ n := by
  induction kept generalizing n with
  | array each ih =>
    rw [written, writtenItems_eq] at within
    cases within with
    | array inner =>
      have depths := depthOfItems_le fun v hv => ih v hv (inner _ (List.mem_map_of_mem hv))
      rw [depth]
      omega
  | object here each ih =>
    rw [written, writtenEntries_eq] at within
    cases within with
    | object inner =>
      have depths := depthOfEntries_le fun e he => ih e he (inner _ (List.mem_map_of_mem he))
      rw [depth]
      omega
  | _ => exact Nat.zero_le n

/-- What nests too deep is not read when it is printed. -/
theorem parse?_print_of_deep {keys : List String → Prop} {unit : String} (kept : Each IsKeptNumber keys v)
    (deep : maxDepth < v.depth) (is_unit : IsUnit unit.toList) : parse? (Document.print unit v) = none := by
  have text := toList_print unit v
  have ends : EndsNumber ['\n'] := by
    rintro c ⟨⟩
    decide
  have short : (prettyChars unit.toList 0 ['\n'] v).length ≤ (Document.print unit v).length := by
    rw [← text, String.length_toList]
  have whole := valueUpTo_prettyChars kept is_unit (Nat.le_refl v.depth) ends short
  rw [parse?, Written.parseUpTo?]
  cases read : valueUpTo (Document.print unit v).length maxDepth (Document.print unit v).toList with
  | none => rfl
  | some r =>
    have same := valueUpTo_mono deep.le read
    rw [text, whole] at same
    cases same
    exact absurd (depth_le_of_within kept (within_of_valueUpTo read)) (Nat.not_le.2 deep)

end Codewright.Json
