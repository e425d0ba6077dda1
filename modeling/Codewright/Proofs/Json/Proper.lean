import Codewright.Json.Document
import Codewright.Proofs.Json.Merge
import Codewright.Proofs.Json.Path
import Codewright.Proofs.Json.Textual
import Codewright.Proofs.Language.Operations

/-!
# Values in a document

What an operation makes of a value is a value that a document can hold.

* `IsProper v` – the numbers of a value are kept as they are, and no object has a key twice; so is all that is read;
* `Record.decode_keeps` – what holds of a record before its fields are read, and is kept by each field, holds when it is read;
* `editOne_cases` – what one operation can do;
* `IsProper.editOne`, `IsProper.editWith` – one operation keeps a value proper, and so do all.
-/

namespace Codewright

open Json

namespace Json

variable {v w child : Json} {segment : String} {path : List String} {items : List Json} {es target patch : Entries}

/-! ## Proper values -/

theorem Each.imp {number number' : String → Prop} {keys keys' : List String → Prop} (numbers : ∀ text, number text → number' text)
    (lists : ∀ ks, keys ks → keys' ks) (h : Each number keys v) : Each number' keys' v := by
  induction h with
  | null => exact .null
  | bool b => exact .bool b
  | number here => exact .number (numbers _ here)
  | string s => exact .string s
  | array each ih => exact .array ih
  | object here each ih => exact .object (lists _ here) ih

theorem Each.and {number number' : String → Prop} {keys keys' : List String → Prop} (h : Each number keys v)
    (h' : Each number' keys' v) : Each (fun text => number text ∧ number' text) (fun ks => keys ks ∧ keys' ks) v := by
  induction h with
  | null => exact .null
  | bool b => exact .bool b
  | number here =>
    cases h' with
    | number here' => exact .number ⟨here, here'⟩
  | string s => exact .string s
  | array each ih =>
    cases h' with
    | array each' => exact .array fun v hv => ih v hv (each' v hv)
  | object here each ih =>
    cases h' with
    | object here' each' => exact .object ⟨here, here'⟩ fun e he => ih e he (each' e he)

/-- The numbers of a value are kept as they are, and no object has a key twice. -/
def IsProper : Json → Prop := Each IsKeptNumber List.Nodup

/-- No object in the value begins with the key under which a number is written. -/
def HasNoNumberKey : Json → Prop := Each (fun _ => True) fun keys => keys.head? ≠ some numberKey

theorem IsTextual.isProper (textual : v.IsTextual) : IsProper v := textual.imp (fun _ kept => kept) fun _ keys => keys.1

/-- A proper value is textual, but for the key under which a number is written. -/
theorem IsProper.isTextual (proper : IsProper v) (no_number : HasNoNumberKey v) : IsTextual v :=
  (Each.and proper no_number).imp (fun _ kept => kept.1) fun _ keys => keys

/-! ## The parts of a value -/

theorem isProper_array_iff : IsProper (.array items) ↔ ∀ v ∈ items, IsProper v := by
  constructor
  · rintro ⟨⟩
    assumption
  · exact Each.array

theorem isProper_object_iff : IsProper (.object es) ↔ (Entries.keys es).Nodup ∧ ∀ e ∈ es, IsProper e.2 := by
  constructor
  · rintro ⟨⟩
    exact ⟨‹_›, ‹_›⟩
  · exact fun h => .object h.1 h.2

theorem plainItems_eq (items : List Json) : plainItems items = items.map plain := by
  induction items with
  | nil => rfl
  | cons v items ih => rw [plainItems, ih, List.map_cons]

theorem plainEntries_eq (es : Entries) : plainEntries es = es.map fun e => (e.1, e.2.plain) := by
  induction es with
  | nil => rfl
  | cons e es ih => rw [plainEntries, ih, List.map_cons]

/-- A value with its numbers in plain form is still proper. -/
theorem IsProper.plain (proper : IsProper v) : IsProper v.plain := by
  unfold IsProper at proper
  induction proper with
  | null => exact .null
  | bool b => exact .bool b
  | number here => exact .number (isKeptNumber_plainNumeral here)
  | string s => exact .string s
  | array each ih =>
    rw [Json.plain, plainItems_eq, isProper_array_iff, List.forall_mem_map]
    exact ih
  | object here each ih =>
    have keys (es : Entries) : Entries.keys (es.map fun e => (e.1, e.2.plain)) = Entries.keys es := by simp [Entries.keys]
    rw [Json.plain, plainEntries_eq, isProper_object_iff, keys, List.forall_mem_map]
    exact ⟨here, ih⟩

theorem IsProper.put (proper : IsProper (.object es)) (key : String) (child : IsProper w) :
    IsProper (.object (Entries.put key w es)) := by
  obtain ⟨nodup, each⟩ := isProper_object_iff.1 proper
  refine isProper_object_iff.2 ⟨Entries.nodup_keys_put nodup key w, fun e he => ?_⟩
  rcases Entries.mem_put he with rfl | he
  · exact child
  · exact each e he

theorem IsProper.of_child? (proper : IsProper v) (found : v.child? segment = some child) : IsProper child := by
  cases v with
  | object es => exact (isProper_object_iff.1 proper).2 _ (Entries.mem_of_get? found)
  | array items =>
    obtain ⟨i, -, item⟩ := Option.bind_eq_some_iff.1 found
    exact isProper_array_iff.1 proper child (List.mem_of_getElem? item)
  | _ => cases found

theorem IsProper.getD_child? (proper : IsProper v) (segment : String) : IsProper ((v.child? segment).getD .null) := by
  cases found : v.child? segment with
  | none => exact .null
  | some child => exact proper.of_child? found

theorem IsProper.putChild (proper : IsProper v) (segment : String) (child : IsProper w) : IsProper (v.putChild segment w) := by
  have none : IsProper (.object []) := isProper_object_iff.2 ⟨List.nodup_nil, List.forall_mem_nil _⟩
  cases v with
  | array items =>
    rw [isProper_array_iff] at proper
    rw [Json.putChild, putItem]
    split_ifs
    · exact isProper_array_iff.2 fun x hx => (List.mem_or_eq_of_mem_set hx).elim (proper x) fun same => same ▸ child
    · exact isProper_array_iff.2 (List.forall_mem_append.2 ⟨proper, List.forall_mem_singleton.2 child⟩)
  | object es => exact proper.put segment child
  | _ => exact none.put segment child

/-! ## Operations on values -/

/-- An update keeps a value proper, if what is done at the end of the path does. -/
theorem IsProper.update {f : Json → Except PathError Json} (keeps : ∀ v w, IsProper v → f v = .ok w → IsProper w)
    (proper : IsProper v) (done : v.update f path = .ok w) : IsProper w := by
  induction path generalizing v w with
  | nil => exact keeps v w proper done
  | cons segment path ih =>
    obtain ⟨-, child, below, rfl⟩ := update_cons_eq_ok done
    exact proper.putChild segment (ih (proper.getD_child? segment) below)

theorem IsProper.set {new : Json} (proper : IsProper v) (is_new : IsProper new) (done : v.set path new = .ok w) : IsProper w := by
  refine proper.update (fun _ w' _ same => ?_) done
  cases same
  exact is_new

theorem IsProper.push {new : Json} (proper : IsProper v) (is_new : IsProper new) (done : v.push path new = .ok w) : IsProper w := by
  refine proper.update (fun v' w' proper' same => ?_) done
  unfold pushItem at same
  split at same
  · cases same
    exact isProper_array_iff.2 (List.forall_mem_append.2 ⟨isProper_array_iff.1 proper', List.forall_mem_singleton.2 is_new⟩)
  · cases same
    exact isProper_array_iff.2 (List.forall_mem_singleton.2 is_new)
  · cases same

theorem sublist_erase (key : String) (es : Entries) : (Entries.erase key es).Sublist es := by
  induction es with
  | nil => exact .slnil
  | cons e es ih =>
    rw [Entries.erase]
    split
    · exact List.sublist_cons_self e es
    · exact ih.cons_cons e

theorem IsProper.removeChild (proper : IsProper v) (segment : String) : IsProper (v.removeChild segment) := by
  unfold Json.removeChild
  split
  · next es =>
    obtain ⟨nodup, each⟩ := isProper_object_iff.1 proper
    have fewer := sublist_erase segment es
    exact isProper_object_iff.2 ⟨nodup.sublist (fewer.map _), fun e he => each e (fewer.subset he)⟩
  · next items =>
    split
    · exact isProper_array_iff.2 fun v hv => isProper_array_iff.1 proper v (List.mem_of_mem_eraseIdx hv)
    · exact proper
  · exact proper

theorem IsProper.withChild (proper : IsProper v) (segment : String) (child : IsProper w) : IsProper (v.withChild segment w) := by
  unfold Json.withChild
  split
  · exact proper.put segment child
  · split
    · exact isProper_array_iff.2 fun x hx =>
        (List.mem_or_eq_of_mem_set hx).elim (isProper_array_iff.1 proper x) fun same => same ▸ child
    · exact proper
  · exact proper

theorem IsProper.remove (proper : IsProper v) (path : List String) : IsProper (v.remove path) := by
  induction path, v using Json.remove.induct with
  | case1 v => exact proper
  | case2 segment v => exact proper.removeChild segment
  | case3 segment path v some_more child found ih =>
    rw [Json.remove, found]
    exact proper.withChild segment (ih (proper.of_child? found))
    exact some_more
  | case4 segment path v some_more absent =>
    rw [Json.remove, absent]
    exact proper
    exact some_more

/-- A merge keeps an object proper, if what it makes of each value is proper. -/
theorem IsProper.merge_of_each
    (each : ∀ e ∈ patch, ∀ old : Option Json, (∀ w ∈ old, IsProper w) → IsProper (mergeValue old e.2))
    (proper : IsProper (.object target)) : IsProper (.object (merge target patch)) := by
  induction patch generalizing target with
  | nil => exact proper
  | cons e patch ih =>
    obtain ⟨here, later⟩ := List.forall_mem_cons.1 each
    rw [merge_cons]
    refine ih later (proper.put e.1 (here _ fun w hw => ?_))
    exact (isProper_object_iff.1 proper).2 (e.1, w) (Entries.mem_of_get? hw)

theorem IsProper.mergeValue (proper : IsProper v) {old : Option Json} (before : ∀ w ∈ old, IsProper w) :
    IsProper (mergeValue old v) := by
  have proper' := proper
  unfold IsProper at proper'
  induction proper' generalizing old with
  | object here each ih =>
    next es =>
    by_cases both : ∃ es', old = some (.object es')
    · obtain ⟨es', rfl⟩ := both
      exact IsProper.merge_of_each (fun e he old before => ih e he (each e he) before) (before _ rfl)
    · rw [mergeValue_of_not_objects fun ⟨es', _, same, _⟩ => both ⟨es', same⟩]
      exact proper
  | _ => exact proper

/-! ## Reading records -/

section

variable {σ : Type} {r : Record σ} {good : Json → Prop} {p : σ → Prop} {s t : σ}

theorem Record.readEntries_keeps
    (puts : ∀ f ∈ r.fields, ∀ j s t, good j → p s → f.put j s = .ok t → p t) {seen seen' : List String}
    (each : ∀ e ∈ es, good e.2) (start : p s) (h : r.readEntries es seen s = .ok (seen', t)) : p t := by
  induction es generalizing seen s with
  | nil =>
    cases h
    exact start
  | cons e es ih =>
    obtain ⟨here, later⟩ := List.forall_mem_cons.1 each
    unfold Record.readEntries at h
    split at h
    · exact ih later start h
    next f found =>
      split at h
      · cases h
      · cases put : f.put e.2 s with
        | error why =>
          rw [put] at h
          cases h
        | ok s' =>
          rw [put] at h
          exact ih later (puts f (List.mem_of_find?_eq_some found) e.2 s s' here start put) h

theorem Record.readItems_keeps {fields : List (Field σ)}
    (puts : ∀ f ∈ fields, ∀ j s t, good j → p s → f.put j s = .ok t → p t) {size i : Nat}
    (each : ∀ v ∈ items, good v) (start : p s) (h : r.readItems size i fields items s = .ok t) : p t := by
  induction fields generalizing i items s with
  | nil =>
    cases items with
    | nil =>
      cases h
      exact start
    | cons v items => cases h
  | cons f fields ih =>
    obtain ⟨first, rest⟩ := List.forall_mem_cons.1 puts
    cases items with
    | nil =>
      unfold Record.readItems at h
      split at h
      · exact ih rest (List.forall_mem_nil _) start h
      · cases h
    | cons v items =>
      obtain ⟨here, later⟩ := List.forall_mem_cons.1 each
      unfold Record.readItems at h
      cases put : f.put v s with
      | error why =>
        rw [put] at h
        cases h
      | ok s' =>
        rw [put] at h
        exact ih rest later (first v s s' here start put) h

/-- What holds of a record before its fields are read, and is kept by each field, holds when it is read. -/
theorem Record.decode_keeps (puts : ∀ f ∈ r.fields, ∀ j s t, IsProper j → p s → f.put j s = .ok t → p t)
    (blank : p r.blank) (proper : IsProper v) (h : r.decode v = .ok t) : p t := by
  unfold Record.decode at h
  split at h
  · next es =>
    obtain ⟨⟨seen, s⟩, entries, h⟩ := exists_ok_of_bind h
    have kept := Record.readEntries_keeps puts (isProper_object_iff.1 proper).2 blank entries
    dsimp only at h
    split at h
    · cases h
    · cases h
      exact kept
  · exact Record.readItems_keeps puts (isProper_array_iff.1 proper) blank h
  · cases h

end

end Json

/-! ## Operations on documents -/

namespace Document

variable {v w operation : Json} {operations : List Json}

theorem ok_of_followed {α : Type} {result : Except PathError α} {x : α} (h : followed result = .ok x) : result = .ok x := by
  cases result with
  | error e => cases h
  | ok y =>
    cases h
    rfl

/-- What one operation can do: set a value, remove one, merge an object in, or push a value. -/
theorem editOne_cases (done : editOne v operation = .ok w) :
    (∃ o path, readOptions PathValue.record operation = .ok o ∧ v.set path o.value = .ok w) ∨
    (∃ path, w = v.remove path) ∨
    (∃ es new, v = .object es ∧ readOptions valueRecord operation = .ok (.object new) ∧ w = .object (merge es new)) ∨
    (∃ o path, readOptions PathValue.record operation = .ok o ∧ v.push path o.value = .ok w) := by
  unfold editOne at done
  obtain ⟨tag, -, done⟩ := exists_ok_of_bind done
  split at done
  · obtain ⟨o, options, done⟩ := exists_ok_of_bind done
    obtain ⟨path, -, done⟩ := exists_ok_of_bind done
    exact .inl ⟨o, path, options, ok_of_followed done⟩
  · obtain ⟨o, -, done⟩ := exists_ok_of_bind done
    obtain ⟨path, -, done⟩ := exists_ok_of_bind done
    cases done
    exact .inr (.inl ⟨path, rfl⟩)
  · obtain ⟨patch, options, done⟩ := exists_ok_of_bind done
    unfold mergeWith at done
    split at done
    · cases done
      exact .inr (.inr (.inl ⟨_, _, rfl, options, rfl⟩))
    · cases done
  · obtain ⟨o, options, done⟩ := exists_ok_of_bind done
    obtain ⟨path, -, done⟩ := exists_ok_of_bind done
    exact .inr (.inr (.inr ⟨o, path, options, ok_of_followed done⟩))
  · cases done

theorem isProper_of_pathValue {o : PathValue} (proper : IsProper operation)
    (options : readOptions PathValue.record operation = .ok o) : IsProper o.value := by
  refine Record.decode_keeps (r := PathValue.record) (p := fun o => IsProper o.value) ?_ .null proper
    (readOptions_eq_ok_iff.1 options)
  refine List.forall_mem_cons.2 ⟨fun j s t _ kept put => ?_, List.forall_mem_singleton.2 fun j s t proper' _ put => ?_⟩
  · cases j with
    | string path =>
      cases put
      exact kept
    | _ => cases put
  · cases put
    exact proper'.plain

theorem isProper_of_value {new : Json} (proper : IsProper operation) (options : readOptions valueRecord operation = .ok new) :
    IsProper new := by
  refine Record.decode_keeps (r := valueRecord) (p := IsProper) ?_ .null proper (readOptions_eq_ok_iff.1 options)
  refine List.forall_mem_singleton.2 fun j s t proper' _ put => ?_
  cases put
  exact proper'.plain

/-- An operation keeps a value proper. -/
theorem IsProper.editOne (proper : IsProper v) (given : IsProper operation) (done : editOne v operation = .ok w) :
    IsProper w := by
  obtain ⟨o, path, options, set⟩ | ⟨path, rfl⟩ | ⟨es, new, rfl, options, rfl⟩ | ⟨o, path, options, push⟩ := editOne_cases done
  · exact proper.set (isProper_of_pathValue given options) set
  · exact proper.remove path
  · have before : ∀ w ∈ some (.object es), IsProper w := by simpa using proper
    have merged := (isProper_of_value given options).mergeValue before
    rwa [mergeValue_object] at merged
  · exact proper.push (isProper_of_pathValue given options) push

/-- Operations keep a value proper. -/
theorem IsProper.editWith (proper : IsProper v) (given : ∀ operation ∈ operations, IsProper operation)
    (done : editWith Document.editOne v operations = .ok w) : IsProper w :=
  editWith_keeps (fun operation h _ _ kept done => IsProper.editOne kept (given operation h) done) proper done

end Document

end Codewright
