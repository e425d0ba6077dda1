import Codewright.Json.Parse
import Codewright.Proofs.Json.Entries

/-!
# Merging objects

What `Json.merge` makes of two objects.

* `HasDistinctKeys` – no object in a value has a key twice; `hasDistinctKeys_of_parse?`: so it is in all that is read;
* `keys_merge`, `get?_merge` – the keys of a merge and their values;
* `merge_of_merged` – a merge that would change no value changes nothing; `mergeValue_mergeValue`: doing it again does not;
* `merge_lawful` – the laws of merging.
-/

namespace Codewright.Json

/-! ## Values without doubled keys -/

/-- No object in the value has a key twice. -/
inductive HasDistinctKeys : Json → Prop where
  | null : HasDistinctKeys .null
  | bool (b : Bool) : HasDistinctKeys (.bool b)
  | number (text : String) : HasDistinctKeys (.number text)
  | string (s : String) : HasDistinctKeys (.string s)
  | array {items : List Json} (each : ∀ v ∈ items, HasDistinctKeys v) : HasDistinctKeys (.array items)
  | object {es : Entries} (nodup : (Entries.keys es).Nodup) (each : ∀ e ∈ es, HasDistinctKeys e.2) :
    HasDistinctKeys (.object es)

theorem HasDistinctKeys.put {es : Entries} {v : Json} (h : HasDistinctKeys (.object es)) (key : String)
    (value : HasDistinctKeys v) : HasDistinctKeys (.object (Entries.put key v es)) := by
  cases h with
  | object nodup each =>
    refine .object (Entries.nodup_keys_put nodup key v) fun e he => ?_
    rcases Entries.mem_put he with rfl | he
    · exact value
    · exact each e he

/-- An object made of pairs has each key once, whatever the pairs are. -/
theorem HasDistinctKeys.ofPairs {pairs : List (String × Json)} (each : ∀ p ∈ pairs, HasDistinctKeys p.2) :
    HasDistinctKeys (.object (Entries.ofPairs pairs)) := by
  induction pairs using List.reverseRecOn with
  | nil => exact .object List.nodup_nil (List.forall_mem_nil _)
  | append_singleton pairs p ih =>
    rw [List.forall_mem_append, List.forall_mem_singleton] at each
    rw [Entries.ofPairs, List.foldl_append, ← Entries.ofPairs]
    exact (ih each.1).put p.1 each.2

theorem hasDistinctKeys_of_numberOfEntries? {es : List (Option String × Written)} {v : Json}
    (h : numberOfEntries? es = some v) : HasDistinctKeys v := by
  unfold numberOfEntries? numberOfText? at h
  split at h
  · split at h
    · cases h
      exact .number _
    · cases h
  · cases h

mutual

theorem hasDistinctKeys_of_ofWritten? : ∀ {w : Written} {v : Json}, ofWritten? w = some v → HasDistinctKeys v
  | .null, v, h => by
    cases h
    exact .null
  | .bool b, v, h => by
    cases h
    exact .bool b
  | .number text, v, h => by
    cases h
    exact .number text
  | .string s, v, h => by
    cases h
    exact .string s
  | .array vs, v, h => by
    obtain ⟨items, read, rfl⟩ := Option.map_eq_some_iff.1 h
    exact .array (hasDistinctKeys_of_itemsOfWritten? read)
  | .object es, v, h => by
    rw [ofWritten?] at h
    split at h
    · exact hasDistinctKeys_of_numberOfEntries? h
    · obtain ⟨pairs, read, rfl⟩ := Option.map_eq_some_iff.1 h
      exact .ofPairs (hasDistinctKeys_of_entriesOfWritten? read)
  | .unreadable, v, h => by cases h

theorem hasDistinctKeys_of_itemsOfWritten? :
    ∀ {ws : List Written} {vs : List Json}, itemsOfWritten? ws = some vs → ∀ v ∈ vs, HasDistinctKeys v
  | [], vs, h => by
    cases h
    exact List.forall_mem_nil _
  | w :: ws, vs, h => by
    obtain ⟨v, first, h⟩ := Option.bind_eq_some_iff.1 h
    obtain ⟨vs', rest, h⟩ := Option.bind_eq_some_iff.1 h
    cases h
    exact List.forall_mem_cons.2 ⟨hasDistinctKeys_of_ofWritten? first, hasDistinctKeys_of_itemsOfWritten? rest⟩

theorem hasDistinctKeys_of_entriesOfWritten? : ∀ {ws : List (Option String × Written)} {ps : List (String × Json)},
    entriesOfWritten? ws = some ps → ∀ p ∈ ps, HasDistinctKeys p.2
  | [], ps, h => by
    cases h
    exact List.forall_mem_nil _
  | (_, w) :: ws, ps, h => by
    obtain ⟨key, -, h⟩ := Option.bind_eq_some_iff.1 h
    obtain ⟨v, first, h⟩ := Option.bind_eq_some_iff.1 h
    obtain ⟨ps', rest, h⟩ := Option.bind_eq_some_iff.1 h
    cases h
    exact List.forall_mem_cons.2 ⟨hasDistinctKeys_of_ofWritten? first, hasDistinctKeys_of_entriesOfWritten? rest⟩

end

/-- All that is read has each key of an object once. -/
theorem hasDistinctKeys_of_parse? {text : String} {v : Json} (h : parse? text = some v) : HasDistinctKeys v := by
  obtain ⟨w, -, read⟩ := Option.bind_eq_some_iff.1 h
  exact hasDistinctKeys_of_ofWritten? read

/-! ## The entries of a merge -/

section

variable {key k : String} {v : Json} {target patch : Entries}

@[simp] theorem merge_nil (target : Entries) : merge target [] = target := rfl

theorem merge_cons (target : Entries) (k : String) (v : Json) (patch : Entries) :
    merge target ((k, v) :: patch) = merge (Entries.put k (mergeValue (Entries.get? k target) v) target) patch := rfl

theorem mergeValue_object (es patch : Entries) : mergeValue (some (.object es)) (.object patch) = .object (merge es patch) := rfl

/-- All but two objects is replaced. -/
theorem mergeValue_of_not_objects {old : Option Json} (h : ¬∃ es new, old = some (.object es) ∧ v = .object new) :
    mergeValue old v = v := by
  cases v with
  | object new =>
    unfold mergeValue
    split
    · next es => exact absurd ⟨es, new, rfl, rfl⟩ h
    · rfl
  | _ => rfl

theorem mergeValue_none (v : Json) : mergeValue none v = v := mergeValue_of_not_objects (by simp)

/-- The keys keep their order, and the new ones come behind them in theirs. -/
theorem keys_merge (nodup : (Entries.keys patch).Nodup) (target : Entries) :
    Entries.keys (merge target patch) =
      Entries.keys target ++ (Entries.keys patch).filter fun key => key ∉ Entries.keys target := by
  induction patch generalizing target with
  | nil => simp [Entries.keys]
  | cons p patch ih =>
    obtain ⟨k, v⟩ := p
    obtain ⟨fresh, nodup⟩ := List.nodup_cons.1 nodup
    have first : Entries.keys ((k, v) :: patch) = k :: Entries.keys patch := rfl
    rw [merge_cons, ih nodup, Entries.keys_put, first]
    by_cases here : k ∈ Entries.keys target
    · rw [if_pos here, List.filter_cons_of_neg (by simpa using here)]
    · rw [if_neg here, List.filter_cons_of_pos (by simpa using here), List.append_assoc, List.singleton_append]
      congr 2
      refine List.filter_congr fun key hkey => ?_
      have ne : key ≠ k := fun same => fresh (same ▸ hkey)
      simp [ne]

/-- Every key of the patch has the merged value, every other the one it had. -/
theorem get?_merge (nodup : (Entries.keys patch).Nodup) (target : Entries) (key : String) :
    Entries.get? key (merge target patch) =
      (Entries.get? key patch).elim (Entries.get? key target) fun v => some (mergeValue (Entries.get? key target) v) := by
  induction patch generalizing target with
  | nil => rfl
  | cons p patch ih =>
    obtain ⟨k, v⟩ := p
    obtain ⟨fresh, nodup⟩ := List.nodup_cons.1 nodup
    rw [merge_cons, ih nodup]
    by_cases same : k = key
    · subst same
      rw [Entries.get?_eq_none_iff.2 fresh]
      simp [Entries.get?]
    · simp [Entries.get?, same, Entries.get?_put_of_ne (Ne.symm same)]

/-- A merge that would change no value changes nothing. -/
theorem merge_of_merged
    (merged : ∀ e ∈ patch, Entries.get? e.1 target = some (mergeValue (Entries.get? e.1 target) e.2)) :
    merge target patch = target := by
  induction patch with
  | nil => rfl
  | cons p patch ih =>
    obtain ⟨k, v⟩ := p
    obtain ⟨first, rest⟩ := List.forall_mem_cons.1 merged
    rw [merge_cons, Entries.put_of_get? first, ih rest]

/-- Where no key is in both, the entries of the patch come behind the others. -/
theorem merge_of_nodup (nodup : (Entries.keys (target ++ patch)).Nodup) : merge target patch = target ++ patch := by
  induction patch generalizing target with
  | nil => simp
  | cons p patch ih =>
    obtain ⟨k, v⟩ := p
    have fresh : k ∉ Entries.keys target := by
      intro here
      rw [Entries.keys, List.map_append] at nodup
      exact (List.nodup_append.1 nodup).2.2 k here k List.mem_cons_self rfl
    rw [merge_cons, Entries.get?_eq_none_iff.2 fresh, mergeValue_none, Entries.put_of_not_mem fresh, ih (by simpa using nodup),
      List.append_assoc, List.singleton_append]

/-! ## Merging again -/

/-- A value that has been merged in is not changed when it is merged in again. In an object that replaced another value
every key finds what it would be merged with, so that the claim for its values is the one for `none`. -/
theorem mergeValue_mergeValue (distinct : HasDistinctKeys v) (old : Option Json) :
    mergeValue (some (mergeValue old v)) v = mergeValue old v := by
  induction distinct generalizing old with
  | object nodup each ih =>
    next es =>
    have found (e) (he : e ∈ es) : Entries.get? e.1 es = some e.2 := Entries.get?_of_mem nodup he
    by_cases both : ∃ es', old = some (.object es')
    · obtain ⟨es', rfl⟩ := both
      rw [mergeValue_object, mergeValue_object, merge_of_merged]
      intro e he
      rw [get?_merge nodup, found e he, Option.elim_some, ih e he]
    · have replaced : mergeValue old (.object es) = .object es :=
        mergeValue_of_not_objects fun ⟨es', _, same, _⟩ => both ⟨es', same⟩
      rw [replaced, mergeValue_object, merge_of_merged]
      intro e he
      have again := ih e he none
      rw [mergeValue_none] at again
      rw [found e he, again]
  | _ => rfl

/-- A merge doubles no key in the object that is merged into, if it doubles none in the values. -/
theorem HasDistinctKeys.merge_of_each
    (each : ∀ e ∈ patch, ∀ old : Option Json, (∀ w ∈ old, HasDistinctKeys w) → HasDistinctKeys (mergeValue old e.2))
    (h : HasDistinctKeys (.object target)) : HasDistinctKeys (.object (merge target patch)) := by
  induction patch generalizing target with
  | nil => exact h
  | cons p patch ih =>
    obtain ⟨k, v⟩ := p
    obtain ⟨first, rest⟩ := List.forall_mem_cons.1 each
    rw [merge_cons]
    refine ih rest (h.put k (first _ fun w hw => ?_))
    cases h with
    | object nodup values => exact values (k, w) (Entries.mem_of_get? hw)

theorem HasDistinctKeys.mergeValue (distinct : HasDistinctKeys v) {old : Option Json}
    (before : ∀ w ∈ old, HasDistinctKeys w) : HasDistinctKeys (mergeValue old v) := by
  induction distinct generalizing old with
  | object nodup each ih =>
    next es =>
    by_cases both : ∃ es', old = some (.object es')
    · obtain ⟨es', rfl⟩ := both
      exact HasDistinctKeys.merge_of_each (fun e he old before => ih e he before) (before _ rfl)
    · rw [mergeValue_of_not_objects fun ⟨es', _, same, _⟩ => both ⟨es', same⟩]
      exact .object nodup each
  | null => exact .null
  | bool b => exact .bool b
  | number text => exact .number text
  | string s => exact .string s
  | array each => exact .array each

end

/-! ## The laws of merging -/

/-- The laws of merging. The keys of the patch that are new come behind the others. A key that the patch does not have keeps
its value, one that has objects in both has their merge, and any other key of the patch has its value there. Merging again
changes nothing, merging into nothing gives the patch, merging nothing in changes nothing, and no key is doubled. -/
theorem merge_lawful {target patch : Entries} (distinct : HasDistinctKeys (.object patch)) :
    Entries.keys (merge target patch) =
      Entries.keys target ++ ((Entries.keys patch).filter fun key => key ∉ Entries.keys target) ∧
    (∀ key, key ∉ Entries.keys patch → Entries.get? key (merge target patch) = Entries.get? key target) ∧
    (∀ key es new, Entries.get? key target = some (.object es) → Entries.get? key patch = some (.object new) →
      Entries.get? key (merge target patch) = some (.object (merge es new))) ∧
    (∀ key v, Entries.get? key patch = some v →
      (¬∃ es new, Entries.get? key target = some (.object es) ∧ v = .object new) →
      Entries.get? key (merge target patch) = some v) ∧
    merge (merge target patch) patch = merge target patch ∧
    merge [] patch = patch ∧
    merge target [] = target ∧
    (HasDistinctKeys (.object target) → HasDistinctKeys (.object (merge target patch))) := by
  have again := mergeValue_mergeValue distinct (some (.object target))
  have kept (h : HasDistinctKeys (.object target)) : HasDistinctKeys (mergeValue (some (.object target)) (.object patch)) :=
    distinct.mergeValue (by simpa using h)
  cases distinct with
  | object nodup each =>
    refine ⟨keys_merge nodup target, ?_, ?_, ?_, ?_, ?_, rfl, kept⟩
    · intro key absent
      rw [get?_merge nodup, Entries.get?_eq_none_iff.2 absent, Option.elim_none]
    · intro key es new old found
      rw [get?_merge nodup, found, old, Option.elim_some, mergeValue_object]
    · intro key v found not_both
      rw [get?_merge nodup, found, Option.elim_some, mergeValue_of_not_objects not_both]
    · exact Json.object.inj again
    · exact merge_of_nodup (by simpa using nodup)

/-- The laws at objects two levels deep: a key merges, one is replaced, and one is new. -/
theorem merge_lawful_nested :
    let target : Entries := [("a", .object [("x", .number "1"), ("y", .array [.null])]), ("b", .bool true)]
    let patch : Entries := [("c", .null), ("a", .object [("z", .null), ("y", .array [])]), ("b", .object [])]
    let both : Entries :=
      [("a", .object [("x", .number "1"), ("y", .array []), ("z", .null)]), ("b", .object []), ("c", .null)]
    HasDistinctKeys (.object patch) ∧ merge target patch = both ∧ Entries.keys both = ["a", "b", "c"] ∧
      merge both patch = both ∧ merge [] patch = patch := by
  intro target patch both
  have distinct : HasDistinctKeys (.object patch) := by
    have inner : HasDistinctKeys (.object [("z", .null), ("y", .array [])]) :=
      .object (by decide) (by simp [HasDistinctKeys.null, HasDistinctKeys.array])
    have empty : HasDistinctKeys (.object []) := .object (by decide) (by simp)
    exact .object (by decide) (by simp [patch, HasDistinctKeys.null, inner, empty])
  have merged : merge target patch = both := rfl
  obtain ⟨keys, -, -, -, again, alone, -⟩ := @merge_lawful target patch distinct
  refine ⟨distinct, merged, ?_, ?_, alone⟩
  · rw [← merged, keys]
    decide
  · rw [← merged, again]

end Codewright.Json
