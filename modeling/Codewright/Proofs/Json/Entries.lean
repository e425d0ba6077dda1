import Mathlib.Data.List.Induction
import Mathlib.Data.List.Infix
import Codewright.Json.Basic

/-!
# Entries of objects

How `Entries.put` changes what `Entries.get?` finds and which keys there are. Only the lemmas that ask for it need the keys
to be distinct.

* `get?_put_self`, `get?_put_of_ne` – the key has its new value, every other key the one it had;
* `put_put`, `put_of_get?` – the last of two puts counts, and putting what is there changes nothing;
* `keys_put` – the keys keep their order; a new one comes last; `put_of_not_mem`: so does its entry;
* `erase_of_not_mem`, `erase_append` – taking a key away takes its first entry;
* `mem_of_mem_ofPairs`, `keys_ofPairs` – entries made of pairs have no others, and each key of these once.
-/

namespace Codewright.Json.Entries

@[simp] theorem get?_put_self (key : String) (v : Json) (es : Entries) : get? key (put key v es) = some v := by
  induction es with
  | nil => simp [put, get?]
  | cons e es ih =>
    obtain ⟨k, x⟩ := e
    by_cases h : k = key
    · simp [put, get?, h]
    · simp [put, get?, h, ih]

theorem get?_put_of_ne {key other : String} (ne : other ≠ key) (v : Json) (es : Entries) :
    get? other (put key v es) = get? other es := by
  induction es with
  | nil => simp [put, get?, ne.symm]
  | cons e es ih =>
    obtain ⟨k, x⟩ := e
    by_cases h : k = key
    · subst h
      simp [put, get?, ne.symm]
    · simp [put, get?, h, ih]

@[simp] theorem put_put (key : String) (v w : Json) (es : Entries) : put key w (put key v es) = put key w es := by
  induction es with
  | nil => simp [put]
  | cons e es ih =>
    obtain ⟨k, x⟩ := e
    by_cases h : k = key
    · simp [put, h]
    · simp [put, h, ih]

theorem put_of_get? {key : String} {v : Json} {es : Entries} (h : get? key es = some v) : put key v es = es := by
  induction es with
  | nil => cases h
  | cons e es ih =>
    obtain ⟨k, x⟩ := e
    by_cases same : k = key
    · simp only [get?, same, if_true, Option.some.injEq] at h
      simp [put, same, h]
    · simp only [get?, same, if_false] at h
      simp [put, same, ih h]

theorem keys_put (key : String) (v : Json) (es : Entries) :
    keys (put key v es) = if key ∈ keys es then keys es else keys es ++ [key] := by
  induction es with
  | nil => simp [put, keys]
  | cons e es ih =>
    obtain ⟨k, x⟩ := e
    by_cases h : k = key
    · simp [put, keys, h]
    · have ne : key ≠ k := fun same => h same.symm
      have cons (es : Entries) : keys ((k, x) :: es) = k :: keys es := rfl
      simp only [put, h, if_false, cons, List.mem_cons, ne, false_or, ih]
      split
      · rfl
      · rfl

theorem not_mem_keys_cons {key k : String} {x : Json} {es : Entries} :
    key ∉ keys ((k, x) :: es) ↔ k ≠ key ∧ key ∉ keys es := by
  simp [keys, eq_comm]

/-- What a key finds is its first entry. -/
theorem exists_append_of_get? {key : String} {v : Json} {es : Entries} (h : get? key es = some v) :
    ∃ before after, es = before ++ (key, v) :: after ∧ key ∉ keys before := by
  induction es with
  | nil => cases h
  | cons e es ih =>
    obtain ⟨k, x⟩ := e
    by_cases same : k = key
    · simp only [get?, same, if_true, Option.some.injEq] at h
      exact ⟨[], es, by rw [same, h, List.nil_append], by simp [keys]⟩
    · simp only [get?, same, if_false] at h
      obtain ⟨before, after, rfl, first⟩ := ih h
      exact ⟨(k, x) :: before, after, rfl, not_mem_keys_cons.2 ⟨same, first⟩⟩

theorem mem_of_get? {key : String} {v : Json} {es : Entries} (h : get? key es = some v) : (key, v) ∈ es := by
  obtain ⟨before, after, rfl, -⟩ := exists_append_of_get? h
  simp

theorem mem_keys_iff {key : String} {es : Entries} : key ∈ keys es ↔ ∃ v, get? key es = some v := by
  induction es with
  | nil => simp [keys, get?]
  | cons e es ih =>
    obtain ⟨k, x⟩ := e
    by_cases h : k = key
    · simp [keys, get?, h]
    · have ne : key ≠ k := fun same => h same.symm
      simpa [keys, get?, h, ne] using ih

theorem get?_eq_none_iff {key : String} {es : Entries} : get? key es = none ↔ key ∉ keys es := by
  rw [mem_keys_iff, ← Option.isSome_iff_exists, Bool.not_eq_true, Option.isSome_eq_false_iff, Option.isNone_iff_eq_none]

/-- Where no key comes twice, every entry is the one that its key finds. -/
theorem get?_of_mem {es : Entries} (nodup : (keys es).Nodup) {e : String × Json} (he : e ∈ es) : get? e.1 es = some e.2 := by
  induction es with
  | nil => cases he
  | cons first es ih =>
    obtain ⟨k, x⟩ := first
    obtain ⟨fresh, nodup⟩ := List.nodup_cons.1 nodup
    rcases List.mem_cons.1 he with rfl | later
    · simp [get?]
    · have ne : k ≠ e.1 := by
        intro same
        exact fresh (List.mem_map.2 ⟨e, later, same.symm⟩)
      simpa [get?, ne] using ih nodup later

/-- A new key comes last. -/
theorem put_of_not_mem {key : String} {es : Entries} (fresh : key ∉ keys es) (v : Json) : put key v es = es ++ [(key, v)] := by
  induction es with
  | nil => rfl
  | cons e es ih =>
    obtain ⟨k, x⟩ := e
    obtain ⟨ne, fresh⟩ := not_mem_keys_cons.1 fresh
    simp [put, ne, ih fresh]

/-- What is put into entries stands there, and nothing else is new. -/
theorem mem_put {key : String} {value : Json} {es : Entries} {e : String × Json} (he : e ∈ put key value es) :
    e = (key, value) ∨ e ∈ es := by
  induction es with
  | nil => exact .inl (by simpa [put] using he)
  | cons first es ih =>
    obtain ⟨k, w⟩ := first
    rw [put] at he
    split_ifs at he with same
    · rcases List.mem_cons.1 he with rfl | he
      · exact .inl (by rw [same])
      · exact .inr (List.mem_cons_of_mem _ he)
    · rcases List.mem_cons.1 he with rfl | he
      · exact .inr List.mem_cons_self
      · exact (ih he).imp_right (List.mem_cons_of_mem _)

/-- The keys that were there stay in front, in their order. -/
theorem keys_prefix_put (key : String) (v : Json) (es : Entries) : keys es <+: keys (put key v es) := by
  rw [keys_put]
  split
  · exact List.prefix_refl _
  · exact List.prefix_append _ _

theorem nodup_keys_put {es : Entries} (nodup : (keys es).Nodup) (key : String) (v : Json) : (keys (put key v es)).Nodup := by
  rw [keys_put]
  split
  · exact nodup
  · next fresh =>
    refine List.nodup_append.2 ⟨nodup, by simp, ?_⟩
    rintro k hk _ hkey rfl
    exact fresh (List.mem_singleton.1 hkey ▸ hk)

/-! ## Taking keys away -/

theorem erase_of_not_mem {key : String} {es : Entries} (absent : key ∉ keys es) : erase key es = es := by
  induction es with
  | nil => rfl
  | cons e es ih =>
    obtain ⟨k, x⟩ := e
    obtain ⟨ne, absent⟩ := not_mem_keys_cons.1 absent
    simp [erase, ne, ih absent]

/-- What stands in front of a key's first entry, and what stands behind it, stays. -/
theorem erase_append {key : String} {before : Entries} (first : key ∉ keys before) (v : Json) (after : Entries) :
    erase key (before ++ (key, v) :: after) = before ++ after := by
  induction before with
  | nil => simp [erase]
  | cons e before ih =>
    obtain ⟨k, x⟩ := e
    obtain ⟨ne, first⟩ := not_mem_keys_cons.1 first
    simp [erase, ne, ih first]

/-! ## Entries made of pairs -/

/-- Entries are made of the pairs given. -/
theorem mem_of_mem_ofPairs {pairs : List (String × Json)} {e : String × Json} (he : e ∈ ofPairs pairs) : e ∈ pairs := by
  induction pairs using List.reverseRecOn with
  | nil => exact absurd he (by simp [ofPairs])
  | append_singleton pairs p ih =>
    rw [ofPairs, List.foldl_append, ← ofPairs] at he
    rcases mem_put he with rfl | he
    · exact List.mem_append_right _ (by simp)
    · exact List.mem_append_left _ (ih he)

/-- Entries made of pairs have the keys of these, each of them once. -/
theorem keys_ofPairs (pairs : List (String × Json)) : keys (ofPairs pairs) = (pairs.map (·.1)).eraseDups := by
  induction pairs using List.reverseRecOn with
  | nil => rfl
  | append_singleton pairs p ih =>
    rw [ofPairs, List.foldl_append, ← ofPairs]
    change keys (put p.1 p.2 (ofPairs pairs)) = _
    rw [keys_put, ih, List.map_append, List.eraseDups_append]
    by_cases here : p.1 ∈ pairs.map (·.1)
    · rw [if_pos (List.mem_eraseDups.2 here)]
      simp [List.removeAll, here]
    · rw [if_neg (mt List.mem_eraseDups.1 here)]
      simp [List.removeAll, here, List.eraseDups_cons]

end Codewright.Json.Entries
