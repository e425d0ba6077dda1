import Codewright.Proofs.Json.Path

/-!
# Removing the value at a path

What `Json.remove` does to a value, and what it leaves alone.

* `remove_of_child?` – one step of a removal; `removeChild_putChild`: the last step undoes that of setting a new value;
* `remove_of_at?_eq_none` – a path that leads nowhere changes nothing;
* `at?_remove_of_prefix`, `at?_remove_of_apart` – what the other paths lead to after a removal;
* `remove_set` – removing undoes setting; `remove_lawful` – the laws of removing a value.
-/

namespace Codewright.Json

variable {segment other : String} {v child : Json}

/-! ## One step of a removal -/

theorem removeChild_of_child?_eq_none (absent : v.child? segment = none) : v.removeChild segment = v := by
  cases v with
  | object es => rw [removeChild, Entries.erase_of_not_mem (Entries.get?_eq_none_iff.1 absent)]
  | array items =>
    cases index : index? segment with
    | none => simp only [removeChild, index]
    | some i =>
      have past : items.length ≤ i := by simpa [child?, index] using absent
      simp only [removeChild, index, List.eraseIdx_of_length_le past]
  | _ => rfl

/-- A new child stands behind all others, and taking it away gives the value back. Null is the exception: it has become
an object. -/
theorem removeChild_putChild (opens : v.Opens segment) (absent : v.child? segment = none) (not_null : v ≠ .null)
    (new : Json) : (v.putChild segment new).removeChild segment = v := by
  cases v with
  | object es =>
    have fresh := Entries.get?_eq_none_iff.1 absent
    simp only [putChild, asEntries?, Option.getD_some, removeChild, Entries.put_of_not_mem fresh, Entries.erase_append fresh,
      List.append_nil]
  | array items =>
    obtain ⟨i, index, le⟩ := opens
    have last : i = items.length := by
      have past : items.length ≤ i := by simpa [child?, index] using absent
      omega
    subst last
    simp [putChild, removeChild, putItem, index, List.eraseIdx_append_of_length_le]
  | null => exact absurd rfl not_null
  | _ =>
    obtain ⟨es, none⟩ := opens
    cases none

/-- A removal goes on in the child at the first segment, and puts the result in its place. -/
theorem remove_of_child? (found : v.child? segment = some child) {path : List String} (some_segment : path ≠ []) :
    v.remove (segment :: path) = v.putChild segment (remove path child) := by
  cases path with
  | nil => exact absurd rfl some_segment
  | cons s path => simp only [remove, found, withChild_eq found]

theorem opens_of_child? (found : v.child? segment = some child) : v.Opens segment := by
  cases v with
  | object es => exact ⟨es, rfl⟩
  | array items =>
    obtain ⟨i, index, item⟩ := Option.bind_eq_some_iff.1 found
    obtain ⟨lt, -⟩ := List.getElem?_eq_some_iff.1 item
    exact ⟨i, index, lt.le⟩
  | _ => cases found

/-- Every other segment finds what it found, if it found anything. -/
theorem child?_putChild_eq (found : v.child? segment = some child) (ne : v.stepOf other ≠ v.stepOf segment) (new : Json) :
    (v.putChild segment new).child? other = v.child? other := by
  cases v with
  | object es =>
    have apart : other ≠ segment := by
      rintro rfl
      exact ne rfl
    simp [putChild, child?, asEntries?, Entries.get?_put_of_ne apart]
  | array items =>
    obtain ⟨i, index, item⟩ := Option.bind_eq_some_iff.1 found
    obtain ⟨lt, -⟩ := List.getElem?_eq_some_iff.1 item
    cases index' : index? other with
    | none => simp [putChild, child?, index']
    | some j =>
      have apart : i ≠ j := by
        rintro rfl
        exact ne (by rw [stepOf, stepOf, index, index'])
      simp [putChild, child?, index, index', putItem, lt, List.getElem?_set_ne apart]
  | _ => cases found

/-! ## Whole paths -/

theorem at?_append (path rest : List String) (v : Json) : v.at? (path ++ rest) = (v.at? path).bind (at? rest) := by
  induction path generalizing v with
  | nil => rfl
  | cons segment path ih =>
    rw [List.cons_append, at?, at?, Option.bind_assoc]
    congr 1
    funext child
    exact ih child

/-- A path that leads nowhere changes nothing. -/
theorem remove_of_at?_eq_none {path : List String} (absent : v.at? path = none) : v.remove path = v := by
  induction path generalizing v with
  | nil => rfl
  | cons segment path ih =>
    by_cases last : path = []
    · subst last
      refine removeChild_of_child?_eq_none ?_
      cases found : v.child? segment with
      | none => rfl
      | some child =>
        rw [at?, found] at absent
        cases absent
    · cases found : v.child? segment with
      | none =>
        obtain ⟨s, rest, rfl⟩ := List.exists_cons_of_ne_nil last
        simp only [remove, found]
      | some child =>
        rw [at?, found, Option.bind_some] at absent
        rw [remove_of_child? found last, ih absent, putChild_of_child? found]

variable {last : String} {parents path : List String} {v' new x : Json}

/-- Removing what has been set where nothing was gives the value back, if the container was there. -/
theorem remove_set (absent : v.at? (parents ++ [last]) = none) (container : ∃ w, v.at? parents = some w ∧ w ≠ .null)
    (h : v.set (parents ++ [last]) new = .ok v') : v'.remove (parents ++ [last]) = v := by
  unfold set at h
  induction parents generalizing v v' with
  | nil =>
    obtain ⟨w, there, not_null⟩ := container
    cases there
    obtain ⟨opens, child, below, rfl⟩ := update_cons_eq_ok h
    cases below
    have free : v.child? last = none := by
      cases found : v.child? last with
      | none => rfl
      | some child =>
        rw [List.nil_append, at?, found] at absent
        cases absent
    exact removeChild_putChild opens free not_null new
  | cons s parents ih =>
    obtain ⟨w, there, not_null⟩ := container
    obtain ⟨c, found, there⟩ := Option.bind_eq_some_iff.1 there
    obtain ⟨opens, child, below, rfl⟩ := update_cons_eq_ok h
    rw [found, Option.getD_some] at below
    rw [List.cons_append, at?, found, Option.bind_some] at absent
    rw [List.cons_append, remove_of_child? (child?_putChild opens child) (by simp), ih absent ⟨w, there, not_null⟩ below,
      putChild_putChild opens, putChild_of_child? found]

/-- A path that stops on the way to the container leads to what it led to, with the rest of the removal done in it. -/
theorem at?_remove_of_prefix {others : List String} (resolves : v.at? (parents ++ [last]) = some x)
    (on_way : v.address others <+: v.address parents) :
    (v.remove (parents ++ [last])).at? others = (v.at? others).map (remove ((parents ++ [last]).drop others.length)) := by
  induction others generalizing v parents with
  | nil => rfl
  | cons t others ih =>
    cases parents with
    | nil => simp [address] at on_way
    | cons s parents =>
      obtain ⟨c, found, resolves⟩ := Option.bind_eq_some_iff.1 resolves
      obtain ⟨same, on_way⟩ := List.cons_prefix_cons.1 on_way
      have found' : v.child? t = some c := by rw [child?_eq_of_stepOf same, found]
      rw [found, found', Option.getD_some] at on_way
      rw [List.cons_append, remove_of_child? found (by simp), at?, child?_putChild_of_eq (opens_of_child? found) same,
        Option.bind_some, at?, found', Option.bind_some]
      exact ih resolves on_way

/-- A path that parts from the one to the container leads to what it led to, or nowhere as before. -/
theorem at?_remove_of_apart {others : List String} (resolves : v.at? (parents ++ [last]) = some x)
    (not_before : ¬v.address others <+: v.address parents) (not_behind : ¬v.address parents <+: v.address others) :
    (v.remove (parents ++ [last])).at? others = v.at? others := by
  induction others generalizing v parents with
  | nil => exact absurd List.nil_prefix not_before
  | cons t others ih =>
    cases parents with
    | nil => exact absurd List.nil_prefix not_behind
    | cons s parents =>
      obtain ⟨c, found, resolves⟩ := Option.bind_eq_some_iff.1 resolves
      rw [List.cons_append, remove_of_child? found (by simp), at?, at?]
      by_cases same : v.stepOf t = v.stepOf s
      · have found' : v.child? t = some c := by rw [child?_eq_of_stepOf same, found]
        simp only [address, same, found, found', Option.getD_some, List.cons_prefix_cons, true_and] at not_before not_behind
        rw [child?_putChild_of_eq (opens_of_child? found) same, found', Option.bind_some, Option.bind_some]
        exact ih resolves not_before not_behind
      · rw [child?_putChild_eq found same]

/-- What becomes of the container: an object loses the entry of the key, an array the item with the index. -/
theorem removeChild_eq_append (found : v.child? last = some x) :
    (∃ before after, v = .object (before ++ (last, x) :: after) ∧ last ∉ Entries.keys before ∧
      v.removeChild last = .object (before ++ after)) ∨
    (∃ before after, v = .array (before ++ x :: after) ∧ index? last = some before.length ∧
      v.removeChild last = .array (before ++ after)) := by
  cases v with
  | object es =>
    obtain ⟨before, after, rfl, first⟩ := Entries.exists_append_of_get? found
    exact .inl ⟨before, after, rfl, first, by rw [removeChild, Entries.erase_append first]⟩
  | array items =>
    obtain ⟨i, index, item⟩ := Option.bind_eq_some_iff.1 found
    obtain ⟨lt, rfl⟩ := List.getElem?_eq_some_iff.1 item
    refine .inr ⟨items.take i, items.drop (i + 1), ?_, ?_, ?_⟩
    · rw [List.getElem_cons_drop, List.take_append_drop]
    · rw [List.length_take, min_eq_left lt.le, index]
    · simp only [removeChild, index, List.eraseIdx_eq_take_drop_succ]
  | _ => cases found

/-! ## The laws of removing a value -/

/-- The laws of removing a value at a path, which is the path to a container and a last segment. If nothing is there and
the container is an object or an array, removing undoes setting. If nothing is there, removing changes nothing. If a value
is there, then a path that parts from the one to the container leads to what it led to, or nowhere as before; a path that
stops on the way to the container leads to what it led to, with the rest of the removal done in it; and the container
loses just this value, an object with its key, an array so that the later items move down by one. -/
theorem remove_lawful (v : Json) (parents : List String) (last : String) :
    (v.at? (parents ++ [last]) = none →
      ((∃ es, v.at? parents = some (.object es)) ∨ ∃ items, v.at? parents = some (.array items)) →
      ∀ new v', v.set (parents ++ [last]) new = .ok v' → v'.remove (parents ++ [last]) = v) ∧
    (v.at? (parents ++ [last]) = none → v.remove (parents ++ [last]) = v) ∧
    ∀ x, v.at? (parents ++ [last]) = some x →
      (∀ others, ¬v.address others <+: v.address parents → ¬v.address parents <+: v.address others →
        (v.remove (parents ++ [last])).at? others = v.at? others) ∧
      (∀ others, v.address others <+: v.address parents →
        (v.remove (parents ++ [last])).at? others =
          (v.at? others).map (remove ((parents ++ [last]).drop others.length))) ∧
      ((∃ before after, v.at? parents = some (.object (before ++ (last, x) :: after)) ∧ last ∉ Entries.keys before ∧
          (v.remove (parents ++ [last])).at? parents = some (.object (before ++ after))) ∨
        ∃ before after, v.at? parents = some (.array (before ++ x :: after)) ∧ index? last = some before.length ∧
          (v.remove (parents ++ [last])).at? parents = some (.array (before ++ after))) := by
  refine ⟨?_, remove_of_at?_eq_none, ?_⟩
  · intro absent container new v' h
    refine remove_set absent ?_ h
    rcases container with ⟨es, there⟩ | ⟨items, there⟩
    · exact ⟨_, there, nofun⟩
    · exact ⟨_, there, nofun⟩
  · intro x resolves
    refine ⟨fun others => at?_remove_of_apart resolves, fun others => at?_remove_of_prefix resolves, ?_⟩
    have container := at?_remove_of_prefix resolves (List.prefix_refl (v.address parents))
    rw [List.drop_left] at container
    rw [at?_append] at resolves
    obtain ⟨w, there, resolves⟩ := Option.bind_eq_some_iff.1 resolves
    obtain ⟨y, found, same⟩ := Option.bind_eq_some_iff.1 resolves
    cases same
    rw [there, Option.map_some, remove] at container
    rw [container, there]
    rcases removeChild_eq_append found with ⟨before, after, rfl, first, less⟩ | ⟨before, after, rfl, index, less⟩
    · exact .inl ⟨before, after, rfl, first, by rw [less]⟩
    · exact .inr ⟨before, after, rfl, index, by rw [less]⟩

/-- The laws at an array in an object: one item is set and removed again, and another is removed. -/
theorem remove_lawful_nested :
    let v : Json := .object [("a", .array [.number "1", .object [("x", .null)]]), ("b", .number "2")]
    let v' : Json := .object [("a", .array [.number "1", .object [("x", .null)], .bool true]), ("b", .number "2")]
    v.set ["a", "2"] (.bool true) = .ok v' ∧ v'.remove ["a", "2"] = v ∧ v.remove ["a", "2"] = v ∧
      v.at? ["a", "0"] = some (.number "1") ∧ (v.remove ["a", "0"]).at? ["b"] = some (.number "2") ∧
      (v.remove ["a", "0"]).at? ["a"] = some (.array [.object [("x", .null)]]) := by
  intro v v'
  have done : v.set ["a", "2"] (.bool true) = .ok v' := rfl
  have absent : v.at? ["a", "2"] = none := rfl
  have there : v.at? ["a", "0"] = some (.number "1") := rfl
  obtain ⟨undone, nothing, -⟩ := remove_lawful v ["a"] "2"
  obtain ⟨-, -, removed⟩ := remove_lawful v ["a"] "0"
  obtain ⟨apart, container, -⟩ := removed _ there
  refine ⟨done, ?_, nothing absent, there, ?_, ?_⟩
  · exact undone absent (.inr ⟨_, rfl⟩) _ v' done
  · exact apart ["b"] (by decide) (by decide)
  · exact container ["a"] (by decide)

end Codewright.Json
