import Codewright.Json.Path
import Codewright.Proofs.Json.Entries

/-!
# Setting the value at a path

What `Json.update` does to a value, and what it leaves alone.

* `Json.at?` – the value to which a path leads; `Json.address` – the keys and indices that its segments stand for;
* `Opens`, `putChild` – where a child can be put, and the value with it; `update_cons`: one step of an update;
* `at?_update_of_not_behind` – what every other path leads to after an update;
* `Json.editAt` – the update done in place, container by container; `editAt_eq`: if it fails, it has changed nothing;
* `set_lawful` – the laws of setting a value.
-/

namespace Codewright.Json

/-! ## Paths -/

/-- The value to which a path leads, if it leads to one. -/
def at? : List String → Json → Option Json
  | [], v => some v
  | segment :: path, v => (v.child? segment).bind (at? path)

/-- What a segment stands for: a key of an object, or an index of an array. -/
inductive Step where
  | key (name : String)
  | index (i : Option Nat)
deriving DecidableEq, Repr

/-- What a segment stands for in a value. Whatever is no array counts as an object. -/
def stepOf (segment : String) : Json → Step
  | .array _ => .index (index? segment)
  | _ => .key segment

/-- What the segments of a path stand for, in the values that they meet. What is missing counts as null. -/
def address : List String → Json → List Step
  | [], _ => []
  | segment :: path, v => v.stepOf segment :: address path ((v.child? segment).getD .null)

/-- Segments that stand for the same lead to the same child. -/
theorem child?_eq_of_stepOf {s t : String} {v : Json} (h : v.stepOf s = v.stepOf t) : v.child? s = v.child? t := by
  cases v with
  | array items =>
    have same : index? s = index? t := Step.index.inj h
    simp only [child?, same]
  | object es =>
    have same : s = t := Step.key.inj h
    rw [same]
  | _ => rfl

/-! ## One step of an update -/

/-- A child can be put at the segment: the value is an object or null, or an array with that index or its end. -/
def Opens (segment : String) : Json → Prop
  | .array items => ∃ i, index? segment = some i ∧ i ≤ items.length
  | v => ∃ es, v.asEntries? = some es

/-- The value with a child at a segment, in its place or behind all others. -/
def putChild (v : Json) (segment : String) (child : Json) : Json :=
  match v with
  | .array items => .array (putItem ((index? segment).getD 0) child items)
  | v => .object (Entries.put segment child (v.asEntries?.getD []))

/-- Opens a value at a segment in place: null becomes an object, and null is put where no child is. The value as it is
then, and the child to go on with. -/
def openChild (segment : String) : Json → Json × Except PathError Json
  | .array items =>
    match indexIn segment items.length with
    | .error e => (.array items, .error e)
    | .ok i =>
      let items := if i = items.length then items ++ [.null] else items
      (.array items, .ok (items[i]?.getD .null))
  | v =>
    match v.asEntries? with
    | none => (v, .error (.cannotDescend v.typeName segment))
    | some es =>
      let es := if (Entries.get? segment es).isNone then Entries.put segment .null es else es
      (.object es, .ok ((Entries.get? segment es).getD .null))

theorem putItem_self (i : Nat) (v : Json) {items : List Json} (h : i ≤ items.length) : (putItem i v items)[i]? = some v := by
  unfold putItem
  split
  · next lt => simp [lt]
  · next ge =>
    have last : i = items.length := by omega
    simp [last]

theorem putItem_other {i j : Nat} (ne : j ≠ i) (v : Json) {items : List Json} {x : Json} (h : items[j]? = some x) :
    (putItem i v items)[j]? = some x := by
  unfold putItem
  split
  · rw [List.getElem?_set_ne ne.symm, h]
  · obtain ⟨lt, -⟩ := List.getElem?_eq_some_iff.1 h
    rw [List.getElem?_append_left lt, h]

theorem length_putItem_le (i : Nat) (v : Json) (items : List Json) : items.length ≤ (putItem i v items).length := by
  unfold putItem
  split <;> simp

theorem putItem_putItem {i : Nat} (v w : Json) {items : List Json} (h : i ≤ items.length) :
    putItem i w (putItem i v items) = putItem i w items := by
  by_cases lt : i < items.length
  · simp [putItem, lt]
  · have last : i = items.length := by omega
    simp [putItem, last]

section

variable {segment other : String} {v child : Json}

/-- The child is where it was put. -/
theorem child?_putChild (opens : v.Opens segment) (child : Json) :
    (v.putChild segment child).child? segment = some child := by
  cases v with
  | array items =>
    obtain ⟨i, index, le⟩ := opens
    simp [putChild, child?, index, putItem_self i child le]
  | null => simp [putChild, child?]
  | object es => simp [putChild, child?]
  | _ =>
    obtain ⟨es, none⟩ := opens
    cases none

/-- Every other child stays. -/
theorem child?_putChild_of_ne (opens : v.Opens segment) (ne : v.stepOf other ≠ v.stepOf segment) {x : Json}
    (h : v.child? other = some x) (child : Json) : (v.putChild segment child).child? other = some x := by
  cases v with
  | array items =>
    obtain ⟨i, index, le⟩ := opens
    obtain ⟨j, index', item⟩ := Option.bind_eq_some_iff.1 h
    have apart : j ≠ i := by
      intro same
      simp [stepOf, index, index', same] at ne
    simp [putChild, child?, index, index', putItem_other apart child item]
  | object es =>
    have apart : other ≠ segment := by
      intro same
      simp [stepOf, same] at ne
    have found : Entries.get? other es = some x := h
    simp [putChild, child?, asEntries?, Entries.get?_put_of_ne apart, found]
  | _ => cases h

/-- Segments stand for the same before and after. -/
theorem stepOf_putChild (s : String) (v child : Json) : (v.putChild segment child).stepOf s = v.stepOf s := by
  cases v <;> rfl

/-- A segment that stands for the same finds the child that was put. -/
theorem child?_putChild_of_eq (opens : v.Opens segment) (same : v.stepOf other = v.stepOf segment) (child : Json) :
    (v.putChild segment child).child? other = some child := by
  have same' : (v.putChild segment child).stepOf other = (v.putChild segment child).stepOf segment := by
    rw [stepOf_putChild, stepOf_putChild, same]
  rw [child?_eq_of_stepOf same', child?_putChild opens]

theorem Opens.putChild (opens : v.Opens segment) (child : Json) : (v.putChild segment child).Opens segment := by
  cases v with
  | array items =>
    obtain ⟨i, index, le⟩ := opens
    exact ⟨i, index, le.trans (length_putItem_le _ _ _)⟩
  | _ => exact ⟨_, rfl⟩

/-- The child that was put last counts. -/
theorem putChild_putChild (opens : v.Opens segment) (child child' : Json) :
    (v.putChild segment child).putChild segment child' = v.putChild segment child' := by
  cases v with
  | array items =>
    obtain ⟨i, index, le⟩ := opens
    simp [Json.putChild, index, putItem_putItem _ _ le]
  | _ => simp [Json.putChild, asEntries?]

/-- An update goes on with the child at the first segment, or with null if there is none, and puts the result there. -/
theorem update_cons (opens : v.Opens segment) (f : Json → Except PathError Json) (path : List String) :
    v.update f (segment :: path) =
      (((v.child? segment).getD .null).update f path).map fun child => v.putChild segment child := by
  cases v with
  | array items =>
    obtain ⟨i, index, le⟩ := opens
    simp only [update, indexIn, index, le, if_true, child?, Option.bind_some, putChild, Option.getD_some]
    show (update f path (items[i]?.getD .null) >>= fun child => pure (array (putItem i child items))) = _
    cases update f path (items[i]?.getD .null) <;> rfl
  | null =>
    simp only [update, asEntries?, child?, putChild, Option.getD_some, Entries.get?]
    cases update f path (Option.getD none .null) <;> rfl
  | object es =>
    simp only [update, asEntries?, child?, putChild, Option.getD_some]
    cases update f path ((Entries.get? segment es).getD .null) <;> rfl
  | _ =>
    obtain ⟨es, none⟩ := opens
    cases none

/-- A value that cannot be opened fails as an update fails, and stays. -/
theorem exists_openChild_of_not_opens (closed : ¬v.Opens segment) :
    ∃ e, v.openChild segment = (v, .error e) ∧ ∀ f path, v.update f (segment :: path) = .error e := by
  cases v with
  | array items =>
    cases index : index? segment with
    | none =>
      refine ⟨.notAnIndex segment, by simp only [openChild, indexIn, index], ?_⟩
      intro f path
      simp only [update, indexIn, index]
      rfl
    | some i =>
      have gt : ¬i ≤ items.length := fun le => closed ⟨i, index, le⟩
      refine ⟨.pastEnd i items.length, by simp only [openChild, indexIn, index, gt, if_false], ?_⟩
      intro f path
      simp only [update, indexIn, index, gt, if_false]
      rfl
  | null => exact absurd ⟨_, rfl⟩ closed
  | object es => exact absurd ⟨_, rfl⟩ closed
  | bool b => exact ⟨.cannotDescend "boolean" segment, rfl, fun f path => rfl⟩
  | number n => exact ⟨.cannotDescend "number" segment, rfl, fun f path => rfl⟩
  | string s => exact ⟨.cannotDescend "string" segment, rfl, fun f path => rfl⟩

/-- What an update that succeeds has done at the first segment. -/
theorem update_cons_eq_ok {f : Json → Except PathError Json} {path : List String} {v' : Json}
    (h : v.update f (segment :: path) = .ok v') :
    v.Opens segment ∧ ∃ child, ((v.child? segment).getD .null).update f path = .ok child ∧
      v' = v.putChild segment child := by
  by_cases opens : v.Opens segment
  · rw [update_cons opens] at h
    cases below : ((v.child? segment).getD .null).update f path with
    | error e =>
      rw [below] at h
      cases h
    | ok child =>
      rw [below] at h
      cases h
      exact ⟨opens, child, rfl, rfl⟩
  · obtain ⟨e, -, fails⟩ := exists_openChild_of_not_opens opens
    rw [fails] at h
    cases h

end

/-! ## Whole paths -/

variable {f : Json → Except PathError Json} {path : List String} {v v' new : Json}

/-- A path leads to what was set there. -/
theorem at?_set (h : v.set path new = .ok v') : v'.at? path = some new := by
  unfold set at h
  induction path generalizing v v' with
  | nil =>
    cases h
    rfl
  | cons segment path ih =>
    obtain ⟨opens, child, below, rfl⟩ := update_cons_eq_ok h
    rw [at?, child?_putChild opens, Option.bind_some]
    exact ih below

/-- Setting a value again is as if it had been set once. -/
theorem set_set (h : v.set path new = .ok v') (new' : Json) : v'.set path new' = v.set path new' := by
  unfold set at h ⊢
  induction path generalizing v v' with
  | nil => rfl
  | cons segment path ih =>
    obtain ⟨opens, child, below, rfl⟩ := update_cons_eq_ok h
    rw [update_cons (opens.putChild child), update_cons opens, child?_putChild opens, Option.getD_some, ih below]
    simp only [putChild_putChild opens]

/-- A path that does not pass the place of an update leads to what it led to, or, if it stops on the way there, to that
value with the rest of the update done in it. -/
theorem at?_update_of_not_behind {other : List String} {x : Json} (h : v.update f path = .ok v')
    (found : v.at? other = some x) (not_behind : ¬v.address path <+: v.address other) :
    ∃ y, v'.at? other = some y ∧
      (y = x ∨ v.address other <+: v.address path ∧ ∃ segment rest, x.update f (segment :: rest) = .ok y) := by
  induction path generalizing v v' other with
  | nil => exact absurd List.nil_prefix not_behind
  | cons s path ih =>
    cases other with
    | nil =>
      cases found
      exact ⟨v', rfl, .inr ⟨List.nil_prefix, s, path, h⟩⟩
    | cons t other =>
      obtain ⟨opens, child, below, rfl⟩ := update_cons_eq_ok h
      obtain ⟨c, at_t, found⟩ := Option.bind_eq_some_iff.1 found
      by_cases same : v.stepOf t = v.stepOf s
      · have at_s : v.child? s = some c := by rw [← child?_eq_of_stepOf same, at_t]
        simp only [address, same, at_s, at_t, Option.getD_some, List.cons_prefix_cons, true_and] at not_behind below ⊢
        rw [at?, child?_putChild_of_eq opens same, Option.bind_some]
        exact ih below found not_behind
      · refine ⟨x, ?_, .inl rfl⟩
        rw [at?, child?_putChild_of_ne opens same at_t, Option.bind_some, found]

/-- An update inside an object keeps the order of its keys; a new one comes last. -/
theorem keys_update_cons {es : Entries} {segment : String} (h : (object es).update f (segment :: path) = .ok v') :
    ∃ es', v' = .object es' ∧ Entries.keys es <+: Entries.keys es' := by
  obtain ⟨-, child, -, rfl⟩ := update_cons_eq_ok h
  exact ⟨_, rfl, Entries.keys_prefix_put segment child es⟩

/-! ## Updates in place -/

/-- What a value and a report of failure become when an attempt to change the value in one go is over. -/
def outcome (v : Json) : Except PathError Json → Json × Option PathError
  | .ok v' => (v', none)
  | .error e => (v, some e)

/-- Changes a value in place: descends along the path, opens what it meets, and changes what it finds at the end. A
failure leaves what has been opened so far. -/
def editAt (edit : Json → Json × Option PathError) : List String → Json → Json × Option PathError
  | [], v => edit v
  | segment :: path, v =>
    match v.openChild segment with
    | (opened, .error e) => (opened, some e)
    | (opened, .ok child) =>
      let edited := editAt edit path child
      (opened.withChild segment edited.1, edited.2)

/-- Sets a value in place. -/
def setInPlace (v : Json) (path : List String) (new : Json) : Json × Option PathError :=
  editAt (fun _ => (new, none)) path v

/-- Pushes a value onto an array in place; null becomes an array before. -/
def pushItemInPlace (new v : Json) : Json × Option PathError :=
  match (match v with | .null => array [] | v => v) with
  | .array items => (.array (items ++ [new]), none)
  | other => (other, some (.cannotPush other.typeName))

/-- Pushes a value onto the array at a path in place. -/
def pushInPlace (v : Json) (path : List String) (new : Json) : Json × Option PathError :=
  editAt (pushItemInPlace new) path v

section

variable {segment : String}

/-- Opening puts a null where no child is, and changes nothing else. -/
theorem openChild_eq (opens : v.Opens segment) :
    v.openChild segment =
      (if (v.child? segment).isNone then v.putChild segment .null else v, .ok ((v.child? segment).getD .null)) := by
  cases v with
  | array items =>
    obtain ⟨i, index, le⟩ := opens
    by_cases last : i = items.length
    · subst last
      simp [openChild, indexIn, child?, putChild, putItem, index]
    · have lt : i < items.length := by omega
      simp [openChild, indexIn, child?, index, le, last, lt]
  | null => simp [openChild, asEntries?, child?, putChild, Entries.get?]
  | object es =>
    cases found : Entries.get? segment es with
    | none => simp [openChild, asEntries?, child?, putChild, found]
    | some child => simp [openChild, asEntries?, child?, found]
  | _ =>
    obtain ⟨es, none⟩ := opens
    cases none

/-- Replacing the child that is there is putting it. -/
theorem withChild_eq {child : Json} (found : v.child? segment = some child) (new : Json) :
    v.withChild segment new = v.putChild segment new := by
  cases v with
  | array items =>
    obtain ⟨i, index, item⟩ := Option.bind_eq_some_iff.1 found
    obtain ⟨lt, -⟩ := List.getElem?_eq_some_iff.1 item
    simp [withChild, Json.putChild, putItem, index, lt]
  | object es => rfl
  | _ => cases found

/-- Putting the child that is there changes nothing. -/
theorem putChild_of_child? {child : Json} (found : v.child? segment = some child) : v.putChild segment child = v := by
  cases v with
  | array items =>
    obtain ⟨i, index, item⟩ := Option.bind_eq_some_iff.1 found
    obtain ⟨lt, rfl⟩ := List.getElem?_eq_some_iff.1 item
    simp [Json.putChild, putItem, index, lt]
  | object es => simp [Json.putChild, asEntries?, Entries.put_of_get? found]
  | _ => cases found

end

/-- Below a null no step of an update can fail. -/
theorem exists_update_null (some_null : ∃ w, f .null = .ok w) (path : List String) : ∃ w, update f path .null = .ok w := by
  induction path with
  | nil => exact some_null
  | cons segment path ih =>
    obtain ⟨w, below⟩ := ih
    have opens : Opens segment .null := ⟨_, rfl⟩
    refine ⟨putChild .null segment w, ?_⟩
    rw [update_cons opens]
    show (update f path .null).map _ = _
    rw [below]
    rfl

/-- An edit in place that fails has changed nothing. Only a null that was put there could be left behind, and below a
null nothing fails. -/
theorem editAt_eq {edit : Json → Json × Option PathError} (some_null : ∃ w, f .null = .ok w)
    (same : ∀ v, edit v = v.outcome (f v)) (path : List String) (v : Json) :
    editAt edit path v = v.outcome (update f path v) := by
  induction path generalizing v with
  | nil => exact same v
  | cons segment path ih =>
    by_cases opens : v.Opens segment
    · rw [update_cons opens]
      simp only [editAt, openChild_eq opens, ih]
      cases found : v.child? segment with
      | none =>
        obtain ⟨w, below⟩ := exists_update_null some_null path
        have there := child?_putChild opens .null
        simp only [Option.isNone_none, if_true, Option.getD_none, below, outcome, Except.map]
        rw [withChild_eq there, putChild_putChild opens]
      | some child =>
        simp only [Option.isNone_some, Bool.false_eq_true, if_false, Option.getD_some]
        cases update f path child with
        | ok w => simp only [outcome, Except.map, withChild_eq found]
        | error e => simp only [outcome, Except.map, withChild_eq found, putChild_of_child? found]
    · obtain ⟨e, stays, fails⟩ := exists_openChild_of_not_opens opens
      simp only [editAt, stays, fails, outcome]

theorem setInPlace_eq (v : Json) (path : List String) (new : Json) : v.setInPlace path new = v.outcome (v.set path new) :=
  editAt_eq (f := fun _ => .ok new) ⟨new, rfl⟩ (fun _ => rfl) path v

theorem pushInPlace_eq (v : Json) (path : List String) (new : Json) :
    v.pushInPlace path new = v.outcome (v.push path new) := by
  refine editAt_eq ⟨.array [new], rfl⟩ ?_ path v
  intro v
  cases v <;> rfl

/-! ## The laws of setting a value -/

/-- The laws of setting a value. If it succeeds, the path leads to the new value, setting again is as if the first had
not been, a path that parts from this one leads to what it led to, and an object that is not replaced keeps its keys in
front, in their order. If it fails, or if a push fails, the change in place has left the value as it was. -/
theorem set_lawful (v : Json) (path : List String) (new : Json) :
    (∀ v', v.set path new = .ok v' →
      v'.at? path = some new ∧
      (∀ new', v'.set path new' = v.set path new') ∧
      (∀ other x, v.at? other = some x → ¬v.address path <+: v.address other → ¬v.address other <+: v.address path →
        v'.at? other = some x) ∧
      (∀ other es, v.at? other = some (.object es) → ¬v.address path <+: v.address other →
        ∃ es', v'.at? other = some (.object es') ∧ Entries.keys es <+: Entries.keys es')) ∧
    v.setInPlace path new = v.outcome (v.set path new) ∧
    v.pushInPlace path new = v.outcome (v.push path new) := by
  refine ⟨?_, setInPlace_eq v path new, pushInPlace_eq v path new⟩
  intro v' h
  refine ⟨at?_set h, set_set h, ?_, ?_⟩
  · intro other x found not_behind not_before
    obtain ⟨y, found', rfl | ⟨before, -⟩⟩ := at?_update_of_not_behind h found not_behind
    · exact found'
    · exact absurd before not_before
  · intro other es found not_behind
    obtain ⟨y, found', rfl | ⟨-, segment, rest, inside⟩⟩ := at?_update_of_not_behind h found not_behind
    · exact ⟨es, found', List.prefix_refl _⟩
    · obtain ⟨es', rfl, keys⟩ := keys_update_cons inside
      exact ⟨es', found', keys⟩

/-- The laws at a new key in an object in an array, and at a number that cannot be opened. -/
theorem set_lawful_nested :
    let v : Json := .object [("a", .array [.number "1", .object [("x", .null)]]), ("b", .number "2")]
    let v' : Json :=
      .object [("a", .array [.number "1", .object [("x", .null), ("c", .bool true)]]), ("b", .number "2")]
    v.set ["a", "1", "c"] (.bool true) = .ok v' ∧ v'.at? ["a", "1", "c"] = some (.bool true) ∧
      v'.set ["a", "1", "c"] .null = v.set ["a", "1", "c"] .null ∧ v'.at? ["b"] = some (.number "2") ∧
      (∃ es, v'.at? ["a", "1"] = some (.object es) ∧ ["x"] <+: Entries.keys es) ∧
      v.setInPlace ["b", "c"] .null = (v, some (.cannotDescend "number" "c")) := by
  intro v v'
  have done : v.set ["a", "1", "c"] (.bool true) = .ok v' := rfl
  obtain ⟨there, again, others, keys⟩ := (set_lawful v ["a", "1", "c"] (.bool true)).1 v' done
  refine ⟨done, there, again .null, ?_, ?_, ?_⟩
  · exact others ["b"] (.number "2") rfl (by decide) (by decide)
  · exact keys ["a", "1"] [("x", .null)] rfl (by decide)
  · exact (set_lawful v ["b", "c"] .null).2.1

end Codewright.Json
