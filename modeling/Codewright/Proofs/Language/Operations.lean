import Codewright.Language.Options

/-!
# Operations one after the other

* `exists_ok_of_bind` – what was done before the rest of a computation that succeeds;
* `editWith_append` – a list of operations that is done in two parts;
* `editWith_keeps` – what each operation keeps is kept by all.
-/

namespace Codewright

theorem exists_ok_of_bind {ε α β : Type} {x : Except ε α} {f : α → Except ε β} {y : β} (h : (x >>= f) = .ok y) :
    ∃ a, x = .ok a ∧ f a = .ok y := by
  cases x with
  | error e => cases h
  | ok a => exact ⟨a, rfl, h⟩

theorem readOptions_eq_ok_iff {α : Type} {record : Json.Record α} {j : Json} {o : α} :
    readOptions record j = .ok o ↔ record.decode j = .ok o := by
  rw [readOptions]
  cases record.decode j with
  | error e => constructor <;> (intro h; cases h)
  | ok a => constructor <;> (intro h; cases h; rfl)

variable {α : Type} {edit : α → Json → Except CraftError α} {v w : α} {a b operations : List Json}

theorem editWith_append (edit : α → Json → Except CraftError α) (v : α) (a b : List Json) :
    editWith edit v (a ++ b) = editWith edit v a >>= fun w => editWith edit w b := by
  induction a generalizing v with
  | nil => rfl
  | cons operation a ih =>
    rw [List.cons_append, editWith, editWith]
    cases edit v operation with
    | error e => rfl
    | ok w => exact ih w

/-- What each operation keeps is kept by all of them. -/
theorem editWith_keeps {p : α → Prop}
    (each : ∀ operation ∈ operations, ∀ v w, p v → edit v operation = .ok w → p w) (start : p v)
    (done : editWith edit v operations = .ok w) : p w := by
  induction operations generalizing v with
  | nil =>
    cases done
    exact start
  | cons operation operations ih =>
    obtain ⟨here, later⟩ := List.forall_mem_cons.1 each
    obtain ⟨v', first, rest⟩ := exists_ok_of_bind done
    exact ih later (here v v' start first) rest

end Codewright
