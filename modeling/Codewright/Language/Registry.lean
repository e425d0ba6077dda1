import Codewright.Language.Basic
import Codewright.Text.Quoted

/-!
# Languages by extension

A `Registry` knows some languages and finds one by an extension. No extension belongs to two of them: a registry
cannot be made if two entries have the same normal form, be they of one language or of two.
-/

namespace Codewright

open Text

/-- Languages, and which of them an extension in normal form belongs to. -/
structure Registry where
  languages : List Language
  entries : List (String × Language)
  distinct : (entries.map (·.1)).Nodup

namespace Registry

/-- The registry without languages. -/
def empty : Registry := ⟨[], [], by simp⟩

/-- The entry of an extension in normal form. -/
def claim? (r : Registry) (key : String) : Option (String × Language) := r.entries.find? fun e => e.1 == key

/-- The language of an extension, in whatever form it is written. -/
def get? (r : Registry) (extension : String) : Option Language :=
  (r.claim? (normalExtension extension)).map (·.2)

/-- The registry with one more extension of a language. -/
def claim (r : Registry) (l : Language) (extension : String) : Except CraftError Registry :=
  let key := normalExtension extension
  match h : r.claim? key with
  | some e => .error (.duplicateExtension key e.2.name l.name)
  | none => .ok { r with
      entries := r.entries ++ [(key, l)]
      distinct := by
        have new : ∀ e ∈ r.entries, ¬e.1 = key := by simpa [claim?] using h
        simp only [List.map_append, List.map_cons, List.map_nil, List.nodup_append, List.mem_map,
          List.mem_singleton]
        refine ⟨r.distinct, by simp, ?_⟩
        rintro _ ⟨e, he, rfl⟩ _ rfl
        exact new e he }

/-- The registry with one more language. -/
def add (r : Registry) (l : Language) : Except CraftError Registry := do
  let r ← l.extensions.foldlM (fun r extension => r.claim l extension) r
  return { r with languages := r.languages ++ [l] }

/-- The registry of some languages. -/
def ofList (ls : List Language) : Except CraftError Registry := ls.foldlM add empty

/-- The entries in the order of their extensions. -/
def sorted (r : Registry) : List (String × Language) := r.entries.mergeSort fun a b => decide (a.1 ≤ b.1)

/-- The extensions in their order. -/
def extensions (r : Registry) : List String := r.sorted.map (·.1)

/-- The registry in one line: each extension with the name of its language. -/
def text (r : Registry) : String :=
  "\x7b" ++ String.intercalate ", " (r.sorted.map fun e => quoted e.1 ++ ": " ++ quoted e.2.name) ++ "\x7d"

end Registry

end Codewright
