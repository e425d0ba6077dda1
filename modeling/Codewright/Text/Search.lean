/-!
# Finding a text inside a text

* `cutAt needle s` – what stands before the first occurrence of `needle`, and the text from there on;
* `replaceAll` – every occurrence, from left to right, replaced by another text;
* `contains`, `startsWith`, `endsWith` – the same questions of strings;
* `stripStart?`, `stripEnd?` – what is left without a given start or end;
* `byteLength` – the length in bytes.
-/

namespace Codewright.Text

/-- Splits `s` in front of the first occurrence of `needle`. -/
def cutAt (needle : List Char) : List Char → Option (List Char × List Char)
  | [] => if needle.isEmpty then some ([], []) else none
  | c :: cs =>
    if needle.isPrefixOf (c :: cs) then some ([], c :: cs)
    else (cutAt needle cs).map fun r => (c :: r.1, r.2)

/-- `needle` occurs in `s`. -/
def contains (needle s : String) : Bool := (cutAt needle.toList s.toList).isSome

/-- The string begins with `start`. -/
def startsWith (start s : String) : Bool := start.toList.isPrefixOf s.toList

/-- The string ends with `ending`. -/
def endsWith (ending s : String) : Bool := ending.toList.isSuffixOf s.toList

/-- What follows `start`, when the list begins with it. -/
def stripStart? : List Char → List Char → Option (List Char)
  | [], s => some s
  | _ :: _, [] => none
  | p :: ps, c :: cs => if p = c then stripStart? ps cs else none

/-- What precedes `ending`, when the list ends with it. -/
def stripEnd? (ending s : List Char) : Option (List Char) :=
  (stripStart? ending.reverse s.reverse).map List.reverse

/-- Replaces the occurrences of `needle` behind the next `skip` characters, which are dropped. -/
def replaceFrom (needle replacement : List Char) : Nat → List Char → List Char
  | _, [] => []
  | skip + 1, _ :: cs => replaceFrom needle replacement skip cs
  | 0, c :: cs =>
    if needle.isPrefixOf (c :: cs) then replacement ++ replaceFrom needle replacement (needle.length - 1) cs
    else c :: replaceFrom needle replacement 0 cs

/-- Every occurrence of `needle`, which is not empty, replaced by a text, from left to right. -/
def replaceAll (needle replacement s : String) : String :=
  String.ofList (replaceFrom needle.toList replacement.toList 0 s.toList)

/-- The length in bytes of the encoding of a list of characters. -/
def byteLength : List Char → Nat
  | [] => 0
  | c :: cs => c.utf8Size + byteLength cs

/-! ### Small facts -/

theorem append_of_cutAt {needle s a b : List Char} (h : cutAt needle s = some (a, b)) : a ++ b = s := by
  induction s generalizing a b with
  | nil =>
    simp only [cutAt] at h
    split at h <;> simp_all
  | cons c cs ih =>
    simp only [cutAt] at h
    split at h
    · simp_all
    · obtain ⟨⟨a', b'⟩, h', e⟩ := Option.map_eq_some_iff.1 h
      simp only [Prod.mk.injEq] at e
      obtain ⟨rfl, rfl⟩ := e
      simp [ih h']

theorem byteLength_append (a b : List Char) : byteLength (a ++ b) = byteLength a + byteLength b := by
  induction a with
  | nil => simp [byteLength]
  | cons c cs ih => simp [byteLength, ih, Nat.add_assoc]

end Codewright.Text
