import Codewright.Text.Classes

/-!
# Modifiers

A `Modifier` is a word in front of a declaration, `Modifiers` a set of them, and `Visibility` one of the three ways
to see a member.

* `Modifiers.visibility` – the narrowest visibility in a set: several may stand in one;
* `Modifiers.bits`, `Modifiers.ofBits` – a set as a number, one bit for each modifier, and back.
-/

namespace Codewright.Php

/-- Who sees a member: everyone, the class and its descendants, or the class alone. -/
inductive Visibility where
  | pub
  | prot
  | priv
deriving DecidableEq, Repr, Inhabited

namespace Visibility

/-- The keyword of a visibility. -/
def keyword : Visibility → String
  | pub => "public"
  | prot => "protected"
  | priv => "private"

/-- The visibility with exactly this keyword. -/
def ofKeyword? (s : String) : Option Visibility := [pub, prot, priv].find? fun v => v.keyword == s

/-- What is said of a word that is no visibility. -/
def unknownMessage (s : String) : String :=
  "unknown visibility '" ++ s ++ "', expected public, protected or private"

end Visibility

/-- The words in front of a declaration. -/
inductive Modifier where
  | pub
  | prot
  | priv
  | static
  | abstract
  | final
  | readonly
deriving DecidableEq, Repr, Inhabited

namespace Modifier

/-- All modifiers. -/
def all : List Modifier := [pub, prot, priv, static, abstract, final, readonly]

/-- The keyword of a modifier. -/
def keyword : Modifier → String
  | pub => "public"
  | prot => "protected"
  | priv => "private"
  | static => "static"
  | abstract => "abstract"
  | final => "final"
  | readonly => "readonly"

/-- The modifier says who sees a member. -/
def isVisibility : Modifier → Bool
  | pub | prot | priv => true
  | _ => false

end Modifier

/-- A set of declaration modifiers. -/
structure Modifiers where
  isPublic : Bool
  isProtected : Bool
  isPrivate : Bool
  isStatic : Bool
  isAbstract : Bool
  isFinal : Bool
  isReadonly : Bool
deriving DecidableEq, Repr, Inhabited

namespace Modifiers

/-- No modifier. -/
def none : Modifiers := ⟨false, false, false, false, false, false, false⟩

/-- The set of one modifier. -/
def single : Modifier → Modifiers
  | .pub => { none with isPublic := true }
  | .prot => { none with isProtected := true }
  | .priv => { none with isPrivate := true }
  | .static => { none with isStatic := true }
  | .abstract => { none with isAbstract := true }
  | .final => { none with isFinal := true }
  | .readonly => { none with isReadonly := true }

/-- Combines two sets modifier by modifier. -/
def zip (f : Bool → Bool → Bool) (m n : Modifiers) : Modifiers :=
  ⟨f m.isPublic n.isPublic, f m.isProtected n.isProtected, f m.isPrivate n.isPrivate, f m.isStatic n.isStatic,
    f m.isAbstract n.isAbstract, f m.isFinal n.isFinal, f m.isReadonly n.isReadonly⟩

/-- The modifiers of either set. -/
def union (m n : Modifiers) : Modifiers := zip or m n

/-- The modifiers of `m` that are not in `n`. -/
def diff (m n : Modifiers) : Modifiers := zip (fun a b => a && !b) m n

/-- Every modifier of `n` is in `m`. -/
def includes (m n : Modifiers) : Bool := n.diff m == none

/-- The set with the modifiers of `n` added or taken away. -/
def set (m n : Modifiers) (on : Bool) : Modifiers := if on then m.union n else m.diff n

/-- No modifier is in the set. -/
def isEmpty (m : Modifiers) : Bool := m == none

/-- A visibility is stated. -/
def hasVisibility (m : Modifiers) : Bool := m.isPublic || m.isProtected || m.isPrivate

/-- The narrowest visibility stated, and `public` if none is. -/
def visibility (m : Modifiers) : Visibility :=
  if m.isPrivate then .priv else if m.isProtected then .prot else .pub

/-- The set as a number. -/
def bits (m : Modifiers) : Nat :=
  m.isPublic.toNat + 2 * m.isProtected.toNat + 4 * m.isPrivate.toNat + 8 * m.isStatic.toNat +
    16 * m.isAbstract.toNat + 32 * m.isFinal.toNat + 64 * m.isReadonly.toNat

/-- The set that a number stands for. -/
def ofBits (n : Nat) : Modifiers :=
  ⟨n.testBit 0, n.testBit 1, n.testBit 2, n.testBit 3, n.testBit 4, n.testBit 5, n.testBit 6⟩

/-- The visibility keyword of the set with a space behind it, if one is stated. -/
def visibilityText (m : Modifiers) : String := if m.hasVisibility then m.visibility.keyword ++ " " else ""

/-- A number is read back as the set that wrote it. -/
theorem ofBits_bits (m : Modifiers) : ofBits m.bits = m := by
  obtain ⟨a, b, c, d, e, f, g⟩ := m
  revert a b c d e f g
  decide

end Modifiers

/-- The set of one visibility. -/
def Visibility.modifiers : Visibility → Modifiers
  | pub => .single .pub
  | prot => .single .prot
  | priv => .single .priv

/-- A set that states one visibility has that visibility. -/
theorem Visibility.visibility_modifiers (v : Visibility) : v.modifiers.visibility = v := by cases v <;> rfl

end Codewright.Php
