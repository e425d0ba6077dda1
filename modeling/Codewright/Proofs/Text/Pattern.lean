import Mathlib.Data.List.Basic
import Codewright.Text.Pattern

/-!
# Where matches end

A pattern that ends with a character matches up to such a character of the text.

* `Goes p q` – a way from one place of a text to another;
* `exists_goes` – a match goes on from the place where its pattern ends;
* `findAll_ends` – the last character of a match.
-/

namespace Codewright.Text

/-- A way from a place of a text to a later one. -/
def Goes (p q : MatchPoint) : Prop := ∃ taken, p.rest = taken ++ q.rest ∧ q.place = p.place + taken.length

theorem Goes.refl (p : MatchPoint) : Goes p p := ⟨[], rfl, rfl⟩

theorem Goes.trans {p q r : MatchPoint} (h : Goes p q) (h' : Goes q r) : Goes p r := by
  obtain ⟨taken, rest, place⟩ := h
  obtain ⟨taken', rest', place'⟩ := h'
  exact ⟨taken ++ taken', by rw [rest, rest', List.append_assoc], by rw [place', place, List.length_append, Nat.add_assoc]⟩

namespace Pattern

variable {size : Nat} {next : MatchPoint → Option Match} {p : MatchPoint} {m : Match}

theorem eq_some_of_orElse {x : Option Match} {f : Unit → Option Match} (h : x.orElse f = some m) : x = some m ∨ f () = some m := by
  cases x with
  | none => exact .inr h
  | some m' => exact .inl h

/-- Repeated pieces lead on. -/
theorem repeats_goes {greedy : Bool} {piece : (MatchPoint → Option Match) → MatchPoint → Option Match}
    (goes : ∀ next p, piece next p = some m → ∃ q, Goes p q ∧ next q = some m) (n : Nat)
    (h : repeats greedy piece next n p = some m) : ∃ q, Goes p q ∧ next q = some m := by
  induction n generalizing p with
  | zero => exact ⟨p, .refl p, h⟩
  | succ n ih =>
    have again (h : piece (fun q => if p.place < q.place then repeats greedy piece next n q else none) p = some m) :
        ∃ q, Goes p q ∧ next q = some m := by
      obtain ⟨q, far, h⟩ := goes _ _ h
      split_ifs at h
      obtain ⟨r, farther, h⟩ := ih h
      exact ⟨r, far.trans farther, h⟩
    rw [repeats] at h
    split_ifs at h
    · rcases eq_some_of_orElse h with h | h
      · exact again h
      · exact ⟨p, .refl p, h⟩
    · rcases eq_some_of_orElse h with h | h
      · exact ⟨p, .refl p, h⟩
      · exact again h

/-- A match goes on from the place where its pattern ends. -/
theorem exists_goes (pattern : Pattern) (h : pattern.run size next p = some m) : ∃ q, Goes p q ∧ next q = some m := by
  induction pattern generalizing next p with
  | nothing => exact ⟨p, .refl p, h⟩
  | one test =>
    rw [run] at h
    split at h
    · next c cs rest =>
      split_ifs at h
      refine ⟨_, ?_, h⟩
      exact ⟨[c], rest, rfl⟩
    · cases h
  | seq first second ih ih' =>
    obtain ⟨q, far, h⟩ := ih h
    obtain ⟨r, farther, h⟩ := ih' h
    exact ⟨r, far.trans farther, h⟩
  | alt first second ih ih' =>
    rcases eq_some_of_orElse h with h | h
    · exact ih h
    · exact ih' h
  | many greedy piece ih => exact repeats_goes (fun _ _ h => ih h) size h
  | group index piece ih =>
    obtain ⟨q, far, h⟩ := ih h
    refine ⟨_, ?_, h⟩
    exact far
  | lineStart | wordEdge =>
    rw [run] at h
    split_ifs at h
    exact ⟨p, .refl p, h⟩

/-- The pattern ends with one character that satisfies the test. -/
def EndsWith (test : Char → Bool) : Pattern → Prop
  | .one t => t = test
  | .seq _ second => second.EndsWith test
  | _ => False

/-- Behind a pattern that ends with a character, the match goes on behind such a character. -/
theorem exists_last {test : Char → Bool} (pattern : Pattern) (ends : pattern.EndsWith test) (h : pattern.run size next p = some m) :
    ∃ q c, Goes p q ∧ q.rest.head? = some c ∧ test c = true ∧
      ∃ r : MatchPoint, r.place = q.place + 1 ∧ next r = some m := by
  induction pattern generalizing p with
  | one t =>
    obtain rfl : t = test := ends
    rw [run] at h
    split at h
    · next c cs rest =>
      split_ifs at h with passes
      exact ⟨p, c, .refl p, by rw [rest]; rfl, passes, _, rfl, h⟩
    · cases h
  | seq first second _ ih =>
    obtain ⟨q, far, h⟩ := first.exists_goes h
    obtain ⟨r, c, farther, rest⟩ := ih ends h
    exact ⟨r, c, far.trans farther, rest⟩
  | _ => cases ends

/-- The last character of a match is one with which the pattern ends. -/
theorem matchAt?_ends {test : Char → Bool} {pattern : Pattern} (ends : pattern.EndsWith test) {before : Option Char} {place : Nat}
    {front rest : List Char} (h : pattern.matchAt? size before place rest = some m) (at_ : front.length = place) :
    ∃ x c y, front ++ rest = x ++ c :: y ∧ test c = true ∧ m.stop = x.length + 1 := by
  obtain ⟨q, c, ⟨taken, rest_eq, place_eq⟩, first, passes, r, stop, matched⟩ := pattern.exists_last ends h
  obtain ⟨y, rest_eq'⟩ := List.head?_eq_some_iff.1 first
  refine ⟨front ++ taken, c, y, ?_, passes, ?_⟩
  · have rest_eq : rest = taken ++ q.rest := rest_eq
    rw [rest_eq, rest_eq', List.append_assoc]
  · cases matched
    have place_eq : q.place = place + taken.length := place_eq
    change r.place = _
    rw [stop, place_eq, List.length_append, at_]

/-- Each match in a text ends with such a character. -/
theorem findAll_ends {test : Char → Bool} {pattern : Pattern} (ends : pattern.EndsWith test) {text : List Char}
    (h : m ∈ pattern.findAll text) : ∃ x c y, text = x ++ c :: y ∧ test c = true ∧ m.stop = x.length + 1 := by
  have from_ (size skip : Nat) (before : Option Char) (front rest : List Char)
      (h : m ∈ pattern.findFrom size skip before front.length rest) :
      ∃ x c y, front ++ rest = x ++ c :: y ∧ test c = true ∧ m.stop = x.length + 1 := by
    induction rest generalizing skip before front with
    | nil =>
      rw [findFrom] at h
      cases h
    | cons c cs ih =>
      have further {skip : Nat} (h : m ∈ pattern.findFrom size skip (some c) (front.length + 1) cs) :
          ∃ x d y, front ++ c :: cs = x ++ d :: y ∧ test d = true ∧ m.stop = x.length + 1 := by
        have := ih skip (some c) (front ++ [c]) (by simpa using h)
        simpa using this
      cases skip with
      | succ skip => exact further h
      | zero =>
        rw [findFrom] at h
        split at h
        · next found =>
          rcases List.mem_cons.1 h with rfl | h
          · exact matchAt?_ends ends found rfl
          · exact further h
        · exact further h
  exact from_ text.length 0 none [] text h

end Pattern

end Codewright.Text
