import Mathlib.Data.List.Basic
import Codewright.Text.Bracket
import Codewright.Text.Mask

/-!
# Brackets in masks

* `bracesBehind n cells` – how many braces are open behind some cells;
* `closingBrace?_eq_some_iff` – where a brace is closed;
* `brackets cells` – the brackets that are seen; whether they nest depends on nothing else;
* `bracketsBalancedFrom_insert` – brackets that nest can stand between others.
-/

namespace Codewright.Text

/-- How many braces are open behind some cells, when `n` are open before; none if one is closed that is not open. -/
def bracesBehind : Nat → List Cell → Option Nat
  | n, [] => some n
  | n, c :: cs =>
    if c.face = '\x7b' then bracesBehind (n + 1) cs
    else if c.face = '\x7d' then if n = 0 then none else bracesBehind (n - 1) cs
    else bracesBehind n cs

variable {a b cells : List Cell} {n m : Nat}

theorem bracesBehind_append (n : Nat) (a b : List Cell) :
    bracesBehind n (a ++ b) = (bracesBehind n a).bind (bracesBehind · b) := by
  induction a generalizing n with
  | nil => rfl
  | cons c a ih =>
    simp only [List.cons_append, bracesBehind, ih]
    split_ifs <;> rfl

/-- Braces that nest do so inside of others. -/
theorem bracesBehind_add {n m : Nat} (nests : bracesBehind n cells = some m) (k : Nat) :
    bracesBehind (n + k) cells = some (m + k) := by
  induction cells generalizing n with
  | nil =>
    cases nests
    rfl
  | cons c cells ih =>
    rw [bracesBehind] at nests ⊢
    split_ifs at nests ⊢ with opens closes none_open more
    · rw [← ih nests, Nat.add_right_comm]
    · omega
    · rw [← ih nests]
      congr 1
      omega
    · exact ih nests

/-- Where the brace is closed in front of which `n` more are open. -/
theorem closingBrace?_eq_some_iff : closingBrace? Cell.face (n + 1) cells = some m ↔
    ∃ body c rest, cells = body ++ c :: rest ∧ body.length = m ∧ bracesBehind n body = some 0 ∧ c.face = '\x7d' := by
  induction cells generalizing n m with
  | nil => simp [closingBrace?]
  | cons c cells ih =>
    -- Where the first cell closes nothing, the rest is searched with `k` open braces.
    have further (k : Nat) (same : ∀ more, bracesBehind n (c :: more) = bracesBehind k more)
        (search : closingBrace? Cell.face (n + 1) (c :: cells) = (closingBrace? Cell.face (k + 1) cells).map (· + 1))
        (no_end : ¬(n = 0 ∧ c.face = '\x7d')) :
        closingBrace? Cell.face (n + 1) (c :: cells) = some m ↔ ∃ body d rest, c :: cells = body ++ d :: rest ∧
          body.length = m ∧ bracesBehind n body = some 0 ∧ d.face = '\x7d' := by
      rw [search, Option.map_eq_some_iff]
      constructor
      · rintro ⟨m, found, rfl⟩
        obtain ⟨body, d, rest, rfl, rfl, nests, ends⟩ := ih.1 found
        exact ⟨c :: body, d, rest, rfl, rfl, by rw [same, nests], ends⟩
      · rintro ⟨body, d, rest, whole, rfl, nests, ends⟩
        cases body with
        | nil =>
          cases whole
          exact absurd ⟨Option.some.inj nests, ends⟩ no_end
        | cons _ body =>
          cases whole
          exact ⟨body.length, ih.2 ⟨body, d, rest, rfl, rfl, by rw [← same, nests], ends⟩, rfl⟩
    by_cases opens : c.face = '\x7b'
    · refine further (n + 1) (fun more => by rw [bracesBehind, if_pos opens]) ?_ (by simp [opens])
      cases n <;> rw [closingBrace?, if_pos opens]
    · by_cases closes : c.face = '\x7d'
      · cases n with
        | succ n =>
          refine further n (fun more => ?_) ?_ (by simp)
          · rw [bracesBehind, if_neg opens, if_pos closes, if_neg (by simp), Nat.add_sub_cancel]
          · rw [closingBrace?, if_neg opens, if_pos closes]
        | zero =>
          rw [closingBrace?, if_neg opens, if_pos closes]
          constructor
          · intro found
            cases found
            exact ⟨[], c, cells, rfl, rfl, rfl, closes⟩
          · rintro ⟨body, d, rest, whole, rfl, nests, ends⟩
            cases body with
            | nil => rfl
            | cons _ body =>
              cases whole
              rw [bracesBehind, if_neg opens, if_pos closes, if_pos rfl] at nests
              cases nests
      · refine further n (fun more => by rw [bracesBehind, if_neg opens, if_neg closes]) ?_ (by simp [closes])
        cases n <;> rw [closingBrace?, if_neg opens, if_neg closes]

/-- Braces are looked for among the faces of cells as among the cells. -/
theorem closingBrace?_map_face (n : Nat) (cells : List Cell) :
    closingBrace? id n (cells.map Cell.face) = closingBrace? Cell.face n cells := by
  induction cells generalizing n with
  | nil => rfl
  | cons c cells ih => simp only [List.map_cons, closingBrace?, ih, id]

/-! ## Brackets -/

/-- A round, square or curly bracket. -/
def isBracket (c : Char) : Bool := isOpener c || (openerOf? c).isSome

/-- The brackets that are seen in some cells. -/
def brackets (cells : List Cell) : List Char := (cells.map Cell.face).filter isBracket

theorem brackets_append (a b : List Cell) : brackets (a ++ b) = brackets a ++ brackets b := by
  rw [brackets, List.map_append, List.filter_append, brackets, brackets]

theorem isBracket_of_isSpace {c : Char} (space : isSpace c = true) : isBracket c = false := by
  have ne {d : Char} (letter : isSpace d = false) : c ≠ d := by
    rintro rfl
    rw [space] at letter
    cases letter
  have closing : openerOf? c = none := by
    unfold openerOf?
    split
    · exact absurd rfl (ne (d := ')') rfl)
    · exact absurd rfl (ne (d := ']') rfl)
    · exact absurd rfl (ne (d := '\x7d') rfl)
    · rfl
  simp [isBracket, isOpener, closing, ne (d := '(') rfl, ne (d := '[') rfl, ne (d := '\x7b') rfl]

theorem brackets_of_space (space : ∀ c ∈ cells, isSpace c.face = true) : brackets cells = [] := by
  rw [brackets, List.filter_eq_nil_iff, List.forall_mem_map]
  intro c hc
  simp [isBracket_of_isSpace (space c hc)]

/-- Whether brackets nest depends on nothing but the brackets. -/
theorem bracketsBalancedFrom_filter (stack text : List Char) :
    bracketsBalancedFrom stack (text.filter isBracket) = bracketsBalancedFrom stack text := by
  induction text generalizing stack with
  | nil => rfl
  | cons c text ih =>
    by_cases opens : isOpener c = true
    · simp [bracketsBalancedFrom, isBracket, opens, ih]
    · cases closes : openerOf? c with
      | none => simp [bracketsBalancedFrom, isBracket, opens, closes, ih]
      | some opener => cases stack <;> simp [bracketsBalancedFrom, isBracket, opens, closes, ih]

theorem bracketsBalanced_faces (cells : List Cell) :
    bracketsBalanced (cells.map Cell.face) = bracketsBalanced (brackets cells) :=
  (bracketsBalancedFrom_filter [] (cells.map Cell.face)).symm

/-- Behind brackets that close what is open, the rest is read as if they were not there. -/
theorem bracketsBalancedFrom_append {stack middle : List Char} (balanced : bracketsBalancedFrom stack middle = true)
    (outer rest : List Char) : bracketsBalancedFrom (stack ++ outer) (middle ++ rest) = bracketsBalancedFrom outer rest := by
  induction middle generalizing stack with
  | nil =>
    obtain rfl : stack = [] := by simpa [bracketsBalancedFrom] using balanced
    rfl
  | cons c middle ih =>
    by_cases opens : isOpener c = true
    · simp only [bracketsBalancedFrom, opens, if_true] at balanced
      simp only [List.cons_append, bracketsBalancedFrom, opens, if_true]
      exact ih balanced
    · cases closes : openerOf? c with
      | none =>
        simp only [bracketsBalancedFrom, opens, closes] at balanced
        simp only [List.cons_append, bracketsBalancedFrom, opens, closes]
        exact ih balanced
      | some opener =>
        cases stack with
        | nil => simp [bracketsBalancedFrom, opens, closes] at balanced
        | cons top stack =>
          obtain ⟨rfl, balanced⟩ : top = opener ∧ bracketsBalancedFrom stack middle = true := by
            simpa [bracketsBalancedFrom, opens, closes] using balanced
          simpa [bracketsBalancedFrom, opens, closes] using ih balanced

/-- Brackets that nest can stand between others. -/
theorem bracketsBalancedFrom_insert {middle : List Char} (balanced : bracketsBalanced middle = true) (stack front rest : List Char) :
    bracketsBalancedFrom stack (front ++ (middle ++ rest)) = bracketsBalancedFrom stack (front ++ rest) := by
  induction front generalizing stack with
  | nil => exact bracketsBalancedFrom_append balanced stack rest
  | cons c front ih =>
    simp only [List.cons_append, bracketsBalancedFrom, ih]

end Codewright.Text
