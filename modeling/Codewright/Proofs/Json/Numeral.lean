import Codewright.Json.Numeral
import Codewright.Proofs.Php.Numerals

/-!
# Numbers as they are kept

A number is kept as it is written, and an exponent has the letter `e` and a sign. What is kept is read again as it is.

* `IsKeptNumber` – the text of a number that is kept, part by part;
* `isKeptNumber_of_numberText` – what is read is kept so; `numberText_append` – and what is kept is read so, in front of
  everything that does not go on with the number (`EndsNumber`);
* `isKeptNumber_plainNumeral` – the plain form of a number is one that can be kept.
-/

namespace Codewright.Json

open Php (IsDigits IsFraction digits1_spec fractionPart_spec)

variable {cs ds rest : List Char} {text : String}

/-- A zero, or digits of which the first is none. -/
def IsWhole (cs : List Char) : Prop := cs = ['0'] ∨ IsDigits cs ∧ cs.head? ≠ some '0'

/-- The letter `e`, a sign, and digits, or nothing. -/
def IsKeptExponent (cs : List Char) : Prop :=
  cs = [] ∨ ∃ sign ds, cs = 'e' :: sign :: ds ∧ (sign = '+' ∨ sign = '-') ∧ IsDigits ds

/-- A number without its sign, as it is kept. -/
def IsKeptMagnitude (cs : List Char) : Prop :=
  ∃ whole fraction exponent, cs = whole ++ (fraction ++ exponent) ∧ IsWhole whole ∧ IsFraction fraction ∧
    IsKeptExponent exponent

/-- A number as it is kept. -/
def IsKeptNumber (text : String) : Prop := ∃ cs, IsKeptMagnitude cs ∧ (text.toList = cs ∨ text.toList = '-' :: cs)

/-! ## What is read is kept -/

theorem isWhole_of_wholePart (h : wholePart cs = some (ds, rest)) : IsWhole ds := by
  unfold wholePart at h
  split at h
  · cases h
    exact .inl rfl
  · next cs no_zero =>
    obtain ⟨rfl, digits⟩ := digits1_spec h
    refine .inr ⟨digits, fun zero => ?_⟩
    obtain ⟨ds, rfl⟩ := List.head?_eq_some_iff.1 zero
    exact no_zero _ rfl

theorem isKeptExponent_of_exponentPart (h : exponentPart cs = some (ds, rest)) : IsKeptExponent ds := by
  unfold exponentPart at h
  split at h
  · cases h
    exact .inl rfl
  · next mark cs =>
    have signs : (exponentSign cs).1 = '+' ∨ (exponentSign cs).1 = '-' := by
      unfold exponentSign
      split <;> simp
    split at h
    · obtain ⟨⟨ds, rest'⟩, digits, same⟩ := Option.map_eq_some_iff.1 h
      cases same
      exact .inr ⟨_, ds, rfl, signs, (digits1_spec digits).2⟩
    · cases h
      exact .inl rfl

theorem isKeptMagnitude_of_unsignedNumber (h : unsignedNumber cs = some (ds, rest)) : IsKeptMagnitude ds := by
  obtain ⟨⟨whole, cs₁⟩, read, h⟩ := Option.bind_eq_some_iff.1 h
  obtain ⟨⟨fraction, cs₂⟩, read', h⟩ := Option.bind_eq_some_iff.1 h
  obtain ⟨⟨exponent, cs₃⟩, read'', h⟩ := Option.bind_eq_some_iff.1 h
  cases h
  exact ⟨whole, fraction, exponent, List.append_assoc _ _ _, isWhole_of_wholePart read, (fractionPart_spec read').2,
    isKeptExponent_of_exponentPart read''⟩

theorem isKeptNumber_of_numberText (h : numberText cs = some (text, rest)) : IsKeptNumber text := by
  unfold numberText at h
  split at h
  · obtain ⟨⟨ds, rest'⟩, unsigned, same⟩ := Option.map_eq_some_iff.1 h
    cases same
    exact ⟨ds, isKeptMagnitude_of_unsignedNumber unsigned, .inr String.toList_ofList⟩
  · obtain ⟨⟨ds, rest'⟩, unsigned, same⟩ := Option.map_eq_some_iff.1 h
    cases same
    exact ⟨ds, isKeptMagnitude_of_unsignedNumber unsigned, .inl String.toList_ofList⟩

/-! ## What is kept is read -/

/-- Nothing that a number could go on with comes first. -/
def EndsNumber (rest : List Char) : Prop := ∀ c ∈ rest.head?, c.isDigit = false ∧ c ≠ '.' ∧ c ≠ 'e' ∧ c ≠ 'E'

theorem digits1_append (h : IsDigits ds) (ends : ∀ c ∈ rest.head?, c.isDigit = false) :
    digits1 (ds ++ rest) = some (ds, rest) := by
  obtain ⟨some_digit, digits⟩ := h
  have stops : rest.takeWhile Char.isDigit = [] ∧ rest.dropWhile Char.isDigit = rest := by
    cases rest with
    | nil => exact ⟨rfl, rfl⟩
    | cons c rest => simp [ends c rfl]
  rw [digits1, List.takeWhile_append_of_pos digits, List.dropWhile_append_of_pos digits, stops.1, stops.2, List.append_nil]
  simp [some_digit]

theorem wholePart_append (h : IsWhole ds) (ends : ∀ c ∈ rest.head?, c.isDigit = false) :
    wholePart (ds ++ rest) = some (ds, rest) := by
  rcases h with rfl | ⟨digits, no_zero⟩
  · rfl
  · obtain ⟨d, ds, rfl⟩ := List.exists_cons_of_ne_nil digits.1
    unfold wholePart
    split
    next zero => exact absurd (by rw [(List.cons.inj zero).1]; rfl) no_zero
    next => exact digits1_append digits ends

theorem fractionPart_append (h : IsFraction ds) (ends : ∀ c ∈ rest.head?, c.isDigit = false ∧ c ≠ '.') :
    fractionPart (ds ++ rest) = some (ds, rest) := by
  rcases h with rfl | ⟨ds, rfl, digits⟩
  · unfold fractionPart
    split
    next point => exact absurd rfl (ends '.' (by rw [← List.nil_append rest, point]; rfl)).2
    next => rfl
  · rw [List.cons_append, fractionPart, digits1_append digits fun c hc => (ends c hc).1]
    rfl

theorem exponentPart_append (h : IsKeptExponent ds) (ends : ∀ c ∈ rest.head?, c.isDigit = false ∧ c ≠ 'e' ∧ c ≠ 'E') :
    exponentPart (ds ++ rest) = some (ds, rest) := by
  rcases h with rfl | ⟨sign, ds, rfl, signs, digits⟩
  · cases rest with
    | nil => rfl
    | cons c rest =>
      obtain ⟨-, lower, upper⟩ := ends c rfl
      simp [exponentPart, lower, upper]
  · have signed : exponentSign (sign :: (ds ++ rest)) = (sign, ds ++ rest) := by
      rcases signs with rfl | rfl <;> rfl
    rw [List.cons_append, List.cons_append, exponentPart, signed]
    simp [digits1_append digits fun c hc => (ends c hc).1]

theorem unsignedNumber_append (h : IsKeptMagnitude cs) (ends : EndsNumber rest) :
    unsignedNumber (cs ++ rest) = some (cs, rest) := by
  obtain ⟨whole, fraction, exponent, rfl, is_whole, is_fraction, is_exponent⟩ := h
  have behind_fraction : ∀ c ∈ (exponent ++ rest).head?, c.isDigit = false ∧ c ≠ '.' := by
    rcases is_exponent with rfl | ⟨sign, ds, rfl, -⟩
    · exact fun c hc => ⟨(ends c hc).1, (ends c hc).2.1⟩
    · rintro c ⟨⟩
      exact ⟨rfl, by decide⟩
  have behind_whole : ∀ c ∈ (fraction ++ (exponent ++ rest)).head?, c.isDigit = false := by
    rcases is_fraction with rfl | ⟨ds, rfl, -⟩
    · exact fun c hc => (behind_fraction c hc).1
    · rintro c ⟨⟩
      rfl
  have read_whole := wholePart_append is_whole behind_whole
  have read_fraction := fractionPart_append is_fraction behind_fraction
  have read_exponent := exponentPart_append is_exponent fun c hc => ⟨(ends c hc).1, (ends c hc).2.2⟩
  simp [unsignedNumber, read_whole, read_fraction, read_exponent]

theorem IsKeptMagnitude.exists_digit (h : IsKeptMagnitude cs) : ∃ d ds, cs = d :: ds ∧ d.isDigit = true := by
  obtain ⟨whole, fraction, exponent, rfl, is_whole, -⟩ := h
  rcases is_whole with rfl | ⟨⟨some_digit, digits⟩, -⟩
  · exact ⟨'0', _, rfl, rfl⟩
  · obtain ⟨d, ds, rfl⟩ := List.exists_cons_of_ne_nil some_digit
    exact ⟨d, _, rfl, digits d List.mem_cons_self⟩

/-- What is kept is read again. -/
theorem numberText_append (h : IsKeptNumber text) (ends : EndsNumber rest) :
    numberText (text.toList ++ rest) = some (text, rest) := by
  obtain ⟨cs, kept, positive | negative⟩ := h
  · obtain ⟨d, ds, rfl, digit⟩ := kept.exists_digit
    have read := unsignedNumber_append kept ends
    unfold numberText
    split
    next minus =>
      rw [positive] at minus
      cases minus
      cases digit
    next =>
      rw [positive, read, Option.map_some, ← positive, String.ofList_toList]
  · rw [negative, List.cons_append, numberText, unsignedNumber_append kept ends, Option.map_some, ← negative,
      String.ofList_toList]

/-- A number begins with a digit or a minus. -/
theorem IsKeptNumber.exists_cons (h : IsKeptNumber text) :
    ∃ c cs, text.toList = c :: cs ∧ (c == '-' || c.isDigit) = true := by
  obtain ⟨cs, kept, positive | negative⟩ := h
  · obtain ⟨d, ds, rfl, digit⟩ := kept.exists_digit
    exact ⟨d, ds, positive, by simp [digit]⟩
  · exact ⟨'-', cs, negative, rfl⟩

/-! ## The plain form of a number -/

theorem isDigits_toDigits (n : Nat) : IsDigits (Nat.toDigits 10 n) :=
  ⟨Nat.toDigits_ne_nil, fun _ hc => Nat.isDigit_of_mem_toDigits (by decide) (by decide) hc⟩

theorem head?_append_of_isDigits (h : IsDigits ds) (rest : List Char) : (ds ++ rest).head? = ds.head? := by
  obtain ⟨d, ds, rfl⟩ := List.exists_cons_of_ne_nil h.1
  rfl

/-- The digits of a number other than zero begin with none. -/
theorem head?_toDigits {n : Nat} (pos : n ≠ 0) : (Nat.toDigits 10 n).head? ≠ some '0' := by
  induction n using Nat.strongRecOn with
  | _ n ih =>
    by_cases small : n < 10
    · rw [Nat.toDigits_of_lt_base small]
      have digit : ∀ m < 10, m ≠ 0 → [m.digitChar].head? ≠ some '0' := by decide
      exact digit n small pos
    · rw [Nat.toDigits_of_base_le (by decide) (by omega), head?_append_of_isDigits (isDigits_toDigits _)]
      exact ih (n / 10) (by omega) (by omega)

theorem digits_ne_zero_of_nearest? {d : Decimal} {b : Binary64} (near : d.nearest? = some b) : d.digits ≠ 0 := by
  intro zero
  simp [Decimal.nearest?, Binary64.nearest?, roundQuotient, zero, twoTo] at near

/-- The shortest form of a number has a digit other than zero, unless there is none. -/
theorem shortest_cases (tie : Tie) (b : Binary64) : b.shortest tie = ⟨0, 0⟩ ∨ (b.shortest tie).digits ≠ 0 := by
  have found {n : Nat} : ∀ {scale : Int} {d : Decimal}, b.shortestFrom tie scale n = some d → d.digits ≠ 0 := by
    induction n with
    | zero => nofun
    | succ n ih =>
      intro scale d h
      have h : (b.neighbour? tie scale).or (b.shortestFrom tie (scale - 1) n) = some d := by
        rw [← h, Binary64.shortestFrom, Option.orElse_eq_orElse, Option.orElse_eq_or]
      rcases Option.or_eq_some_iff.1 h with first | ⟨-, later⟩
      · unfold Binary64.neighbour? at first
        have denotes := List.find?_some first
        exact digits_ne_zero_of_nearest? (beq_iff_eq.1 denotes)
      · exact ih later
  unfold Binary64.shortest
  cases h : b.shortestFrom tie b.topScale 24 with
  | none => exact .inl rfl
  | some d => exact .inr (found h)

theorem isDigits_take {n : Nat} (h : IsDigits ds) (pos : 0 < n) : IsDigits (ds.take n) := by
  refine ⟨?_, fun d hd => h.2 d (List.mem_of_mem_take hd)⟩
  simpa [h.1] using pos.ne'

theorem isDigits_drop {n : Nat} (h : ∀ d ∈ ds, d.isDigit = true) (some_left : n < ds.length) : IsDigits (ds.drop n) := by
  refine ⟨?_, fun d hd => h d (List.mem_of_mem_drop hd)⟩
  simpa using some_left

/-- The digits in front of the last `places`, with as many zeros in front as it takes for one to be left. -/
theorem isWhole_take_padded (h : IsDigits ds) (no_zero : ds.head? ≠ some '0') (places : Nat) :
    IsWhole ((List.replicate (places + 1 - ds.length) '0' ++ ds).take (places + 1 - ds.length + ds.length - places)) := by
  by_cases long : places < ds.length
  · have none : places + 1 - ds.length = 0 := by omega
    obtain ⟨n, left⟩ : ∃ n, places + 1 - ds.length + ds.length - places = n + 1 := ⟨ds.length - places - 1, by omega⟩
    rw [left, none, List.replicate_zero, List.nil_append]
    refine .inr ⟨isDigits_take h (Nat.succ_pos n), ?_⟩
    rwa [List.head?_take, if_neg (Nat.succ_ne_zero n)]
  · obtain ⟨zeros, some⟩ : ∃ n, places + 1 - ds.length = n + 1 := ⟨places - ds.length, by omega⟩
    have one : places + 1 - ds.length + ds.length - places = 1 := by omega
    rw [one, some]
    exact .inl rfl

theorem isKeptMagnitude_positional {d : Decimal} (h : d = ⟨0, 0⟩ ∨ d.digits ≠ 0) : IsKeptMagnitude d.positional := by
  rcases h with rfl | pos
  · exact ⟨['0'], [], [], rfl, .inl rfl, .inl rfl, .inl rfl⟩
  · have all := isDigits_toDigits d.digits
    have first := head?_toDigits pos
    unfold Decimal.positional
    split_ifs
    · refine ⟨_, [], [], (List.append_nil _).symm, .inr ⟨⟨by simp [all.1], ?_⟩, ?_⟩, .inl rfl, .inl rfl⟩
      · refine List.forall_mem_append.2 ⟨all.2, fun c hc => ?_⟩
        rw [List.eq_of_mem_replicate hc]
        rfl
      · rwa [head?_append_of_isDigits all]
    · next negative =>
      have zeros (n : Nat) : ∀ c ∈ List.replicate n '0', c.isDigit = true := fun c hc => by
        rw [List.eq_of_mem_replicate hc]
        rfl
      have padded (n : Nat) := List.forall_mem_append.2 ⟨zeros n, all.2⟩
      refine ⟨_, _, [], by rw [List.append_nil], ?_, .inr ⟨_, rfl, isDigits_drop (padded _) ?_⟩, .inl rfl⟩
      · rw [List.length_append, List.length_replicate]
        exact isWhole_take_padded all first _
      · rw [List.length_append, List.length_replicate]
        omega

theorem isKeptMagnitude_scientific (d : Decimal) : IsKeptMagnitude d.scientific := by
  have all := isDigits_toDigits d.digits
  have exponent : IsKeptExponent
      ('e' :: (if d.leadingExponent < 0 then '-' else '+') :: Nat.toDigits 10 d.leadingExponent.natAbs) := by
    refine .inr ⟨_, _, rfl, ?_, isDigits_toDigits _⟩
    split <;> simp
  refine ⟨_, _, _, List.append_assoc _ _ _, ?_, ?_, exponent⟩
  · obtain ⟨c, ds, digits⟩ := List.exists_cons_of_ne_nil all.1
    rw [digits]
    by_cases zero : c = '0'
    · exact .inl (by rw [zero]; rfl)
    · refine .inr ⟨⟨by simp, fun d hd => all.2 d ?_⟩, by simpa using zero⟩
      rw [digits]
      exact List.mem_of_mem_take hd
  · split
    · exact .inl rfl
    · exact .inr ⟨_, rfl, isDigits_drop all.2 (by omega)⟩

theorem isKeptMagnitude_plainMagnitude (bound : Nat) (h : IsKeptMagnitude cs) : IsKeptMagnitude (plainMagnitude bound cs) := by
  unfold plainMagnitude
  split
  · exact h
  · split
    next b _ =>
      split
      · unfold writtenMagnitude
        dsimp only
        split
        · exact isKeptMagnitude_positional (shortest_cases .toEven b)
        · exact isKeptMagnitude_scientific _
      · exact h
    next => exact h

/-- The plain form of a number is one that can be kept. -/
theorem isKeptNumber_plainNumeral (h : IsKeptNumber text) : IsKeptNumber (plainNumeral text) := by
  obtain ⟨cs, kept, is_text⟩ := h
  unfold plainNumeral
  split
  next => exact ⟨['0'], ⟨['0'], [], [], rfl, .inl rfl, .inl rfl, .inl rfl⟩, .inl (by simp)⟩
  next cs' _ minus =>
    rcases is_text with rfl | negative
    · obtain ⟨d, ds, start, digit⟩ := kept.exists_digit
      rw [minus] at start
      cases start
      cases digit
    · obtain rfl : cs' = cs := by
        rw [minus] at negative
        exact (List.cons.inj negative).2
      exact ⟨_, isKeptMagnitude_plainMagnitude _ kept, .inr String.toList_ofList⟩
  next no_minus =>
    rcases is_text with rfl | negative
    · exact ⟨_, isKeptMagnitude_plainMagnitude _ kept, .inl String.toList_ofList⟩
    · exact absurd negative (no_minus cs)

end Codewright.Json
