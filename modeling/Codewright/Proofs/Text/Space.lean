import Mathlib.Data.List.Basic
import Codewright.Text.Mask

/-!
# White space that does not matter

* `Trimmed p lead body tail` – a middle part whose ends do not satisfy `p`, between parts that satisfy it throughout;
  trimming finds the middle part (`Trimmed.dropWhile`, `Trimmed.dropWhileEnd`, `exists_trimmed`);
* `Respace p s t` – one run of members that satisfy `p` stands in the place of another; `Respace.cases_append_cons` says
  where it stands when the list is put together;
* `words_append`, `words_trim`, `Respace.words` – the words of a text do not depend on the white space between and around
  them.
-/

namespace Codewright.Text

variable {α : Type} {p : α → Bool} {d : α} {s t a b w lead body tail : List α}

/-! ## Ends -/

theorem dropWhileEnd_of_all (h : ∀ c ∈ s, p c = true) : dropWhileEnd p s = [] := by
  induction s with
  | nil => rfl
  | cons c s ih =>
    rw [List.forall_mem_cons] at h
    change (if (dropWhileEnd p s).isEmpty && p c then [] else c :: dropWhileEnd p s) = []
    rw [ih h.2, h.1]
    rfl

theorem dropWhile_of_all (h : ∀ c ∈ s, p c = true) : s.dropWhile p = [] := by
  induction s with
  | nil => rfl
  | cons c s ih =>
    rw [List.forall_mem_cons] at h
    rw [List.dropWhile_cons_of_pos h.1, ih h.2]

/-- Nothing in front of a member that stays is dropped. -/
theorem dropWhileEnd_append_cons (hd : p d = false) : dropWhileEnd p (a ++ d :: b) = a ++ d :: dropWhileEnd p b := by
  induction a with
  | nil =>
    change (if (dropWhileEnd p b).isEmpty && p d then [] else d :: dropWhileEnd p b) = d :: dropWhileEnd p b
    simp [hd]
  | cons c a ih =>
    change (if (dropWhileEnd p (a ++ d :: b)).isEmpty && p c then [] else c :: dropWhileEnd p (a ++ d :: b)) = _
    simp [ih]

/-- A part whose ends do not satisfy `p`, between parts that satisfy it throughout. -/
structure Trimmed (p : α → Bool) (lead body tail : List α) : Prop where
  lead : ∀ c ∈ lead, p c = true
  first : ∃ c ∈ body.head?, p c = false
  last : ∃ c ∈ body.getLast?, p c = false
  tail : ∀ c ∈ tail, p c = true

namespace Trimmed

theorem ne_nil (h : Trimmed p lead body tail) : body ≠ [] := by
  obtain ⟨c, first, -⟩ := h.first
  rintro rfl
  cases first

theorem takeWhile (h : Trimmed p lead body tail) : (lead ++ body ++ tail).takeWhile p = lead := by
  obtain ⟨c, first, stays⟩ := h.first
  obtain ⟨more, rfl⟩ := List.head?_eq_some_iff.1 first
  rw [List.append_assoc, List.takeWhile_append_of_pos h.lead, List.cons_append, List.takeWhile_cons_of_neg (by simp [stays]),
    List.append_nil]

theorem dropWhile (h : Trimmed p lead body tail) : (lead ++ body ++ tail).dropWhile p = body ++ tail := by
  obtain ⟨c, first, stays⟩ := h.first
  obtain ⟨more, rfl⟩ := List.head?_eq_some_iff.1 first
  rw [List.append_assoc, List.dropWhile_append_of_pos h.lead, List.cons_append, List.dropWhile_cons_of_neg (by simp [stays])]

theorem dropWhileEnd (h : Trimmed p lead body tail) : dropWhileEnd p (body ++ tail) = body := by
  obtain ⟨c, last, stays⟩ := h.last
  obtain ⟨before, rfl⟩ := List.getLast?_eq_some_iff.1 last
  rw [List.append_assoc, List.singleton_append, dropWhileEnd_append_cons stays, dropWhileEnd_of_all h.tail]

/-- More may stand in front. -/
theorem append_left (h : Trimmed p lead body tail) (more : ∀ c ∈ a, p c = true) : Trimmed p (a ++ lead) body tail :=
  { h with lead := fun c hc => (List.mem_append.1 hc).elim (more c) (h.lead c) }

/-- More may stand behind. -/
theorem append_right (h : Trimmed p lead body tail) (more : ∀ c ∈ b, p c = true) : Trimmed p lead body (tail ++ b) :=
  { h with tail := fun c hc => (List.mem_append.1 hc).elim (h.tail c) (more c) }

/-- From the first end of one part to the last end of another. -/
theorem join {lead' body' tail' : List α} (h : Trimmed p lead body tail) (h' : Trimmed p lead' body' tail')
    (between : List α) : Trimmed p lead (body ++ (between ++ body')) tail' := by
  obtain ⟨c, first, stays⟩ := h.first
  obtain ⟨d, last, stays'⟩ := h'.last
  refine ⟨h.lead, ⟨c, ?_, stays⟩, ⟨d, ?_, stays'⟩, h'.tail⟩
  · simp [Option.mem_def.1 first]
  · simp [Option.mem_def.1 last]

end Trimmed

/-- The first member that does not satisfy `p`. -/
theorem exists_first (h : ∃ c ∈ s, p c = false) : ∃ a d b, s = a ++ d :: b ∧ (∀ c ∈ a, p c = true) ∧ p d = false := by
  induction s with
  | nil => simp at h
  | cons c s ih =>
    cases hc : p c with
    | false => exact ⟨[], c, s, rfl, by simp, hc⟩
    | true =>
      obtain ⟨a, d, b, rfl, ha, hd⟩ := ih (by simpa [hc] using h)
      exact ⟨c :: a, d, b, rfl, by simpa [hc] using ha, hd⟩

/-- The last member that does not satisfy `p`. -/
theorem exists_last (h : ∃ c ∈ s, p c = false) : ∃ a d b, s = a ++ d :: b ∧ p d = false ∧ ∀ c ∈ b, p c = true := by
  induction s with
  | nil => simp at h
  | cons c s ih =>
    by_cases more : ∃ c ∈ s, p c = false
    · obtain ⟨a, d, b, rfl, hd, hb⟩ := ih more
      exact ⟨c :: a, d, b, rfl, hd, hb⟩
    · have here : p c = false := by simpa [more] using h
      exact ⟨[], c, s, rfl, here, by simpa using more⟩

/-- A list satisfies `p` throughout, or has a first and a last member that do not. -/
theorem exists_trimmed (p : α → Bool) (s : List α) :
    (∀ c ∈ s, p c = true) ∨ ∃ lead body tail, s = lead ++ body ++ tail ∧ Trimmed p lead body tail := by
  by_cases some_stays : ∃ c ∈ s, p c = false
  · right
    obtain ⟨lead, d, rest, rfl, blank, first⟩ := exists_first some_stays
    obtain ⟨more, e, tail, cut, last, blank'⟩ := exists_last (s := d :: rest) ⟨d, by simp, first⟩
    have head : (more ++ [e]).head? = some d := by
      have := congrArg List.head? cut
      cases more <;> simpa using this.symm
    exact ⟨lead, more ++ [e], tail, by rw [cut]; simp, blank, ⟨d, head, first⟩, ⟨e, by simp, last⟩, blank'⟩
  · exact .inl (by simpa using some_stays)

/-- What is dropped at the end. -/
theorem exists_dropped (p : α → Bool) (s : List α) : ∃ tail, s = dropWhileEnd p s ++ tail ∧ ∀ c ∈ tail, p c = true := by
  by_cases some_stays : ∃ c ∈ s, p c = false
  · obtain ⟨a, d, tail, rfl, hd, blank⟩ := exists_last some_stays
    exact ⟨tail, by rw [dropWhileEnd_append_cons hd, dropWhileEnd_of_all blank]; simp, blank⟩
  · have blank : ∀ c ∈ s, p c = true := by simpa using some_stays
    exact ⟨s, by rw [dropWhileEnd_of_all blank, List.nil_append], blank⟩

/-! ## Runs -/

/-- One run of members that satisfy `p` stands in the place of another. -/
inductive Respace (p : α → Bool) : List α → List α → Prop
  | mk {a b w w' : List α} (blank : ∀ c ∈ w, p c = true) (blank' : ∀ c ∈ w', p c = true) (some_blank : w ≠ [])
      (some_blank' : w' ≠ []) : Respace p (a ++ (w ++ b)) (a ++ (w' ++ b))

namespace Respace

theorem append_left (h : Respace p s t) (more : List α) : Respace p (more ++ s) (more ++ t) := by
  obtain @⟨front, back, w, w', blank, blank', some_blank, some_blank'⟩ := h
  rw [← List.append_assoc more, ← List.append_assoc more]
  exact .mk blank blank' some_blank some_blank'

theorem append_right (h : Respace p s t) (more : List α) : Respace p (s ++ more) (t ++ more) := by
  obtain ⟨blank, blank', some_blank, some_blank'⟩ := h
  simp only [List.append_assoc]
  exact .mk blank blank' some_blank some_blank'

theorem ne_nil (h : Respace p s t) : s ≠ [] := by
  obtain ⟨-, -, some_blank, -⟩ := h
  simp [some_blank]

theorem ne_nil' (h : Respace p s t) : t ≠ [] := by
  obtain ⟨-, -, -, some_blank'⟩ := h
  simp [some_blank']

/-- The run stands in front of a member that does not satisfy `p`, or behind it. -/
theorem cases_append_cons (h : Respace p (a ++ d :: b) t) (hd : p d = false) :
    (∃ a', t = a' ++ d :: b ∧ Respace p a a') ∨ ∃ b', t = a ++ d :: b' ∧ Respace p b b' := by
  generalize whole : a ++ d :: b = s at h
  obtain @⟨front, back, w, w', blank, blank', some_blank, some_blank'⟩ := h
  rcases List.append_eq_append_iff.1 whole with ⟨more, rfl, rest⟩ | ⟨more, rfl, rest⟩
  · cases more with
    | nil =>
      -- The run would begin with the member.
      obtain ⟨c, w, rfl⟩ := List.exists_cons_of_ne_nil some_blank
      cases rest
      rw [List.forall_mem_cons, hd] at blank
      cases blank.1
    | cons c more =>
      cases rest
      exact .inr ⟨more ++ (w' ++ back), by simp, .mk blank blank' some_blank some_blank'⟩
  · rcases List.append_eq_append_iff.1 rest with ⟨last, rfl, rest'⟩ | ⟨last, rfl, rest'⟩
    · refine .inl ⟨front ++ (w' ++ last), by simp [rest'], .mk blank blank' some_blank some_blank'⟩
    · cases last with
      | nil =>
        obtain rfl : d :: b = back := rest'
        refine .inl ⟨front ++ (w' ++ []), by simp, ?_⟩
        rw [List.append_nil] at blank some_blank
        have := Respace.mk (a := front) (b := []) blank blank' some_blank some_blank'
        rwa [List.append_nil] at this
      | cons c last =>
        cases rest'
        have := blank d (by simp)
        rw [hd] at this
        cases this

theorem mem_iff (h : Respace p s t) (hd : p d = false) : d ∈ t ↔ d ∈ s := by
  obtain ⟨blank, blank', -, -⟩ := h
  have out {w : List α} (blank : ∀ c ∈ w, p c = true) : d ∉ w := by
    intro hw
    have := blank d hw
    rw [hd] at this
    cases this
  simp [out blank, out blank']

/-- A first member that does not satisfy `p` stays the first one. -/
theorem head?_eq (h : Respace p s t) (first : ∃ c ∈ s.head?, p c = false) : t.head? = s.head? := by
  obtain ⟨c, first, stays⟩ := first
  obtain ⟨more, rfl⟩ := List.head?_eq_some_iff.1 first
  rcases (show Respace p ([] ++ c :: more) t from h).cases_append_cons stays with ⟨a', rfl, none⟩ | ⟨b', rfl, -⟩
  · exact absurd rfl none.ne_nil
  · rfl

end Respace

/-! ## Words -/

/-- The codes of the letters and digits of ASCII. -/
theorem toNat_of_isAlphanum {c : Char} (h : c.isAlphanum = true) :
    ((65 ≤ c.toNat ∧ c.toNat ≤ 90) ∨ (97 ≤ c.toNat ∧ c.toNat ≤ 122)) ∨ (48 ≤ c.toNat ∧ c.toNat ≤ 57) := by
  have upper : c.isUpper = decide (c.val ≥ 'A'.val ∧ c.val ≤ 'Z'.val) := rfl
  have lower : c.isLower = (decide (c.val ≥ 'a'.val) && decide (c.val ≤ 'z'.val)) := rfl
  have digit : c.isDigit = (decide (c.val ≥ '0'.val) && decide (c.val ≤ '9'.val)) := rfl
  rw [show c.isAlphanum = ((c.isUpper || c.isLower) || c.isDigit) from rfl, upper, lower, digit] at h
  simpa [UInt32.le_iff_toNat_le] using h

/-- Letters and digits of ASCII are no white space. -/
theorem isSpace_of_isAlphanum {c : Char} (h : c.isAlphanum = true) : isSpace c = false := by
  have codes := toNat_of_isAlphanum h
  simp only [isSpace, Bool.or_eq_false_iff, Bool.and_eq_false_iff, decide_eq_false_iff_not, beq_eq_false_iff_ne]
  omega

theorem isSpace_of_isPlainWord {c : Char} (h : isPlainWord c = true) : isSpace c = false := by
  have cases : (c.isAlphanum = true ∨ c = '_') ∨ c = '$' := by simpa [isPlainWord] using h
  rcases cases with (letter | rfl) | rfl
  · exact isSpace_of_isAlphanum letter
  all_goals rfl

theorem isSpace_of_isAsciiSpace {c : Char} (space : isAsciiSpace c = true) : isSpace c = true := by
  have : (((c = ' ' ∨ c = '\t') ∨ c = '\n') ∨ c = '\x0c') ∨ c = '\x0d' := by simpa [isAsciiSpace] using space
  rcases this with (((rfl | rfl) | rfl) | rfl) | rfl <;> rfl

theorem wordsStep_space {c : Char} (blank : isSpace c = true) (r : Bool × List (List Char)) :
    wordsStep c r = (false, r.2) := by
  obtain ⟨growing, ws⟩ := r
  exact if_pos blank

theorem wordsStep_letter {c : Char} (letter : isSpace c = false) (growing : Bool) (ws : List (List Char)) :
    wordsStep c (growing, ws) =
      match growing, ws with
      | true, w :: ws => (true, (c :: w) :: ws)
      | _, ws => (true, [c] :: ws) :=
  if_neg (by rw [letter]; exact Bool.false_ne_true)

/-- Words in front of white space, or at the end. -/
theorem foldr_wordsStep (s : List Char) (ws : List (List Char)) :
    s.foldr wordsStep (false, ws) =
      ((s.foldr wordsStep (false, [])).1, (s.foldr wordsStep (false, [])).2 ++ ws) ∧
    ((s.foldr wordsStep (false, [])).1 = true → (s.foldr wordsStep (false, [])).2 ≠ []) := by
  induction s with
  | nil => exact ⟨rfl, by simp⟩
  | cons c s ih =>
    obtain ⟨same, grows⟩ := ih
    rw [List.foldr_cons, List.foldr_cons, same]
    generalize s.foldr wordsStep (false, []) = r at grows
    obtain ⟨growing, vs⟩ := r
    cases blank : isSpace c with
    | true => simp [wordsStep_space blank]
    | false =>
      rw [wordsStep_letter blank, wordsStep_letter blank]
      cases growing with
      | false => simp
      | true =>
        cases vs with
        | nil => exact absurd rfl (grows rfl)
        | cons v vs => simp

theorem foldr_wordsStep_space {w : List Char} (blank : ∀ c ∈ w, isSpace c = true) (some_blank : w ≠ [])
    (r : Bool × List (List Char)) : w.foldr wordsStep r = (false, r.2) := by
  induction w with
  | nil => exact absurd rfl some_blank
  | cons c w ih =>
    rw [List.forall_mem_cons] at blank
    rw [List.foldr_cons, wordsStep_space blank.1]
    cases w with
    | nil => rfl
    | cons c' w => rw [ih blank.2 (by simp)]

/-- The words on both sides of some white space. -/
theorem words_append {a w b : List Char} (blank : ∀ c ∈ w, isSpace c = true) (some_blank : w ≠ []) :
    words (a ++ (w ++ b)) = words a ++ words b := by
  unfold words
  rw [List.foldr_append, List.foldr_append, foldr_wordsStep_space blank some_blank, (foldr_wordsStep a _).1]

theorem words_space_append {w b : List Char} (blank : ∀ c ∈ w, isSpace c = true) : words (w ++ b) = words b := by
  by_cases some_blank : w = []
  · rw [some_blank, List.nil_append]
  · rw [← List.nil_append (w ++ b), words_append blank some_blank]
    rfl

theorem words_append_space {a w : List Char} (blank : ∀ c ∈ w, isSpace c = true) : words (a ++ w) = words a := by
  by_cases some_blank : w = []
  · rw [some_blank, List.append_nil]
  · rw [← List.append_nil w, words_append blank some_blank]
    exact List.append_nil _

theorem words_of_space {w : List Char} (blank : ∀ c ∈ w, isSpace c = true) : words w = [] := by
  rw [← List.nil_append w, words_append_space blank]
  rfl

theorem trim_of_space {s : List Char} (blank : ∀ c ∈ s, isSpace c = true) : trim s = [] := by
  rw [trim, trimStart, dropWhile_of_all blank]
  rfl

theorem Trimmed.trim {lead body tail : List Char} (h : Trimmed isSpace lead body tail) : trim (lead ++ body ++ tail) = body := by
  rw [Text.trim, trimStart, h.dropWhile, trimEnd, h.dropWhileEnd]

theorem trim_of_no_space {s : List Char} (letters : ∀ c ∈ s, isSpace c = false) : trim s = s := by
  by_cases some_char : s = []
  · rw [some_char]
    rfl
  · have whole : Trimmed isSpace [] s [] := by
      refine ⟨by simp, ⟨s.head some_char, List.head?_eq_some_head some_char, letters _ (List.head_mem _)⟩,
        ⟨s.getLast some_char, List.getLast?_eq_some_getLast some_char, letters _ (List.getLast_mem _)⟩, by simp⟩
    simpa using whole.trim

theorem trim_space_append {w s : List Char} (blank : ∀ c ∈ w, isSpace c = true) : trim (w ++ s) = trim s := by
  rw [trim, trimStart, List.dropWhile_append_of_pos blank, trim, trimStart]

theorem trim_append_space {t w : List Char} (space : ∀ c ∈ w, isSpace c = true) : trim (t ++ w) = trim t := by
  rcases exists_trimmed isSpace t with blank | ⟨lead, body, tail, rfl, h⟩
  · rw [trim_of_space blank, trim_of_space (List.forall_mem_append.2 ⟨blank, space⟩)]
  · rw [List.append_assoc, (h.append_right space).trim, h.trim]

theorem trim_trim (s : List Char) : trim (trim s) = trim s := by
  rcases exists_trimmed isSpace s with blank | ⟨lead, body, tail, rfl, h⟩
  · rw [trim_of_space blank]
    rfl
  · have alone : Trimmed isSpace [] body [] := { h with lead := by simp, tail := by simp }
    rw [h.trim]
    simpa using alone.trim

theorem mem_trim_iff {s : List Char} {c : Char} (letter : isSpace c = false) : c ∈ trim s ↔ c ∈ s := by
  have out {w : List Char} (blank : ∀ c ∈ w, isSpace c = true) : c ∉ w := by
    intro hw
    have := blank c hw
    rw [letter] at this
    cases this
  rcases exists_trimmed isSpace s with blank | ⟨lead, body, tail, rfl, h⟩
  · rw [trim_of_space blank]
    simp [out blank]
  · rw [h.trim]
    simp [out h.lead, out h.tail]

theorem words_trim (s : List Char) : words (trim s) = words s := by
  rcases exists_trimmed isSpace s with blank | ⟨lead, body, tail, rfl, h⟩
  · rw [words_of_space blank, trim_of_space blank]
    rfl
  · rw [h.trim, words_append_space h.tail, words_space_append h.lead]

theorem Respace.words {s t : List Char} (h : Respace isSpace s t) : words s = words t := by
  obtain ⟨blank, blank', some_blank, some_blank'⟩ := h
  rw [words_append blank some_blank, words_append blank' some_blank']

/-- The words in front of the first place of a character. -/
theorem Respace.words_takeWhile {s t : List Char} {d : Char} (h : Respace isSpace s t) (letter : isSpace d = false)
    (found : d ∈ s) : Text.words (t.takeWhile (· != d)) = Text.words (s.takeWhile (· != d)) := by
  obtain ⟨a, b, rfl, first⟩ := List.eq_append_cons_of_mem found
  have up_to {a : List Char} (first : d ∉ a) (b : List Char) : (a ++ d :: b).takeWhile (· != d) = a := by
    rw [List.takeWhile_append_of_pos fun c hc => by simpa using ne_of_mem_of_not_mem hc first]
    simp
  rcases h.cases_append_cons letter with ⟨a', rfl, h'⟩ | ⟨b', rfl, -⟩
  · rw [up_to first, up_to (fun hd => first ((h'.mem_iff letter).1 hd)), h'.words]
  · rw [up_to first, up_to first]

theorem collapseSpace_congr {s t : List Char} (h : words s = words t) :
    collapseSpace (String.ofList s) = collapseSpace (String.ofList t) := by
  rw [collapseSpace, collapseSpace, String.toList_ofList, String.toList_ofList, h]

/-! ## Collapsed text -/

/-- Words are made of the other characters of a text. -/
theorem mem_words {s w : List Char} (hw : w ∈ words s) : w ≠ [] ∧ ∀ c ∈ w, c ∈ s ∧ isSpace c = false := by
  unfold words at hw
  induction s generalizing w with
  | nil => cases hw
  | cons c s ih =>
    have further {w : List Char} (h : w ≠ [] ∧ ∀ d ∈ w, d ∈ s ∧ isSpace d = false) :
        w ≠ [] ∧ ∀ d ∈ w, d ∈ c :: s ∧ isSpace d = false :=
      ⟨h.1, fun d hd => ⟨List.mem_cons_of_mem c (h.2 d hd).1, (h.2 d hd).2⟩⟩
    rw [List.foldr_cons] at hw
    generalize s.foldr wordsStep (false, []) = r at hw ih
    obtain ⟨growing, ws⟩ := r
    cases letter : isSpace c with
    | true =>
      rw [wordsStep_space letter] at hw
      exact further (ih hw)
    | false =>
      rw [wordsStep_letter letter] at hw
      have single : [c] ≠ [] ∧ ∀ d ∈ [c], d ∈ c :: s ∧ isSpace d = false := by simp [letter]
      split at hw
      next v vs =>
        rcases List.mem_cons.1 hw with rfl | hw
        · refine ⟨by simp, List.forall_mem_cons.2 ⟨⟨List.mem_cons_self, letter⟩, ?_⟩⟩
          exact (further (ih List.mem_cons_self)).2
        · exact further (ih (List.mem_cons_of_mem v hw))
      next =>
        rcases List.mem_cons.1 hw with rfl | hw
        · exact single
        · exact further (ih hw)

theorem toList_collapseSpace (s : String) : (collapseSpace s).toList = [' '].intercalate (words s.toList) := by
  have same : (words s.toList).map (String.toList ∘ String.ofList) = words s.toList := by
    simp [Function.comp_def]
  rw [collapseSpace, String.toList_intercalate, List.map_map, same]
  rfl

theorem mem_intercalate {c : α} {sep : List α} {ls : List (List α)} (hc : c ∈ sep.intercalate ls) :
    c ∈ sep ∨ ∃ l ∈ ls, c ∈ l := by
  induction ls with
  | nil => simp [List.intercalate] at hc
  | cons l ls ih =>
    cases ls with
    | nil => exact .inr ⟨l, by simp, by simpa [List.intercalate] using hc⟩
    | cons l' ls =>
      rw [List.intercalate_cons_cons, List.mem_append, List.mem_append] at hc
      rcases hc with (hc | hc) | hc
      · exact .inr ⟨l, by simp, hc⟩
      · exact .inl hc
      · exact (ih hc).imp_right fun ⟨m, hm, hc⟩ => ⟨m, List.mem_cons_of_mem l hm, hc⟩

theorem mem_collapseSpace {s : String} {c : Char} (hc : c ∈ (collapseSpace s).toList) : c = ' ' ∨ c ∈ s.toList := by
  rw [toList_collapseSpace] at hc
  rcases mem_intercalate hc with space | ⟨w, hw, hc⟩
  · exact .inl (by simpa using space)
  · exact .inr ((mem_words hw).2 c hc).1

/-- A collapsed text has no white space at its ends. -/
theorem trim_collapseSpace (s : String) : trim (collapseSpace s).toList = (collapseSpace s).toList := by
  rw [toList_collapseSpace]
  have word (w : List Char) (hw : w ∈ words s.toList) : Trimmed isSpace [] w [] := by
    obtain ⟨some_char, letters⟩ := mem_words hw
    obtain ⟨c, more, rfl⟩ := List.exists_cons_of_ne_nil some_char
    exact ⟨by simp, ⟨c, rfl, (letters c List.mem_cons_self).2⟩,
      ⟨_, List.getLast?_eq_some_getLast some_char, (letters _ (List.getLast_mem _)).2⟩, by simp⟩
  generalize words s.toList = ws at word
  have whole (some_word : ws ≠ []) : Trimmed isSpace [] ([' '].intercalate ws) [] := by
    induction ws with
    | nil => exact absurd rfl some_word
    | cons w ws ih =>
      rw [List.forall_mem_cons] at word
      cases ws with
      | nil => simpa [List.intercalate] using word.1
      | cons v ws =>
        rw [List.intercalate_cons_cons, List.append_assoc]
        exact word.1.join (ih word.2 (by simp)) [' ']
  by_cases some_word : ws = []
  · rw [some_word]
    rfl
  · simpa using (whole some_word).trim

/-! ## Text around words -/

theorem words_of_no_space {s : List Char} (some_char : s ≠ []) (letters : ∀ c ∈ s, isSpace c = false) : words s = [s] := by
  have grows (s : List Char) (letters : ∀ c ∈ s, isSpace c = false) (some_char : s ≠ []) :
      s.foldr wordsStep (false, []) = (true, [s]) := by
    induction s with
    | nil => exact absurd rfl some_char
    | cons c s ih =>
      rw [List.forall_mem_cons] at letters
      rw [List.foldr_cons]
      cases s with
      | nil => exact wordsStep_letter letters.1 false []
      | cons d s => rw [ih letters.2 (by simp), wordsStep_letter letters.1]
  rw [words, grows s letters some_char]

theorem words_ne_nil {s : List Char} (letter : ∃ c ∈ s, isSpace c = false) : words s ≠ [] := by
  obtain ⟨a, c, b, rfl, blank, letter⟩ := exists_first letter
  rw [words_space_append blank, words, List.foldr_cons, wordsStep_letter letter]
  split <;> simp

/-- A trimmed text is one word, or begins with a word and white space in front of a trimmed text. -/
theorem Trimmed.cases_word {t : List Char} (h : Trimmed isSpace [] t []) : (∀ c ∈ t, isSpace c = false) ∨
    ∃ a w b, t = a ++ (w ++ b) ∧ a ≠ [] ∧ (∀ c ∈ a, isSpace c = false) ∧ w ≠ [] ∧ (∀ c ∈ w, isSpace c = true) ∧
      Trimmed isSpace [] b [] := by
  by_cases space : ∃ c ∈ t, isSpace c = true
  · obtain ⟨a, d, b, rfl, letters, blank⟩ := exists_first (p := fun c => !isSpace c) (by simpa using space)
    have letters : ∀ c ∈ a, isSpace c = false := fun c hc => by simpa using letters c hc
    have blank : isSpace d = true := by simpa using blank
    obtain ⟨c, first, letter⟩ := h.first
    have some_char : a ≠ [] := by
      rintro rfl
      obtain rfl : d = c := by simpa using first
      rw [blank] at letter
      cases letter
    obtain ⟨e, last, letter'⟩ := h.last
    obtain ⟨before, cut⟩ := List.getLast?_eq_some_iff.1 last
    -- The last letter stands behind the white space.
    have stays : ∃ c ∈ b, isSpace c = false := by
      rcases List.eq_nil_or_concat b with rfl | ⟨b, f, rfl⟩
      · obtain ⟨-, one⟩ := List.append_inj' cut rfl
        rw [List.cons_eq_cons.1 one |>.1, letter'] at blank
        cases blank
      · rw [List.concat_eq_append, ← List.cons_append, ← List.append_assoc] at cut
        obtain ⟨-, one⟩ := List.append_inj' cut rfl
        exact ⟨f, by simp, by rw [List.cons_eq_cons.1 one |>.1, letter']⟩
    obtain ⟨lead, f, rest, rfl, blank', letter''⟩ := exists_first stays
    refine .inr ⟨a, d :: lead, f :: rest, by simp, some_char, letters, by simp, List.forall_mem_cons.2 ⟨blank, blank'⟩, ?_⟩
    refine ⟨by simp, ⟨f, rfl, letter''⟩, ⟨e, ?_, letter'⟩, by simp⟩
    rw [← List.cons_append, ← List.append_assoc, List.getLast?_append, Option.or_of_isSome (by simp)] at last
    exact last
  · exact .inl (by simpa using space)

/-- Letters in front of a trimmed text and behind it stay there when its white space is collapsed. -/
theorem intercalate_words_around {p q t : List Char} (front : ∀ c ∈ p, isSpace c = false) (back : ∀ c ∈ q, isSpace c = false)
    (trimmed : Trimmed isSpace [] t []) :
    [' '].intercalate (words (p ++ (t ++ q))) = p ++ ([' '].intercalate (words t) ++ q) := by
  induction size : t.length using Nat.strongRecOn generalizing p t with
  | _ size ih =>
    subst size
    rcases trimmed.cases_word with letters | ⟨a, w, b, rfl, some_char, letters, some_blank, blank, trimmed'⟩
    · have some_char : t ≠ [] := trimmed.ne_nil
      have whole : ∀ c ∈ p ++ (t ++ q), isSpace c = false :=
        List.forall_mem_append.2 ⟨front, List.forall_mem_append.2 ⟨letters, back⟩⟩
      rw [words_of_no_space (by simp [some_char]) whole, words_of_no_space some_char letters]
      simp [List.intercalate]
    · have size : b.length < (a ++ (w ++ b)).length := by
        have := List.length_pos_of_ne_nil some_char
        simp
        omega
      have behind := ih b.length size (p := []) (by simp) trimmed' rfl
      obtain ⟨f, first, letter⟩ := trimmed'.first
      have here : f ∈ b := List.mem_of_head? first
      obtain ⟨v, vs, word⟩ := List.exists_cons_of_ne_nil (words_ne_nil ⟨f, here, letter⟩)
      obtain ⟨v', vs', word'⟩ := List.exists_cons_of_ne_nil (words_ne_nil ⟨f, List.mem_append_left q here, letter⟩)
      have whole : p ++ ((a ++ (w ++ b)) ++ q) = (p ++ a) ++ (w ++ (b ++ q)) := by simp
      rw [List.nil_append, List.nil_append, word, word'] at behind
      rw [whole, words_append blank some_blank, words_append blank some_blank, word, word',
        words_of_no_space (by simp [some_char]) (List.forall_mem_append.2 ⟨front, letters⟩),
        words_of_no_space some_char letters, List.singleton_append, List.singleton_append,
        List.intercalate_cons_cons, List.intercalate_cons_cons, behind]
      simp

end Codewright.Text
