import Mathlib.Data.Finset.Card
import Codewright.Proofs.Text.Bracket
import Codewright.Proofs.Text.Bytes
import Codewright.Proofs.Text.Splice

/-!
# Brackets that nest

Three questions are asked about the brackets of a text: whether they nest, where a brace is closed, and how many braces are open in
front of a place. Where they nest, the answers fit together.

* `IsDyck word` – a word of brackets that nest; `isDyck_brackets_iff`: the brackets of a text are one if and only if they nest;
* `balanced_induction` – a text whose brackets nest is made of characters that are none, and of pairs;
* `Encloses text i j` – the brace at one place is closed at the other; such pairs are nested or disjoint (`Encloses.cases_lt`);
* `bracesAround text place` – the braces that are open in front of a place; their number is the depth there (`card_bracesAround`);
* `byteChars text` – the bytes of a text, among which the same brackets are found;
* `brackets_agree` – what the three answers say about each other.
-/

namespace Codewright.Text

variable {text word front inner rest stack : List Char} {opener closer c : Char} {i j i' j' place : Nat}

/-! ## Words of brackets -/

/-- The brackets, each with the one that closes it. -/
def bracketPairs : List (Char × Char) := [('(', ')'), ('[', ']'), ('\x7b', '\x7d')]

/-- A word of brackets that nest: none, or a pair with such words between its brackets and behind it. -/
inductive IsDyck : List Char → Prop
  | nil : IsDyck []
  | pair {opener closer : Char} {inner rest : List Char} (pair : (opener, closer) ∈ bracketPairs) (inside : IsDyck inner)
    (behind : IsDyck rest) : IsDyck (opener :: (inner ++ closer :: rest))

theorem mem_bracketPairs_iff : (opener, closer) ∈ bracketPairs ↔ openerOf? closer = some opener := by
  unfold openerOf?
  split <;> simp_all [bracketPairs, eq_comm]

/-- The brackets of a pair. -/
theorem pair_cases (pair : (opener, closer) ∈ bracketPairs) :
    opener = '(' ∧ closer = ')' ∨ opener = '[' ∧ closer = ']' ∨ opener = '\x7b' ∧ closer = '\x7d' := by
  simpa [bracketPairs] using pair

theorem length_pair (opener : Char) (inner : List Char) (closer : Char) (rest : List Char) :
    (opener :: (inner ++ closer :: rest)).length = rest.length + 1 + inner.length + 1 := by
  simp only [List.length_cons, List.length_append]
  omega

theorem isOpener_of_pair (pair : (opener, closer) ∈ bracketPairs) : isOpener opener = true ∧ isOpener closer = false := by
  rcases pair_cases pair with ⟨rfl, rfl⟩ | ⟨rfl, rfl⟩ | ⟨rfl, rfl⟩ <;> exact ⟨rfl, rfl⟩

theorem isBracket_of_pair (pair : (opener, closer) ∈ bracketPairs) : isBracket opener = true ∧ isBracket closer = true := by
  rcases pair_cases pair with ⟨rfl, rfl⟩ | ⟨rfl, rfl⟩ | ⟨rfl, rfl⟩ <;> exact ⟨rfl, rfl⟩

/-- A character opens a bracket, or closes one, or is none. -/
theorem bracket_cases (c : Char) : isOpener c = true ∨ (∃ opener, (opener, c) ∈ bracketPairs) ∨ isBracket c = false := by
  by_cases opens : isOpener c = true
  · exact .inl opens
  · cases closes : openerOf? c with
    | some opener => exact .inr (.inl ⟨opener, mem_bracketPairs_iff.2 closes⟩)
    | none => exact .inr (.inr (by simp [isBracket, opens, closes]))

/-- The brackets are six characters. -/
theorem isBracket_eq_contains : isBracket = "()[]\x7b\x7d".toList.contains := by
  funext c
  unfold isBracket isOpener openerOf?
  rw [Bool.eq_iff_iff, List.contains_iff_mem]
  split <;> simp_all [or_assoc]

theorem ne_of_not_isBracket (plain : isBracket c = false) {d : Char} (bracket : isBracket d = true) : c ≠ d := by
  rintro rfl
  rw [plain] at bracket
  cases bracket

/-! ## Reading brackets -/

theorem balancedFrom_opener (opens : isOpener opener = true) (stack text : List Char) :
    bracketsBalancedFrom stack (opener :: text) = bracketsBalancedFrom (opener :: stack) text := by
  rw [bracketsBalancedFrom, if_pos opens]

theorem balancedFrom_plain (plain : isBracket c = false) (stack text : List Char) :
    bracketsBalancedFrom stack (c :: text) = bracketsBalancedFrom stack text := by
  rw [← bracketsBalancedFrom_filter, List.filter_cons_of_neg (by simp [plain]), bracketsBalancedFrom_filter]

/-- A closing bracket closes the one that was opened last. -/
theorem balancedFrom_closer_iff (pair : (opener, closer) ∈ bracketPairs) : bracketsBalancedFrom stack (closer :: text) = true ↔
    ∃ below, stack = opener :: below ∧ bracketsBalancedFrom below text = true := by
  rw [bracketsBalancedFrom, if_neg (by simp [(isOpener_of_pair pair).2]), mem_bracketPairs_iff.1 pair]
  cases stack with
  | nil => simp
  | cons top stack => simp

/-- A pair of brackets is read as if it were not there. -/
theorem balancedFrom_pair (pair : (opener, closer) ∈ bracketPairs) (inside : bracketsBalanced inner = true)
    (stack rest : List Char) :
    bracketsBalancedFrom stack (opener :: (inner ++ closer :: rest)) = bracketsBalancedFrom stack rest := by
  have skipped : bracketsBalancedFrom (opener :: stack) (inner ++ closer :: rest) =
      bracketsBalancedFrom (opener :: stack) (closer :: rest) :=
    bracketsBalancedFrom_append inside (opener :: stack) (closer :: rest)
  rw [balancedFrom_opener (isOpener_of_pair pair).1, skipped, Bool.eq_iff_iff, balancedFrom_closer_iff pair]
  simp

/-- What is open is closed, and up to there the brackets nest. -/
theorem exists_closer (balanced : bracketsBalancedFrom (opener :: stack) text = true) :
    ∃ inner closer rest, text = inner ++ closer :: rest ∧ (opener, closer) ∈ bracketPairs ∧ bracketsBalanced inner = true ∧
      bracketsBalancedFrom stack rest = true := by
  induction size : text.length using Nat.strongRecOn generalizing text opener stack with
  | _ size ih =>
    subst size
    cases text with
    | nil => cases balanced
    | cons c text =>
      rcases bracket_cases c with opens | ⟨top, pair⟩ | plain
      · -- What `c` opens is closed first, and then what is open.
        rw [balancedFrom_opener opens] at balanced
        obtain ⟨inner, d, rest, rfl, pair, inside, balanced⟩ := ih text.length (by simp) balanced rfl
        have shorter : rest.length < (c :: (inner ++ d :: rest)).length := by
          rw [length_pair]
          omega
        obtain ⟨inner', closer, rest', rfl, closes, inside', behind⟩ := ih rest.length shorter balanced rfl
        refine ⟨c :: (inner ++ d :: inner'), closer, rest', by simp, closes, ?_, behind⟩
        rw [bracketsBalanced, balancedFrom_pair pair inside]
        exact inside'
      · obtain ⟨below, same, behind⟩ := (balancedFrom_closer_iff pair).1 balanced
        cases same
        exact ⟨[], c, text, rfl, pair, rfl, behind⟩
      · rw [balancedFrom_plain plain] at balanced
        obtain ⟨inner, closer, rest, rfl, closes, inside, behind⟩ := ih text.length (by simp) balanced rfl
        exact ⟨c :: inner, closer, rest, rfl, closes, by rwa [bracketsBalanced, balancedFrom_plain plain], behind⟩

/-- A text whose brackets nest is empty, or begins with a character that is no bracket, or with a pair of brackets; and what stands
between these and behind is again such a text. -/
@[elab_as_elim]
theorem balanced_induction {motive : ∀ text, bracketsBalanced text = true → Prop} (nil : motive [] rfl)
    (plain : ∀ c rest (no_bracket : isBracket c = false) (behind : bracketsBalanced rest = true), motive rest behind →
      motive (c :: rest) ((balancedFrom_plain no_bracket [] rest).trans behind))
    (pair : ∀ opener closer inner rest (pair : (opener, closer) ∈ bracketPairs) (inside : bracketsBalanced inner = true)
      (behind : bracketsBalanced rest = true), motive inner inside → motive rest behind →
      motive (opener :: (inner ++ closer :: rest)) ((balancedFrom_pair pair inside [] rest).trans behind))
    (balanced : bracketsBalanced text = true) : motive text balanced := by
  induction size : text.length using Nat.strongRecOn generalizing text with
  | _ size ih =>
    subst size
    cases text with
    | nil => exact nil
    | cons c text =>
      rcases bracket_cases c with opens | ⟨opener, closes⟩ | no_bracket
      · have open_ := (balancedFrom_opener opens [] text).symm.trans balanced
        obtain ⟨inner, closer, rest, rfl, closes, inside, behind⟩ := exists_closer open_
        have size := length_pair c inner closer rest
        exact pair c closer inner rest closes inside behind (ih inner.length (by omega) inside rfl)
          (ih rest.length (by omega) behind rfl)
      · obtain ⟨below, none, -⟩ := (balancedFrom_closer_iff closes).1 balanced
        cases none
      · have behind := (balancedFrom_plain no_bracket [] text).symm.trans balanced
        exact plain c text no_bracket behind (ih text.length (by simp) behind rfl)

theorem balanced_of_isDyck (nests : IsDyck word) : bracketsBalanced word = true := by
  induction nests with
  | nil => rfl
  | pair pair _ _ inside behind =>
    rw [bracketsBalanced, balancedFrom_pair pair inside]
    exact behind

/-- The brackets of a text nest if and only if they are such a word. -/
theorem isDyck_brackets_iff : IsDyck (text.filter isBracket) ↔ bracketsBalanced text = true := by
  constructor
  · intro nests
    rw [bracketsBalanced, ← bracketsBalancedFrom_filter]
    exact balanced_of_isDyck nests
  · intro balanced
    induction balanced using balanced_induction with
    | nil => exact .nil
    | plain c rest no_bracket _ ih => rwa [List.filter_cons_of_neg (by simp [no_bracket])]
    | pair opener closer inner rest pair _ _ inside behind =>
      obtain ⟨opens, closes⟩ := isBracket_of_pair pair
      rw [List.filter_cons_of_pos opens, List.filter_append, List.filter_cons_of_pos closes]
      exact .pair pair inside behind

/-! ## Braces among brackets that nest -/

/-- Behind brackets that nest, as many braces are open as before. -/
theorem foldl_braceStep_of_balanced (balanced : bracketsBalanced text = true) (depth : Nat) :
    text.foldl braceStep depth = depth := by
  induction balanced using balanced_induction generalizing depth with
  | nil => rfl
  | plain c rest no_bracket _ ih =>
    have opens : c ≠ '\x7b' := ne_of_not_isBracket no_bracket rfl
    have closes : c ≠ '\x7d' := ne_of_not_isBracket no_bracket rfl
    rw [List.foldl_cons, braceStep, if_neg opens, if_neg closes, ih]
  | pair opener closer inner rest pair _ _ inside behind =>
    rw [List.foldl_cons, List.foldl_append, inside, List.foldl_cons, behind]
    rcases pair_cases pair with ⟨rfl, rfl⟩ | ⟨rfl, rfl⟩ | ⟨rfl, rfl⟩ <;> simp [braceStep]

theorem closingBrace?_plain (plain : isBracket c = false) (depth : Nat) (text : List Char) :
    closingBrace? id depth (c :: text) = (closingBrace? id depth text).map (· + 1) := by
  have opens : id c ≠ '\x7b' := ne_of_not_isBracket plain rfl
  have closes : id c ≠ '\x7d' := ne_of_not_isBracket plain rfl
  rw [closingBrace?.eq_def]
  simp only [if_neg opens, if_neg closes]

/-- Brackets that nest close no brace that was open before. -/
theorem closingBrace?_of_balanced (balanced : bracketsBalanced text = true) (depth : Nat) (rest : List Char) :
    closingBrace? id (depth + 1) (text ++ rest) = (closingBrace? id (depth + 1) rest).map (· + text.length) := by
  induction balanced using balanced_induction generalizing depth rest with
  | nil => simp
  | plain c more no_bracket _ ih =>
    rw [List.cons_append, closingBrace?_plain no_bracket, ih, Option.map_map]
    rfl
  | pair opener closer inner more pair _ _ inside behind =>
    rw [List.cons_append, List.append_assoc, List.cons_append]
    rw [length_pair]
    rcases pair_cases pair with ⟨rfl, rfl⟩ | ⟨rfl, rfl⟩ | ⟨rfl, rfl⟩
    all_goals simp [closingBrace?, inside, behind, Function.comp_def, Nat.add_assoc]

/-- The brace at one place is closed at the other one: what stands between them nests. -/
def Encloses (text : List Char) (i j : Nat) : Prop :=
  ∃ front inner back, text = front ++ '\x7b' :: (inner ++ '\x7d' :: back) ∧ bracketsBalanced inner = true ∧ i = front.length ∧
    j = front.length + inner.length + 1

namespace Encloses

theorem matchingBrace? (h : Encloses text i j) : matchingBrace? text i = some j := by
  obtain ⟨front, inner, back, rfl, inside, rfl, rfl⟩ := h
  have closed : closingBrace? id 1 ('\x7d' :: back) = some 0 := rfl
  rw [Text.matchingBrace?, List.drop_left, closingBrace?, id, if_pos rfl, closingBrace?_of_balanced inside 0, closed]
  simp only [Option.map_some, Option.some.injEq]
  omega

theorem lt (h : Encloses text i j) : i < j ∧ j < text.length := by
  obtain ⟨front, inner, back, rfl, -, rfl, rfl⟩ := h
  simp
  omega

/-- The text is cut in front of the closing brace. -/
theorem exists_cut (h : Encloses text i j) : ∃ front inner back, text = (front ++ '\x7b' :: inner) ++ '\x7d' :: back ∧
    bracketsBalanced inner = true ∧ i = front.length ∧ j = (front ++ '\x7b' :: inner).length := by
  obtain ⟨front, inner, back, rfl, inside, rfl, rfl⟩ := h
  refine ⟨front, inner, back, by rw [List.append_assoc, List.cons_append], inside, rfl, ?_⟩
  rw [List.length_append]
  rfl

theorem getElem? (h : Encloses text i j) : text[i]? = some '\x7b' ∧ text[j]? = some '\x7d' := by
  obtain ⟨front, inner, back, rfl, -, rfl, rfl⟩ := h.exists_cut
  constructor <;> simp

/-- What encloses in a text does so wherever the text stands. -/
theorem append (h : Encloses text i j) (a b : List Char) : Encloses (a ++ (text ++ b)) (a.length + i) (a.length + j) := by
  obtain ⟨front, inner, back, rfl, inside, rfl, rfl⟩ := h
  refine ⟨a ++ front, inner, back ++ b, by simp, inside, List.length_append.symm, ?_⟩
  rw [List.length_append]
  omega

/-- A brace is closed at one place only. -/
theorem unique (h : Encloses text i j) (h' : Encloses text i j') : j = j' :=
  Option.some.inj (h.matchingBrace?.symm.trans h'.matchingBrace?)

theorem braceDepth (h : Encloses text i j) : braceDepth text j = braceDepth text i + 1 := by
  obtain ⟨front, inner, back, rfl, inside, rfl, rfl⟩ := h.exists_cut
  rw [Text.braceDepth, Text.braceDepth, List.take_left, List.append_assoc, List.take_left, List.foldl_append, List.foldl_cons,
    foldl_braceStep_of_balanced inside]
  rfl

theorem balanced_slice (h : Encloses text i j) : bracketsBalanced (slice text (i + 1) j) = true := by
  obtain ⟨front, inner, back, rfl, inside, rfl, rfl⟩ := h
  have := slice_append (front ++ ['\x7b']) inner ('\x7d' :: back)
  rw [List.length_append, List.length_singleton, List.append_assoc, List.singleton_append, Nat.add_right_comm] at this
  rwa [this]

end Encloses

/-- A character at a place, and what stands around it. -/
theorem exists_append_of_getElem? (here : text[i]? = some c) : ∃ front back, text = front ++ c :: back ∧ front.length = i := by
  obtain ⟨inside, rfl⟩ := List.getElem?_eq_some_iff.1 here
  refine ⟨text.take i, text.drop (i + 1), ?_, List.length_take_of_le inside.le⟩
  rw [← List.drop_eq_getElem_cons, List.take_append_drop]

/-- Behind a part of a text, what is open there is closed. -/
theorem exists_balancedFrom (balanced : bracketsBalancedFrom stack (front ++ rest) = true) :
    ∃ stack', bracketsBalancedFrom stack' rest = true := by
  induction front generalizing stack with
  | nil => exact ⟨stack, balanced⟩
  | cons c front ih =>
    rw [List.cons_append] at balanced
    rcases bracket_cases c with opens | ⟨opener, pair⟩ | plain
    · exact ih (balancedFrom_opener opens _ _ ▸ balanced)
    · obtain ⟨below, -, balanced⟩ := (balancedFrom_closer_iff pair).1 balanced
      exact ih balanced
    · exact ih (balancedFrom_plain plain _ _ ▸ balanced)

/-- Where brackets nest, every brace is closed. -/
theorem exists_encloses_of_opening (balanced : bracketsBalanced text = true) (here : text[i]? = some '\x7b') :
    ∃ j, Encloses text i j := by
  obtain ⟨front, behind, rfl, rfl⟩ := exists_append_of_getElem? here
  obtain ⟨stack, balanced⟩ := exists_balancedFrom balanced
  rw [balancedFrom_opener rfl] at balanced
  obtain ⟨inner, closer, back, rfl, pair, inside, -⟩ := exists_closer balanced
  rcases pair_cases pair with ⟨no, -⟩ | ⟨no, -⟩ | ⟨-, rfl⟩
  · cases no
  · cases no
  · exact ⟨_, front, inner, back, rfl, inside, rfl, rfl⟩

/-- Where brackets nest, every closing brace closes one. -/
theorem exists_encloses_of_closing (balanced : bracketsBalanced text = true) (here : text[j]? = some '\x7d') :
    ∃ i, Encloses text i j := by
  induction balanced using balanced_induction generalizing j with
  | nil => cases here
  | plain c rest no_bracket _ ih =>
    cases j with
    | zero => exact absurd (Option.some.inj here) (ne_of_not_isBracket no_bracket rfl)
    | succ j =>
      obtain ⟨i, encloses⟩ := ih here
      refine ⟨1 + i, ?_⟩
      simpa [Nat.add_comm] using encloses.append [c] []
  | pair opener closer inner rest pair inside _ ih_inner ih_rest =>
    cases j with
    | zero =>
      rcases pair_cases pair with ⟨rfl, -⟩ | ⟨rfl, -⟩ | ⟨rfl, -⟩ <;> cases here
    | succ j =>
      rw [List.getElem?_cons_succ] at here
      rcases Nat.lt_trichotomy j inner.length with before | rfl | after
      · rw [List.getElem?_append_left before] at here
        obtain ⟨i, encloses⟩ := ih_inner here
        refine ⟨1 + i, ?_⟩
        simpa [Nat.add_comm] using encloses.append [opener] (closer :: rest)
      · obtain rfl : closer = '\x7d' := by simpa using here
        rcases pair_cases pair with ⟨-, no⟩ | ⟨-, no⟩ | ⟨rfl, -⟩
        · cases no
        · cases no
        · exact ⟨0, [], inner, rest, rfl, inside, rfl, by simp⟩
      · obtain ⟨k, rfl⟩ := Nat.exists_eq_add_of_lt after
        rw [List.getElem?_append_right (by omega)] at here
        obtain ⟨i, encloses⟩ := ih_rest (j := k) (by simpa [Nat.add_assoc, Nat.add_comm 1] using here)
        refine ⟨(opener :: (inner ++ [closer])).length + i, ?_⟩
        have moved := encloses.append (opener :: (inner ++ [closer])) []
        have place : (opener :: (inner ++ [closer])).length + k = inner.length + k + 1 + 1 := by
          rw [length_pair, List.length_nil]
          omega
        rw [place] at moved
        simpa using moved

/-- A pair of braces stands in an earlier one, or behind it. -/
theorem Encloses.cases_lt (h : Encloses text i j) (h' : Encloses text i' j') (later : i < i') : j' < j ∨ j < i' := by
  by_cases behind : j < i'
  · exact .inr behind
  · left
    have opens : text[i']? = some '\x7b' := h'.getElem?.1
    have apart : i' ≠ j := by
      rintro rfl
      rw [h.getElem?.2] at opens
      cases opens
    obtain ⟨front, inner, back, rfl, inside, rfl, rfl⟩ := h
    -- The later brace is one of the brackets between those of the earlier pair, where it is closed.
    obtain ⟨k, rfl⟩ := Nat.exists_eq_add_of_lt later
    have here : inner[k]? = some '\x7b' := by
      have at_ : front.length + k + 1 - front.length = k + 1 := by omega
      rwa [List.getElem?_append_right (by omega), at_, List.getElem?_cons_succ, List.getElem?_append_left (by omega)] at opens
    obtain ⟨m, encloses⟩ := exists_encloses_of_opening inside here
    have moved := encloses.append (front ++ ['\x7b']) ('\x7d' :: back)
    have start : (front ++ ['\x7b']).length + k = front.length + k + 1 := by
      rw [List.length_append, List.length_singleton]
      omega
    rw [start, List.append_assoc, List.singleton_append] at moved
    have last := h'.unique moved
    have within := encloses.lt.2
    simp at last
    omega

/-- A brace closes one only. -/
theorem Encloses.unique_opening (h : Encloses text i j) (h' : Encloses text i' j) : i = i' := by
  rcases Nat.lt_trichotomy i i' with before | same | after
  · have := h.cases_lt h' before
    have := h'.lt
    omega
  · exact same
  · have := h'.cases_lt h after
    have := h.lt
    omega

/-! ## Depths -/

/-- The braces of a text that are open in front of a place: they come before it, and are closed there or behind it. -/
def bracesAround (text : List Char) (place : Nat) : Finset Nat :=
  (Finset.range text.length).filter fun i =>
    text[i]? = some '\x7b' ∧ ∃ j ∈ matchingBrace? text i, i < place ∧ place ≤ j

theorem mem_bracesAround_iff (balanced : bracketsBalanced text = true) :
    i ∈ bracesAround text place ↔ ∃ j, Encloses text i j ∧ i < place ∧ place ≤ j := by
  rw [bracesAround, Finset.mem_filter, Finset.mem_range]
  constructor
  · rintro ⟨-, opens, j, closed, around⟩
    obtain ⟨j', encloses⟩ := exists_encloses_of_opening balanced opens
    obtain rfl : j' = j := Option.some.inj (encloses.matchingBrace?.symm.trans closed)
    exact ⟨j', encloses, around⟩
  · rintro ⟨j, encloses, around⟩
    exact ⟨encloses.lt.1.trans encloses.lt.2, encloses.getElem?.1, j, encloses.matchingBrace?, around⟩

/-- Behind a brace, it is open as well. -/
theorem card_bracesAround_opening (balanced : bracketsBalanced text = true) (here : text[place]? = some '\x7b') :
    (bracesAround text (place + 1)).card = (bracesAround text place).card + 1 := by
  have new : place ∉ bracesAround text place := by simp [mem_bracesAround_iff balanced]
  rw [← Finset.card_insert_of_notMem new]
  congr 1
  ext i
  rw [Finset.mem_insert, mem_bracesAround_iff balanced, mem_bracesAround_iff balanced]
  constructor
  · rintro ⟨j, encloses, before, behind⟩
    rcases Nat.lt_succ_iff_lt_or_eq.1 before with before | rfl
    · exact .inr ⟨j, encloses, before, by omega⟩
    · exact .inl rfl
  · rintro (rfl | ⟨j, encloses, before, behind⟩)
    · obtain ⟨j, encloses⟩ := exists_encloses_of_opening balanced here
      exact ⟨j, encloses, Nat.lt_succ_self _, encloses.lt.1⟩
    · have apart : place ≠ j := by
        rintro rfl
        rw [encloses.getElem?.2] at here
        cases here
      exact ⟨j, encloses, by omega, by omega⟩

/-- Behind a closing brace, one brace less is open. -/
theorem card_bracesAround_closing (balanced : bracketsBalanced text = true) (here : text[place]? = some '\x7d') :
    (bracesAround text place).card = (bracesAround text (place + 1)).card + 1 := by
  obtain ⟨closed, pair⟩ := exists_encloses_of_closing balanced here
  have gone : closed ∉ bracesAround text (place + 1) := by
    rw [mem_bracesAround_iff balanced]
    rintro ⟨j, encloses, -, behind⟩
    have := encloses.unique pair
    omega
  rw [← Finset.card_insert_of_notMem gone]
  congr 1
  ext i
  rw [Finset.mem_insert, mem_bracesAround_iff balanced, mem_bracesAround_iff balanced]
  constructor
  · rintro ⟨j, encloses, before, behind⟩
    rcases Nat.eq_or_lt_of_le behind with rfl | behind
    · exact .inl (encloses.unique_opening pair)
    · exact .inr ⟨j, encloses, by omega, behind⟩
  · rintro (rfl | ⟨j, encloses, before, behind⟩)
    · exact ⟨place, pair, pair.lt.1, le_rfl⟩
    · have apart : i ≠ place := by
        rintro rfl
        rw [encloses.getElem?.1] at here
        cases here
      exact ⟨j, encloses, by omega, by omega⟩

/-- Behind any other character, the same braces are open. -/
theorem bracesAround_other (balanced : bracketsBalanced text = true) (opens : text[place]? ≠ some '\x7b')
    (closes : text[place]? ≠ some '\x7d') : bracesAround text (place + 1) = bracesAround text place := by
  ext i
  rw [mem_bracesAround_iff balanced, mem_bracesAround_iff balanced]
  refine exists_congr fun j => and_congr_right fun encloses => ?_
  have apart : i ≠ place := by
    rintro rfl
    exact opens encloses.getElem?.1
  have apart' : j ≠ place := by
    rintro rfl
    exact closes encloses.getElem?.2
  omega

theorem braceDepth_succ (here : text[place]? = some c) : braceDepth text (place + 1) = braceStep (braceDepth text place) c := by
  obtain ⟨front, back, rfl, rfl⟩ := exists_append_of_getElem? here
  have place : front.length + 1 = (front ++ [c]).length := by simp
  rw [braceDepth, braceDepth, List.take_left, place, List.append_cons front c back, List.take_left, List.foldl_append]
  rfl

/-- Where brackets nest, the depth of a place is the number of braces that are open in front of it. -/
theorem card_bracesAround (balanced : bracketsBalanced text = true) (place : Nat) :
    (bracesAround text place).card = braceDepth text place := by
  induction place with
  | zero => simp [bracesAround, braceDepth]
  | succ place ih =>
    cases here : text[place]? with
    | none =>
      have outside := List.getElem?_eq_none_iff.1 here
      rw [bracesAround_other balanced (by simp [here]) (by simp [here]), ih, braceDepth, braceDepth, List.take_of_length_le outside,
        List.take_of_length_le (by omega)]
    | some c =>
      rw [braceDepth_succ here, ← ih, braceStep]
      split_ifs with opens closes
      · exact card_bracesAround_opening balanced (here.trans (congrArg some opens))
      · exact (Nat.sub_eq_of_eq_add (card_bracesAround_closing balanced (here.trans (congrArg some closes)))).symm
      · rw [bracesAround_other balanced (by simpa [here] using opens) (by simpa [here] using closes)]

/-! ## Bytes -/

/-- The bytes of a text, each as the character with its number. -/
def byteChars (text : List Char) : List Char := (bytes text).map Char.ofUInt8

theorem byteChars_append (a b : List Char) : byteChars (a ++ b) = byteChars a ++ byteChars b := by
  rw [byteChars, bytes_append, List.map_append]
  rfl

theorem length_byteChars (text : List Char) : (byteChars text).length = byteLength text := by
  rw [byteChars, List.length_map, length_bytes]

/-- A bracket is one byte, and no byte of another character is one. -/
theorem byteChars_cases (c : Char) : byteChars [c] = [c] ∨ isBracket c = false ∧ ∀ d ∈ byteChars [c], isBracket d = false := by
  have plain_of_wide {d : Char} (wide : 128 ≤ d.toNat) : isBracket d = false := by
    rcases bracket_cases d with opens | ⟨opener, pair⟩ | plain
    · have : (d = '(' ∨ d = '[') ∨ d = '\x7b' := by simpa [isOpener] using opens
      rcases this with (rfl | rfl) | rfl <;> exact absurd wide (by decide)
    · rcases pair_cases pair with ⟨-, rfl⟩ | ⟨-, rfl⟩ | ⟨-, rfl⟩ <;> exact absurd wide (by decide)
    · exact plain
  have one : byteChars [c] = (String.utf8EncodeChar c).map Char.ofUInt8 := by rw [byteChars, bytes, List.flatMap_singleton]
  rw [one]
  by_cases ascii : c.toNat < 128
  · left
    rw [utf8EncodeChar_of_ascii ascii, List.map_singleton]
    congr 1
    exact Char.toNat_inj.1 (toNat_toUInt8_of_ascii ascii)
  · right
    obtain ⟨b, bs, encoded, wide, -⟩ := exists_utf8EncodeChar (Nat.not_lt.1 ascii)
    refine ⟨plain_of_wide (Nat.not_lt.1 ascii), ?_⟩
    rw [encoded, List.forall_mem_map]
    exact fun b hb => plain_of_wide (wide b hb)

theorem filter_byteChars (text : List Char) : (byteChars text).filter isBracket = text.filter isBracket := by
  induction text with
  | nil => rfl
  | cons c text ih =>
    rw [← List.singleton_append, byteChars_append, List.filter_append, List.filter_append, ih]
    congr 1
    rcases byteChars_cases c with one | ⟨plain, none⟩
    · rw [one]
    · rw [List.filter_eq_nil_iff.2 fun d hd => by simp [none d hd], List.filter_cons_of_neg (by simp [plain]), List.filter_nil]

/-- The depth depends on nothing but the brackets. -/
theorem foldl_braceStep_filter (text : List Char) (depth : Nat) :
    (text.filter isBracket).foldl braceStep depth = text.foldl braceStep depth := by
  induction text generalizing depth with
  | nil => rfl
  | cons c text ih =>
    cases bracket : isBracket c with
    | true => rw [List.filter_cons_of_pos bracket, List.foldl_cons, ih, List.foldl_cons]
    | false =>
      have same : braceStep depth c = depth := by
        rw [braceStep, if_neg (ne_of_not_isBracket bracket rfl), if_neg (ne_of_not_isBracket bracket rfl)]
      rw [List.filter_cons_of_neg (by simp [bracket]), ih, List.foldl_cons, same]

theorem closingBrace?_plain_append (plain : ∀ c ∈ front, isBracket c = false) (depth : Nat) (text : List Char) :
    closingBrace? id depth (front ++ text) = (closingBrace? id depth text).map (· + front.length) := by
  induction front with
  | nil => simp
  | cons c front ih =>
    obtain ⟨here, more⟩ := List.forall_mem_cons.1 plain
    rw [List.cons_append, closingBrace?_plain here, ih more, Option.map_map]
    rfl

theorem closingBrace?_byteChars (text : List Char) (depth : Nat) :
    closingBrace? id depth (byteChars text) = (closingBrace? id depth text).map fun n => byteLength (text.take n) := by
  induction text generalizing depth with
  | nil => rfl
  | cons c text ih =>
    have more (n : Nat) : byteLength ((c :: text).take (n + 1)) = byteLength (text.take n) + byteLength [c] := by
      rw [List.take_succ_cons, ← List.singleton_append, byteLength_append, Nat.add_comm]
    rw [← List.singleton_append, byteChars_append, List.singleton_append]
    rcases byteChars_cases c with one | ⟨plain, none⟩
    · have size : byteLength [c] = 1 := by rw [← length_byteChars, one, List.length_singleton]
      rw [one, List.singleton_append]
      unfold closingBrace?
      split_ifs
      · rw [ih, Option.map_map, Option.map_map]
        simp only [Function.comp_def, more, size]
      · rcases depth with _ | _ | depth
        · rfl
        · simp [byteLength]
        · simp only [ih, Option.map_map, Function.comp_def, more, size]
      · rw [ih, Option.map_map, Option.map_map]
        simp only [Function.comp_def, more, size]
    · rw [closingBrace?_plain_append none, ih, closingBrace?_plain plain, Option.map_map, Option.map_map]
      simp only [Function.comp_def, more, length_byteChars]

/-- Among the bytes of a text, the same brackets nest, the same braces are closed, and as many are open. -/
theorem brackets_byteChars (text : List Char) (place : Nat) :
    bracketsBalanced (byteChars text) = bracketsBalanced text ∧
      matchingBrace? (byteChars text) (byteLength (text.take place)) =
        (matchingBrace? text place).map (fun closed => byteLength (text.take closed)) ∧
      braceDepth (byteChars text) (byteLength (text.take place)) = braceDepth text place := by
  have cut : byteChars text = byteChars (text.take place) ++ byteChars (text.drop place) := by
    rw [← byteChars_append, List.take_append_drop]
  have size := (length_byteChars (text.take place)).symm
  refine ⟨?_, ?_, ?_⟩
  · rw [bracketsBalanced, ← bracketsBalancedFrom_filter, filter_byteChars, bracketsBalancedFrom_filter]
    rfl
  · have behind : (byteChars text).drop (byteLength (text.take place)) = byteChars (text.drop place) := by
      rw [cut, List.drop_left' size.symm]
    rw [matchingBrace?, matchingBrace?, behind, closingBrace?_byteChars, Option.map_map, Option.map_map]
    congr 1
    funext n
    rw [Function.comp_apply, Function.comp_apply, Nat.add_comm n, List.take_add, byteLength_append, Nat.add_comm]
  · have before : (byteChars text).take (byteLength (text.take place)) = byteChars (text.take place) := by
      rw [cut, List.take_left' size.symm]
    rw [braceDepth, before, ← foldl_braceStep_filter, filter_byteChars, foldl_braceStep_filter]
    rfl

/-! ## The answers together -/

/-- The brackets of a text nest if and only if they are a word of brackets that nest. If so, every brace is closed at a later place
by a closing brace, with one brace more open there and with brackets that nest between; of two such ranges, one stands in the other
or apart from it; and the depth of a place is the number of such ranges around it. Read byte by byte, a text gives the same
answers. -/
theorem brackets_agree (text : List Char) :
    (bracketsBalanced text = true ↔ IsDyck (text.filter "()[]\x7b\x7d".toList.contains)) ∧
    (bracketsBalanced text = true →
      (∀ i, text[i]? = some '\x7b' → ∃ j, matchingBrace? text i = some j ∧ i < j ∧ text[j]? = some '\x7d' ∧
        braceDepth text j = braceDepth text i + 1 ∧ bracketsBalanced (slice text (i + 1) j) = true) ∧
      (∀ i i' j j', text[i]? = some '\x7b' → text[i']? = some '\x7b' → matchingBrace? text i = some j →
        matchingBrace? text i' = some j' → i < i' → j' < j ∨ j < i') ∧
      ∀ place, braceDepth text place = (bracesAround text place).card) ∧
    ∀ place, bracketsBalanced (byteChars text) = bracketsBalanced text ∧
      matchingBrace? (byteChars text) (byteLength (text.take place)) =
        (matchingBrace? text place).map (fun closed => byteLength (text.take closed)) ∧
      braceDepth (byteChars text) (byteLength (text.take place)) = braceDepth text place := by
  refine ⟨?_, fun balanced => ⟨fun i opens => ?_, fun i i' j j' opens opens' closed closed' later => ?_, fun place => ?_⟩,
    brackets_byteChars text⟩
  · rw [← isBracket_eq_contains]
    exact isDyck_brackets_iff.symm
  · obtain ⟨j, encloses⟩ := exists_encloses_of_opening balanced opens
    exact ⟨j, encloses.matchingBrace?, encloses.lt.1, encloses.getElem?.2, encloses.braceDepth, encloses.balanced_slice⟩
  · obtain ⟨k, encloses⟩ := exists_encloses_of_opening balanced opens
    obtain ⟨k', encloses'⟩ := exists_encloses_of_opening balanced opens'
    obtain rfl : k = j := Option.some.inj (encloses.matchingBrace?.symm.trans closed)
    obtain rfl : k' = j' := Option.some.inj (encloses'.matchingBrace?.symm.trans closed')
    exact encloses.cases_lt encloses' later
  · exact (card_bracesAround balanced place).symm

/-- In `a[(b)]{é{c}{}}`, the first brace is closed by the last one, and two are open in front of the first closing one. -/
theorem brackets_agree_blocks :
    ∃ j, matchingBrace? "a[(b)]\x7bé\x7bc\x7d\x7b\x7d\x7d".toList 6 = some j ∧ j = 13 ∧
      (bracesAround "a[(b)]\x7bé\x7bc\x7d\x7b\x7d\x7d".toList 10).card = 2 := by
  obtain ⟨-, agree, -⟩ := brackets_agree "a[(b)]\x7bé\x7bc\x7d\x7b\x7d\x7d".toList
  obtain ⟨closed, -, depth⟩ := agree (by decide +kernel)
  obtain ⟨j, found, -⟩ := closed 6 (by decide +kernel)
  exact ⟨j, found, Option.some.inj (found.symm.trans (by decide +kernel)), (depth 10).symm.trans (by decide +kernel)⟩

end Codewright.Text
