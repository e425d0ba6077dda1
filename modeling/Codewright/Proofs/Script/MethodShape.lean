import Codewright.Proofs.Script.Insertion
import Codewright.Proofs.Script.Literals
import Codewright.Proofs.Text.Ways
import Codewright.Script.Summary

/-!
# The pattern of methods

* `exists_of_method` – what a match of the pattern covers, wherever it is: a head, the name, and what follows up to a bracket;
* `matchAt?_method` – at the start of its line, the pattern finds the name of a method.
-/

namespace Codewright.Script

open Text Pattern

variable {size place : Nat} {before : Option Char} {rest w s r t : List Char} {c d : Char} {m : Match} {p first second : Pattern}

/-! ## Characters of names -/

/-- A name of ASCII letters, digits, underscores and dollar signs, with no digit first. -/
def isIdentifier (name : String) : Bool :=
  match name.toList with
  | [] => false
  | c :: cs => Shape.isNameStart c && cs.all isPlainWord

theorem isNameRest_of_isPlainWord (h : isPlainWord c = true) : Shape.isNameRest c = true := by
  have cases : (c.isAlphanum = true ∨ c = '_') ∨ c = '$' := by simpa [isPlainWord] using h
  rcases cases with (letter | rfl) | rfl
  · have small : c.toNat < 128 := by
      have codes := toNat_of_isAlphanum letter
      omega
    simp [Shape.isNameRest, isWord, small, letter]
  all_goals rfl

theorem isPlainWord_of_isNameStart (h : Shape.isNameStart c = true) : isPlainWord c = true := by
  have cases : (c.isAlpha = true ∨ c = '_') ∨ c = '$' := by simpa [Shape.isNameStart] using h
  rcases cases with (letter | rfl) | rfl
  · simp [isPlainWord, Char.isAlphanum, letter]
  all_goals rfl

theorem ne_of_isPlainWord (h : isPlainWord c = true) (other : isPlainWord d = false) : c ≠ d := by
  rintro rfl
  rw [h] at other
  cases other

/-- An identifier is a letter with word characters behind it. -/
theorem exists_of_isIdentifier {name : String} (h : isIdentifier name = true) :
    ∃ c cs, name.toList = c :: cs ∧ Shape.isNameStart c = true ∧ ∀ d ∈ cs, isPlainWord d = true := by
  unfold isIdentifier at h
  split at h
  · cases h
  next c cs same =>
    obtain ⟨starts, more⟩ := Bool.and_eq_true_iff.1 h
    exact ⟨c, cs, same, starts, List.all_eq_true.1 more⟩

theorem isPlainWord_of_isIdentifier {name : String} (h : isIdentifier name = true) : ∀ c ∈ name.toList, isPlainWord c = true := by
  obtain ⟨c, cs, same, starts, more⟩ := exists_of_isIdentifier h
  rw [same]
  exact List.forall_mem_cons.2 ⟨isPlainWord_of_isNameStart starts, more⟩

/-! ## Blanks -/

/-- Behind white space, a pattern has no way where it begins neither with white space nor with what comes then. -/
theorem dead_behind_blank (plain : Plain isSpace first) (blank : IsBlank s) (letter : isSpace d = false)
    (dead : ∀ c rest, isSpace c = true ∨ c = d → Dead size second (c :: rest)) : Dead size (.seq first second) (s ++ d :: r) := by
  refine Dead.behind plain fun w rest' whole each => ?_
  rcases List.append_eq_append_iff.1 whole with ⟨a, rfl, rest_eq⟩ | ⟨b, rfl, rest_eq⟩
  · cases a with
    | nil =>
      obtain rfl : rest' = d :: r := rest_eq.symm
      exact dead d r (.inr rfl)
    | cons c a =>
      rw [List.cons_append] at rest_eq
      cases rest_eq
      have space := each d (by simp)
      rw [letter] at space
      cases space
  · cases b with
    | nil =>
      obtain rfl : rest' = d :: r := rest_eq
      exact dead d r (.inr rfl)
    | cons c b =>
      obtain rfl : rest' = c :: (b ++ d :: r) := rest_eq
      exact dead c _ (.inl (blank c (by simp)))

/-! ## Methods -/

/-- A character up to the end of the name that the pattern of methods finds. -/
def isHeadChar (c : Char) : Bool := Shape.isNameRest c || c == ' ' || c == '\t' || c == '*' || c == '#'

/-- What stands between the name of a method and its parameters: white space, and perhaps a question mark and type parameters. -/
structure IsHeadTail (tail : List Char) : Prop where
  first : ∃ s d z, tail = s ++ d :: z ∧ IsBlank s ∧ d ∈ ['?', '<', '(']
  /-- A brace stands within angle brackets only. -/
  angle : ∀ y z, tail = y ++ '\x7d' :: z → ∃ x w, z = x ++ '>' :: w ∧ '(' ∉ x

/-- What comes behind a text without some character comes behind the whole of it. -/
theorem exists_of_append_cons {a b y z : List Char} (absent : d ∉ a) (same : a ++ b = y ++ d :: z) :
    ∃ y', y = a ++ y' ∧ b = y' ++ d :: z := by
  rcases List.append_eq_append_iff.1 same with ⟨y', rfl, rest⟩ | ⟨a', rfl, rest⟩
  · exact ⟨y', rfl, rest⟩
  · cases a' with
    | nil => exact ⟨[], by simp, rest.symm⟩
    | cons c a' =>
      cases rest
      simp at absent

theorem not_mem_of_blank (blank : IsBlank s) (letter : isSpace d = false) : d ∉ s := by
  intro hd
  rw [blank d hd] at letter
  cases letter

theorem isHeadTail_of_parts {t₁ t₂ s : List Char} (optional : t₁ = [] ∨ ∃ s₁, IsBlank s₁ ∧ t₁ = s₁ ++ ['?'])
    (angle : t₂ = [] ∨ ∃ s₂ x, IsBlank s₂ ∧ '(' ∉ x ∧ t₂ = s₂ ++ '<' :: (x ++ ['>'])) (blank : IsBlank s) :
    IsHeadTail (t₁ ++ (t₂ ++ (s ++ ['(']))) := by
  have no_brace {s : List Char} (blank : IsBlank s) (c : Char) (other : c ≠ '\x7d') : '\x7d' ∉ s ++ [c] := by
    simpa using ⟨not_mem_of_blank blank (d := '\x7d') rfl, other.symm⟩
  constructor
  · rcases optional with rfl | ⟨s₁, blank₁, rfl⟩
    · rcases angle with rfl | ⟨s₂, x, blank₂, -, rfl⟩
      · exact ⟨s, '(', [], rfl, blank, by simp⟩
      · exact ⟨s₂, '<', x ++ '>' :: (s ++ ['(']), by simp, blank₂, by simp⟩
    · exact ⟨s₁, '?', t₂ ++ (s ++ ['(']), by simp, blank₁, by simp⟩
  · intro y z whole
    have no_brace₁ : '\x7d' ∉ t₁ := by
      rcases optional with rfl | ⟨s₁, blank₁, rfl⟩
      · exact List.not_mem_nil
      · exact no_brace blank₁ '?' (by decide)
    obtain ⟨y₁, -, behind⟩ := exists_of_append_cons no_brace₁ whole
    rcases angle with rfl | ⟨s₂, x, blank₂, no_paren, rfl⟩
    · have mem : '\x7d' ∈ [] ++ (s ++ ['(']) := behind ▸ List.mem_append_right _ List.mem_cons_self
      exact absurd mem (no_brace blank '(' (by decide))
    · have inside : (s₂ ++ ['<']) ++ (x ++ '>' :: (s ++ ['('])) = y₁ ++ '\x7d' :: z := by simpa using behind
      obtain ⟨y₂, -, within⟩ := exists_of_append_cons (no_brace blank₂ '<' (by decide)) inside
      rcases List.append_eq_append_iff.1 within with ⟨a, -, last⟩ | ⟨b, rfl, last⟩
      · have mem : '\x7d' ∈ '>' :: (s ++ ['(']) := last ▸ List.mem_append_right _ List.mem_cons_self
        rcases List.mem_cons.1 mem with brace | mem
        · cases brace
        · exact absurd mem (no_brace blank '(' (by decide))
      · cases b with
        | nil => cases last
        | cons c b =>
          obtain ⟨rfl, rfl⟩ := List.cons.inj last
          exact ⟨b, _, rfl, fun paren => no_paren (by simp [paren])⟩

theorem plain_blanks : Plain isHeadChar Shape.blanks := by
  intro c blank
  rcases (by simpa using blank : c = ' ' ∨ c = '\t') with rfl | rfl <;> rfl

/-- The words in front of the name of a method are letters and blanks. -/
theorem plain_methodWords :
    Plain isHeadChar (.star (.seq (.anyOf (Shape.methodWords.map Pattern.text)) Shape.blanks1)) := by
  refine ⟨plain_anyOf fun p hp => ?_, plain_blanks, plain_blanks⟩
  obtain ⟨w, hw, rfl⟩ := List.mem_map.1 hp
  refine plain_text fun c hc => ?_
  have letters : ∀ w ∈ Shape.methodWords, w.toList.all isHeadChar = true := by decide
  exact List.all_eq_true.1 (letters w hw) c hc

theorem took_behindSpace_char {p q : MatchPoint} (h : q ∈ ways size (Shape.behindSpace (Shape.char c)) p) :
    ∃ t, Took p t q ∧ (t = [] ∨ ∃ s, IsBlank s ∧ t = s ++ [c]) := by
  rcases mem_ways_opt.1 h with h | rfl
  · obtain ⟨r, here, behind⟩ := mem_ways_seq.1 h
    obtain ⟨s, took, blank⟩ := took_star here
    obtain ⟨d, took', same⟩ := took_one behind
    rw [beq_iff_eq.1 same] at took'
    exact ⟨s ++ [c], took.trans took', .inr ⟨s, blank, rfl⟩⟩
  · exact ⟨[], .refl q, .inl rfl⟩

theorem took_behindSpace_angle {p q : MatchPoint}
    (h : q ∈ ways size (Shape.behindSpace (.inOrder [Shape.char '<', .star (Shape.notIn ">("), Shape.char '>'])) p) :
    ∃ t, Took p t q ∧ (t = [] ∨ ∃ s x, IsBlank s ∧ '(' ∉ x ∧ t = s ++ '<' :: (x ++ ['>'])) := by
  rcases mem_ways_opt.1 h with h | rfl
  · obtain ⟨r, here, behind⟩ := mem_ways_seq.1 h
    obtain ⟨r₁, opens, behind⟩ := mem_ways_seq.1 behind
    obtain ⟨r₂, inside, closes⟩ := mem_ways_seq.1 behind
    obtain ⟨s, took, blank⟩ := took_star here
    obtain ⟨d, took₁, same⟩ := took_one opens
    obtain ⟨x, took₂, each⟩ := took_star inside
    obtain ⟨e, took₃, same'⟩ := took_one closes
    rw [beq_iff_eq.1 same] at took₁
    rw [beq_iff_eq.1 same'] at took₃
    refine ⟨s ++ ['<'] ++ x ++ ['>'], ((took.trans took₁).trans took₂).trans took₃, .inr ⟨s, x, blank, fun paren => ?_, by simp⟩⟩
    have := each _ paren
    revert this
    decide
  · exact ⟨[], .refl q, .inl rfl⟩

/-- What a match of the pattern of methods covers: a head, the name in it, and what follows up to the bracket of the parameters. -/
theorem exists_of_method (h : Shape.method.matchAt? size before place rest = some m) : ∃ lead name tail behind,
    rest = lead ++ (name ++ (tail ++ behind)) ∧ (∀ c ∈ lead ++ name, isHeadChar c = true) ∧ name ≠ [] ∧ IsHeadTail tail ∧
      m.group? 1 = some (place + lead.length, place + lead.length + name.length) ∧
      m.stop = place + lead.length + name.length + tail.length := by
  obtain ⟨q, hq, rfl⟩ := exists_of_matchAt? h
  obtain ⟨p₀, start, hq⟩ := mem_ways_seq.1 hq
  obtain ⟨p₁, blanks, hq⟩ := mem_ways_seq.1 hq
  obtain ⟨p₂, words, hq⟩ := mem_ways_seq.1 hq
  obtain ⟨p₃, star, hq⟩ := mem_ways_seq.1 hq
  obtain ⟨p₅, named, hq⟩ := mem_ways_seq.1 hq
  obtain ⟨p₆, optional, hq⟩ := mem_ways_seq.1 hq
  obtain ⟨p₇, angle, hq⟩ := mem_ways_seq.1 hq
  obtain ⟨p₈, space, paren⟩ := mem_ways_seq.1 hq
  -- The head.
  have at_start : Plain isHeadChar .lineStart := trivial
  have at_star : Plain isHeadChar (.opt (.seq (Shape.char '*') Shape.blanks)) := by
    refine ⟨⟨fun c same => ?_, plain_blanks⟩, trivial⟩
    rw [beq_iff_eq.1 same]
    rfl
  obtain ⟨w₀, took₀, each₀⟩ := at_start.took start
  obtain ⟨w₁, took₁, each₁⟩ := plain_blanks.took blanks
  obtain ⟨w₂, took₂, each₂⟩ := plain_methodWords.took words
  obtain ⟨w₃, took₃, each₃⟩ := at_star.took star
  have head := ((took₀.trans took₁).trans took₂).trans took₃
  -- The name.
  rw [ways, List.mem_map] at named
  obtain ⟨p₄, name, rfl⟩ := named
  obtain ⟨r, sharp, name⟩ := mem_ways_seq.1 name
  have at_sharp : Plain isHeadChar (.opt (Shape.char '#')) := by
    refine ⟨fun c same => ?_, trivial⟩
    rw [beq_iff_eq.1 same]
    rfl
  obtain ⟨r', first, more⟩ := mem_ways_seq.1 name
  obtain ⟨w₄, took₄, each₄⟩ := at_sharp.took sharp
  obtain ⟨c, took₅, starts⟩ := took_one first
  obtain ⟨w₅, took₆, each₅⟩ := took_star more
  have named := took₄.trans (took₅.trans took₆)
  -- What follows.
  obtain ⟨t₁, took₇, is_optional⟩ := took_behindSpace_char optional
  obtain ⟨t₂, took₈, is_angle⟩ := took_behindSpace_angle angle
  obtain ⟨s, took₉, blank⟩ := took_star space
  obtain ⟨d, took₁₀, same⟩ := took_one paren
  rw [beq_iff_eq.1 same] at took₁₀
  have tail := took₇.trans (took₈.trans (took₉.trans took₁₀))
  refine ⟨w₀ ++ w₁ ++ w₂ ++ w₃, w₄ ++ ([c] ++ w₅), t₁ ++ (t₂ ++ (s ++ ['('])), q.rest, ?_, ?_, by simp,
    isHeadTail_of_parts is_optional is_angle blank, ?_, ?_⟩
  · rw [← tail.rest]
    exact head.rest.trans (congrArg _ named.rest)
  · have here := isNameRest_of_isPlainWord (isPlainWord_of_isNameStart starts)
    simp only [List.forall_mem_append, List.forall_mem_singleton]
    exact ⟨⟨⟨⟨each₀, each₁⟩, each₂⟩, each₃⟩, each₄, by simp [isHeadChar, here], fun c hc => by simp [isHeadChar, each₅ c hc]⟩
  · have place₃ : p₃.place = place + (w₀ ++ w₁ ++ w₂ ++ w₃).length := head.place
    rw [Match.group?, tail.groups, List.find?_cons_of_pos (by rfl), Option.map_some, named.place, place₃]
  · rw [tail.place, ← head.place]
    exact congrArg (· + _) named.place

theorem not_blank (letter : isSpace c = false) : " \t".toList.contains c = false := by
  have space : c ≠ ' ' := by
    rintro rfl
    cases letter
  have tab : c ≠ '\t' := by
    rintro rfl
    cases letter
  simpa using ⟨space, tab⟩

/-- The blanks behind a word are those up to the next letter. -/
theorem takes_blanks1 (letter : ∀ c ∈ rest.head?, isSpace c = false) : Takes size Shape.blanks1 [' '] rest [] := by
  have more : Takes size (.star (Shape.oneIn " \t")) [] rest [] :=
    .star_one nofun (fun c hc => not_blank (letter c hc)) (Nat.zero_le _)
  have first : Takes size (Shape.oneIn " \t") [' '] ([] ++ rest) [] := .one rfl _
  exact first.seq more rfl

/-- In front of a name, there is a word that can stand in front of a method. -/
theorem takes_methodWord {s : String} (is_word : s = "static" ∨ s = "async") (letter : ∀ c ∈ rest.head?, isSpace c = false) :
    Takes size (.seq (.anyOf (Shape.methodWords.map Pattern.text)) Shape.blanks1) (s.toList ++ [' ']) rest [] := by
  have word : Takes size (.anyOf (Shape.methodWords.map Pattern.text)) s.toList ([' '] ++ rest) [] := by
    rcases is_word with rfl | rfl
    · exact .anyOf_text (a := ["public", "private", "protected"]) (by decide) _
    · exact .anyOf_text (a := ["public", "private", "protected", "static"]) (by decide) _
  exact word.seq (takes_blanks1 letter) rfl

/-- Words, each with a space behind it. -/
def spaced (ws : List String) : List Char := ws.flatMap fun s => s.toList ++ [' ']

theorem takesUpTo_methodWords {ws : List String} {n : Nat} (are_words : ∀ s ∈ ws, s = "static" ∨ s = "async")
    (letter : ∀ c ∈ rest.head?, isSpace c = false)
    (dead : Dead size (.seq (.anyOf (Shape.methodWords.map Pattern.text)) Shape.blanks1) rest) (enough : ws.length ≤ n) :
    TakesUpTo size n (.seq (.anyOf (Shape.methodWords.map Pattern.text)) Shape.blanks1) (spaced ws) rest := by
  induction ws generalizing n with
  | nil => exact .none dead
  | cons s ws ih =>
    obtain ⟨here, more⟩ := List.forall_mem_cons.1 are_words
    cases n with
    | zero => simp at enough
    | succ n =>
      have letter' : ∀ c ∈ (spaced ws ++ rest).head?, isSpace c = false := by
        cases ws with
        | nil => exact letter
        | cons s' ws =>
          rcases more s' List.mem_cons_self with rfl | rfl
          all_goals
            rintro c ⟨⟩
            rfl
      exact .more (by simp) (takes_methodWord here letter') (ih more (Nat.le_of_succ_le_succ enough))

/-- A name has no such words in it. -/
theorem dead_methodWord {cs : List Char} (name : ∀ c ∈ cs, isPlainWord c = true) (r : List Char) :
    Dead size (.seq (.anyOf (Shape.methodWords.map Pattern.text)) Shape.blanks1) (cs ++ '(' :: r) := by
  have letters : Plain isPlainWord (.anyOf (Shape.methodWords.map Pattern.text)) := by
    refine plain_anyOf fun p hp => ?_
    obtain ⟨w, hw, rfl⟩ := List.mem_map.1 hp
    have letters : ∀ w ∈ Shape.methodWords, w.toList.all isPlainWord = true := by decide
    exact plain_text fun c hc => List.all_eq_true.1 (letters w hw) c hc
  refine Dead.behind letters fun w rest' whole each => ?_
  obtain ⟨y, rfl, rfl⟩ := exists_of_append_cons (fun paren => absurd (each _ paren) (by decide)) whole.symm
  refine Dead.seq (dead_one fun c hc => not_blank ?_) _
  cases y with
  | nil =>
    cases hc
    rfl
  | cons d y =>
    cases hc
    exact isSpace_of_isPlainWord (name _ (by simp))

/-- At the start of its line, the pattern of methods finds the name of a method. -/
theorem matchAt?_method {indent cs : List Char} {ws : List String} (is_indent : IsIndent indent)
    (are_words : ∀ s ∈ ws, s = "static" ∨ s = "async") (starts : Shape.isNameStart c = true) (more : ∀ d ∈ cs, isPlainWord d = true)
    (enough : indent.length + ws.length + cs.length ≤ size) (at_line : before = none ∨ before = some '\n') (place : Nat)
    (r : List Char) :
    Shape.method.matchAt? size before place (indent ++ (spaced ws ++ (c :: cs ++ '(' :: r))) =
      some ⟨place, place + indent.length + (spaced ws).length + cs.length + 2,
        [(1, place + indent.length + (spaced ws).length, place + indent.length + (spaced ws).length + cs.length + 1)]⟩ := by
  have is_word := isPlainWord_of_isNameStart starts
  have letter := isSpace_of_isPlainWord is_word
  have name : ∀ d ∈ c :: cs, isPlainWord d = true := List.forall_mem_cons.2 ⟨is_word, more⟩
  have ne {d : Char} (other : isPlainWord d = false) : c ≠ d := ne_of_isPlainWord is_word other
  have first : ∀ d ∈ (c :: cs ++ '(' :: r).head?, d = c := by
    rintro d ⟨⟩
    rfl
  have blanks : Takes size Shape.blanks indent (spaced ws ++ (c :: cs ++ '(' :: r)) [] := by
    refine .star_one (fun d hd => ?_) (fun d hd => ?_) (by omega)
    · rcases is_indent d hd with rfl | rfl <;> rfl
    · refine not_blank ?_
      cases ws with
      | nil =>
        rw [first d hd]
        exact letter
      | cons s ws =>
        rcases are_words s List.mem_cons_self with rfl | rfl
        all_goals
          cases hd
          rfl
  have words : Takes size (.star (.seq (.anyOf (Shape.methodWords.map Pattern.text)) Shape.blanks1)) (spaced ws)
      (c :: cs ++ '(' :: r) [] :=
    (takesUpTo_methodWords are_words (fun d hd => first d hd ▸ letter) (dead_methodWord name r) (by omega)).star
  have star : Takes size (.opt (.seq (Shape.char '*') Shape.blanks)) [] (c :: cs ++ '(' :: r) [] := by
    refine .opt_none (.seq (dead_one fun d hd => ?_) _)
    simpa [first d hd] using ne (d := '*') rfl
  have sharp : Takes size (.opt (Shape.char '#')) [] (c :: cs ++ '(' :: r) [] := by
    refine .opt_none (dead_one fun d hd => ?_)
    simpa [first d hd] using ne (d := '#') rfl
  have letters : Takes size (.star (.one Shape.isNameRest)) cs ('(' :: r) [] := by
    refine .star_one (fun d hd => isNameRest_of_isPlainWord (more d hd)) ?_ (by omega)
    rintro d ⟨⟩
    decide
  have initial : Takes size (.one Shape.isNameStart) [c] (cs ++ '(' :: r) [] := .one starts _
  have named := Takes.group 1 (sharp.seq (initial.seq letters rfl) rfl)
  have optional : Takes size (Shape.behindSpace (Shape.char '?')) [] ('(' :: r) [] := by
    refine .opt_none (dead_behind_blank (s := []) (plain_star fun _ => id) nofun rfl fun d rest hd => dead_one fun e he => ?_)
    cases he
    rcases hd with space | rfl
    · simpa using ne_of_isSpace space (d := '?') rfl
    · rfl
  have angle : Takes size (Shape.behindSpace (.inOrder [Shape.char '<', .star (Shape.notIn ">("), Shape.char '>'])) []
      ('(' :: r) [] := by
    refine .opt_none (dead_behind_blank (s := []) (plain_star fun _ => id) nofun rfl
      fun d rest hd => .seq (dead_one fun e he => ?_) _)
    cases he
    rcases hd with space | rfl
    · simpa using ne_of_isSpace space (d := '<') rfl
    · rfl
  have space : Takes size Shape.space [] ('(' :: r) [] := by
    refine .star_one nofun ?_ (Nat.zero_le _)
    rintro d ⟨⟩
    rfl
  have paren : Takes size (Shape.char '(') ['('] r [] := .one rfl r
  have tail := optional.seq (angle.seq (space.seq paren rfl) rfl) rfl
  have whole := blanks.seq (words.seq (star.seq (named.seq tail (by simp)) (by simp)) (by simp)) (by simp)
  have found := matchAt?_of_takes whole at_line place
  simp only [shift, List.length_append, List.length_cons, List.length_nil, List.map_cons, List.map_nil, List.append_nil,
    List.nil_append, Nat.zero_add] at found
  have text : indent ++ (spaced ws ++ (c :: cs ++ '(' :: r)) = (indent ++ (spaced ws ++ ([c] ++ cs ++ ['(']))) ++ r := by simp
  rw [text]
  refine Eq.trans found (congrArg some ?_)
  simp only [Match.mk.injEq, List.cons.injEq, Prod.mk.injEq, and_true, true_and]
  omega

end Codewright.Script
