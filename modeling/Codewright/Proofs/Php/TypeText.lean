import Codewright.Proofs.Php.CastWords
import Codewright.Proofs.Php.Names
import Codewright.Proofs.Php.ReadingRules

/-!
# The text of type declarations

A type has a text that is read back as the type, if it is a name, a name behind a question mark, at least two
alternatives with bars between them, or at least two names with ampersands between them.

* `TypeHint.IsCanonical` – the types of this form, given the names that may stand in them;
* `TypeHint.IsWritten` – an alternative may also be a single name in parentheses, unless the parentheses make a cast of it;
* `TypeHint.IsWritten.spells`, `Reads.typeHint` – the text spells the tokens, and the tokens are read back;
* `TypeHint.opening?` – the name with which the text of a type begins;
* `parseType_text` – so the text alone denotes the type.
-/

namespace Codewright.Php

open Text Source

/-! ## Canonical types -/

/-- An alternative of a union: a name, or at least two names with ampersands between them. -/
inductive TypeHint.IsAlternative (Ok : Name → Prop) : TypeHint → Prop
  | named {name : Name} (h : Ok name) : IsAlternative Ok (.named name)
  | intersection {names : List Name} (many : 2 ≤ names.length) (h : ∀ name ∈ names, Ok name) :
    IsAlternative Ok (.intersection (names.map .named))

/-- The types that are a name, a name that may be missing, or names joined in at most two levels. -/
inductive TypeHint.IsCanonical (Ok : Name → Prop) : TypeHint → Prop
  | named {name : Name} (h : Ok name) : IsCanonical Ok (.named name)
  | nullable {name : Name} (h : Ok name) : IsCanonical Ok (.nullable (.named name))
  | union {parts : List TypeHint} (many : 2 ≤ parts.length) (h : ∀ t ∈ parts, t.IsAlternative Ok) :
    IsCanonical Ok (.union parts)
  | intersection {names : List Name} (many : 2 ≤ names.length) (h : ∀ name ∈ names, Ok name) :
    IsCanonical Ok (.intersection (names.map .named))

/-- An alternative of a union: a name, or names with ampersands between them in parentheses. In parentheses of its own, a
name is no word of a cast. -/
inductive TypeHint.IsPart : TypeHint → Prop
  | named {name : Name} (h : IsName name) : IsPart (.named name)
  | group {names : List Name} (some_name : names ≠ []) (no_cast : ∀ name, names = [name] → ¬IsCastWord name)
    (h : ∀ name ∈ names, IsName name) : IsPart (.intersection (names.map .named))

/-- The types that are read back from their text. -/
inductive TypeHint.IsWritten : TypeHint → Prop
  | named {name : Name} (h : IsName name) : IsWritten (.named name)
  | nullable {name : Name} (h : IsName name) : IsWritten (.nullable (.named name))
  | union {parts : List TypeHint} (many : 2 ≤ parts.length) (h : ∀ t ∈ parts, t.IsPart) : IsWritten (.union parts)
  | intersection {names : List Name} (many : 2 ≤ names.length) (h : ∀ name ∈ names, IsName name) :
    IsWritten (.intersection (names.map .named))

/-- The tokens of parts with a token between each two. -/
def joinedFaces (separator : Face) : List (List Face) → List Face
  | [] => []
  | fs :: fss => fs ++ behindFaces separator fss

/-- Texts with a mark between each two. -/
def joinedChars (mark : Char) : List (List Char) → List Char
  | [] => []
  | cs :: css => cs ++ css.flatMap (mark :: ·)

/-- The token of a name. -/
def nameFaces (name : Name) : List Face := [(.ident, name)]

namespace TypeHint

/-- The tokens of a type that is a name. -/
def nameFaces : TypeHint → List Face
  | .named name => Php.nameFaces name
  | _ => []

/-- The tokens of an alternative of a union. -/
def partFaces : TypeHint → List Face
  | .named name => Php.nameFaces name
  | .intersection parts =>
    (.openParen, "(") :: (joinedFaces (.amp, "&") (parts.map nameFaces) ++ [(.closeParen, ")")])
  | _ => []

/-- The tokens of a type. -/
def faces : TypeHint → List Face
  | .named name => Php.nameFaces name
  | .nullable inner => (.question, "?") :: inner.nameFaces
  | .union parts => joinedFaces (.pipe, "|") (parts.map partFaces)
  | .intersection parts => joinedFaces (.amp, "&") (parts.map nameFaces)

mutual

/-- The names in the type, from left to right. -/
def names : TypeHint → List Name
  | .named name => [name]
  | .nullable inner => inner.names
  | .union parts => namesOf parts
  | .intersection parts => namesOf parts

/-- The names in the types, from left to right. -/
def namesOf : List TypeHint → List Name
  | [] => []
  | t :: ts => t.names ++ namesOf ts

end

@[simp] theorem namesOf_named (names : List Name) : namesOf (names.map .named) = names := by
  induction names with
  | nil => rfl
  | cons name names ih => simp [namesOf, TypeHint.names, ih]

/-- The name with which the text of the type begins, if no mark stands in front of it. -/
def opening? : TypeHint → Option Name
  | .named name => some name
  | .union (.named name :: _) => some name
  | .intersection parts => (namesOf parts).head?
  | .nullable _ | .union _ => none

end TypeHint

/-! ## Spelled tokens -/

theorem toList_intersectionText (names : List Name) :
    (intersectionText (names.map .named)).toList = joinedChars '&' (names.map String.toList) := by
  induction names with
  | nil => rfl
  | cons name names ih =>
    cases names with
    | nil => simp [intersectionText, TypeHint.text, joinedChars]
    | cons name' names =>
      rw [List.map_cons, List.map_cons, intersectionText, ← List.map_cons, String.toList_append, ih]
      · simp [TypeHint.text, joinedChars]
      · simp

theorem toList_unionText (parts : List TypeHint) :
    (unionText parts).toList = joinedChars '|' (parts.map fun t => (unionPartText t).toList) := by
  induction parts with
  | nil => rfl
  | cons t ts ih =>
    cases ts with
    | nil => simp [unionText, joinedChars]
    | cons t' ts =>
      rw [unionText, String.toList_append, ih]
      · simp [joinedChars]
      · simp

namespace Lexer

/-- In front of whatever does not go on with a name, the characters are the tokens. -/
def SpellsName (cs : List Char) (fs : List Face) : Prop := ∀ rest, EndsName rest → Spells cs fs rest

/-- The characters that would make longer marks of those in a type. -/
def typeMarks : List Char := ['|', '&', '=', '?', '-', '>']

/-- Nothing that would make a longer mark begins the text. -/
def OpensType (cs : List Char) : Prop := ∀ rest, headIs typeMarks.contains (cs ++ rest) = false

theorem OpensType.headIs_eq_false {cs : List Char} (h : OpensType cs) {p : Char → Bool}
    (sub : ∀ c, p c = true → c ∈ typeMarks) (rest : List Char) : headIs p (cs ++ rest) = false := by
  have no_mark := h rest
  cases chars : cs ++ rest with
  | nil => rfl
  | cons c ds =>
    rw [chars] at no_mark
    change p c = false
    change typeMarks.contains c = false at no_mark
    cases hc : p c with
    | false => rfl
    | true =>
      rw [List.contains_iff_mem.2 (sub c hc)] at no_mark
      cases no_mark

theorem IsName.opensType {name : Name} (h : IsName name) : OpensType name.toList := by
  intro rest
  obtain ⟨c, cs, chars, -, start, -⟩ := IsName.exists_cons h
  rw [chars]
  change typeMarks.contains c = false
  cases mark : typeMarks.contains c with
  | false => rfl
  | true =>
    have no_start : typeMarks.all (fun d => !(isIdentStart d || d == '\\')) = true := by decide
    have other := List.all_eq_true.1 no_start c (List.contains_iff_mem.1 mark)
    rw [Bool.not_eq_true', Bool.or_eq_false_iff] at other
    rw [other.1, other.2] at start
    cases start

/-- Parts with a mark between each two. -/
theorem SpellsName.joined {mark : Char} {sep : Face} {css : List (List Char)} {fss : List (List Face)}
    (between : ∀ {b fs rest}, headIs (longerMarks mark).contains (b ++ rest) = false → Spells b fs rest →
      Spells (mark :: b) (sep :: fs) rest)
    (sub : longerMarks mark ⊆ typeMarks) (ends : ∀ rest, EndsName (mark :: rest))
    (parts : List.Forall₂ SpellsName css fss) (opens : ∀ cs ∈ css, OpensType cs) :
    SpellsName (joinedChars mark css) (joinedFaces sep fss) := by
  have behind {css fss} (parts : List.Forall₂ SpellsName css fss) (opens : ∀ cs ∈ css, OpensType cs) (rest : List Char)
      (stop : EndsName rest) : Spells (css.flatMap (mark :: ·)) (behindFaces sep fss) rest ∧
        EndsName (css.flatMap (mark :: ·) ++ rest) := by
    induction parts with
    | nil => exact ⟨.nil rest, stop⟩
    | @cons cs fs css fss first _ ih =>
      obtain ⟨others, stop'⟩ := ih fun cs hcs => opens cs (by simp [hcs])
      refine ⟨?_, ends _⟩
      rw [List.flatMap_cons, behindFaces_cons, List.cons_append]
      refine between ?_ ((first _ stop').append others)
      rw [List.append_assoc]
      exact (opens cs (by simp)).headIs_eq_false (fun _ hc => sub (List.contains_iff_mem.1 hc)) _
  intro rest stop
  cases parts with
  | nil => exact .nil rest
  | @cons cs fs css fss first others =>
    obtain ⟨spelled, stop'⟩ := behind others (fun cs hcs => opens cs (by simp [hcs])) rest stop
    exact (first _ stop').append spelled

theorem SpellsName.names {names : List Name} (h : ∀ name ∈ names, IsName name) :
    SpellsName (joinedChars '&' (names.map String.toList)) (joinedFaces (.amp, "&") (names.map nameFaces)) := by
  refine .joined Spells.amp (by decide) (fun _ => rfl) ?parts ?opens
  case parts =>
    exact List.forall₂_map_left_iff.2 <| List.forall₂_map_right_iff.2 <| List.forall₂_same.2 fun name hn _ stop =>
      IsName.spells (h name hn) stop
  case opens =>
    rintro _ member
    obtain ⟨name, hn, rfl⟩ := List.mem_map.1 member
    exact IsName.opensType (h name hn)

/-- Something other than letters and blanks keeps a parenthesis from opening a cast. -/
theorem OpensNoCast.of_mem {cs : List Char} {c : Char} (member : c ∈ cs) (other : isCastChar c = false)
    (no_close : ∀ d ∈ cs, d ≠ ')') (rest : List Char) : OpensNoCast (cs ++ rest) := by
  obtain ⟨front, back, rfl⟩ := List.append_of_mem member
  rw [List.append_assoc]
  exact .append (fun d hd => no_close d (by simp [hd])) (.cons other (no_close c (by simp)) _)

/-- Between parentheses, a name that is no word of a cast stays a name. -/
theorem castShape?_name {name : Name} (h : IsName name) (no_cast : ¬IsCastWord name) (rest : List Char) :
    castShape? (name.toList ++ ')' :: rest) = none := by
  by_cases letters : ∀ c ∈ name.toList, c.isAlpha = true
  · obtain ⟨c, cs, chars, -, -, -⟩ := IsName.exists_cons h
    have before : spanLength isBlank (name.toList ++ ')' :: rest) = 0 := by
      have : isBlank c = false := no_isBlank (letters c (by simp [chars]))
      simp [spanLength, chars, this]
    have word : (name.toList ++ ')' :: rest).takeWhile Char.isAlpha = name.toList := by
      rw [List.takeWhile_append_of_pos letters]
      simp
    have no_word : (casts.find? fun p => asciiLower name == p.1) = none := by
      rw [List.find?_eq_none]
      intro p member same
      exact no_cast ⟨p, member, by simpa using same⟩
    simp [castShape?, before, word, no_word]
  · push Not at letters
    obtain ⟨c, member, no_letter⟩ := letters
    have no_blank : isBlank c = false := by
      have in_name := IsName.forall_mem h c member
      cases blank : isBlank c with
      | false => rfl
      | true =>
        simp only [isBlank, Bool.or_eq_true, beq_iff_eq] at blank
        rcases blank with rfl | rfl <;> cases in_name
    refine castShape?_eq_none (.of_mem member (by simpa [isCastChar, no_blank] using no_letter) ?_ _)
    rintro d hd rfl
    exact IsName.not_mem h (c := ')') (by decide) hd

/-- A name in front of something that is neither letter nor blank keeps a parenthesis from opening a cast. -/
theorem IsName.opensNoCast {name : Name} (h : IsName name) {rest : List Char} (tail : OpensNoCast rest) :
    OpensNoCast (name.toList ++ rest) :=
  .append (fun _ hc same => IsName.not_mem h (c := ')') (by decide) (same ▸ hc)) tail

theorem opensNoCast_joined {mark : Char} (other : isCastChar mark = false) (no_close : mark ≠ ')') {names : List Name}
    (many : 2 ≤ names.length) (h : ∀ name ∈ names, IsName name) (rest : List Char) :
    OpensNoCast (joinedChars mark (names.map String.toList) ++ rest) := by
  match names, many with
  | name :: name' :: names, _ =>
    simp only [List.map_cons, joinedChars, List.flatMap_cons, List.append_assoc, List.cons_append]
    exact IsName.opensNoCast (h name (by simp)) (.cons other no_close _)

end Lexer

namespace TypeHint

variable {τ : TypeHint} {Ok : Name → Prop}

theorem IsPart.spells (h : τ.IsPart) : Lexer.SpellsName (unionPartText τ).toList τ.partFaces := by
  cases h with
  | named h => exact fun _ stop => Lexer.IsName.spells h stop
  | @group names some_name no_cast h =>
    intro rest stop
    have text : (unionPartText (.intersection (names.map .named))).toList =
        '(' :: (joinedChars '&' (names.map String.toList) ++ [')']) := by
      simp [unionPartText, toList_intersectionText]
    have faces : partFaces (.intersection (names.map .named)) =
        (.openParen, "(") :: (joinedFaces (.amp, "&") (names.map Php.nameFaces) ++ [(.closeParen, ")")]) := by
      simp [partFaces, Function.comp_def, nameFaces]
    rw [text, faces]
    have inner := Lexer.SpellsName.names h ([')'] ++ rest) rfl
    refine .mark (Lexer.lexemeAt?_openParen ?_) (inner.append (.closeParen (.nil rest)))
    rw [List.append_assoc]
    match names, some_name with
    | [name], _ =>
      simpa [joinedChars] using Lexer.castShape?_name (h name (by simp)) (no_cast name rfl) rest
    | name :: name' :: names, _ =>
      exact Lexer.castShape?_eq_none (Lexer.opensNoCast_joined (by decide) (by decide) (by simp) h _)

theorem IsPart.opensType (h : τ.IsPart) : Lexer.OpensType (unionPartText τ).toList := by
  cases h with
  | named h => exact Lexer.IsName.opensType h
  | group _ _ _ =>
    intro rest
    simp [unionPartText, headIs, Lexer.typeMarks]

/-- The text of a type spells its tokens. -/
theorem IsWritten.spells (h : τ.IsWritten) : Lexer.SpellsName τ.text.toList τ.faces := by
  cases h with
  | named h => exact fun _ stop => Lexer.IsName.spells h stop
  | @nullable name h =>
    intro rest stop
    have text : (TypeHint.nullable (.named name)).text.toList = '?' :: name.toList := by simp [TypeHint.text]
    rw [text]
    refine .question ?_ ?_ (Lexer.IsName.spells h stop)
    · exact (Lexer.IsName.opensType h).headIs_eq_false (fun _ hc =>
        (show Lexer.longerMarks '?' ⊆ Lexer.typeMarks by decide) (List.contains_iff_mem.1 hc)) rest
    · exact (Lexer.IsName.opensType h).headIs_eq_false (fun c hc => by rw [beq_iff_eq.1 hc]; decide) rest
  | @union parts many h =>
    rw [TypeHint.text, toList_unionText, TypeHint.faces]
    refine .joined Lexer.Spells.pipe (by decide) (fun _ => rfl) ?parts ?opens
    case parts =>
      exact List.forall₂_map_left_iff.2 <| List.forall₂_map_right_iff.2 <|
        List.forall₂_same.2 fun t ht => (h t ht).spells
    case opens =>
      rintro _ member
      obtain ⟨t, ht, rfl⟩ := List.mem_map.1 member
      exact (h t ht).opensType
  | @intersection names many h =>
    have faces : TypeHint.faces (.intersection (names.map .named)) =
        joinedFaces (.amp, "&") (names.map Php.nameFaces) := by
      simp [TypeHint.faces, Function.comp_def, nameFaces]
    rw [TypeHint.text, toList_intersectionText, faces]
    exact Lexer.SpellsName.names h

/-- A type keeps a parenthesis in front of it from opening a cast. -/
theorem IsWritten.opensNoCast (h : τ.IsWritten) {rest : List Char} (tail : Lexer.OpensNoCast rest) :
    Lexer.OpensNoCast (τ.text.toList ++ rest) := by
  cases h with
  | named h => exact Lexer.IsName.opensNoCast h tail
  | nullable h =>
    rw [TypeHint.text, String.toList_append]
    exact .cons (by decide) (by decide) _
  | @union parts many h =>
    rw [TypeHint.text, toList_unionText]
    match parts, many with
    | t :: t' :: ts, _ =>
      have first := h t (by simp)
      simp only [List.map_cons, joinedChars, List.flatMap_cons, List.append_assoc, List.cons_append]
      cases first with
      | named is_name => exact Lexer.IsName.opensNoCast is_name (.cons (by decide) (by decide) _)
      | group _ _ _ =>
        rw [unionPartText, String.toList_append, String.toList_append]
        exact .cons (by decide) (by decide) _
  | intersection many h =>
    rw [TypeHint.text, toList_intersectionText]
    exact Lexer.opensNoCast_joined (by decide) (by decide) many h _

/-- A type begins with a mark or with a name. -/
theorem IsWritten.exists_face (h : τ.IsWritten) : ∃ f fs, τ.faces = f :: fs ∧
    (f.1 ∈ [TokenKind.question, .openParen] ∨ ∃ name, τ.opening? = some name ∧ f = (.ident, name)) := by
  cases h with
  | @named name h => exact ⟨_, _, rfl, .inr ⟨name, rfl, rfl⟩⟩
  | nullable _ => exact ⟨_, _, rfl, .inl (by decide)⟩
  | @union parts many h =>
    match parts, many with
    | t :: ts, _ =>
      cases h t (by simp) with
      | @named name ok => exact ⟨_, _, rfl, .inr ⟨name, rfl, rfl⟩⟩
      | group _ _ _ => exact ⟨_, _, rfl, .inl (by decide)⟩
  | @intersection names many h =>
    match names, many with
    | name :: names, _ => exact ⟨_, _, rfl, .inr ⟨name, rfl, rfl⟩⟩

theorem IsAlternative.isPart (h : τ.IsAlternative Ok) (imp : ∀ name, Ok name → IsName name) : τ.IsPart := by
  cases h with
  | named h => exact .named (imp _ h)
  | @intersection names many h =>
    refine .group (List.ne_nil_of_length_pos (by omega)) (fun name single => ?_) fun name hn => imp name (h name hn)
    rw [single, List.length_singleton] at many
    omega

/-- Canonical types are read back. -/
theorem IsCanonical.isWritten (h : τ.IsCanonical Ok) (imp : ∀ name, Ok name → IsName name) : τ.IsWritten := by
  cases h with
  | named h => exact .named (imp _ h)
  | nullable h => exact .nullable (imp _ h)
  | union many h => exact .union many fun t ht => (h t ht).isPart imp
  | intersection many h => exact .intersection many fun name hn => imp name (h name hn)

/-- The name with which a canonical type begins is one of those that may stand in it. -/
theorem IsCanonical.opening (h : τ.IsCanonical Ok) {name : Name} (opens : τ.opening? = some name) : Ok name := by
  cases h with
  | named h => exact Option.some.inj opens ▸ h
  | nullable _ => cases opens
  | @union parts many h =>
    match parts, many with
    | t :: ts, _ =>
      cases h t (by simp) with
      | named ok => exact Option.some.inj opens ▸ ok
      | intersection _ _ => cases opens
  | @intersection names many h =>
    rw [opening?, namesOf_named] at opens
    exact h name (List.mem_of_mem_head? opens)

end TypeHint

/-! ## Reading -/

namespace Reads

variable {rest : List Face} {n : Nat}

theorem typeAtomUpTo_named (name : Name) (n : Nat) (rest : List Face) :
    Reads (Parse.typeAtomUpTo (n + 1)) (nameFaces name) (.named name) rest :=
  nil_bind (tryToken_false (show TokenKind.ident ≠ .openParen by decide)) ((expectIdent "type").map TypeHint.named)

theorem typeAtomUpTo_group {names : List Name} (some_name : names ≠ []) (n : Nat) (rest : List Face) :
    Reads (Parse.typeAtomUpTo (n + 2)) (TypeHint.partFaces (.intersection (names.map .named)))
      (.intersection (names.map .named)) rest := by
  match names, some_name with
  | name :: names, _ =>
    have others : Reads (Parse.behind (Parse.tryToken .amp) (Parse.typeAtomUpTo (n + 1)))
        (behindFaces (.amp, "&") (names.map nameFaces)) (names.map .named) ((.closeParen, ")") :: rest) := by
      have items : List.Forall₂ (fun fs t => ∀ r, True → Reads (Parse.typeAtomUpTo (n + 1)) fs t r)
          (names.map nameFaces)
          (names.map .named) :=
        List.forall₂_map_left_iff.2 <| List.forall₂_map_right_iff.2 <| List.forall₂_same.2 fun name _ r _ =>
          typeAtomUpTo_named name n r
      exact behind items (fun _ _ _ => tryToken_true (by decide))
        (tryToken_false (by decide)) (fun _ => trivial) trivial
    have faces : TypeHint.partFaces (.intersection ((name :: names).map .named)) =
        (.openParen, "(") :: (nameFaces name ++
          (behindFaces (.amp, "&") (names.map nameFaces) ++ [(.closeParen, ")")])) := by
      simp [TypeHint.partFaces, joinedFaces, Function.comp_def, TypeHint.nameFaces]
    rw [faces]
    refine cons_bind (tryToken_true (by decide)) ?_
    exact bind (typeAtomUpTo_named name n _) (bind others (expect (by decide) (.pure _ _)))

/-- An alternative of a union is read as one atom. -/
theorem typeAtom {τ : TypeHint} (h : τ.IsPart) (rest : List Face) :
    Reads Parse.typeAtom τ.partFaces τ rest := by
  refine Reads.get_bind fun s hs => ?_
  cases h with
  | named _ => exact typeAtomUpTo_named _ _ rest
  | @group names some_name _ _ =>
    have unread : 0 < s.unread := by
      rw [← Stream.length_faces, hs]
      simp [TypeHint.partFaces]
    obtain ⟨n, more⟩ : ∃ n, s.unread = n + 1 := ⟨s.unread - 1, by omega⟩
    rw [more]
    exact typeAtomUpTo_group some_name n rest

end Reads

/-- Nothing goes on with a type here: an ampersand is one in front of a variable. -/
def EndsType (rest : List Face) : Prop :=
  ∃ f fs, rest = f :: fs ∧ f.1 ≠ .pipe ∧ (f.1 = .amp → ∃ f' fs', fs = f' :: fs' ∧ f'.1 ∉ [TokenKind.ident, .openParen])

theorem EndsType.of_kind {k : TokenKind} (h : k ∉ [TokenKind.pipe, .amp]) (text : String) (rest : List Face) :
    EndsType ((k, text) :: rest) := by
  simp only [List.mem_cons, List.not_mem_nil, or_false, not_or] at h
  exact ⟨_, _, rfl, h.1, fun same => absurd same h.2⟩

namespace Reads

variable {rest : List Face}

theorem tryIntersection_true {f f' : Face} (amp : f = (.amp, "&")) (start : f'.1 ∈ [TokenKind.ident, .openParen]) :
    Reads Parse.tryIntersection [f] true (f' :: rest) := by
  subst amp
  refine Reads.get_bind fun s hs => ?_
  have goes_on : (f'.1 == .ident || f'.1 == .openParen) = true := by simpa using start
  rw [Stream.at_eq hs, Stream.hasAt_one_eq hs, Stream.hasAt_one_eq hs, goes_on]
  exact tryToken_true (by decide)

theorem tryIntersection_false (ends : EndsType rest) : Reads Parse.tryIntersection [] false rest := by
  obtain ⟨f, fs, rfl, -, no_part⟩ := ends
  refine Reads.get_bind fun s hs => ?_
  have stops : (s.at_ .amp && (s.hasAt 1 .ident || s.hasAt 1 .openParen)) = false := by
    rw [Stream.at_eq hs]
    by_cases amp : f.1 = .amp
    · obtain ⟨f', fs', rfl, other⟩ := no_part amp
      rw [Stream.hasAt_one_eq hs, Stream.hasAt_one_eq hs]
      simpa [amp] using other
    · simp [amp]
  rw [stops]
  exact .pure false _

/-- What is read of a type behind its first atom. -/
def behindAtom (t : TypeHint) : Parse TypeHint := do
  let alternatives ← Parse.behind (Parse.tryToken .pipe) Parse.typeAtom
  if alternatives.isEmpty then
    let parts ← Parse.behind Parse.tryIntersection Parse.typeAtom
    if parts.isEmpty then return t else return .intersection (t :: parts)
  else return .union (t :: alternatives)

theorem no_question {t : TypeHint} (h : t.IsPart) (rest : List Face) :
    Reads (Parse.tryToken .question) [] false (t.partFaces ++ rest) := by
  cases h with
  | named _ => exact tryToken_false (show TokenKind.ident ≠ .question by decide)
  | group _ _ _ => exact tryToken_false (show TokenKind.openParen ≠ .question by decide)

/-- A type that begins with an atom and not with a question mark. -/
theorem typeHint_of_atom {t τ : TypeHint} {gs : List Face} (h : t.IsPart)
    (tail : Reads (behindAtom t) gs τ rest) :
    Reads Parse.typeHint (t.partFaces ++ gs) τ rest := by
  have question : Reads (Parse.tryToken .question) [] false (t.partFaces ++ gs ++ rest) := by
    rw [List.append_assoc]
    exact no_question h _
  exact nil_bind question (bind (typeAtom h _) tail)

/-- In front of something that does not go on with it, a type is read. -/
theorem typeHint {τ : TypeHint} (h : τ.IsWritten) (ends : EndsType rest) :
    Reads Parse.typeHint τ.faces τ rest := by
  have no_pipe : Reads (Parse.tryToken .pipe) [] false rest := by
    obtain ⟨f, fs, rfl, no_pipe, -⟩ := ends
    exact tryToken_false no_pipe
  cases h with
  | @named name ok =>
    have single : Reads (behindAtom (.named name)) [] (.named name) rest :=
      nil_bind (behind_nil no_pipe) (nil_bind (behind_nil (tryIntersection_false ends)) (.pure _ rest))
    have whole : Reads Parse.typeHint (nameFaces name ++ []) (.named name) rest := typeHint_of_atom (.named ok) single
    exact whole
  | nullable ok => exact cons_bind (tryToken_true (by decide)) ((typeAtom (.named ok) rest).map TypeHint.nullable)
  | @union parts many h =>
    match parts, many with
    | t :: t' :: ts, _ =>
      have items : List.Forall₂ (fun fs t => ∀ r, True → Reads Parse.typeAtom fs t r)
          ((t' :: ts).map TypeHint.partFaces) (t' :: ts) :=
        List.forall₂_map_left_iff.2 <| List.forall₂_same.2 fun t ht r _ => typeAtom (h t (by simp_all)) r
      have others : Reads (Parse.behind (Parse.tryToken .pipe) Parse.typeAtom)
          (behindFaces (.pipe, "|") ((t' :: ts).map TypeHint.partFaces)) (t' :: ts) rest :=
        behind items (fun _ _ _ => tryToken_true (by decide)) no_pipe (fun _ => trivial) trivial
      exact typeHint_of_atom (h t (by simp)) (bind_nil others (.pure _ rest))
  | @intersection names many h =>
    match names, many with
    | name :: name' :: names, _ =>
      have items : List.Forall₂ (fun fs t => ∀ r, True → Reads Parse.typeAtom fs t r)
          ((name' :: names).map nameFaces) ((name' :: names).map .named) :=
        List.forall₂_map_left_iff.2 <| List.forall₂_map_right_iff.2 <| List.forall₂_same.2 fun name hn r _ =>
          typeAtom (.named (h name (by simp_all))) r
      have others : Reads (Parse.behind Parse.tryIntersection Parse.typeAtom)
          (behindFaces (.amp, "&") ((name' :: names).map nameFaces)) ((name' :: names).map .named) rest := by
        refine behind items ?_ (tryIntersection_false ends) (fun _ => trivial) trivial
        intro fs member r
        obtain ⟨name, -, rfl⟩ := List.mem_map.1 member
        exact tryIntersection_true rfl (show TokenKind.ident ∈ _ by decide)
      have faces : TypeHint.faces (.intersection ((name :: name' :: names).map .named)) =
          TypeHint.partFaces (.named name) ++ behindFaces (.amp, "&") ((name' :: names).map nameFaces) := by
        simp [TypeHint.faces, joinedFaces, Function.comp_def, TypeHint.nameFaces, TypeHint.partFaces]
      rw [faces]
      refine typeHint_of_atom (.named (h name (by simp))) (nil_bind (behind_nil (tryToken_false ?_)) ?_)
      · simp
      · exact bind_nil others (.pure _ rest)

end Reads

/-- The text of a type denotes the type. -/
theorem parseType_text {τ : TypeHint} (h : τ.IsWritten) : parseType τ.text = .ok τ := by
  have spelled : Lexer.Spells τ.text.toList τ.faces [] := h.spells [] rfl
  obtain ⟨ts, tokens, faces⟩ := Lexer.tokenize_openTag spelled
  obtain ⟨f, fs, first, start⟩ := h.exists_face
  have code : f.1 ∉ [TokenKind.openTag, .closeTag] := by
    rcases start with mark | ⟨name, -, rfl⟩
    · exact (show ∀ k ∈ [TokenKind.question, .openParen], k ∉ [TokenKind.openTag, .closeTag] by decide) f.1 mark
    · simp
  have read := Reads.typeHint h (.of_kind (k := .eof) (by decide) "" [])
  rw [first] at read faces
  obtain ⟨s', result, -⟩ := Reads.standalone code read (Stream.ofTokens ts) (by rw [Stream.faces]; exact faces)
  rw [parseType, tokens]
  change (Parse.standalone Parse.typeHint (Stream.ofTokens ts)).map (·.1) = .ok τ
  rw [result]
  rfl

end Codewright.Php
