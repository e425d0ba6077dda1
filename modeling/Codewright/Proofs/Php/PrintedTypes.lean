import Codewright.Proofs.Php.PlainStatements
import Codewright.Proofs.Php.TypeText

/-!
# Types that are printed and read again

Groups in parentheses may be nested in a type that is read, but only the outer parentheses of an alternative are printed.
So the text of a type is that of a flat one, in which names are joined in at most two levels.

* `TypeHint.IsRead` – the types that are read: groups of groups, perhaps behind a question mark or with bars between them;
* `TypeHint.readBack` – the flat type with the same text;
* `TypeHint.IsKept` – the parentheses that are not printed are not needed, and those that are printed make no cast;
* `exists_parseType_text_iff` – exactly then the text of a type is read as a type that is printed in the same way.
-/

namespace Codewright.Php

open Text Source

namespace TypeHint

/-! ## What is read -/

/-- A name, or atoms with ampersands between them in parentheses. -/
inductive IsAtom : TypeHint → Prop
  | named {name : Name} (h : IsName name) : IsAtom (.named name)
  | group {parts : List TypeHint} (some_part : parts ≠ []) (h : ∀ t ∈ parts, t.IsAtom) : IsAtom (.intersection parts)

/-- An atom, an atom behind a question mark, or at least two atoms with bars between them. Atoms with ampersands between
them are an atom, too, as if they stood in parentheses. -/
inductive IsRead : TypeHint → Prop
  | atom {t : TypeHint} (h : t.IsAtom) : IsRead t
  | nullable {t : TypeHint} (h : t.IsAtom) : IsRead (.nullable t)
  | union {parts : List TypeHint} (many : 2 ≤ parts.length) (h : ∀ t ∈ parts, t.IsAtom) : IsRead (.union parts)

end TypeHint

namespace Makes

variable {s : Stream}

theorem isAtom_typeAtomUpTo (n : Nat) : ∀ {s}, Makes s (Parse.typeAtomUpTo n) TypeHint.IsAtom := by
  induction n with
  | zero => exact .failWith _
  | succ n ih =>
    refine (tryToken _).bind fun _ _ => .ite ?group ?name
    case group =>
      refine ih.bind fun first h => (behind ih (tryToken _)).bind fun rest hs => (expect _).bind fun _ _ => .pure ?_
      exact .group (List.cons_ne_nil _ _) (List.forall_mem_cons.2 ⟨h, hs⟩)
    case name => exact (expectName _).bind fun _ h => .pure (.named h)

theorem isAtom_typeAtom : Makes s Parse.typeAtom TypeHint.IsAtom := .get_bind (isAtom_typeAtomUpTo (s.unread + 1))

theorem isRead_typeHint : Makes s Parse.typeHint TypeHint.IsRead := by
  refine (tryToken _).bind fun _ _ => .ite (isAtom_typeAtom.bind fun _ h => .pure (.nullable h)) ?_
  refine isAtom_typeAtom.bind fun first h => (behind isAtom_typeAtom (tryToken _)).bind fun alternatives hs => ?_
  split
  · refine (behind isAtom_typeAtom tryIntersection).bind fun parts hs => .ite (.pure (.atom h)) (.pure ?_)
    exact .atom (.group (List.cons_ne_nil _ _) (List.forall_mem_cons.2 ⟨h, hs⟩))
  · next some_alternative =>
    refine .pure (.union ?_ (List.forall_mem_cons.2 ⟨h, hs⟩))
    rw [List.isEmpty_iff, ← List.length_eq_zero_iff] at some_alternative
    rw [List.length_cons]
    omega

end Makes

/-- What is read of a text is a type of groups. -/
theorem isRead_of_parseType {text : String} {τ : TypeHint} (h : parseType text = .ok τ) : τ.IsRead := by
  rw [parseType] at h
  cases tokens : tokenize ("<?php " ++ text) with
  | error _ =>
    rw [tokens] at h
    cases h
  | ok ts =>
    rw [tokens] at h
    have alone {s : Stream} : Makes s (Parse.standalone Parse.typeHint) TypeHint.IsRead :=
      (Makes.skipAll _).bind fun _ _ => Makes.isRead_typeHint.bind fun _ h => (Makes.skipAll _).bind fun _ _ =>
        (Makes.expect _).bind fun _ _ => .pure h
    obtain ⟨⟨x, s'⟩, made, rfl⟩ := exists_of_map_eq_ok h
    exact (alone (Stream.isSound_ofTokens (isSound_of_tokenize tokens)) x s' made).1

namespace TypeHint

variable {τ : TypeHint}

/-! ## The flat type -/

theorem mem_namesOf {parts : List TypeHint} {name : Name} :
    name ∈ namesOf parts ↔ ∃ t ∈ parts, name ∈ t.names := by
  induction parts with
  | nil => simp [namesOf]
  | cons t ts ih => simp [namesOf, ih]

theorem IsAtom.names_ne_nil (h : τ.IsAtom) : τ.names ≠ [] := by
  induction h with
  | named _ => exact List.cons_ne_nil _ _
  | @group parts some_part _ ih =>
    obtain ⟨t, ts, rfl⟩ := List.exists_cons_of_ne_nil some_part
    rw [names, namesOf]
    exact List.append_ne_nil_of_left_ne_nil (ih t (by simp)) _

theorem IsAtom.isName (h : τ.IsAtom) : ∀ name ∈ τ.names, IsName name := by
  induction h with
  | named h => simpa [names] using h
  | @group parts _ _ ih =>
    intro name member
    rw [names, mem_namesOf] at member
    obtain ⟨t, ht, member⟩ := member
    exact ih t ht name member

theorem intersectionText_cons_cons (t t' : TypeHint) (ts : List TypeHint) :
    intersectionText (t :: t' :: ts) = t.text ++ "&" ++ intersectionText (t' :: ts) := by
  rw [intersectionText]
  exact List.cons_ne_nil t' ts

theorem intersectionText_append {ts us : List TypeHint} (some_t : ts ≠ []) (some_u : us ≠ []) :
    intersectionText (ts ++ us) = intersectionText ts ++ "&" ++ intersectionText us := by
  obtain ⟨u, us, rfl⟩ := List.exists_cons_of_ne_nil some_u
  induction ts with
  | nil => exact absurd rfl some_t
  | cons t ts ih =>
    cases ts with
    | nil => exact intersectionText_cons_cons t u us
    | cons t' ts =>
      rw [List.cons_append, List.cons_append, intersectionText_cons_cons, ← List.cons_append, ih (List.cons_ne_nil _ _),
        intersectionText_cons_cons]
      simp [String.append_assoc]

/-- Of an atom, the names are printed with ampersands between them. -/
theorem IsAtom.text_eq (h : τ.IsAtom) : τ.text = intersectionText (τ.names.map .named) := by
  induction h with
  | named _ => rfl
  | @group parts some_part atoms ih =>
    rw [TypeHint.text, names]
    induction parts with
    | nil => exact absurd rfl some_part
    | cons t ts ih_parts =>
      rw [List.forall_mem_cons] at ih atoms
      cases ts with
      | nil => simpa [intersectionText, namesOf] using ih.1
      | cons t' ts =>
        have some_name : namesOf (t' :: ts) ≠ [] := by
          rw [namesOf]
          exact List.append_ne_nil_of_left_ne_nil (IsAtom.names_ne_nil (atoms.2 t' (by simp))) _
        rw [namesOf, List.map_append, intersectionText_append (by simpa using IsAtom.names_ne_nil atoms.1)
          (by simpa using some_name), ← ih.1, ← ih_parts (List.cons_ne_nil _ _) atoms.2 ih.2, intersectionText_cons_cons]

/-- The type that the names with ampersands between them denote. -/
def ofNames : List Name → TypeHint
  | [name] => .named name
  | names => .intersection (names.map .named)

theorem text_ofNames (ns : List Name) : (ofNames ns).text = intersectionText (ns.map .named) := by
  unfold ofNames
  split
  · rfl
  · rfl

/-- The flat alternative with the same text: its own parentheses are printed, those in it are not. -/
def partReadBack : TypeHint → TypeHint
  | .named name => .named name
  | t => .intersection (t.names.map .named)

/-- The flat type with the same text. -/
def readBack : TypeHint → TypeHint
  | .nullable inner => .nullable (ofNames inner.names)
  | .union parts => .union (parts.map partReadBack)
  | t => ofNames t.names

theorem IsAtom.unionPartText_eq (h : τ.IsAtom) : unionPartText τ.partReadBack = unionPartText τ := by
  cases h with
  | named _ => rfl
  | group some_part atoms =>
    have inner := (IsAtom.group some_part atoms).text_eq
    rw [TypeHint.text] at inner
    rw [partReadBack, unionPartText, unionPartText, inner]
    simp

theorem IsAtom.readBack_eq (h : τ.IsAtom) : τ.readBack = ofNames τ.names := by
  cases h <;> rfl

/-- The flat type has the same text. -/
theorem IsRead.text_readBack (h : τ.IsRead) : τ.readBack.text = τ.text := by
  cases h with
  | atom h => rw [h.readBack_eq, text_ofNames, ← h.text_eq]
  | nullable h => rw [readBack, TypeHint.text, TypeHint.text, text_ofNames, ← h.text_eq]
  | @union parts _ h =>
    rw [readBack, TypeHint.text, TypeHint.text, ← String.toList_inj, toList_unionText, toList_unionText, List.map_map]
    refine congrArg _ (List.map_congr_left fun t ht => ?_)
    exact congrArg String.toList (h t ht).unionPartText_eq

theorem opening?_ofNames (ns : List Name) : (ofNames ns).opening? = ns.head? := by
  unfold ofNames
  split
  · rfl
  · rw [opening?, namesOf_named]

/-- It begins in the same way. -/
theorem IsRead.opening?_readBack (h : τ.IsRead) : τ.readBack.opening? = τ.opening? := by
  cases h with
  | atom h =>
    rw [h.readBack_eq, opening?_ofNames]
    cases h <;> rfl
  | nullable _ => rfl
  | @union parts many h =>
    match parts, many with
    | t :: ts, _ => cases h t (by simp) <;> rfl

/-! ## Types whose text is read -/

/-- In parentheses of its own, a name is no word of a cast. -/
def IsKeptPart : TypeHint → Prop
  | .intersection parts => ∀ name ∈ namesOf parts, (namesOf parts).length = 1 → ¬IsCastWord name
  | .named _ | .nullable _ | .union _ => True

instance : (t : TypeHint) → Decidable t.IsKeptPart
  | .intersection parts => inferInstanceAs (Decidable (∀ name ∈ namesOf parts, _ → ¬IsCastWord name))
  | .named _ | .nullable _ | .union _ => .isTrue trivial

/-- Behind a question mark, where parentheses are not printed, stands a single name, and no alternative is a cast. -/
def IsKept : TypeHint → Prop
  | .nullable inner => inner.names.length = 1
  | .union parts => ∀ t ∈ parts, t.IsKeptPart
  | .named _ | .intersection _ => True

instance : (t : TypeHint) → Decidable t.IsKept
  | .nullable inner => inferInstanceAs (Decidable (inner.names.length = 1))
  | .union parts => inferInstanceAs (Decidable (∀ t ∈ parts, t.IsKeptPart))
  | .named _ | .intersection _ => .isTrue trivial

theorem IsAtom.isPart (h : τ.IsAtom) (kept : τ.IsKeptPart) : τ.partReadBack.IsPart := by
  cases h with
  | named h => exact .named h
  | @group parts some_part atoms =>
    have group := IsAtom.group some_part atoms
    refine .group group.names_ne_nil (fun name single => ?_) group.isName
    have alone : namesOf parts = [name] := single
    exact kept name (by simp [alone]) (by simp [alone])

theorem IsAtom.isWritten (h : τ.IsAtom) : (ofNames τ.names).IsWritten := by
  have names := h.isName
  match ns : τ.names with
  | [] => exact absurd ns h.names_ne_nil
  | [name] => exact .named (names name (by simp [ns]))
  | _ :: _ :: _ => exact .intersection (by simp) (ns ▸ names)

/-- If the parentheses that are not printed are not needed, the flat type is read back from its text. -/
theorem IsRead.isWritten_readBack (h : τ.IsRead) (kept : τ.IsKept) : τ.readBack.IsWritten := by
  cases h with
  | atom h => exact h.readBack_eq ▸ h.isWritten
  | nullable h =>
    obtain ⟨name, single⟩ := List.length_eq_one_iff.1 kept
    rw [readBack, single]
    exact .nullable (h.isName name (by simp [single]))
  | union many h =>
    refine .union (by simpa using many) ?_
    simp only [List.mem_map, forall_exists_index, and_imp, forall_apply_eq_imp_iff₂]
    exact fun t ht => (h t ht).isPart (kept t ht)

end TypeHint

/-- The text of such a type is read again, and printed in the same way. -/
theorem exists_parseType_text {τ : TypeHint} (h : τ.IsRead) (kept : τ.IsKept) :
    ∃ τ', parseType τ.text = .ok τ' ∧ τ'.text = τ.text :=
  ⟨τ.readBack, h.text_readBack ▸ parseType_text (h.isWritten_readBack kept), h.text_readBack⟩

/-! ## Types whose text is not read -/

/-- The first entry that does not satisfy what not all entries do. -/
theorem exists_first_not {α : Type} {P : α → Prop} {xs : List α} (h : ¬∀ x ∈ xs, P x) :
    ∃ front x back, xs = front ++ x :: back ∧ (∀ y ∈ front, P y) ∧ ¬P x := by
  induction xs with
  | nil => exact absurd (List.forall_mem_nil P) h
  | cons x xs ih =>
    by_cases first : P x
    · obtain ⟨front, y, back, rfl, before, here⟩ := ih fun others => h (List.forall_mem_cons.2 ⟨first, others⟩)
      exact ⟨x :: front, y, back, rfl, List.forall_mem_cons.2 ⟨first, before⟩, here⟩
    · exact ⟨[], x, xs, rfl, List.forall_mem_nil P, first⟩

namespace Fails

variable {f : Face} {fs : List Face}

theorem typeAtom (other : f.1 ∉ [TokenKind.openParen, .ident]) : Fails Parse.typeAtom (f :: fs) := by
  simp only [List.mem_cons, List.not_mem_nil, or_false, not_or] at other
  exact get_bind fun s _ => nil_bind (Reads.tryToken_false other.1) (expectIdent _ other.2).bind

/-- A type that does not begin with a question mark is no type if its first atom is none. -/
theorem typeHint_of_first (other : f.1 ∉ [TokenKind.question, .openParen, .ident]) : Fails Parse.typeHint (f :: fs) := by
  rw [List.mem_cons, not_or] at other
  exact nil_bind (Reads.tryToken_false other.1) (typeAtom other.2).bind

/-- It is no type either if an alternative is no atom. -/
theorem typeHint_of_alternative {t : TypeHint} {ts : List TypeHint} (h : ∀ u ∈ t :: ts, u.IsPart)
    (other : f.1 ∉ [TokenKind.openParen, .ident]) :
    Fails Parse.typeHint (t.partFaces ++ (behindFaces (.pipe, "|") (ts.map TypeHint.partFaces) ++ (.pipe, "|") :: f :: fs)) := by
  rw [List.forall_mem_cons] at h
  have items : List.Forall₂ (fun fs u => ∀ r, Reads Parse.typeAtom fs u r) (ts.map TypeHint.partFaces) ts :=
    List.forall₂_map_left_iff.2 <| List.forall₂_same.2 fun u hu r => Reads.typeAtom (h.2 u hu) r
  have alternatives : Fails (Parse.behind (Parse.tryToken .pipe) Parse.typeAtom)
      (behindFaces (.pipe, "|") (ts.map TypeHint.partFaces) ++ (.pipe, "|") :: f :: fs) :=
    behind items (fun _ => Reads.tryToken_true (by decide)) (typeAtom other)
  exact nil_bind (Reads.no_question h.1 _) (bind_of_reads (Reads.typeAtom h.1 _) alternatives.bind)

/-- Wherever it stands, an alternative that is no atom is none of a type. -/
theorem typeHint_joined {front : List TypeHint} (h : ∀ t ∈ front, t.IsPart) (fss : List (List Face)) (rest : List Face)
    (other : f.1 ∉ [TokenKind.question, .openParen, .ident]) :
    Fails Parse.typeHint (joinedFaces (.pipe, "|") (front.map TypeHint.partFaces ++ [f] :: fss) ++ rest) := by
  cases front with
  | nil => exact typeHint_of_first other
  | cons t ts =>
    rw [List.mem_cons, not_or] at other
    have fails := @typeHint_of_alternative f (behindFaces (.pipe, "|") fss ++ rest) t ts h other.2
    simpa [joinedFaces, behindFaces] using fails

end Fails

/-- A text whose tokens do not stand for a type alone denotes no type. -/
theorem parseType_ne_ok {text : String} {f : Face} {fs : List Face} (spelled : Lexer.Spells text.toList (f :: fs) [])
    (h : Fails (Parse.standalone Parse.typeHint) ((.openTag, "<?php") :: f :: (fs ++ [eofFace]))) (τ : TypeHint) :
    parseType text ≠ .ok τ :=
  runOn_ne_ok spelled (fun _ => h) τ

namespace TypeHint

variable {τ : TypeHint}

/-- Behind a question mark, names with ampersands between them do not stand for a type. -/
theorem not_parseType_nullable {ns : List Name} (many : 2 ≤ ns.length) (h : ∀ name ∈ ns, IsName name) (τ : TypeHint) :
    parseType (TypeHint.nullable (.intersection (ns.map .named))).text ≠ .ok τ := by
  match ns, many with
  | name :: name' :: ns, _ =>
    have opens := Lexer.IsName.opensType (h name (by simp))
    have text : (TypeHint.nullable (.intersection ((name :: name' :: ns).map .named))).text.toList =
        '?' :: joinedChars '&' ((name :: name' :: ns).map String.toList) := by
      rw [TypeHint.text, TypeHint.text, String.toList_append, toList_intersectionText]
      rfl
    have spelled : Lexer.Spells (TypeHint.nullable (.intersection ((name :: name' :: ns).map .named))).text.toList
        ((.question, "?") :: joinedFaces (.amp, "&") ((name :: name' :: ns).map Php.nameFaces)) [] := by
      rw [text]
      refine .question ?_ ?_ (Lexer.SpellsName.names h [] rfl)
      · rw [List.map_cons, joinedChars, List.append_assoc]
        exact opens.headIs_eq_false (fun _ hc =>
          (show Lexer.longerMarks '?' ⊆ Lexer.typeMarks by decide) (List.contains_iff_mem.1 hc)) _
      · rw [List.map_cons, joinedChars, List.append_assoc]
        exact opens.headIs_eq_false (fun c hc => by rw [beq_iff_eq.1 hc]; decide) _
    refine parseType_ne_ok spelled (Fails.standalone (by decide) (.inr ?_)) τ
    refine ⟨[(.question, "?"), (.ident, name)], .nullable (.named name), (.amp, "&"), _, rfl, ?_, by decide, by decide⟩
    exact Reads.cons_bind (Reads.tryToken_true (by decide))
      ((Reads.typeAtom (.named (h name (by simp))) _).map TypeHint.nullable)

/-- The tokens of a printed alternative: those of the flat one, or those of a cast. -/
theorem exists_partFaces (t : TypeHint) : ∃ fs, t.IsAtom →
    Lexer.SpellsName (unionPartText t).toList fs ∧ (t.IsKeptPart → fs = t.partReadBack.partFaces) ∧
      (¬t.IsKeptPart → ∃ type, fs = [(.cast, type)]) := by
  by_cases kept : t.IsKeptPart
  · refine ⟨t.partReadBack.partFaces, fun h => ⟨?_, fun _ => rfl, fun lost => absurd kept lost⟩⟩
    rw [← h.unionPartText_eq]
    exact (h.isPart kept).spells
  · by_cases atom : t.IsAtom
    · cases atom with
      | named _ => exact absurd trivial kept
      | @group parts some_part atoms =>
        simp only [IsKeptPart, not_forall, not_not] at kept
        obtain ⟨name, member, single, cast⟩ := kept
        obtain ⟨name', alone⟩ := List.length_eq_one_iff.1 single
        obtain rfl : name = name' := by simpa [alone] using member
        obtain ⟨type, spelled⟩ := Lexer.spells_castWord cast
        have text : (unionPartText (.intersection parts)).toList = '(' :: (name.toList ++ [')']) := by
          have inner := (IsAtom.group some_part atoms).text_eq
          rw [TypeHint.text, names, alone] at inner
          rw [unionPartText, inner]
          simp [intersectionText, TypeHint.text]
        refine ⟨[(.cast, type)], fun _ => ⟨?_, fun kept => absurd cast (kept name member single), fun _ => ⟨type, rfl⟩⟩⟩
        rw [text]
        exact fun rest _ => spelled rest
    · exact ⟨[], fun h => absurd h atom⟩

theorem IsAtom.opensType (h : τ.IsAtom) : Lexer.OpensType (unionPartText τ).toList := by
  cases h with
  | named h => exact Lexer.IsName.opensType h
  | group _ _ =>
    intro rest
    simp [unionPartText, headIs, Lexer.typeMarks]

theorem IsPart.exists_face (h : τ.IsPart) : ∃ f fs, τ.partFaces = f :: fs ∧ f.1 ∉ [TokenKind.openTag, .closeTag] := by
  cases h with
  | named _ => exact ⟨_, _, rfl, by simp⟩
  | group _ _ _ => exact ⟨_, _, rfl, by simp⟩

/-- The tokens of alternatives with bars between them, from those of each. -/
theorem spells_union {parts : List TypeHint} (h : ∀ t ∈ parts, t.IsAtom) {faces : TypeHint → List Face}
    (spelled : ∀ t ∈ parts, Lexer.SpellsName (unionPartText t).toList (faces t)) :
    Lexer.Spells (TypeHint.union parts).text.toList (joinedFaces (.pipe, "|") (parts.map faces)) [] := by
  rw [TypeHint.text, toList_unionText]
  refine Lexer.SpellsName.joined Lexer.Spells.pipe (by decide) (fun _ => rfl) ?parts ?opens [] rfl
  case parts =>
    exact List.forall₂_map_left_iff.2 <| List.forall₂_map_right_iff.2 <| List.forall₂_same.2 spelled
  case opens =>
    rintro _ member
    obtain ⟨t, ht, rfl⟩ := List.mem_map.1 member
    exact (h t ht).opensType

theorem exists_face_joined {front : List TypeHint} (h : ∀ t ∈ front, t.IsPart) {f : Face} (fss : List (List Face))
    (code : f.1 ∉ [TokenKind.openTag, .closeTag]) :
    ∃ g gs, joinedFaces (.pipe, "|") (front.map partFaces ++ [f] :: fss) = g :: gs ∧
      g.1 ∉ [TokenKind.openTag, .closeTag] := by
  cases front with
  | nil => exact ⟨f, _, rfl, code⟩
  | cons t ts =>
    obtain ⟨g, gs, first, code⟩ := (h t (by simp)).exists_face
    exact ⟨g, gs ++ _, by rw [List.map_cons, List.cons_append, joinedFaces, first]; rfl, code⟩

/-- Alternatives with bars between them do not stand for a type if one of them makes a cast. -/
theorem not_parseType_union {parts : List TypeHint} (h : ∀ t ∈ parts, t.IsAtom) (lost : ¬∀ t ∈ parts, t.IsKeptPart)
    (τ : TypeHint) : parseType (TypeHint.union parts).text ≠ .ok τ := by
  choose faces spec using exists_partFaces
  have spelled := spells_union h fun t ht => (spec t (h t ht)).1
  -- up to the first cast, the alternatives are read
  obtain ⟨front, t, back, rfl, kept, not_kept⟩ := exists_first_not lost
  obtain ⟨type, cast⟩ := (spec t (h t (by simp))).2.2 not_kept
  have atoms (u : TypeHint) (hu : u ∈ front) : u.IsAtom := h u (List.mem_append_left _ hu)
  have flat : front.map faces = (front.map partReadBack).map partFaces := by
    rw [List.map_map]
    exact List.map_congr_left fun u hu => (spec u (atoms u hu)).2.1 (kept u hu)
  have parts : ∀ u ∈ front.map partReadBack, u.IsPart := by
    simp only [List.mem_map, forall_exists_index, and_imp, forall_apply_eq_imp_iff₂]
    exact fun u hu => (atoms u hu).isPart (kept u hu)
  rw [List.map_append, List.map_cons, flat, cast] at spelled
  have fails := Fails.typeHint_joined (f := (.cast, type)) parts (back.map faces) [eofFace] (by simp)
  obtain ⟨f, fs, first, code⟩ := exists_face_joined (f := (.cast, type)) parts (back.map faces) (by simp)
  rw [first] at spelled fails
  exact parseType_ne_ok spelled (Fails.standalone code (.inl fails)) τ

end TypeHint

/-- The text of a type that is read from some text is read again, as a type that is printed in the same way, if and only
if it has all parentheses that are needed and none that makes a cast. -/
theorem exists_parseType_text_iff {text : String} {τ : TypeHint} (h : parseType text = .ok τ) :
    (∃ τ', parseType τ.text = .ok τ' ∧ τ'.text = τ.text) ↔ τ.IsKept := by
  have is_read := isRead_of_parseType h
  refine ⟨?_, exists_parseType_text is_read⟩
  rintro ⟨τ', again, -⟩
  cases is_read with
  | atom atom => cases atom <;> exact trivial
  | @nullable inner atom =>
    by_contra lost
    have many : 2 ≤ inner.names.length := by
      have some_name := List.length_pos_iff.2 atom.names_ne_nil
      have other : inner.names.length ≠ 1 := lost
      omega
    have flat : (TypeHint.nullable inner).text = (TypeHint.nullable (.intersection (inner.names.map .named))).text := by
      rw [TypeHint.text, TypeHint.text, TypeHint.text, atom.text_eq]
    exact TypeHint.not_parseType_nullable many atom.isName τ' (flat ▸ again)
  | union _ atoms =>
    by_contra lost
    exact TypeHint.not_parseType_union atoms lost τ' again

/-- What holds of a result, checked by evaluation. -/
theorem exists_of_any_toOption {ε α : Type} {r : Except ε α} {p : α → Bool} (h : r.toOption.any p = true) :
    ∃ a, r = .ok a ∧ p a = true := by
  cases r with
  | error _ => cases h
  | ok a => exact ⟨a, rfl, h⟩

/-- Groups in an alternative are flattened in its parentheses; without them, behind a question mark, they are lost. -/
theorem exists_parseType_text_iff_groups :
    (∃ τ, parseType "((A)&(B&C))|null" = .ok τ ∧ ∃ τ', parseType τ.text = .ok τ' ∧ τ'.text = τ.text) ∧
      ∃ τ, parseType "?(A&B)" = .ok τ ∧ ¬∃ τ', parseType τ.text = .ok τ' ∧ τ'.text = τ.text := by
  obtain ⟨τ, read, kept⟩ := exists_of_any_toOption (r := parseType "((A)&(B&C))|null")
    (p := fun τ => decide τ.IsKept) (by decide +kernel)
  obtain ⟨σ, read', lost⟩ := exists_of_any_toOption (r := parseType "?(A&B)")
    (p := fun τ => !decide τ.IsKept) (by decide +kernel)
  rw [Bool.not_eq_true', decide_eq_false_iff_not] at lost
  exact ⟨⟨τ, read, (exists_parseType_text_iff read).2 (of_decide_eq_true kept)⟩,
    ⟨σ, read', fun again => lost ((exists_parseType_text_iff read').1 again)⟩⟩

/-- What is printed of the type that the text denotes denotes a type, too, and that is printed in the same way. -/
def IsReadAgain (text : String) : Prop :=
  ∀ τ, parseType text = .ok τ → ∃ τ', parseType τ.text = .ok τ' ∧ τ'.text = τ.text

theorem not_isReadAgain_of_any {text : String}
    (h : ((parseType text).toOption.any fun τ => !(parseType τ.text).isOk) = true) : ¬IsReadAgain text := by
  obtain ⟨τ, read, lost⟩ := exists_of_any_toOption h
  intro all
  obtain ⟨τ', again, -⟩ := all τ read
  rw [again] at lost
  cases lost

/-- Not every type that is read is read again from its text: behind a question mark no parentheses are printed, and with
those around the single name of an alternative the name may be a cast. -/
theorem not_isReadAgain : ¬IsReadAgain "?(A&B)" ∧ ¬IsReadAgain "A|(\nint\n)" :=
  ⟨not_isReadAgain_of_any (by decide +kernel), not_isReadAgain_of_any (by decide +kernel)⟩

end Codewright.Php
