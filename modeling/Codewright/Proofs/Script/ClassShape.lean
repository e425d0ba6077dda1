import Codewright.Proofs.Script.MethodShape

/-!
# The patterns of declarations at a class

* `exists_matchAt?_cls` – at the start of a text, the pattern of classes finds the name and the parent of a class;
* `ClassHead` – a text that begins with words for an export and then `class`: no function and no import begins there.
-/

namespace Codewright.Script

open Text Pattern

variable {size place : Nat} {before : Option Char} {rest w s r t : List Char} {c d : Char} {m : Match} {p first second : Pattern}

/-! ## Classes -/

/-- Identifiers with dots between them. -/
def isDottedName (name : String) : Bool := (piecesOf '.' name).all isIdentifier

/-- A character that a name with dots may go on with. -/
def isDottedRest (c : Char) : Bool := isPlainWord c || c == '.'

/-- A text consists of the pieces between the occurrences of a character. -/
theorem exists_splitOn (sep : Char) (s : List Char) : ∃ p ps, splitOn sep s = p :: ps ∧ s = p ++ ps.flatMap fun q => sep :: q := by
  induction s with
  | nil => exact ⟨[], [], rfl, rfl⟩
  | cons c s ih =>
    obtain ⟨p, ps, pieces, whole⟩ := ih
    rw [splitOn]
    split_ifs with same
    · refine ⟨[], splitOn sep s, rfl, ?_⟩
      rw [pieces, List.flatMap_cons, same, List.nil_append, List.cons_append, ← whole]
    · rw [pieces]
      exact ⟨c :: p, ps, rfl, by rw [List.cons_append, ← whole]⟩

/-- A name with dots is a letter with word characters and dots behind it. -/
theorem exists_of_isDottedName {name : String} (h : isDottedName name = true) :
    ∃ c cs, name.toList = c :: cs ∧ Shape.isNameStart c = true ∧ ∀ d ∈ cs, isDottedRest d = true := by
  have pieces : ∀ p ∈ splitOn '.' name.toList, ∃ c cs, p = c :: cs ∧ Shape.isNameStart c = true ∧ ∀ d ∈ cs, isPlainWord d = true := by
    intro p hp
    have named := List.all_eq_true.1 h (String.ofList p) (List.mem_map_of_mem hp)
    have := exists_of_isIdentifier named
    rwa [String.toList_ofList] at this
  obtain ⟨p, ps, cut, whole⟩ := exists_splitOn '.' name.toList
  rw [cut] at pieces
  obtain ⟨⟨c, cs, rfl, starts, more⟩, others⟩ := List.forall_mem_cons.1 pieces
  refine ⟨c, _, whole, starts, List.forall_mem_append.2 ⟨fun d hd => ?_, fun d hd => ?_⟩⟩
  · simp [isDottedRest, more d hd]
  · obtain ⟨q, hq, hd⟩ := List.mem_flatMap.1 hd
    obtain ⟨e, es, rfl, starts', more'⟩ := others q hq
    rcases List.mem_cons.1 hd with rfl | hd
    · rfl
    · rcases List.mem_cons.1 hd with rfl | hd
      · simp [isDottedRest, isPlainWord_of_isNameStart starts']
      · simp [isDottedRest, more' d hd]

theorem takes_word {s : String} (letter : ∀ c ∈ rest.head?, isSpace c = false) :
    Takes size (Shape.word s) (s.toList ++ [' ']) rest [] := by
  have text : Takes size (.text s) s.toList ([' '] ++ rest) [] := .text s _
  exact text.seq (takes_blanks1 letter) rfl

theorem takes_space (letter : ∀ c ∈ rest.head?, isSpace c = false) : Takes size Shape.space1 [' '] rest [] := by
  have more : Takes size (.star (.one isSpace)) [] rest [] := .star_one nofun letter (Nat.zero_le _)
  have first : Takes size (.one isSpace) [' '] rest [] := .one rfl _
  exact first.seq more rfl

theorem plain_space1 : Plain isSpace Shape.space1 := ⟨fun _ => id, fun _ => id⟩

/-- The words of an export. -/
def IsExport (ws : List String) : Prop := ws = [] ∨ ws = ["export"] ∨ ws = ["export", "default"]

theorem takes_export {ws : List String} (is_export : IsExport ws) (r : List Char) :
    Takes size (Shape.maybe ["export", "default", "declare", "abstract"]) (spaced ws) ("class ".toList ++ r) [] := by
  have none {s : String} (other : (s.toList.zip "class ".toList).any (fun cs => cs.1 != cs.2) = true) :
      Takes size (.opt (Shape.word s)) [] ("class ".toList ++ r) [] := .opt_none (.seq (dead_text_append other r) _)
  have here {s : String} {c : Char} {t : List Char} (letter : isSpace c = false) :
      Takes size (.opt (Shape.word s)) (s.toList ++ [' ']) (c :: t) [] := by
    refine .opt (takes_word ?_)
    rintro d ⟨⟩
    exact letter
  have behind : Takes size (.seq (.opt (Shape.word "declare")) (.opt (Shape.word "abstract"))) [] ("class ".toList ++ r) [] :=
    (none (by decide)).seq (none (by decide)) rfl
  rcases is_export with rfl | rfl | rfl
  · exact (none (by decide)).seq ((none (by decide)).seq behind rfl) rfl
  · exact (here (c := 'c') (t := "lass ".toList ++ r) rfl).seq ((none (by decide)).seq behind rfl) rfl
  · exact (here (c := 'd') (t := "efault class ".toList ++ r) rfl).seq
      ((here (c := 'c') (t := "lass ".toList ++ r) rfl).seq behind rfl) rfl

/-- What says the parent of a class, with what comes behind it. -/
def parentText (parent : Option String) : List Char := parent.elim [] fun p => " extends ".toList ++ p.toList

theorem dead_clause {s : String} {k : Char} (first : s.toList.head? = some k) (letter : isSpace k = false)
    (letter' : isSpace d = false) (other : d ≠ k) (p : Pattern) (r : List Char) :
    Dead size (.seq Shape.space1 (.seq (.text s) p)) (' ' :: d :: r) := by
  refine dead_behind_blank (s := [' ']) plain_space1 (List.all_eq_true.1 rfl) letter' fun c t hc => .seq (.text ?_) _
  obtain ⟨cs, same⟩ := List.head?_eq_some_iff.1 first
  rw [same, List.cons_prefix_cons]
  rintro ⟨rfl, -⟩
  rcases hc with space | same
  · rw [letter] at space
    cases space
  · exact other same.symm

/-- Behind the name of a class comes no type parameter. -/
theorem dead_typeParams (letter : isSpace d = false) (other : d ≠ '<') (r : List Char) :
    Dead size (.seq Shape.space Shape.typeParams) (' ' :: d :: r) := by
  refine dead_behind_blank (s := [' ']) (plain_star fun _ => id) (List.all_eq_true.1 rfl) letter fun c t hc => .seq (dead_one ?_) _
  rintro e ⟨⟩
  rcases hc with space | rfl
  · simpa using ne_of_isSpace space (d := '<') rfl
  · simpa using other

/-- A name in a group is covered as a whole. -/
theorem takes_name {name : String} (named : isIdentifier name = true) (ends : ∀ c ∈ rest.head?, Shape.isNameRest c = false)
    (enough : name.toList.length ≤ size) (index : Nat) :
    Takes size (.group index Shape.name) name.toList rest [(index, 0, name.toList.length)] := by
  obtain ⟨c, cs, same, starts, more⟩ := exists_of_isIdentifier named
  rw [same] at enough ⊢
  have letters : Takes size (.star (.one Shape.isNameRest)) cs rest [] :=
    .star_one (fun d hd => isNameRest_of_isPlainWord (more d hd)) ends (Nat.le_of_succ_le enough)
  have initial : Takes size (.one Shape.isNameStart) [c] (cs ++ rest) [] := .one starts _
  exact .group index (initial.seq letters rfl)

theorem takes_dottedName {name : String} (dotted : isDottedName name = true)
    (ends : ∀ c ∈ rest.head?, (Shape.isNameRest c || c == '.') = false) (enough : name.toList.length ≤ size) (index : Nat) :
    Takes size (.group index Shape.dottedName) name.toList rest [(index, 0, name.toList.length)] := by
  obtain ⟨c, cs, same, starts, more⟩ := exists_of_isDottedName dotted
  rw [same] at enough ⊢
  have letters : Takes size (.star (.one fun c => Shape.isNameRest c || c == '.')) cs rest [] := by
    refine .star_one (fun d hd => ?_) ends (Nat.le_of_succ_le enough)
    rcases Bool.or_eq_true_iff.1 (more d hd) with word | dot
    · simp [isNameRest_of_isPlainWord word]
    · simp [dot]
  have initial : Takes size (.one Shape.isNameStart) [c] (cs ++ rest) [] := .one starts _
  exact .group index (initial.seq letters rfl)

/-- The parent of a class is found. -/
theorem takes_parent {parent : Option String} (dotted : ∀ p ∈ parent, isDottedName p = true)
    (enough : (parentText parent).length ≤ size) (r : List Char) : Takes size (.opt (.inOrder [Shape.space1, .text "extends", Shape.space1, .group 2 Shape.dottedName,
      .opt Shape.typeParams])) (parentText parent) (' ' :: '\x7b' :: r) (parent.elim [] fun p => [(2, 9, p.toList.length + 9)]) := by
  cases parent with
  | none => exact .opt_none (dead_clause (k := 'e') rfl rfl rfl (by decide) _ r)
  | some p =>
    obtain ⟨c, cs, same, starts, -⟩ := exists_of_isDottedName (dotted p rfl)
    have head {c : Char} {t : List Char} (letter : isSpace c = false) : Takes size Shape.space1 [' '] (c :: t) [] := by
      refine takes_space ?_
      rintro d ⟨⟩
      exact letter
    have generic : Takes size (.opt Shape.typeParams) [] (' ' :: '\x7b' :: r) [] := by
      refine .opt_none (.seq (dead_one ?_) _)
      rintro d ⟨⟩
      rfl
    have named : Takes size (.group 2 Shape.dottedName) p.toList (' ' :: '\x7b' :: r) [(2, 0, p.toList.length)] := by
      refine takes_dottedName (dotted p rfl) ?_ ?_ 2
      · rintro d ⟨⟩
        decide
      · have length : (parentText (some p)).length = " extends ".toList.length + p.toList.length := List.length_append
        omega
    have gap : Takes size Shape.space1 [' '] (p.toList ++ ' ' :: '\x7b' :: r) [] := by
      rw [same]
      exact head (isSpace_of_isPlainWord (isPlainWord_of_isNameStart starts))
    have keyword : Takes size (.text "extends") "extends".toList (' ' :: (p.toList ++ ' ' :: '\x7b' :: r)) [] := .text _ _
    have front : Takes size Shape.space1 [' '] ("extends".toList ++ ' ' :: (p.toList ++ ' ' :: '\x7b' :: r)) [] := head (c := 'e') rfl
    have whole := front.seq (keyword.seq (gap.seq (named.seq generic rfl) (by simp)) (by simp)) (by simp)
    exact .opt (whole.of_eq (by simp [parentText]) (by simp [shift]))

/-- At the start of a text, the pattern of classes finds the name and the parent of a class. -/
theorem exists_matchAt?_cls {ws : List String} {name : String} {parent : Option String} (is_export : IsExport ws)
    (named : isIdentifier name = true) (dotted : ∀ p ∈ parent, isDottedName p = true)
    (enough : name.toList.length + (parentText parent).length ≤ size) (r : List Char) :
    ∃ m, Shape.cls.matchAt? size none 0
        (spaced ws ++ ("class ".toList ++ (name.toList ++ (parentText parent ++ ' ' :: '\x7b' :: r)))) = some m ∧ m.start = 0 ∧
      m.stop = (spaced ws).length + name.toList.length + (parentText parent).length + 8 ∧
      m.group? 1 = some ((spaced ws).length + 6, (spaced ws).length + 6 + name.toList.length) ∧
      m.group? 2 = parent.map (fun p => ((spaced ws).length + name.toList.length + 15,
        (spaced ws).length + name.toList.length + 15 + p.toList.length)) ∧
      m.group? 3 = none := by
  obtain ⟨c, cs, same, starts, -⟩ := exists_of_isIdentifier named
  -- What comes behind the name.
  obtain ⟨d, t, behind, letter, other⟩ :
      ∃ d t, parentText parent ++ ' ' :: '\x7b' :: r = ' ' :: d :: t ∧ isSpace d = false ∧ d ≠ '<' := by
    cases parent with
    | none => exact ⟨'\x7b', r, rfl, rfl, by decide⟩
    | some p => exact ⟨'e', _, rfl, rfl, by decide⟩
  have blanks : Takes size Shape.blanks []
      (spaced ws ++ ("class ".toList ++ (name.toList ++ (parentText parent ++ ' ' :: '\x7b' :: r)))) [] := by
    refine .star_one nofun ?_ (Nat.zero_le _)
    rcases is_export with rfl | rfl | rfl
    all_goals
      rintro d ⟨⟩
      rfl
  have keyword : Takes size (Shape.word "class") "class ".toList (name.toList ++ (parentText parent ++ ' ' :: '\x7b' :: r)) [] := by
    refine takes_word ?_
    rw [same]
    rintro d ⟨⟩
    exact isSpace_of_isPlainWord (isPlainWord_of_isNameStart starts)
  have name_found : Takes size (.group 1 Shape.name) name.toList (parentText parent ++ ' ' :: '\x7b' :: r)
      [(1, 0, name.toList.length)] := by
    refine takes_name named ?_ (by omega) 1
    rw [behind]
    rintro d ⟨⟩
    decide
  have generic : Takes size (Shape.behindSpace Shape.typeParams) [] (parentText parent ++ ' ' :: '\x7b' :: r) [] := by
    rw [behind]
    exact .opt_none (dead_typeParams letter other t)
  have clause : Takes size (Shape.clause "implements" 3) [] (' ' :: '\x7b' :: r) [] :=
    .opt_none (dead_clause (k := 'i') rfl rfl rfl (by decide) _ r)
  have space : Takes size Shape.space [' '] ('\x7b' :: r) [] := by
    refine .star_one (List.all_eq_true.1 rfl) ?_ ?_
    · rintro d ⟨⟩
      rfl
    · rw [same] at enough
      simp at enough ⊢
      omega
  have brace : Takes size (Shape.char '\x7b') ['\x7b'] r [] := .one rfl r
  have parent_found : Takes size _ (parentText parent) _ _ := takes_parent dotted (by omega) r
  have exported : Takes size _ (spaced ws) _ _ :=
    takes_export is_export (name.toList ++ (parentText parent ++ ' ' :: '\x7b' :: r))
  have tail := parent_found.seq (clause.seq (space.seq brace rfl) rfl) rfl
  have whole := blanks.seq (exported.seq (keyword.seq (name_found.seq (generic.seq tail (by simp)) (by simp)) (by simp)) (by simp)) (by simp)
  have found := matchAt?_of_takes whole (.inl rfl) 0
  have text : spaced ws ++ ("class ".toList ++ (name.toList ++ (parentText parent ++ ' ' :: '\x7b' :: r))) =
      ([] ++ (spaced ws ++ ("class ".toList ++ (name.toList ++ ([] ++ (parentText parent ++ ([] ++ ([' '] ++ ['\x7b'])))))))) ++ r := by
    simp
  rw [text]
  refine ⟨_, found, rfl, ?_, ?_, ?_, ?_⟩
  · simp only [List.length_append, List.length_cons, List.length_nil]
    have length : "class ".toList.length = 6 := rfl
    omega
  · cases parent with
    | none =>
      simp [Match.group?, shift]
      omega
    | some p =>
      simp [Match.group?, shift]
      omega
  · cases parent with
    | none => simp [Match.group?, shift]
    | some p =>
      simp [Match.group?, shift]
      omega
  · cases parent <;> simp [Match.group?, shift]

/-! ## Other declarations -/

/-- A text that begins with words for an export and then `class`. -/
inductive ClassHead (r : List Char) : List Char → Prop
  | cls : ClassHead r ("class ".toList ++ r)
  | more {s : String} {t : List Char} (word : s = "export" ∨ s = "default") (behind : ClassHead r t) :
    ClassHead r (s.toList ++ ' ' :: t)

theorem ClassHead.letter (head : ClassHead r t) : ∃ c cs, t = c :: cs ∧ (c = 'c' ∨ c = 'd' ∨ c = 'e') := by
  cases head with
  | cls => exact ⟨'c', _, rfl, by simp⟩
  | more word =>
    rcases word with rfl | rfl
    · exact ⟨'e', _, rfl, by simp⟩
    · exact ⟨'d', _, rfl, by simp⟩

/-- Up to the first blanks, a text is cut in one way. -/
theorem cut_word {x b u : List Char} (letters : x.any isSpace = false) (letters' : s.any isSpace = false)
    (blank : IsBlank b) (some_blank : b ≠ []) (ends : ∀ c ∈ t.head?, isSpace c = false) (same : x ++ ' ' :: t = s ++ (b ++ u)) :
    s = x ∧ u = t := by
  obtain ⟨c, b, rfl⟩ := List.exists_cons_of_ne_nil some_blank
  obtain ⟨space, more⟩ := List.forall_mem_cons.1 blank
  have front := congrArg (List.takeWhile fun c => !isSpace c) same
  rw [List.takeWhile_append_of_pos (by simpa using letters), List.takeWhile_append_of_pos (by simpa using letters'),
    List.cons_append, List.takeWhile_cons_of_neg (by simp; rfl), List.takeWhile_cons_of_neg (by simp [space]), List.append_nil,
    List.append_nil] at front
  subst front
  obtain ⟨rfl, rest⟩ := List.cons.inj (List.append_cancel_left same)
  cases b with
  | nil => exact ⟨rfl, rest.symm⟩
  | cons d b =>
    have letter := ends d (by rw [rest]; rfl)
    rw [more d List.mem_cons_self] at letter
    cases letter

/-- In front of a class, a word with blanks behind it is one for an export. -/
theorem ClassHead.cut {b u : List Char} (head : ClassHead r t) (named : ∀ c ∈ r.head?, isSpace c = false)
    (no_class : s ≠ "class".toList) (letters : s.any isSpace = false) (blank : IsBlank b) (some_blank : b ≠ [])
    (same : t = s ++ (b ++ u)) : ClassHead r u := by
  cases head with
  | cls => exact absurd (cut_word (x := "class".toList) rfl letters blank some_blank named same).1 no_class
  | @more w t word behind =>
    have word_letters : w.toList.any isSpace = false := by
      rcases word with rfl | rfl <;> rfl
    have ends : ∀ c ∈ t.head?, isSpace c = false := by
      obtain ⟨c, cs, rfl, letter⟩ := behind.letter
      rintro d ⟨⟩
      rcases letter with rfl | rfl | rfl <;> rfl
    rw [(cut_word word_letters letters blank some_blank ends same).2]
    exact behind

/-- Words that may be left out lead to a place in front of the class. -/
theorem ClassHead.maybe {ws : List String} {P q : MatchPoint} (head : ClassHead r P.rest) (named : ∀ c ∈ r.head?, isSpace c = false)
    (words : ∀ w ∈ ws, w ≠ "class" ∧ w.toList.any isSpace = false) (h : q ∈ ways size (Shape.maybe ws) P) :
    ClassHead r q.rest := by
  induction ws generalizing P with
  | nil =>
    obtain rfl : q = P := List.mem_singleton.1 h
    exact head
  | cons w ws ih =>
    obtain ⟨⟨no_class, letters⟩, more⟩ := List.forall_mem_cons.1 words
    obtain ⟨p, here, behind⟩ := mem_ways_inOrder h
    refine ih ?_ more behind
    rcases mem_ways_opt.1 here with here | rfl
    · obtain ⟨p₁, text, blanks⟩ := mem_ways_seq.1 here
      obtain ⟨p₂, first, others⟩ := mem_ways_seq.1 blanks
      obtain ⟨c, took, blank⟩ := took_one first
      obtain ⟨b, took', blanks⟩ := took_star others
      have whole := (took_text text).trans (took.trans took')
      have is_blank : IsBlank ([c] ++ b) := by
        intro d hd
        have here : " \t".toList.contains d = true := by
          rcases List.mem_cons.1 hd with rfl | hd
          · exact blank
          · exact blanks d hd
        rcases (by simpa using here : d = ' ' ∨ d = '\t') with rfl | rfl <;> rfl
      exact head.cut named (fun same => no_class (String.toList_inj.1 same)) letters is_blank (by simp)
        (whole.rest.trans (List.append_assoc ..))
    · exact head

/-- What is at the start of a line begins where the line does. -/
theorem ClassHead.dead_line (head : ClassHead r t) (dead : Dead size p t) :
    Dead size (.seq .lineStart (.seq Shape.blanks p)) t := by
  have plain : Plain (fun c => " \t".toList.contains c) Shape.blanks := plain_star fun _ => id
  have at_start : Plain (fun _ => false) .lineStart := trivial
  refine .behind at_start fun w t' whole none => ?_
  obtain rfl : w = [] := List.eq_nil_iff_forall_not_mem.2 fun c hc => by simpa using none c hc
  obtain rfl : t = t' := whole
  refine .behind plain fun w t' whole blank => ?_
  obtain ⟨c, cs, rfl, letter⟩ := head.letter
  cases w with
  | nil =>
    obtain rfl : c :: cs = t' := whole
    exact dead
  | cons d w =>
    obtain ⟨rfl, -⟩ := List.cons.inj whole
    have blank := blank c List.mem_cons_self
    rcases letter with rfl | rfl | rfl <;> cases blank

/-- No declaration begins there whose words in front lead to other ones. -/
theorem ClassHead.dead {ws : List String} (head : ClassHead r t) (named : ∀ c ∈ r.head?, isSpace c = false)
    (words : ∀ w ∈ ws, w ≠ "class" ∧ w.toList.any isSpace = false) (dead : ∀ t, ClassHead r t → Dead size p t) :
    Dead size (.seq .lineStart (.seq Shape.blanks (.seq (Shape.maybe ws) p))) t := by
  refine head.dead_line fun P same => ?_
  rw [ways, List.flatMap_eq_nil_iff]
  intro q hq
  exact dead q.rest (.maybe (same ▸ head) named words hq) q rfl

/-- No word is in front of a class that begins otherwise. -/
theorem ClassHead.not_prefix (head : ClassHead r t) (other : (w.head?.all fun c => "cde".toList.contains c) = false) : ¬w <+: t := by
  obtain ⟨d, t, rfl, letter⟩ := head.letter
  cases w with
  | nil => cases other
  | cons c w =>
    rw [List.cons_prefix_cons]
    rintro ⟨rfl, -⟩
    rcases letter with rfl | rfl | rfl <;> cases other

theorem ClassHead.dead_function (head : ClassHead r t) (named : ∀ c ∈ r.head?, isSpace c = false) : Dead size Shape.function t := by
  have words : ∀ w ∈ ["export", "default", "declare", "async"], w ≠ "class" ∧ w.toList.any isSpace = false := by decide
  exact head.dead named words fun t head => .seq (.text (head.not_prefix rfl)) _

theorem ClassHead.dead_arrow (head : ClassHead r t) (named : ∀ c ∈ r.head?, isSpace c = false) : Dead size Shape.arrow t := by
  have words : ∀ w ∈ ["export"], w ≠ "class" ∧ w.toList.any isSpace = false := by decide
  refine head.dead named words fun t head => .seq (dead_anyOf fun p hp => ?_) _
  have keywords : p = .text "const" ∨ p = .text "let" ∨ p = .text "var" := by simpa using hp
  rcases keywords with rfl | rfl | rfl
  · refine .text fun begins => ?_
    cases head with
    | cls =>
      obtain ⟨u, same⟩ := begins
      cases same
    | more word =>
      obtain ⟨u, same⟩ := begins
      rcases word with rfl | rfl <;> cases same
  · exact .text (head.not_prefix rfl)
  · exact .text (head.not_prefix rfl)

theorem ClassHead.dead_importing (head : ClassHead r t) : Dead size Shape.importing t :=
  head.dead_line (.seq (.text (head.not_prefix rfl)) _)

end Codewright.Script
