import Codewright.Proofs.Script.ClassShape
import Codewright.Proofs.Text.MovedWays

/-!
# The pattern of imports

* `exists_of_importing` – what a match of the pattern covers: no quote and no brace but those of the source and of the list of names;
* `length_le_of_importing` – no import begins in front of another one and goes beyond the line where that one ends;
* `takes_import` – the pattern covers an import as it is written, and finds the names in it.
-/

namespace Codewright.Script

open Text Pattern

variable {size place : Nat} {before : Option Char} {rest w a b x y front behind : List Char} {c q : Char} {p r : MatchPoint}
  {pattern first second : Pattern}

/-! ## What an import covers -/

/-- A quote of a source. -/
def isQuote (c : Char) : Bool := "\"'".toList.contains c

/-- A character that is neither a quote nor a brace. -/
def isBare (c : Char) : Bool := !"\"'\x7b\x7d".toList.contains c

theorem isBare_of_isSpace (space : isSpace c = true) : isBare c = true := by
  have ne {d : Char} (letter : isSpace d = false) : c ≠ d := by
    rintro rfl
    rw [space] at letter
    cases letter
  simp [isBare, ne (d := '"') rfl, ne (d := '\'') rfl, ne (d := '\x7b') rfl, ne (d := '\x7d') rfl]

theorem isBare_of_isNameRest (rest : Shape.isNameRest c = true) : isBare c = true := by
  have ne {d : Char} (other : Shape.isNameRest d = false) : c ≠ d := by
    rintro rfl
    rw [rest] at other
    cases other
  simp [isBare, ne (d := '"') (by decide), ne (d := '\'') (by decide), ne (d := '\x7b') (by decide), ne (d := '\x7d') (by decide)]

/-- Every brace that a text opens is followed by one that closes. -/
def Closes (text : List Char) : Prop := ∀ a b, text = a ++ '\x7b' :: b → '\x7d' ∈ b

theorem Closes.append (ha : Closes a) (hb : Closes b) : Closes (a ++ b) := by
  intro x y cut
  rcases List.append_eq_append_iff.1 cut with ⟨z, rfl, rest⟩ | ⟨z, rfl, rest⟩
  · exact hb z y rest
  · cases z with
    | nil => exact hb [] y rest.symm
    | cons d z =>
      obtain ⟨rfl, rfl⟩ := List.cons.inj rest
      exact List.mem_append_left _ (ha x z rfl)

theorem closes_of_bare (bare : ∀ c ∈ a, isBare c = true) : Closes a := by
  rintro x y rfl
  exact absurd (bare '\x7b' (by simp)) (by decide)

/-- A list of names in braces, or nothing. -/
def IsBraced (text : List Char) : Prop := text = [] ∨ ∃ x, text = '\x7b' :: x ++ ['\x7d'] ∧ '\x7d' ∉ x

theorem IsBraced.closes (braced : IsBraced a) : Closes a := by
  rcases braced with rfl | ⟨x, rfl, -⟩
  · exact closes_of_bare (List.forall_mem_nil _)
  · rintro a b cut
    have last := congrArg List.getLast? cut
    rw [List.getLast?_concat, List.getLast?_append, List.getLast?_cons, Option.some_or] at last
    cases b with
    | nil => cases last
    | cons d b =>
      have mem : (d :: b).getLast? = some '\x7d' := by
        rw [last, List.getLast?_eq_some_getLast (List.cons_ne_nil d b)]
        rfl
      exact List.mem_of_getLast? mem

/-- What an import covers: text in front of the list of names, the list, text behind it, and the source with what follows on its
line. -/
structure ImportText (head braces middle : List Char) (q : Char) (tail : List Char) : Prop where
  head : ∀ c ∈ head, isBare c = true
  braces : IsBraced braces
  middle : ∀ c ∈ middle, isBare c = true
  quote : isQuote q = true
  /-- The source and what follows are on one line. -/
  tail : '\n' ∉ tail

section Parts

variable {z : List Char}

/-- A group covers what its piece covers. -/
theorem exists_of_mem_group {index : Nat} (h : r ∈ ways size (.group index pattern) p) : ∃ s ∈ ways size pattern p, s.rest = r.rest := by
  obtain ⟨s, hs, rfl⟩ := List.mem_map.1 h
  exact ⟨s, hs, rfl⟩

/-- From one place to another, a text without quotes and braces is covered. -/
def GoesBare (p r : MatchPoint) : Prop := ∃ w, p.rest = w ++ r.rest ∧ ∀ c ∈ w, isBare c = true

theorem GoesBare.refl (p : MatchPoint) : GoesBare p p := ⟨[], rfl, List.forall_mem_nil _⟩

theorem GoesBare.trans {s : MatchPoint} (h : GoesBare p r) (h' : GoesBare r s) : GoesBare p s := by
  obtain ⟨w, rest, bare⟩ := h
  obtain ⟨w', rest', bare'⟩ := h'
  exact ⟨w ++ w', by rw [rest, rest', List.append_assoc], List.forall_mem_append.2 ⟨bare, bare'⟩⟩

theorem goesBare_of_plain (plain : Plain isBare pattern) (h : r ∈ ways size pattern p) : GoesBare p r := by
  obtain ⟨w, took, bare⟩ := plain.took h
  exact ⟨w, took.rest, bare⟩

theorem goesBare_seq (first_bare : ∀ p r, r ∈ ways size first p → GoesBare p r)
    (second_bare : ∀ p r, r ∈ ways size second p → GoesBare p r) (h : r ∈ ways size (.seq first second) p) : GoesBare p r := by
  obtain ⟨s, here, behind⟩ := mem_ways_seq.1 h
  exact (first_bare p s here).trans (second_bare s r behind)

theorem goesBare_opt (bare : ∀ p r, r ∈ ways size pattern p → GoesBare p r) (h : r ∈ ways size (.opt pattern) p) : GoesBare p r := by
  rcases mem_ways_opt.1 h with h | rfl
  · exact bare p r h
  · exact .refl r

theorem goesBare_group {index : Nat} (bare : ∀ p r, r ∈ ways size pattern p → GoesBare p r)
    (h : r ∈ ways size (.group index pattern) p) : GoesBare p r := by
  obtain ⟨s, hs, same⟩ := exists_of_mem_group h
  obtain ⟨w, rest, bare⟩ := bare p s hs
  exact ⟨w, same ▸ rest, bare⟩

theorem plain_space : Plain isBare Shape.space := fun _ space => isBare_of_isSpace space

theorem plain_space1_bare : Plain isBare Shape.space1 := ⟨fun _ space => isBare_of_isSpace space, fun _ space => isBare_of_isSpace space⟩

theorem plain_name : Plain isBare Shape.name :=
  ⟨fun _ starts => isBare_of_isNameRest (isNameRest_of_isPlainWord (isPlainWord_of_isNameStart starts)), fun _ => isBare_of_isNameRest⟩

theorem goesBare_text {s : String} (bare : s.toList.all isBare = true) (h : r ∈ ways size (.text s) p) : GoesBare p r :=
  goesBare_of_plain (plain_text (List.all_eq_true.1 bare)) h

theorem goesBare_char {d : Char} (bare : isBare d = true) (h : r ∈ ways size (Shape.char d) p) : GoesBare p r :=
  have plain : Plain isBare (Shape.char d) := fun c same => by rwa [beq_iff_eq.1 same]
  goesBare_of_plain plain h

theorem goesBare_space (h : r ∈ ways size Shape.space p) : GoesBare p r := goesBare_of_plain plain_space h

theorem goesBare_space1 (h : r ∈ ways size Shape.space1 p) : GoesBare p r := goesBare_of_plain plain_space1_bare h

theorem goesBare_name {index : Nat} (h : r ∈ ways size (.group index Shape.name) p) : GoesBare p r :=
  goesBare_group (fun _ _ => goesBare_of_plain plain_name) h

/-- What the list of names covers. -/
theorem exists_of_braces (h : r ∈ ways size
    (.opt (.inOrder [Shape.char '\x7b', .group 2 (.star (Shape.notIn "\x7d")), Shape.char '\x7d', Shape.space])) p) :
    ∃ braces middle, p.rest = braces ++ (middle ++ r.rest) ∧ IsBraced braces ∧ ∀ c ∈ middle, isBare c = true := by
  rcases mem_ways_opt.1 h with h | rfl
  · obtain ⟨r₁, opening, h⟩ := mem_ways_inOrder h
    obtain ⟨r₂, names, h⟩ := mem_ways_inOrder h
    obtain ⟨r₃, closing, h⟩ := mem_ways_inOrder h
    obtain ⟨_, opening, same⟩ := took_one opening
    obtain rfl := beq_iff_eq.1 same
    obtain ⟨s, names, rest⟩ := exists_of_mem_group names
    obtain ⟨x, names, inside⟩ := took_star names
    obtain ⟨_, closing, same⟩ := took_one closing
    obtain rfl := beq_iff_eq.1 same
    obtain ⟨w, behind, bare⟩ := goesBare_space h
    refine ⟨'\x7b' :: x ++ ['\x7d'], w, ?_, .inr ⟨x, rfl, fun brace => ?_⟩, bare⟩
    · rw [opening.rest, names.rest, rest, closing.rest, behind]
      simp
    · simpa using inside _ brace
  · exact ⟨[], [], rfl, .inl rfl, List.forall_mem_nil _⟩

end Parts

/-- What a match of the pattern of imports covers. -/
theorem exists_of_importing (h : r ∈ ways size Shape.importing p) : (p.before = none ∨ p.before = some '\n') ∧
    ∃ head braces middle q tail, p.rest = head ++ (braces ++ (middle ++ q :: (tail ++ r.rest))) ∧
      ImportText head braces middle q tail := by
  obtain ⟨r₁, start, h⟩ := mem_ways_inOrder h
  obtain ⟨r₂, blanks, h⟩ := mem_ways_inOrder h
  obtain ⟨r₃, keyword, h⟩ := mem_ways_inOrder h
  obtain ⟨r₄, space, h⟩ := mem_ways_inOrder h
  obtain ⟨r₅, type, h⟩ := mem_ways_inOrder h
  obtain ⟨r₆, default, h⟩ := mem_ways_inOrder h
  obtain ⟨r₇, names, h⟩ := mem_ways_inOrder h
  obtain ⟨r₈, module, h⟩ := mem_ways_inOrder h
  obtain ⟨r₉, from_, h⟩ := mem_ways_inOrder h
  obtain ⟨r₁₀, opening, h⟩ := mem_ways_inOrder h
  obtain ⟨r₁₁, source, h⟩ := mem_ways_inOrder h
  obtain ⟨r₁₂, closing, h⟩ := mem_ways_inOrder h
  obtain ⟨r₁₃, blanks', semicolon⟩ := mem_ways_inOrder h
  have starts : p.before = none ∨ p.before = some '\n' := by
    rw [ways] at start
    split_ifs at start with starts
    · simpa using starts
    · cases start
  refine ⟨starts, ?_⟩
  have plain_blanks : Plain isBare Shape.blanks := fun c blank => isBare_of_isSpace (by
    rcases (show c = ' ' ∨ c = '\t' by simpa using blank) with rfl | rfl <;> rfl)
  -- In front of the list of names.
  have head : GoesBare p r₆ := by
    have type : GoesBare r₄ r₅ := goesBare_opt (fun _ _ => goesBare_seq (fun _ _ => goesBare_text rfl) fun _ _ => goesBare_space1) type
    have default : GoesBare r₅ r₆ := goesBare_opt (fun _ _ => goesBare_seq (fun _ _ => goesBare_name) fun _ _ => goesBare_seq
      (fun _ _ => goesBare_opt fun _ _ => goesBare_seq (fun _ _ => goesBare_space) fun _ _ => goesBare_char rfl)
      fun _ _ => goesBare_space) default
    have start : GoesBare p r₁ := goesBare_of_plain (show Plain isBare .lineStart from trivial) start
    exact start.trans ((goesBare_of_plain plain_blanks blanks).trans
      ((goesBare_text rfl keyword).trans ((goesBare_space1 space).trans (type.trans default))))
  -- Between the list and the source.
  have middle : GoesBare r₇ r₉ := by
    have module : GoesBare r₇ r₈ := goesBare_opt (fun _ _ => goesBare_seq (fun _ _ => goesBare_char rfl) fun _ _ => goesBare_seq
      (fun _ _ => goesBare_space) fun _ _ => goesBare_seq (fun _ _ => goesBare_text rfl) fun _ _ => goesBare_seq
      (fun _ _ => goesBare_space1) fun _ _ => goesBare_seq (fun _ _ => goesBare_name) fun _ _ => goesBare_space) module
    exact module.trans (goesBare_opt (fun _ _ => goesBare_seq (fun _ _ => goesBare_text rfl) fun _ _ => goesBare_space) from_)
  obtain ⟨a, head, bare⟩ := head
  obtain ⟨b, c, braces, braced, bare'⟩ := exists_of_braces names
  obtain ⟨d, middle, bare''⟩ := middle
  obtain ⟨q, opening, quote⟩ := took_one opening
  obtain ⟨s, source, rest⟩ := exists_of_mem_group source
  obtain ⟨x, source, inside⟩ := took_star source
  obtain ⟨q', closing, quote'⟩ := took_one closing
  obtain ⟨y, blanks', inside'⟩ := took_star blanks'
  obtain ⟨z, semicolon, inside''⟩ : ∃ z, r₁₃.rest = z ++ r.rest ∧ ∀ c ∈ z, c = ';' := by
    rcases mem_ways_opt.1 semicolon with semicolon | rfl
    · obtain ⟨c, took, same⟩ := took_one semicolon
      exact ⟨[c], took.rest, List.forall_mem_singleton.2 (beq_iff_eq.1 same)⟩
    · exact ⟨[], rfl, List.forall_mem_nil _⟩
  refine ⟨a, b, c ++ d, q, x ++ (q' :: (y ++ z)), ?_, bare, braced, List.forall_mem_append.2 ⟨bare', bare''⟩, quote, ?_⟩
  · rw [head, braces, middle, opening.rest, source.rest, rest, closing.rest, blanks'.rest, semicolon]
    simp
  · intro feed
    rcases List.mem_append.1 feed with feed | feed
    · simpa using inside _ feed
    · rcases List.mem_cons.1 feed with rfl | feed
      · cases quote'
      · rcases List.mem_append.1 feed with feed | feed
        · simpa using inside' _ feed
        · cases inside'' _ feed

/-- An import that covers a quote, and more behind it than the rest of its line, covers the quote in its list of names; what opens this
list is not closed in front of the quote. -/
theorem ImportText.not_closes {head braces middle tail' g z : List Char} {q' : Char} (text : ImportText head braces middle q' tail')
    (quote : isQuote q = true) (same : head ++ (braces ++ middle) = g ++ q :: z) : ∃ a b, g = a ++ '\x7b' :: b ∧ '\x7d' ∉ b := by
  have quote_bare : isBare q = false := by
    rcases (show q = '"' ∨ q = '\'' by simpa [isQuote] using quote) with rfl | rfl <;> rfl
  have not_bare {w : List Char} (bare : ∀ c ∈ w, isBare c = true) : q ∉ w := by
    intro hq
    rw [bare q hq] at quote_bare
    cases quote_bare
  have ne {d : Char} (other : isQuote d = false) : q ≠ d := by
    rintro rfl
    rw [quote] at other
    cases other
  obtain ⟨g, rfl, within⟩ := exists_of_append_cons (not_bare text.head) same
  have no_middle {u v : List Char} (cut : middle = u ++ q :: v) : False := not_bare text.middle (by simp [cut])
  rcases text.braces with rfl | ⟨x, rfl, open_⟩
  · exact (no_middle within).elim
  · rcases List.append_eq_append_iff.1 within with ⟨u, rfl, middle_eq⟩ | ⟨u, within, behind⟩
    · exact (no_middle middle_eq).elim
    · cases u with
      | nil => exact (no_middle (u := []) behind.symm).elim
      | cons d u =>
        obtain ⟨rfl, -⟩ := List.cons.inj behind
        cases g with
        | nil => exact absurd (List.cons.inj within).1.symm (ne rfl)
        | cons e g =>
          obtain ⟨rfl, inside⟩ := List.cons.inj within
          refine ⟨head, g, rfl, fun brace => ?_⟩
          rcases List.append_eq_append_iff.1 inside with ⟨v, -, last⟩ | ⟨v, rfl, -⟩
          · cases v with
            | nil => exact absurd (List.cons.inj last).1.symm (ne rfl)
            | cons => simp at last
          · exact open_ (List.mem_append_left _ brace)

/-- No import that begins in front of the last quote of a line goes beyond this line, if the braces that are opened in front of the
quote are closed there. -/
theorem length_le_of_importing {tail : List Char} (cut : x ++ c :: y = front ++ q :: tail) (closes : Closes front)
    (quote : isQuote q = true) (one : '\n' ∉ tail) (ends : behind = [] ∨ behind.head? = some '\n')
    (h : r ∈ ways size Shape.importing ⟨x.getLast?.or none, c :: y ++ behind, place, []⟩) : behind.length ≤ r.rest.length := by
  obtain ⟨starts, head, braces, middle, q', tail', covers, text⟩ := exists_of_importing h
  rw [Option.or_none] at starts
  by_contra beyond
  have no_feed : '\n' ∉ q :: tail := by
    rintro feed
    rcases List.mem_cons.1 feed with rfl | feed
    · cases quote
    · exact one feed
  have no_feed' : '\n' ∉ q' :: tail' := by
    intro feed
    rcases List.mem_cons.1 feed with rfl | feed
    · cases text.quote
    · exact text.tail feed
  -- The import covers the line end.
  have whole : c :: y ++ behind = (head ++ (braces ++ middle) ++ q' :: tail') ++ r.rest := by
    refine Eq.trans covers ?_
    simp
  obtain ⟨z, covered, behind_eq⟩ :
      ∃ z, head ++ (braces ++ middle) ++ q' :: tail' = c :: y ++ '\n' :: z ∧ behind = '\n' :: z ++ r.rest := by
    rcases List.append_eq_append_iff.1 whole with ⟨z, covered, rfl⟩ | ⟨z, -, rest⟩
    · cases z with
      | nil => simp at beyond
      | cons d z =>
        obtain rfl : d = '\n' := by simpa using ends
        exact ⟨z, covered, rfl⟩
    · rw [rest, List.length_append] at beyond
      omega
  obtain ⟨u, inside⟩ : ∃ u, head ++ (braces ++ middle) = c :: y ++ u := by
    rcases List.append_eq_append_iff.1 covered with ⟨z', -, rest⟩ | ⟨z', inside, -⟩
    · exact absurd (by rw [rest]; simp) no_feed'
    · exact ⟨z', inside⟩
  -- It begins in front of the quote.
  obtain ⟨g, rfl, line⟩ : ∃ g, front = x ++ g ∧ c :: y = g ++ q :: tail := by
    rcases List.append_eq_append_iff.1 cut with ⟨g, rfl, line⟩ | ⟨z', rfl, rest⟩
    · exact ⟨g, rfl, line⟩
    · cases z' with
      | nil => exact ⟨[], by simp, rest.symm⟩
      | cons d z' =>
        rw [List.getLast?_append, List.getLast?_cons, Option.some_or] at starts
        have feed : (d :: z').getLast? = some '\n' := by
          rw [List.getLast?_cons]
          simpa using starts
        refine absurd ?_ no_feed
        rw [rest]
        exact List.mem_append_left _ (List.mem_of_getLast? feed)
  rw [line, List.append_assoc, List.cons_append] at inside
  obtain ⟨a, b, rfl, open_⟩ := text.not_closes quote inside
  exact open_ (closes (x ++ a) b (by simp))

/-! ## Imports as they are written -/

namespace Import

/-- The default binding, with what comes behind it. -/
def defaultText (i : Import) : List Char :=
  i.default.elim [] fun name => name.toList ++ if i.names.isEmpty then [' '] else [',', ' ']

/-- The list of names. -/
def namesList (i : Import) : List Char := ' ' :: ((String.intercalate ", " i.names).toList ++ [' '])

/-- The list of names in its braces, if there are some. -/
def namesText (i : Import) : List Char := if i.names.isEmpty then [] else '\x7b' :: (i.namesList ++ ['\x7d', ' '])

/-- The word in front of the source, if something is bound. -/
def fromText (i : Import) : List Char := if i.default.isNone && i.names.isEmpty then [] else "from ".toList

/-- The import with another text in the place of its source. -/
def textWith (i : Import) (inner : List Char) : List Char :=
  "import ".toList ++ (i.defaultText ++ (i.namesText ++ (i.fromText ++ '\'' :: (inner ++ ['\'', ';']))))

theorem print_eq {i : Import} (no_space : i.space = none) : i.print.toList = i.textWith i.source.toList := by
  obtain ⟨source, names, default, space⟩ := i
  obtain rfl : space = none := no_space
  unfold print bindings textWith defaultText namesText fromText namesList
  cases default <;> cases names <;> simp

end Import

variable {i : Import}

/-- Behind a text comes no way where what follows the text has none. -/
theorem dead_text_seq {s : String} (dead : ∀ r, rest = s.toList ++ r → Dead size pattern r) : Dead size (.seq (.text s) pattern) rest := by
  intro p h
  rw [ways, List.flatMap_eq_nil_iff]
  intro r hr
  have took := took_text hr
  exact dead r.rest (h.symm.trans took.rest) r rfl

/-- The binding of an import is not taken for the word of an import of types. -/
def Import.IsUntyped (i : Import) : Prop := i.default ≠ some "type" ∨ i.names ≠ []

/-- A text is cut in one way in front of the first character that belongs to no word. -/
theorem cut_plain {x y s t : List Char} {d e : Char} (plain : ∀ c ∈ x, isPlainWord c = true) (plain' : ∀ c ∈ y, isPlainWord c = true)
    (other : isPlainWord d = false) (other' : isPlainWord e = false) (same : x ++ d :: s = y ++ e :: t) : x = y ∧ d = e ∧ s = t := by
  have word := congrArg (List.takeWhile isPlainWord) same
  rw [List.takeWhile_append_of_pos plain, List.takeWhile_append_of_pos plain', List.takeWhile_cons_of_neg (by simp [other]),
    List.takeWhile_cons_of_neg (by simp [other']), List.append_nil, List.append_nil] at word
  subst word
  exact ⟨rfl, List.cons.inj (List.append_cancel_left same)⟩

/-- What comes behind the name of a default binding. -/
theorem Import.defaultText_some {name : String} (default : i.default = some name) :
    i.defaultText = name.toList ++ if i.names.isEmpty then [' '] else [',', ' '] := by
  rw [defaultText, default]
  rfl

theorem takes_untyped (size : Nat) (named : ∀ name ∈ i.default, isIdentifier name = true) (untyped : i.IsUntyped) (t : List Char) :
    Takes size (.opt (.seq (.text "type") Shape.space1)) [] (i.defaultText ++ (i.namesText ++ (i.fromText ++ '\'' :: t))) [] := by
  refine .opt_none (dead_text_seq fun r whole => .seq (dead_one fun c hc => ?_) _)
  obtain ⟨r, rfl⟩ := List.head?_eq_some_iff.1 hc
  cases default : i.default with
  | none =>
    unfold Import.defaultText Import.namesText Import.fromText at whole
    cases names : i.names.isEmpty <;> simp [default, names] at whole
  | some name =>
    have letters := isPlainWord_of_isIdentifier (named name (by rw [default]; rfl))
    rw [Import.defaultText_some default] at whole
    by_contra space
    have other := (bounded_face ((Bool.not_eq_false _).mp space)).1
    -- The name is the first word of the text.
    cases names : i.names.isEmpty with
    | true =>
      simp only [names, if_true, List.append_assoc, List.singleton_append] at whole
      obtain ⟨typed, -⟩ := cut_plain letters (List.all_eq_true.1 (by decide)) (by decide) other whole
      rcases untyped with untyped | some_name
      · exact untyped (by rw [default, String.toList_inj.1 typed])
      · exact some_name (by simpa using names)
    | false =>
      simp only [names, List.append_assoc] at whole
      obtain ⟨-, rfl, -⟩ := cut_plain letters (List.all_eq_true.1 (by decide)) (by decide) other whole
      exact space rfl

theorem dead_group {index : Nat} (dead : Dead size pattern rest) : Dead size (.group index pattern) rest := by
  intro p h
  rw [ways, dead p h]
  rfl

theorem dead_char {d e : Char} (other : d ≠ e) (t : List Char) : Dead size (Shape.char e) (d :: t) := by
  refine dead_one ?_
  rintro c ⟨⟩
  simpa using other

/-- One blank in front of a letter. -/
theorem takes_blank {d : Char} (letter : isSpace d = false) (enough : 0 < size) (t : List Char) :
    Takes size Shape.space [' '] (d :: t) [] := by
  refine .star_one (List.all_eq_true.1 rfl) ?_ enough
  rintro c ⟨⟩
  exact letter

/-- The default binding is found. -/
theorem takes_default (size : Nat) (named : ∀ name ∈ i.default, isIdentifier name = true) (enough : i.defaultText.length ≤ size) (t : List Char) :
    Takes size (.opt (.inOrder [.group 1 Shape.name, Shape.behindSpace (Shape.char ','), Shape.space])) i.defaultText
      (i.namesText ++ (i.fromText ++ '\'' :: t)) (i.default.elim [] fun name => [(1, 0, name.toList.length)]) := by
  cases default : i.default with
  | none =>
    have none : i.defaultText = [] := by rw [Import.defaultText, default]; rfl
    rw [none]
    refine .opt_none (.seq (dead_group (.seq (dead_one ?_) _)) _)
    unfold Import.namesText Import.fromText
    cases names : i.names.isEmpty <;> simp [default, Shape.isNameStart]
  | some name =>
    have is_name := named name (by rw [default]; rfl)
    rw [Import.defaultText_some default] at enough ⊢
    have small : name.toList.length < size := by
      cases names : i.names.isEmpty <;> simp [names] at enough <;> omega
    have found {d : Char} {r : List Char} (other : Shape.isNameRest d = false) :
        Takes size (.group 1 Shape.name) name.toList (d :: r) [(1, 0, name.toList.length)] := by
      refine takes_name is_name ?_ small.le 1
      rintro c ⟨⟩
      exact other
    cases names : i.names.isEmpty with
    | true =>
      have from_ : i.namesText ++ (i.fromText ++ '\'' :: t) = 'f' :: ("rom ".toList ++ '\'' :: t) := by
        simp [Import.namesText, Import.fromText, names, default]
      rw [from_]
      have comma : Takes size (Shape.behindSpace (Shape.char ',')) [] (' ' :: 'f' :: ("rom ".toList ++ '\'' :: t)) [] := by
        refine .opt_none (dead_behind_blank (s := [' ']) (plain_star fun _ => id) (List.all_eq_true.1 rfl) rfl fun c r hc => dead_char ?_ r)
        rintro rfl
        rcases hc with space | other
        · cases space
        · cases other
      have blank := takes_blank (d := 'f') rfl (Nat.zero_lt_of_lt small) ("rom ".toList ++ '\'' :: t)
      exact .opt (((found (by decide)).seq (comma.seq blank rfl) rfl).of_eq rfl (by simp [shift]))
    | false =>
      have braces : i.namesText ++ (i.fromText ++ '\'' :: t) = '\x7b' :: (i.namesList ++ ['\x7d', ' '] ++ (i.fromText ++ '\'' :: t)) := by
        simp [Import.namesText, names]
      rw [braces]
      have nothing : Takes size Shape.space [] ([','] ++ ' ' :: '\x7b' :: (i.namesList ++ ['\x7d', ' '] ++ (i.fromText ++ '\'' :: t))) [] := by
        refine .star_one (List.forall_mem_nil _) ?_ (Nat.zero_le _)
        rintro c ⟨⟩
        rfl
      have char : Takes size (Shape.char ',') [','] (' ' :: '\x7b' :: (i.namesList ++ ['\x7d', ' '] ++ (i.fromText ++ '\'' :: t))) [] :=
        .one rfl _
      have comma : Takes size (Shape.behindSpace (Shape.char ',')) [','] _ [] := .opt (nothing.seq char rfl)
      have blank := takes_blank (d := '\x7b') rfl (Nat.zero_lt_of_lt small) (i.namesList ++ ['\x7d', ' '] ++ (i.fromText ++ '\'' :: t))
      exact .opt (((found (by decide)).seq (comma.seq blank rfl) rfl).of_eq rfl (by simp [shift]))

/-- What comes behind the list of names, or in its place. -/
theorem exists_fromText (i : Import) (t : List Char) : ∃ d r, i.fromText ++ '\'' :: t = d :: r ∧ (d = 'f' ∨ d = '\'') := by
  unfold Import.fromText
  split_ifs
  · exact ⟨'\'', t, rfl, .inr rfl⟩
  · exact ⟨'f', _, rfl, .inl rfl⟩

theorem not_mem_namesList (named : ∀ name ∈ i.names, isIdentifier name = true) {c : Char} (other : isPlainWord c = false)
    (no_comma : c ≠ ',') (no_blank : c ≠ ' ') : c ∉ i.namesList := by
  intro hc
  have letters : c ∈ (String.intercalate ", " i.names).toList → False := by
    intro hc
    rw [String.toList_intercalate] at hc
    rcases mem_intercalate hc with hc | ⟨l, hl, hc⟩
    · rcases (show c = ',' ∨ c = ' ' by simpa using hc) with rfl | rfl
      · exact no_comma rfl
      · exact no_blank rfl
    · obtain ⟨name, hname, rfl⟩ := List.mem_map.1 hl
      rw [isPlainWord_of_isIdentifier (named name hname) c hc] at other
      cases other
  simp only [Import.namesList, List.mem_cons, List.mem_append, List.not_mem_nil, or_false] at hc
  rcases hc with blank | hc | blank
  · exact no_blank blank
  · exact letters hc
  · exact no_blank blank

/-- The list of names is found. -/
theorem takes_names (size : Nat) (named : ∀ name ∈ i.names, isIdentifier name = true) (enough : i.namesText.length ≤ size) (t : List Char) :
    Takes size (.opt (.inOrder [Shape.char '\x7b', .group 2 (.star (Shape.notIn "\x7d")), Shape.char '\x7d', Shape.space])) i.namesText
      (i.fromText ++ '\'' :: t) (if i.names.isEmpty then [] else [(2, 1, i.namesList.length + 1)]) := by
  obtain ⟨d, r, text, first⟩ := exists_fromText i t
  rw [text]
  have letter : isSpace d = false := by rcases first with rfl | rfl <;> rfl
  unfold Import.namesText at enough ⊢
  split_ifs at enough ⊢ with names
  · refine .opt_none (.seq (dead_char ?_ r) _)
    rcases first with rfl | rfl <;> decide
  · have small : i.namesList.length < size := by
      simp at enough
      omega
    have inside : Takes size (.star (Shape.notIn "\x7d")) i.namesList ('\x7d' :: ([' '] ++ d :: r)) [] := by
      refine .star_one (fun c hc => ?_) ?_ small.le
      · have absent := not_mem_namesList named (c := '\x7d') (by decide) (by decide) (by decide)
        have ne : c ≠ '\x7d' := by
          rintro rfl
          exact absent hc
        simpa using ne
      · rintro c ⟨⟩
        rfl
    have opening : Takes size (Shape.char '\x7b') ['\x7b'] (i.namesList ++ '\x7d' :: ([' '] ++ d :: r)) [] := .one rfl _
    have closing : Takes size (Shape.char '\x7d') ['\x7d'] ([' '] ++ d :: r) [] := .one rfl _
    have blank := takes_blank letter (Nat.zero_lt_of_lt small) r
    have whole := opening.seq ((Takes.group 2 inside).seq (closing.seq blank rfl) rfl) (by simp)
    exact .opt (whole.of_eq (by simp) (by simp [shift]))

theorem takes_from (size : Nat) (enough : 0 < size) (t : List Char) :
    Takes size (.opt (.seq (.text "from") Shape.space)) i.fromText ('\'' :: t) [] := by
  unfold Import.fromText
  split_ifs
  · exact .opt_none (.seq (dead_text_append (w := ['\'']) (by decide) t) _)
  · have word : Takes size (.text "from") "from".toList ([' '] ++ '\'' :: t) [] := .text _ _
    exact .opt (word.seq (takes_blank rfl enough t) rfl)

/-- Some text between quotes is taken for a source. -/
theorem takes_source (size : Nat) {inner : List Char} (plain : ∀ c ∈ inner, "\"'\n".toList.contains c = false) (enough : inner.length ≤ size)
    (t : List Char) : Takes size (.inOrder [Shape.oneIn "\"'", .group 4 (.star (Shape.notIn "\"'\n")), Shape.oneIn "\"'", Shape.blanks,
      .opt (Shape.char ';')]) ('\'' :: (inner ++ ['\'', ';'])) t [(4, 1, inner.length + 1)] := by
  have inside : Takes size (.star (Shape.notIn "\"'\n")) inner ('\'' :: ([';'] ++ t)) [] := by
    refine .star_one (fun c hc => ?_) ?_ enough
    · have other := plain c hc
      rw [other]
      rfl
    · rintro c ⟨⟩
      rfl
  have opening : Takes size (Shape.oneIn "\"'") ['\''] (inner ++ '\'' :: ([';'] ++ t)) [] := .one rfl _
  have closing : Takes size (Shape.oneIn "\"'") ['\''] ([';'] ++ t) [] := .one rfl _
  have blanks : Takes size Shape.blanks [] ([';'] ++ t) [] := by
    refine .star_one (List.forall_mem_nil _) ?_ (Nat.zero_le _)
    rintro c ⟨⟩
    rfl
  have last : Takes size (.opt (Shape.char ';')) [';'] t [] := .opt (.one rfl t)
  have whole := opening.seq ((Takes.group 4 inside).seq (closing.seq (blanks.seq last rfl) rfl) rfl) (by simp)
  exact whole.of_eq (by simp) (by simp [shift])

/-- At the start of a line, an import is found as it is written. -/
theorem exists_matchAt?_import (size : Nat) (inner : List Char) (default : ∀ name ∈ i.default, isIdentifier name = true)
    (names : ∀ name ∈ i.names, isIdentifier name = true) (untyped : i.IsUntyped)
    (plain : ∀ c ∈ inner, "\"'\n".toList.contains c = false) (enough : (i.textWith inner).length ≤ size)
    (line : before = none ∨ before = some '\n') (place : Nat) (t : List Char) :
    ∃ m, Shape.importing.matchAt? size before place (i.textWith inner ++ t) = some m ∧ m.start = place ∧
      m.stop = place + (i.textWith inner).length ∧
      m.group? 1 = i.default.map (fun name => (place + 7, place + 7 + name.toList.length)) ∧
      m.group? 2 = (if i.names.isEmpty then none else
        some (place + 8 + i.defaultText.length, place + 8 + i.defaultText.length + i.namesList.length)) ∧
      m.group? 3 = none ∧
      m.group? 4 = some (place + 8 + (i.defaultText ++ (i.namesText ++ i.fromText)).length,
        place + 8 + (i.defaultText ++ (i.namesText ++ i.fromText)).length + inner.length) := by
  obtain ⟨T, T_eq⟩ : ∃ T, T = inner ++ ['\'', ';'] ++ t := ⟨_, rfl⟩
  have lengths : (i.textWith inner).length =
      7 + (i.defaultText.length + (i.namesText.length + (i.fromText.length + (inner.length + 3)))) := by
    have keyword : "import ".toList.length = 7 := rfl
    unfold Import.textWith
    simp only [List.length_append, List.length_cons, List.length_nil, keyword]
  -- What comes behind the keyword begins with a letter.
  obtain ⟨d, r, text, letter⟩ : ∃ d r, i.defaultText ++ (i.namesText ++ (i.fromText ++ '\'' :: T)) = d :: r ∧ isSpace d = false := by
    cases binding : i.default with
    | some name =>
      obtain ⟨c, cs, same, starts, -⟩ := exists_of_isIdentifier (default name (by rw [binding]; rfl))
      refine ⟨c, cs ++ (if i.names.isEmpty then [' '] else [',', ' ']) ++ (i.namesText ++ (i.fromText ++ '\'' :: T)), ?_,
        isSpace_of_isPlainWord (isPlainWord_of_isNameStart starts)⟩
      rw [Import.defaultText_some binding, same, List.cons_append, List.cons_append]
    | none =>
      rw [Import.defaultText, binding, Option.elim_none, List.nil_append, Import.namesText]
      split_ifs with names
      · refine ⟨'\'', T, ?_, rfl⟩
        rw [Import.fromText, binding, names]
        rfl
      · exact ⟨'\x7b', _, rfl, rfl⟩
  have blanks : Takes size Shape.blanks [] ("import".toList ++ (' ' :: d :: r)) [] := by
    refine .star_one (List.forall_mem_nil _) ?_ (Nat.zero_le _)
    rintro c ⟨⟩
    rfl
  have keyword : Takes size (.text "import") "import".toList (' ' :: d :: r) [] := .text _ _
  have blank : Takes size Shape.space1 [' '] (d :: r) [] := by
    refine takes_space ?_
    rintro c ⟨⟩
    exact letter
  have untyped := takes_untyped size default untyped T
  have default_found := takes_default size default (by omega) T
  have names_found := takes_names size names (by omega) T
  have module : Takes size (.opt (.inOrder [Shape.char '*', Shape.space, .text "as", Shape.space1, .group 3 Shape.name, Shape.space])) []
      (i.fromText ++ '\'' :: T) [] := by
    obtain ⟨d, r, text, first⟩ := exists_fromText i T
    rw [text]
    refine .opt_none (.seq (dead_char ?_ r) _)
    rcases first with rfl | rfl <;> decide
  have from_found := takes_from (i := i) size (by omega) T
  have source := takes_source size plain (by omega) t
  have bound := default_found.seq (names_found.seq (module.seq (from_found.seq source (by simp [T_eq])) (by simp [T_eq])) (by simp [T_eq]))
    (by simp [T_eq])
  have whole := blanks.seq (keyword.seq (blank.seq (untyped.seq bound (by simp [T_eq])) (by simp [T_eq, ← text])) (by simp [T_eq, ← text]))
    (by simp [T_eq, ← text])
  have found := matchAt?_of_takes (w := i.textWith inner) (whole.of_eq (by unfold Import.textWith; simp) rfl) line place
  refine ⟨_, found, rfl, rfl, ?_, ?_, ?_, ?_⟩
  · cases i.default <;> cases i.names.isEmpty <;> simp [Match.group?, shift]
    all_goals omega
  · cases i.default <;> cases i.names.isEmpty <;> simp [Match.group?, shift]
    all_goals omega
  · cases i.default <;> cases i.names.isEmpty <;> simp [Match.group?, shift]
  · cases i.default <;> cases i.names.isEmpty <;> simp [Match.group?, shift]
    all_goals omega

end Codewright.Script
