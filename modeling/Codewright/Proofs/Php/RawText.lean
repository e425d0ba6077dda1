import Codewright.Proofs.Php.SameLine
import Codewright.Proofs.Text.Lines

/-!
# Tokens that keep their text

Strings, heredocs and attribute groups are kept as they are written. They may go over several lines, but what they are is told by
their own text: where one ends does not depend on what follows, as long as no name goes on there.

* `enclosedLength_take` – quotes and brackets; `heredocLength_take` – heredocs;
* `IsRaw text` – the text is a token that keeps its text; `isRaw_quoted`, `isRaw_group`, `isRaw_heredoc` – so are the tokens that
  the lexer reads.
-/

namespace Codewright.Php.Lexer

open Text

variable {rest : List Char}

/-! ## Quotes and brackets -/

/-- What closes the last enclosure does not depend on what follows. -/
theorem Enclosure.step_eq_nil {e : Enclosure} {outer : List Enclosure} {c : Char} {next : Option Char}
    (h : e.step outer c next = []) (next' : Option Char) : e.step outer c next' = [] := by
  cases e with
  | escape => exact h
  | quote q =>
    simp only [step] at h ⊢
    split_ifs at h ⊢
    exact h
  | braces depth => exact h
  | brackets depth => exact h

theorem eq_nil_of_enclosedLength_zero {es : List Enclosure} {cs : List Char} (h : enclosedLength es cs = .ok 0) : es = [] := by
  cases es with
  | nil => rfl
  | cons e outer =>
    cases cs with
    | nil => cases h
    | cons c cs =>
      rw [enclosedLength] at h
      cases read : enclosedLength (e.step outer c cs.head?) cs with
      | error _ =>
        rw [read] at h
        cases h
      | ok n =>
        rw [read] at h
        cases h

theorem enclosedLength_le {es : List Enclosure} {cs : List Char} {n : Nat} (h : enclosedLength es cs = .ok n) :
    n ≤ cs.length := by
  induction cs generalizing es n with
  | nil =>
    cases es with
    | nil =>
      cases h
      exact Nat.le_refl 0
    | cons e outer => cases h
  | cons c cs ih =>
    cases es with
    | nil =>
      cases h
      exact Nat.zero_le _
    | cons e outer =>
      rw [enclosedLength] at h
      cases read : enclosedLength (e.step outer c cs.head?) cs with
      | error _ =>
        rw [read] at h
        cases h
      | ok m =>
        rw [read] at h
        cases h
        exact Nat.succ_le_succ (ih read)

/-- An enclosed text ends where it ends, whatever follows. -/
theorem enclosedLength_take {es : List Enclosure} {cs : List Char} {n : Nat} (h : enclosedLength es cs = .ok n)
    (rest : List Char) : enclosedLength es (cs.take n ++ rest) = .ok n := by
  induction cs generalizing es n with
  | nil =>
    cases es with
    | nil =>
      cases h
      rw [enclosedLength]
    | cons e outer => cases h
  | cons c cs ih =>
    cases es with
    | nil =>
      cases h
      rw [enclosedLength]
    | cons e outer =>
      rw [enclosedLength] at h
      cases read : enclosedLength (e.step outer c cs.head?) cs with
      | error _ =>
        rw [read] at h
        cases h
      | ok m =>
        rw [read] at h
        cases h
        rw [List.take_succ_cons, List.cons_append, enclosedLength]
        have same : enclosedLength (e.step outer c (cs.take m ++ rest).head?) (cs.take m ++ rest) = .ok m := by
          cases m with
          | zero =>
            rw [Enclosure.step_eq_nil (eq_nil_of_enclosedLength_zero read), enclosedLength]
          | succ m =>
            cases cs with
            | nil => exact absurd (enclosedLength_le read) (by simp)
            | cons d cs => exact ih read
        rw [same]
        rfl

/-! ## Heredocs -/

theorem headIs_eq_of_start {p : Char → Bool} {s t : List Char} (h : headIs p t = false) (start : s <+: t) : headIs p s = false := by
  cases s with
  | nil => rfl
  | cons c s =>
    obtain ⟨more, rfl⟩ := start
    exact h

/-- The first line of a text that begins with characters other than line feeds. -/
theorem exists_linesWithEnds_append {w : List Char} (one : '\n' ∉ w) (some_char : w ≠ []) (rest : List Char) :
    ∃ r ls, linesWithEnds (w ++ rest) = (w ++ r) :: ls ∧ r <+: rest := by
  induction w with
  | nil => exact absurd rfl some_char
  | cons c w ih =>
    rw [List.mem_cons, not_or] at one
    rw [List.cons_append, linesWithEnds, if_neg (Ne.symm one.1)]
    by_cases more : w = []
    · subst more
      rw [List.nil_append]
      have whole := flatten_linesWithEnds rest
      cases cut : linesWithEnds rest with
      | nil => exact ⟨[], [], rfl, List.nil_prefix⟩
      | cons l ls =>
        refine ⟨l, ls, rfl, ls.flatten, ?_⟩
        rw [cut] at whole
        exact whole
    · obtain ⟨r, ls, cut, start⟩ := ih one.2 more
      rw [cut]
      exact ⟨r, ls, rfl, start⟩

/-- A line that closes a heredoc: blanks, and the label with no name going on behind it. -/
theorem closingLength?_eq_some {label line : List Char} {n : Nat} (h : closingLength? label line = some n) :
    ∃ blanks more, line = blanks ++ (label ++ more) ∧ (∀ c ∈ blanks, isBlank c = true) ∧ n = (blanks ++ label).length := by
  unfold closingLength? at h
  dsimp only at h
  split at h
  · next closes =>
    cases h
    rw [Bool.and_eq_true, List.isPrefixOf_iff_prefix] at closes
    obtain ⟨⟨more, behind⟩, -⟩ := closes
    refine ⟨line.take (spanLength isBlank line), more, ?_, take_spanLength isBlank line, ?_⟩
    · rw [behind, List.take_append_drop]
    · have le : spanLength isBlank line ≤ line.length := (List.takeWhile_prefix _).length_le
      rw [List.length_append, List.length_take, Nat.min_eq_left le]
  · cases h

/-- Blanks and the label close a heredoc, whatever follows but a name. -/
theorem closingLength?_append {label blanks : List Char} (some_char : label ≠ []) (ident : ∀ c ∈ label, isIdentChar c = true)
    (blank : ∀ c ∈ blanks, isBlank c = true) (ends : headIs isIdentChar rest = false) :
    closingLength? label (blanks ++ label ++ rest) = some (blanks ++ label).length := by
  have indent : spanLength isBlank (blanks ++ (label ++ rest)) = blanks.length := by
    obtain ⟨c, label, rfl⟩ := List.exists_cons_of_ne_nil some_char
    refine spanLength_append blank ?_
    have letter := ident c (by simp)
    cases blank_there : isBlank c with
    | false => exact blank_there
    | true =>
      rw [isBlank, Bool.or_eq_true, beq_iff_eq, beq_iff_eq] at blank_there
      rcases blank_there with rfl | rfl <;> exact Bool.noConfusion (show false = true from letter)
  unfold closingLength?
  dsimp only
  rw [List.append_assoc, indent, List.drop_left, List.drop_left, ends]
  simp

/-- The body of a heredoc ends where it ends, whatever follows but a name. -/
theorem heredocBodyLength?_take {label body : List Char} {n : Nat} (some_char : label ≠ [])
    (ident : ∀ c ∈ label, isIdentChar c = true) (ends : headIs isIdentChar rest = false)
    (h : heredocBodyLength? label (linesWithEnds body) = some n) :
    n ≤ body.length ∧ heredocBodyLength? label (linesWithEnds (body.take n ++ rest)) = some n := by
  have no_feed {blanks : List Char} (blank : ∀ c ∈ blanks, isBlank c = true) : '\n' ∉ blanks ++ label := by
    rw [List.mem_append, not_or]
    exact ⟨fun feed => absurd (blank _ feed) (by decide), fun feed => absurd (ident _ feed) (by decide)⟩
  have closed {line : List Char} {m : Nat} (closes : closingLength? label line = some m) (more : List Char) :
      m ≤ (line ++ more).length ∧ heredocBodyLength? label (linesWithEnds ((line ++ more).take m ++ rest)) = some m := by
    obtain ⟨blanks, tail, rfl, blank, rfl⟩ := closingLength?_eq_some closes
    have whole : blanks ++ (label ++ tail) ++ more = (blanks ++ label) ++ (tail ++ more) := by simp
    rw [whole, List.take_left]
    refine ⟨(List.prefix_append _ _).length_le, ?_⟩
    obtain ⟨r, ls, cut, start⟩ := exists_linesWithEnds_append (no_feed blank) (by simp [some_char]) rest
    rw [cut, heredocBodyLength?, closingLength?_append some_char ident blank (headIs_eq_of_start ends start)]
  induction body using lines_induction generalizing n with
  | nil => cases h
  | last l one some_line =>
    rw [linesWithEnds_of_no_feed one some_line, heredocBodyLength?] at h
    cases closes : closingLength? label l with
    | none =>
      rw [closes] at h
      cases h
    | some m =>
      rw [closes] at h
      cases h
      simpa using closed closes []
  | line l s one ih =>
    rw [linesWithEnds_append_feed one, heredocBodyLength?] at h
    cases closes : closingLength? label (l ++ ['\n']) with
    | none =>
      rw [closes] at h
      obtain ⟨m, later, rfl⟩ := Option.map_eq_some_iff.1 h
      obtain ⟨le, read⟩ := ih later
      have front : (l ++ '\n' :: s).take ((l ++ ['\n']).length + m) ++ rest = l ++ '\n' :: (s.take m ++ rest) := by
        rw [List.append_cons l '\n' s, List.take_length_add_append]
        simp
      rw [front, linesWithEnds_append_feed one, heredocBodyLength?, closes, read]
      refine ⟨?_, rfl⟩
      simp only [List.length_append, List.length_cons, List.length_nil]
      omega
    | some m =>
      rw [closes] at h
      cases h
      have whole : l ++ '\n' :: s = l ++ ['\n'] ++ s := by simp
      rw [whole]
      exact closed closes s

/-- The quote at the start of the list. -/
def quoteAt? (cs : List Char) : Option Char := cs.head?.filter fun q => q == '\'' || q == '"'

/-- The first line of a heredoc behind its brackets: its label, and the length of the line with its end. -/
def heredocHead (cs : List Char) : Except Fault (List Char × Nat) :=
  let blanks := spanLength isBlank cs
  let quote? := quoteAt? (cs.drop blanks)
  let opening := blanks + quote?.toList.length
  let label := (cs.drop opening).takeWhile isIdentChar
  let head := opening + label.length
  if label.isEmpty then .error ⟨.unexpectedToken "<<<" "heredoc label", 3 + head⟩
  else if quote?.isSome && (cs.drop head).head? != quote? then .error ⟨.unterminatedString, 3 + head⟩
  else
    let head := head + quote?.toList.length
    let lineEnd := lineEndLength (cs.drop head)
    if lineEnd = 0 then .error ⟨.unterminatedString, 3 + head⟩ else .ok (label, head + lineEnd)

theorem heredocLength_eq (cs : List Char) :
    heredocLength cs = (heredocHead cs).bind fun r =>
      match heredocBodyLength? r.1 (linesWithEnds (cs.drop r.2)) with
      | some n => .ok (3 + r.2 + n)
      | none => .error ⟨.unterminatedString, 3 + cs.length⟩ := by
  unfold heredocLength heredocHead
  dsimp only [quoteAt?]
  split_ifs
  all_goals simp only [Except.bind, ← Nat.add_assoc]
  all_goals rfl

namespace SameLine

variable {s t : List Char}

theorem head?_eq (h : SameLine s t) : s.head? = t.head? := by
  cases h <;> rfl

theorem lineEndLength_eq (h : SameLine s t) : lineEndLength s = lineEndLength t := by
  cases h with
  | nil => rfl
  | feed s t => rfl
  | @cons c s t h =>
    cases h with
    | nil => rfl
    | feed s t =>
      by_cases carriage : c = '\r'
      · subst carriage
        rfl
      · unfold lineEndLength
        split <;> simp_all
    | @cons d s t h =>
      unfold lineEndLength
      split <;> simp_all

end SameLine

/-- What stands in a text between two of its places. -/
theorem not_feed_add {s : List Char} {m n : Nat} (h : ∀ d ∈ s.take m, d ≠ '\n') (h' : ∀ d ∈ (s.drop m).take n, d ≠ '\n') :
    ∀ d ∈ s.take (m + n), d ≠ '\n' := by
  rw [List.take_add]
  exact List.forall_mem_append.2 ⟨h, h'⟩

theorem not_feed_quote {cs : List Char} {quote? : Option Char} (quote : ∀ q ∈ quote?, q = '\'' ∨ q = '"')
    (here : quote?.isSome = true → cs.head? = quote?) : ∀ d ∈ cs.take quote?.toList.length, d ≠ '\n' := by
  cases quote? with
  | none => simp
  | some q =>
    obtain ⟨more, rfl⟩ := List.head?_eq_some_iff.1 (here rfl)
    intro d hd
    obtain rfl : d = q := by simpa using hd
    rcases quote d rfl with rfl | rfl <;> decide

theorem quoteAt?_spec (cs : List Char) :
    (∀ q ∈ quoteAt? cs, q = '\'' ∨ q = '"') ∧ ((quoteAt? cs).isSome = true → cs.head? = quoteAt? cs) := by
  cases found : quoteAt? cs with
  | none => simp
  | some q =>
    obtain ⟨here, quote⟩ := Option.filter_eq_some_iff.1 found
    exact ⟨by simpa using quote, fun _ => here⟩

theorem feed_mem_lineEnd {cs : List Char} (h : lineEndLength cs ≠ 0) : '\n' ∈ cs.take (lineEndLength cs) := by
  unfold lineEndLength at h ⊢
  split at h <;> simp_all

/-- The first line of a heredoc is told by that line; its label is a name. -/
theorem heredocHead_spec {s t : List Char} (h : SameLine s t) :
    heredocHead s = heredocHead t ∧
      ∀ label j, heredocHead s = .ok (label, j) →
        label ≠ [] ∧ (∀ c ∈ label, isIdentChar c = true) ∧ '\n' ∈ s.take j := by
  have blanks : ∀ d ∈ s.take (spanLength isBlank s), d ≠ '\n' :=
    fun d hd => ne_feed_of_isInner (inner_span isInner_of_isBlank s d hd)
  obtain ⟨quote, here⟩ := quoteAt?_spec (s.drop (spanLength isBlank s))
  have opening := not_feed_add blanks (not_feed_quote quote here)
  have behind := h.drop blanks
  have behind' := h.drop opening
  unfold heredocHead
  dsimp only
  rw [← h.spanLength_eq (p := isBlank) (by decide), show quoteAt? (t.drop (spanLength isBlank s)) = quoteAt? (s.drop (spanLength isBlank s)) by
    rw [quoteAt?, ← behind.head?_eq, quoteAt?], ← behind'.takeWhile_eq (p := isIdentChar) (by decide)]
  generalize quoteAt? (s.drop (spanLength isBlank s)) = quote? at *
  generalize spanLength isBlank s + quote?.toList.length = k at *
  have ident : ∀ c ∈ (s.drop k).takeWhile isIdentChar, isIdentChar c = true := List.all_eq_true.1 List.all_takeWhile
  have label : ∀ d ∈ (s.drop k).take ((s.drop k).takeWhile isIdentChar).length, d ≠ '\n' :=
    fun d hd => ne_feed_of_isInner (inner_span isInner_of_isIdentChar _ d hd)
  have named := not_feed_add opening label
  rw [← (h.drop named).head?_eq]
  split
  · exact ⟨rfl, nofun⟩
  next some_label =>
  split
  · exact ⟨rfl, nofun⟩
  next same_quote =>
  have closing : quote?.isSome = true → (s.drop (k + ((s.drop k).takeWhile isIdentChar).length)).head? = quote? := by
    intro quoted
    simpa [quoted] using same_quote
  have before := not_feed_add named (not_feed_quote quote closing)
  rw [← (h.drop before).lineEndLength_eq]
  split
  · exact ⟨rfl, nofun⟩
  next ends =>
  refine ⟨rfl, ?_⟩
  rintro _ _ ⟨⟩
  refine ⟨by simpa using some_label, ident, ?_⟩
  rw [List.take_add]
  exact List.mem_append_right _ (feed_mem_lineEnd ends)

theorem SameLine.refl (s : List Char) : SameLine s s := by
  induction s with
  | nil => exact .nil
  | cons c s ih => exact .cons c ih

/-- A text that is cut behind its first line. -/
theorem sameLine_take {s : List Char} {n : Nat} (feed : '\n' ∈ s.take n) (rest : List Char) : SameLine s (s.take n ++ rest) := by
  induction s generalizing n with
  | nil => simp at feed
  | cons c s ih =>
    cases n with
    | zero => simp at feed
    | succ n =>
      rw [List.take_succ_cons, List.cons_append]
      rw [List.take_succ_cons, List.mem_cons] at feed
      rcases feed with rfl | later
      · exact .feed _ _
      · exact .cons c (ih later)

/-- A heredoc ends where it ends, whatever follows but a name. -/
theorem heredocLength_take {cs : List Char} {n : Nat} (h : heredocLength cs = .ok n) (ends : headIs isIdentChar rest = false) :
    ∃ m, n = 3 + m ∧ m ≤ cs.length ∧ heredocLength (cs.take m ++ rest) = .ok n := by
  rw [heredocLength_eq] at h
  cases head : heredocHead cs with
  | error _ =>
    rw [head] at h
    cases h
  | ok r =>
    obtain ⟨label, j⟩ := r
    rw [head] at h
    obtain ⟨some_char, ident, feed⟩ := (heredocHead_spec (.refl cs)).2 label j head
    simp only [Except.bind] at h
    split at h
    · next k body =>
      cases h
      obtain ⟨le, read⟩ := heredocBodyLength?_take some_char ident ends body
      have inside : j ≤ cs.length := by
        by_contra outside
        rw [List.drop_eq_nil_of_le (by omega)] at body
        cases body
      rw [List.length_drop] at le
      refine ⟨j + k, Nat.add_assoc 3 j k, by omega, ?_⟩
      have more : '\n' ∈ cs.take (j + k) := by
        rw [List.take_add]
        exact List.mem_append_left _ feed
      have left : (cs.take (j + k) ++ rest).drop j = (cs.drop j).take k ++ rest := by
        rw [List.take_add, List.append_assoc, List.drop_left' (by rw [List.length_take]; omega)]
      rw [heredocLength_eq, ← (heredocHead_spec (sameLine_take more rest)).1, head]
      simp only [Except.bind, left, read]
    · cases h

/-! ## Texts that are kept -/

/-- The text is a token that keeps it, in front of whatever goes on with no name. It begins like no lexeme of one line. -/
structure IsRaw (text : List Char) : Prop where
  begins : (∃ c ∈ ['\'', '"', '\x60', '#'], text.head? = some c) ∨ ['<', '<'] <+: text
  lexeme : ∃ kind, ∀ rest, headIs isIdentChar rest = false →
    lexemeAt? (text ++ rest) = some ⟨kind, String.ofList text, text.length - 1⟩

/-- What the lexer finds where no gap and no closing tag begins. -/
theorem lexemeAt?_eq_some {c : Char} {cs : List Char} {lexeme : Lexeme} (no_tag : c ≠ '?') (no_gap : gapPiece? c cs = .ok none)
    (read : scan c cs = .ok lexeme) : lexemeAt? (c :: cs) = some lexeme := by
  rw [lexemeAt?, if_neg fun tag => no_tag tag.1, no_gap, read]
  rfl

/-- A text in quotes is a string, whatever follows. -/
theorem lexemeAt?_quoted {q : Char} {cs : List Char} {n : Nat} (quote : q ∈ ['\'', '"', '\x60'])
    (h : enclosedLength [.quote q] cs = .ok n) (rest : List Char) :
    lexemeAt? (q :: cs.take n ++ rest) = some ⟨.string, String.ofList (q :: cs.take n), (q :: cs.take n).length - 1⟩ := by
  have le := enclosedLength_le h
  have read := enclosedLength_take h rest
  have taken : (cs.take n ++ rest).take n = cs.take n := by
    rw [List.take_left' (by rw [List.length_take]; omega)]
  have scanned : scan q (cs.take n ++ rest) = enclosed .string [q] (.quote q) (cs.take n ++ rest) := by
    simp only [List.mem_cons, List.not_mem_nil, or_false] at quote
    rcases quote with rfl | rfl | rfl <;> rfl
  have length : (q :: cs.take n).length - 1 = n := by simpa using le
  rw [List.cons_append, length]
  refine lexemeAt?_eq_some ?_ ?_ ?_
  · rintro rfl
    simp at quote
  · simp only [List.mem_cons, List.not_mem_nil, or_false] at quote
    rcases quote with rfl | rfl | rfl <;> rfl
  · rw [scanned, enclosed, read]
    simp only [taken, List.length_singleton, List.singleton_append, Nat.sub_self, Nat.zero_add]

/-- A text in quotes, as the lexer reads it. -/
theorem isRaw_quoted {q : Char} {cs : List Char} {n : Nat} (quote : q ∈ ['\'', '"', '\x60'])
    (h : enclosedLength [.quote q] cs = .ok n) : IsRaw (q :: cs.take n) :=
  ⟨.inl ⟨q, List.mem_append_left ['#'] quote, rfl⟩, .string, fun rest _ => lexemeAt?_quoted quote h rest⟩

/-- A group of attributes is one, whatever follows. -/
theorem lexemeAt?_group {cs : List Char} {n : Nat} (h : enclosedLength [.brackets 1] cs = .ok n) (rest : List Char) :
    lexemeAt? ('#' :: '[' :: cs.take n ++ rest) =
      some ⟨.attributeGroup, String.ofList ('#' :: '[' :: cs.take n), ('#' :: '[' :: cs.take n).length - 1⟩ := by
  have le := enclosedLength_le h
  have read := enclosedLength_take h rest
  have taken : (cs.take n ++ rest).take n = cs.take n := by
    rw [List.take_left' (by rw [List.length_take]; omega)]
  have scanned : scan '#' ('[' :: (cs.take n ++ rest)) = enclosed .attributeGroup ['#', '['] (.brackets 1) (cs.take n ++ rest) := rfl
  have length : ('#' :: '[' :: cs.take n).length - 1 = 1 + n := by
    simp only [List.length_cons, List.length_take]
    omega
  rw [List.cons_append, List.cons_append, length]
  refine lexemeAt?_eq_some (by decide) rfl ?_
  rw [scanned, enclosed, read]
  simp only [taken]
  rfl

/-- A group of attributes, as the lexer reads it. -/
theorem isRaw_group {cs : List Char} {n : Nat} (h : enclosedLength [.brackets 1] cs = .ok n) : IsRaw ('#' :: '[' :: cs.take n) :=
  ⟨.inl ⟨'#', by simp, rfl⟩, .attributeGroup, fun rest _ => lexemeAt?_group h rest⟩

/-- A heredoc is a string in front of whatever goes on with no name. -/
theorem lexemeAt?_heredoc {cs : List Char} {n : Nat} (h : heredocLength cs = .ok n) (ends : headIs isIdentChar rest = false) :
    lexemeAt? ('<' :: ('<' :: '<' :: cs).take (n - 1) ++ rest) =
      some ⟨.string, String.ofList ('<' :: ('<' :: '<' :: cs).take (n - 1)), ('<' :: ('<' :: '<' :: cs).take (n - 1)).length - 1⟩ := by
  obtain ⟨m, rfl, le, read⟩ := heredocLength_take h ends
  have text : ('<' :: '<' :: cs).take (3 + m - 1) = '<' :: '<' :: cs.take m := by
    rw [show 3 + m - 1 = m + 1 + 1 by omega, List.take_succ_cons, List.take_succ_cons]
  have scanned : scan '<' ('<' :: '<' :: (cs.take m ++ rest)) =
      (heredocLength (cs.take m ++ rest)).bind fun n =>
        .ok ⟨.string, String.ofList ('<' :: ('<' :: '<' :: (cs.take m ++ rest)).take (n - 1)), n - 1⟩ := rfl
  have length : ('<' :: '<' :: '<' :: cs.take m).length - 1 = 3 + m - 1 := by
    simp only [List.length_cons, List.length_take]
    omega
  rw [text, List.cons_append, List.cons_append, List.cons_append, length]
  refine lexemeAt?_eq_some (by decide) rfl ?_
  rw [scanned, read]
  have taken : ('<' :: '<' :: (cs.take m ++ rest)).take (3 + m - 1) = '<' :: '<' :: cs.take m := by
    rw [show 3 + m - 1 = m + 1 + 1 by omega, List.take_succ_cons, List.take_succ_cons,
      List.take_left' (by rw [List.length_take]; omega)]
  simp only [Except.bind, taken]

/-- A heredoc, as the lexer reads it. -/
theorem isRaw_heredoc {cs : List Char} {n : Nat} (h : heredocLength cs = .ok n) : IsRaw ('<' :: ('<' :: '<' :: cs).take (n - 1)) := by
  refine ⟨.inr ?_, .string, fun rest ends => lexemeAt?_heredoc h ends⟩
  obtain ⟨m, rfl, -, -⟩ := heredocLength_take h (show headIs isIdentChar [] = false from rfl)
  rw [show 3 + m - 1 = m + 1 + 1 by omega, List.take_succ_cons]
  exact ⟨_, rfl⟩

end Codewright.Php.Lexer
