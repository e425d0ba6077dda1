import Codewright.Proofs.Text.Scan

/-!
# Literals

A literal is a string or a pattern with its delimiters, or a piece of a template between two places where code begins or ends:
a template without substitutions is one literal, and `a${` and `}b` with backticks around them are two.

* `literals forms text` – the literals of a text in their order;
* `Quotes forms follow s text marks t` – reading a text from the state `s` to the state `t` meets the marked characters of
  literals; `Quotes.append` puts parts together, and what follows a part or where it stands does not count.
-/

namespace Codewright.Text

variable {forms : LexicalForms} {follow : Option Char} {s s' t t' u : MaskState} {a b text : List Char}
  {cells cells' : List Cell} {marks marks' : List (Char × Bool)}

/-- The reader is within a literal. -/
def MaskState.inLiteral (s : MaskState) : Bool :=
  match s.mode with
  | .plain => s.enclosures.head? == some .template
  | .commentOpen _ | .comment .. | .lineComment => false
  | .substitutionOpen | .string .. | .regex .. | .escaped _ => true

/-- A character between two states, if it belongs to a literal, with whether the literal ends there. -/
def markOf (s t : MaskState) (c : Char) : List (Char × Bool) :=
  if s.inLiteral || t.inLiteral then [(c, !t.inLiteral)] else []

/-- The characters of literals that a reader meets. -/
def markLiterals (forms : LexicalForms) (follow : Option Char) (s : MaskState) : List Char → List (Char × Bool)
  | [] => []
  | c :: cs =>
    match maskStep forms s c (cs.head?.or follow) with
    | .error _ => []
    | .ok (shown, mode, enclosures) =>
      let t := s.after c shown mode enclosures
      markOf s t c ++ markLiterals forms follow t cs

/-- Marked characters, cut behind each end. -/
def pieces : List (Char × Bool) → List (List Char)
  | [] => []
  | (c, true) :: marks => [c] :: pieces marks
  | (c, false) :: marks =>
    match pieces marks with
    | [] => [[c]]
    | p :: ps => (c :: p) :: ps

/-- The literals of a text. -/
def literals (forms : LexicalForms) (text : List Char) : List (List Char) := pieces (markLiterals forms none {} text)

/-! ## Pieces -/

theorem flatten_pieces (marks : List (Char × Bool)) : (pieces marks).flatten = marks.map Prod.fst := by
  induction marks with
  | nil => rfl
  | cons m marks ih =>
    obtain ⟨c, last⟩ := m
    cases last with
    | true => simp [pieces, ih]
    | false =>
      rw [pieces]
      cases cut : pieces marks with
      | nil => simpa [cut] using ih
      | cons p ps => simpa [cut] using ih

/-- The last piece ends. -/
def AtEnd (marks : List (Char × Bool)) : Prop := ∀ m ∈ marks.getLast?, m.2 = true

theorem pieces_append (ends : AtEnd marks) (marks' : List (Char × Bool)) :
    pieces (marks ++ marks') = pieces marks ++ pieces marks' := by
  induction marks with
  | nil => rfl
  | cons m marks ih =>
    obtain ⟨c, last⟩ := m
    have tail : pieces (marks ++ marks') = pieces marks ++ pieces marks' := by
      cases marks with
      | nil => rfl
      | cons => exact ih (by simpa [AtEnd] using ends)
    cases last with
    | true => rw [List.cons_append, pieces, pieces, tail, List.cons_append]
    | false =>
      rw [List.cons_append, pieces, pieces, tail]
      cases cut : pieces marks with
      | cons => rfl
      | nil =>
        -- A character that does not end its literal is not the last one.
        cases marks with
        | nil => simp [AtEnd] at ends
        | cons m marks =>
          have flat := flatten_pieces (m :: marks)
          rw [cut] at flat
          cases flat

/-- No mark has a character that is in no piece. -/
theorem forall_mem_pieces {p : Char → Prop} : (∀ l ∈ pieces marks, ∀ c ∈ l, p c) ↔ ∀ m ∈ marks, p m.1 := by
  have flat := flatten_pieces marks
  constructor
  · intro h m hm
    have mem : m.1 ∈ (pieces marks).flatten := flat ▸ List.mem_map_of_mem hm
    obtain ⟨l, hl, hc⟩ := List.mem_flatten.1 mem
    exact h l hl _ hc
  · intro h l hl c hc
    have mem : c ∈ (pieces marks).flatten := List.mem_flatten.2 ⟨l, hl, hc⟩
    rw [flat] at mem
    obtain ⟨m, hm, rfl⟩ := List.mem_map.1 mem
    exact h m hm

/-! ## Reading in parts -/

theorem markLiterals_cons {c : Char} {shown : Bool} {mode : MaskMode} {es : List Enclosure}
    (step : maskStep forms s c (text.head?.or follow) = .ok (shown, mode, es)) : markLiterals forms follow s (c :: text) =
      markOf s (s.after c shown mode es) c ++ markLiterals forms follow (s.after c shown mode es) text := by
  rw [markLiterals, step]

theorem Scans.markLiterals_single {c : Char} (h : Scans forms follow s [c] cells t) :
    markLiterals forms follow s [c] = markOf s t c := by
  cases h with
  | cons step rest =>
    cases rest
    rw [markLiterals_cons step, markLiterals, List.append_nil]

theorem markOf_congr (hs : s.inLiteral = s'.inLiteral) (ht : t.inLiteral = t'.inLiteral) (c : Char) :
    markOf s t c = markOf s' t' c := by
  rw [markOf, markOf, hs, ht]

/-- The same states and the same text have the same marks, whatever follows. -/
theorem Scans.markLiterals_eq {f f' : Option Char} (h : Scans forms f s text cells t) (h' : Scans forms f' s text cells' t) :
    markLiterals forms f s text = markLiterals forms f' s text := by
  induction h generalizing cells' with
  | nil => rfl
  | @cons s t c cs shown mode es cells step rest ih =>
    cases h' with
    | @cons _ _ _ _ shown' mode' es' cells' step' rest' =>
      cases cs with
      | nil =>
        cases rest
        generalize eq : s.after c shown mode es = u at rest'
        cases rest'
        rw [markLiterals_cons step, markLiterals_cons step', eq]
        rfl
      | cons d ds =>
        cases step.symm.trans step'
        rw [markLiterals_cons step, markLiterals_cons step', ih rest']

theorem Scans.markLiterals_append (ha : Scans forms (b.head?.or follow) s a cells t) :
    markLiterals forms follow s (a ++ b) = markLiterals forms (b.head?.or follow) s a ++ markLiterals forms follow t b := by
  induction ha with
  | nil => rfl
  | @cons _ _ c cs _ _ _ _ step _ ih =>
    have step' := step
    rw [← head?_append_or] at step'
    rw [List.cons_append, markLiterals_cons step, markLiterals_cons step', ih, List.append_assoc]

/-- The same for one character in front of a text. -/
theorem Scans.markLiterals_first {c : Char} (h : Scans forms (text.head?.or follow) s [c] cells t) :
    markLiterals forms follow s (c :: text) = markOf s t c ++ markLiterals forms follow t text := by
  rw [← List.singleton_append, h.markLiterals_append, h.markLiterals_single]

/-- Behind a reading that ends outside of literals, the last literal has ended. -/
theorem Scans.atEnd (h : Scans forms follow s text cells t) (outside : t.inLiteral = false) :
    AtEnd (markLiterals forms follow s text) := by
  induction h with
  | nil => simp [AtEnd, markLiterals]
  | @cons s t c cs shown mode es cells step rest ih =>
    have tail := ih outside
    rw [markLiterals_cons step, AtEnd, List.getLast?_append]
    cases more : markLiterals forms follow (s.after c shown mode es) cs with
    | cons m marks =>
      rw [more] at tail
      simpa [AtEnd] using tail
    | nil =>
      -- Without further marks, the literal has ended with this character.
      have ended : (s.after c shown mode es).inLiteral = false := by
        cases rest with
        | nil => exact outside
        | cons step' _ =>
          by_contra inside
          rw [Bool.not_eq_false] at inside
          rw [markLiterals_cons step', markOf, inside] at more
          simp at more
      unfold markOf
      split_ifs <;> simp [ended]

/-- Marked characters are characters of the text. -/
theorem mem_of_mem_markLiterals {m : Char × Bool} (hm : m ∈ markLiterals forms follow s text) : m.1 ∈ text := by
  induction text generalizing s with
  | nil => cases hm
  | cons c text ih =>
    rw [markLiterals] at hm
    split at hm
    · cases hm
    · rcases List.mem_append.1 hm with hm | hm
      · unfold markOf at hm
        split_ifs at hm
        · rw [List.mem_singleton.1 hm]
          exact List.mem_cons_self
        · cases hm
      · exact List.mem_cons_of_mem _ (ih hm)

theorem mem_of_mem_literals {l : List Char} {c : Char} (hl : l ∈ literals forms text) (hc : c ∈ l) : c ∈ text :=
  (forall_mem_pieces (p := (· ∈ text))).2 (fun _ hm => mem_of_mem_markLiterals hm) l hl c hc

/-! ## Readings with marks -/

/-- Reading a text from one state to another, with the marks of its literals. -/
structure Quotes (forms : LexicalForms) (follow : Option Char) (s : MaskState) (text : List Char) (marks : List (Char × Bool))
    (t : MaskState) : Prop where
  scans : ∃ cells, Scans forms follow s text cells t
  marks_eq : markLiterals forms follow s text = marks

namespace Quotes

theorem of_scans (h : Scans forms follow s text cells t) : Quotes forms follow s text (markLiterals forms follow s text) t :=
  ⟨⟨cells, h⟩, rfl⟩

theorem nil : Quotes forms follow s [] [] s := ⟨⟨[], .nil⟩, rfl⟩

theorem append (ha : Quotes forms (b.head?.or follow) s a marks t) (hb : Quotes forms follow t b marks' u) :
    Quotes forms follow s (a ++ b) (marks ++ marks') u := by
  obtain ⟨⟨ca, ra⟩, rfl⟩ := ha
  obtain ⟨⟨cb, rb⟩, rfl⟩ := hb
  exact ⟨⟨_, ra.append rb⟩, ra.markLiterals_append⟩

theorem unique (h : Quotes forms follow s text marks t) (h' : Quotes forms follow s text marks' t') : marks = marks' ∧ t = t' := by
  obtain ⟨⟨c, r⟩, rfl⟩ := h
  obtain ⟨⟨c', r'⟩, rfl⟩ := h'
  exact ⟨rfl, (r.unique r').2⟩

/-- A reading of a text is one of its parts. -/
theorem split (h : Quotes forms follow s (a ++ b) marks u) : ∃ ma mb t, marks = ma ++ mb ∧
    Quotes forms (b.head?.or follow) s a ma t ∧ Quotes forms follow t b mb u := by
  obtain ⟨⟨c, r⟩, rfl⟩ := h
  obtain ⟨ca, cb, t, rfl, ra, rb⟩ := scans_append_iff.1 r
  exact ⟨_, _, t, ra.markLiterals_append, of_scans ra, of_scans rb⟩

/-- The same reading in front of something else. -/
theorem in_front_of {f f' : Option Char} (h : Quotes forms f s text marks t) (h' : Scans forms f' s text cells t) :
    Quotes forms f' s text marks t := by
  obtain ⟨⟨c, r⟩, rfl⟩ := h
  exact ⟨⟨_, h'⟩, h'.markLiterals_eq r⟩

theorem dull {f f' : Option Char} (h : Quotes forms f s text marks t) (hf : IsDull f) (hf' : IsDull f') :
    Quotes forms f' s text marks t := by
  obtain ⟨c, r⟩ := h.scans
  exact h.in_front_of (r.dull hf hf')

theorem literals_eq (h : Quotes forms none {} text marks t) : literals forms text = pieces marks := by
  rw [literals, h.marks_eq]

theorem atEnd (h : Quotes forms follow s text marks t) (outside : t.inLiteral = false) : AtEnd marks := by
  obtain ⟨⟨c, r⟩, rfl⟩ := h
  exact r.atEnd outside

end Quotes

/-! ## States that are alike -/

theorem Alike.inLiteral (h : Alike forms s t) : s.inLiteral = t.inLiteral := by
  have unplaced (s : MaskState) : ({ mode := s.mode.unplaced, enclosures := s.enclosures } : MaskState).inLiteral = s.inLiteral := by
    obtain ⟨mode, enclosures, past, byte, backtick⟩ := s
    cases mode <;> rfl
  rw [← unplaced s, ← unplaced t, h.mode, h.enclosures]

/-- States that are alike have the same literals behind them. -/
theorem Alike.markLiterals_eq (h : Alike forms s s') (follow : Option Char) (text : List Char) :
    markLiterals forms follow s text = markLiterals forms follow s' text := by
  induction text generalizing s s' with
  | nil => rfl
  | cons c text ih =>
    have steps := h.maskStep c (text.head?.or follow)
    cases step : Text.maskStep forms s c (text.head?.or follow) with
    | error e =>
      cases step' : Text.maskStep forms s' c (text.head?.or follow) with
      | error e' => rw [markLiterals, markLiterals, step, step']
      | ok r =>
        rw [step, step'] at steps
        cases steps
    | ok r =>
      obtain ⟨shown, mode, es⟩ := r
      have single : Scans forms (text.head?.or follow) s [c] [⟨c, shown⟩] (s.after c shown mode es) := .cons step .nil
      obtain ⟨v, first, alike⟩ := h.scans single
      rw [single.markLiterals_first, first.markLiterals_first, ih alike, markOf_congr h.inLiteral alike.inLiteral]

/-- A reading from one state is a reading from a state that is alike. -/
theorem Alike.quotes (h : Alike forms s s') (read : Quotes forms follow s text marks t) :
    ∃ t', Quotes forms follow s' text marks t' ∧ Alike forms t t' := by
  obtain ⟨⟨cells, read⟩, rfl⟩ := read
  obtain ⟨t', read', alike⟩ := h.scans read
  exact ⟨t', ⟨⟨cells, read'⟩, (h.markLiterals_eq follow text).symm⟩, alike⟩

end Codewright.Text
