import Mathlib.Data.List.Basic
import Codewright.Text.Mask

/-!
# Masks read in parts

A mask is read from left to right. The mask of a text put together consists of the masks of its parts, where each part is
read from the state that the part before it leaves.

* `Scans forms follow s text cells t` – in front of the character `follow`, reading `text` from the state `s` gives `cells`
  and leaves the state `t`; `maskFrom_eq_ok_iff` says when this is a mask, `scans_append_iff` puts parts together;
* `Scans.in_front_of` – a part that ends in code and not in a slash is read alike in front of everything;
* `Alike forms s t` – no text that follows can tell the states apart; `Alike.scans` is the simulation.
-/

namespace Codewright.Text

variable {forms : LexicalForms} {follow : Option Char} {s s' t t' u : MaskState} {a b text : List Char}
  {cells cells' : List Cell}

/-- A cell of code. -/
abbrev code (c : Char) : Cell := ⟨c, true⟩

/-- A cell of what is blank in the mask. -/
abbrev unseen (c : Char) : Cell := ⟨c, false⟩

/-- The characters of cells. -/
abbrev chars (cells : List Cell) : List Char := cells.map Cell.char

theorem eq_code_of_face {cell : Cell} {c : Char} (face : cell.face = c) (letter : isSpace c = false) : cell = code c := by
  obtain ⟨d, shown⟩ := cell
  subst face
  cases shown with
  | true => rfl
  | false =>
    unfold Cell.face at letter
    split_ifs at letter with feed
    · have feed : d = '\n' := by simpa using feed
      rw [feed] at letter
      cases letter
    · cases letter

/-- The state behind a character that has been read. -/
def MaskState.after (s : MaskState) (c : Char) (shown : Bool) (mode : MaskMode) (enclosures : List Enclosure) :
    MaskState where
  mode := mode
  enclosures := enclosures
  past := (Cell.mk c shown).face :: s.past
  byte := s.byte + c.utf8Size
  backtick := if c = '\x60' then s.byte else s.backtick

/-- Reading a text in front of `follow`, character by character. -/
inductive Scans (forms : LexicalForms) (follow : Option Char) :
    MaskState → List Char → List Cell → MaskState → Prop
  | nil {s : MaskState} : Scans forms follow s [] [] s
  | cons {s t : MaskState} {c : Char} {cs : List Char} {shown : Bool} {mode : MaskMode} {enclosures : List Enclosure}
      {cells : List Cell} (step : maskStep forms s c (cs.head?.or follow) = .ok (shown, mode, enclosures))
      (rest : Scans forms follow (s.after c shown mode enclosures) cs cells t) :
      Scans forms follow s (c :: cs) (⟨c, shown⟩ :: cells) t

/-! ## Masks -/

/-- A mask is a reading up to a state in which nothing is open. -/
theorem maskFrom_eq_ok_iff :
    maskFrom forms s text = .ok cells ↔ ∃ t, Scans forms none s text cells t ∧ t.unterminated? = none := by
  induction text generalizing s cells with
  | nil =>
    constructor
    · intro h
      rw [maskFrom] at h
      split at h
      · cases h
      · next closed =>
        cases h
        exact ⟨s, .nil, closed⟩
    · rintro ⟨t, read, closed⟩
      cases read
      rw [maskFrom, closed]
  | cons c cs ih =>
    constructor
    · intro h
      rw [maskFrom] at h
      cases step : maskStep forms s c cs.head? with
      | error e =>
        rw [step] at h
        cases h
      | ok r =>
        obtain ⟨shown, mode, enclosures⟩ := r
        rw [step] at h
        cases rest : maskFrom forms (s.after c shown mode enclosures) cs with
        | error e =>
          change (maskFrom forms (s.after c shown mode enclosures) cs >>= fun cells => .ok (⟨c, shown⟩ :: cells)) = _ at h
          rw [rest] at h
          cases h
        | ok cells' =>
          change (maskFrom forms (s.after c shown mode enclosures) cs >>= fun cells => .ok (⟨c, shown⟩ :: cells)) = _ at h
          rw [rest] at h
          cases h
          obtain ⟨t, read, closed⟩ := ih.1 rest
          exact ⟨t, .cons (by rwa [Option.or_none]) read, closed⟩
    · rintro ⟨t, read, closed⟩
      cases read with
      | @cons _ _ _ _ shown mode enclosures cells' step rest =>
        rw [Option.or_none] at step
        rw [maskFrom, step]
        change (maskFrom forms (s.after c shown mode enclosures) cs >>= fun cells => .ok (⟨c, shown⟩ :: cells)) = _
        rw [ih.2 ⟨t, rest, closed⟩]
        rfl

/-- The cells of a reading are the characters of the text. -/
theorem Scans.chars (h : Scans forms follow s text cells t) : cells.map Cell.char = text := by
  induction h with
  | nil => rfl
  | cons _ _ ih => rw [List.map_cons, ih]

/-- A text is read in one way. -/
theorem Scans.unique (h : Scans forms follow s text cells t) (h' : Scans forms follow s text cells' t') :
    cells = cells' ∧ t = t' := by
  induction h generalizing cells' with
  | nil =>
    cases h'
    exact ⟨rfl, rfl⟩
  | cons step _ ih =>
    cases h' with
    | cons step' rest' =>
      cases step.symm.trans step'
      obtain ⟨rfl, rfl⟩ := ih rest'
      exact ⟨rfl, rfl⟩

/-! ## Parts -/

/-- The character that follows the first of two texts. -/
theorem head?_append_or (a b : List Char) (follow : Option Char) :
    (a ++ b).head?.or follow = a.head?.or (b.head?.or follow) := by
  cases a <;> rfl

theorem Scans.append {ca cb : List Cell} (ha : Scans forms (b.head?.or follow) s a ca t)
    (hb : Scans forms follow t b cb u) : Scans forms follow s (a ++ b) (ca ++ cb) u := by
  induction ha with
  | nil => exact hb
  | @cons _ _ c cs _ _ _ _ step _ ih =>
    rw [← head?_append_or] at step
    exact .cons step (ih hb)

/-- Reading a text put together is reading its parts, one behind the other. -/
theorem scans_append_iff : Scans forms follow s (a ++ b) cells u ↔
    ∃ ca cb t, cells = ca ++ cb ∧ Scans forms (b.head?.or follow) s a ca t ∧ Scans forms follow t b cb u := by
  constructor
  · intro h
    induction a generalizing s cells with
    | nil => exact ⟨[], cells, s, rfl, .nil, h⟩
    | cons c cs ih =>
      cases h with
      | cons step rest =>
        obtain ⟨ca, cb, t, rfl, ha, hb⟩ := ih rest
        exact ⟨_, cb, t, rfl, .cons (by rwa [← head?_append_or]) ha, hb⟩
  · rintro ⟨ca, cb, t, rfl, ha, hb⟩
    exact ha.append hb

/-- The same where the cells are told apart already. -/
theorem Scans.split {ca cb : List Cell} (h : Scans forms follow s text (ca ++ cb) u) :
    ∃ t, Scans forms ((cb.map Cell.char).head?.or follow) s (ca.map Cell.char) ca t ∧
      Scans forms follow t (cb.map Cell.char) cb u := by
  have whole := h.chars
  rw [List.map_append] at whole
  rw [← whole] at h
  obtain ⟨ca', cb', t, same, ha, hb⟩ := scans_append_iff.1 h
  have length : ca.length = ca'.length := by
    have := congrArg List.length ha.chars
    simpa using this.symm
  obtain ⟨rfl, rfl⟩ := List.append_inj same length
  exact ⟨t, ha, hb⟩

/-! ## What follows -/

/-- The character opens no comment behind a slash, and no substitution behind a dollar sign. -/
def IsDull (c : Option Char) : Prop := c ≠ some '*' ∧ c ≠ some '/' ∧ c ≠ some '\x7b'

theorem isDull_none : IsDull none := ⟨nofun, nofun, nofun⟩

theorem isDull_of_isSpace {c : Char} (space : isSpace c = true) : IsDull (some c) := by
  refine ⟨?_, ?_, ?_⟩ <;>
  · intro h
    rw [Option.some.inj h] at space
    cases space

/-- What follows does not matter, if it opens nothing. -/
theorem maskStep_dull {f f' : Option Char} (h : IsDull f) (h' : IsDull f') (c : Char) :
    maskStep forms s c f = maskStep forms s c f' := by
  obtain ⟨star, slash, brace⟩ := h
  obtain ⟨star', slash', brace'⟩ := h'
  unfold maskStep stepTemplate stepCode
  simp only [star, slash, brace, star', slash', brace', and_false, if_false]

theorem Scans.dull {f f' : Option Char} (h : Scans forms f s text cells t) (hf : IsDull f) (hf' : IsDull f') :
    Scans forms f' s text cells t := by
  induction h with
  | nil => exact .nil
  | @cons _ _ c cs _ _ _ _ step _ ih =>
    refine .cons ?_ ih
    cases cs with
    | nil => rwa [List.head?_nil, Option.none_or, ← maskStep_dull hf hf']
    | cons => exact step

/-- In a template, only a backtick leaves no enclosure. -/
theorem stepTemplate_plain {es : List Enclosure} {f : Option Char} {c : Char} {shown : Bool}
    (inside : es.head? = some .template) (h : stepTemplate es c f = (shown, .plain, [])) (f' : Option Char) :
    stepTemplate es c f' = (shown, .plain, []) := by
  have some_open : es ≠ [] := by
    rintro rfl
    cases inside
  unfold stepTemplate at h ⊢
  by_cases tick : c = '\x60'
  · rwa [if_pos tick] at h ⊢
  · rw [if_neg tick] at h
    split_ifs at h
    · simp at h
    · simp at h
    · exact absurd (Prod.mk.inj (Prod.mk.inj h).2).2 some_open

/-- In code, only a slash looks at what follows. -/
theorem stepCode_follow {c : Char} (no_slash : c ≠ '/') (f f' : Option Char) :
    stepCode forms s c f = stepCode forms s c f' := by
  simp only [stepCode, no_slash, false_and, if_false]

/-- A slash that is followed by code is shown. -/
theorem stepCode_slash {f : Option Char} {shown : Bool} {es : List Enclosure}
    (h : stepCode forms s '/' f = (shown, .plain, es)) : shown = true := by
  unfold stepCode at h
  split_ifs at h <;> simp_all

/-- What follows does not matter behind a character that leaves code outside of every template, if it is no slash of code. -/
theorem maskStep_plain {f : Option Char} {c : Char} {shown : Bool} (h : maskStep forms s c f = .ok (shown, .plain, []))
    (no_slash : (⟨c, shown⟩ : Cell) ≠ ⟨'/', true⟩) (f' : Option Char) :
    maskStep forms s c f' = .ok (shown, .plain, []) := by
  unfold maskStep at h ⊢
  split at h
  · split at h
    next inside =>
      rw [if_pos inside, stepTemplate_plain inside (Except.ok.inj h)]
    next outside =>
      have not_slash : c ≠ '/' := by
        rintro rfl
        rw [stepCode_slash (Except.ok.inj h)] at no_slash
        exact no_slash rfl
      rwa [if_neg outside, stepCode_follow not_slash f' f]
  · cases h
  next => exact h

/-- A part that ends in code, outside of every template and not with a slash, is read alike in front of everything. -/
theorem Scans.in_front_of (h : Scans forms follow s text cells t) (code : t.mode = .plain) (none_open : t.enclosures = [])
    (no_slash : cells.getLast? ≠ some ⟨'/', true⟩) (follow' : Option Char) : Scans forms follow' s text cells t := by
  induction h with
  | nil => exact .nil
  | @cons s t c cs shown mode enclosures cells step rest ih =>
    cases rest with
    | nil =>
      have code : mode = .plain := code
      have none_open : enclosures = [] := none_open
      subst code none_open
      exact .cons (maskStep_plain step (by simpa using no_slash) _) .nil
    | cons step' rest' =>
      refine .cons step (ih code none_open ?_)
      rwa [List.getLast?_cons_cons] at no_slash

/-! ## States that are alike -/

/-- A mode without the place where it began. -/
def MaskMode.unplaced : MaskMode → MaskMode
  | .string quote _ => .string quote 0
  | .regex inClass _ => .regex inClass 0
  | .commentOpen _ => .commentOpen 0
  | .comment star _ => .comment star 0
  | .escaped inside => .escaped inside.unplaced
  | .plain => .plain
  | .substitutionOpen => .substitutionOpen
  | .lineComment => .lineComment

theorem MaskMode.unplaced_unplaced (m : MaskMode) : m.unplaced.unplaced = m.unplaced := by
  induction m with
  | escaped inside ih => rw [unplaced, unplaced, ih]
  | _ => rfl

/-- A slash behind the same further characters opens a pattern behind both or behind neither. -/
def SamePast (p q : List Char) : Prop := ∀ more, slashOpensRegex (more ++ p) = slashOpensRegex (more ++ q)

theorem SamePast.refl (p : List Char) : SamePast p p := fun _ => rfl

theorem SamePast.symm {p q : List Char} (h : SamePast p q) : SamePast q p := fun more => (h more).symm

theorem SamePast.trans {p q r : List Char} (h : SamePast p q) (h' : SamePast q r) : SamePast p r :=
  fun more => (h more).trans (h' more)

theorem SamePast.cons {p q : List Char} (h : SamePast p q) (c : Char) : SamePast (c :: p) (c :: q) := by
  intro more
  simpa using h (more ++ [c])

theorem SamePast.append {p q : List Char} (h : SamePast p q) (more : List Char) : SamePast (more ++ p) (more ++ q) := by
  intro further
  simpa using h (further ++ more)

/-- States that no text can tell apart: they differ in places, and in what came before as far as no slash depends on it. -/
structure Alike (forms : LexicalForms) (s t : MaskState) : Prop where
  mode : s.mode.unplaced = t.mode.unplaced
  enclosures : s.enclosures = t.enclosures
  past : forms.regexLiterals = true → SamePast s.past t.past

namespace Alike

theorem refl (s : MaskState) : Alike forms s s := ⟨rfl, rfl, fun _ => .refl _⟩

theorem symm (h : Alike forms s t) : Alike forms t s := ⟨h.mode.symm, h.enclosures.symm, fun on => (h.past on).symm⟩

theorem trans (h : Alike forms s t) (h' : Alike forms t u) : Alike forms s u :=
  ⟨h.mode.trans h'.mode, h.enclosures.trans h'.enclosures, fun on => (h.past on).trans (h'.past on)⟩

/-- What a mode does with a character does not depend on the place where it began. -/
theorem stepMode_unplaced (m : MaskMode) (c : Char) :
    (stepMode m.unplaced c).toOption.map (Prod.map id MaskMode.unplaced) =
      (stepMode m c).toOption.map (Prod.map id MaskMode.unplaced) := by
  cases m with
  | escaped inside => exact congrArg (fun m => some (false, m)) inside.unplaced_unplaced
  | commentOpen => rfl
  | _ =>
    simp only [MaskMode.unplaced, stepMode]
    try split_ifs <;> rfl

/-- What is told of a step: whether the character is shown, the mode behind it without its place, and the enclosures. -/
def stepFace (r : Bool × MaskMode × List Enclosure) : Bool × MaskMode × List Enclosure := (r.1, r.2.1.unplaced, r.2.2)

theorem stepCode (h : Alike forms s t) (c : Char) (next : Option Char) :
    stepFace (Text.stepCode forms s c next) = stepFace (Text.stepCode forms t c next) := by
  have slash : (forms.regexLiterals = true ∧ slashOpensRegex s.past = true) ↔
      (forms.regexLiterals = true ∧ slashOpensRegex t.past = true) :=
    and_congr_right fun on => by rw [show slashOpensRegex s.past = slashOpensRegex t.past from h.past on []]
  unfold Text.stepCode
  simp only [h.enclosures, slash]
  split_ifs <;> rfl

/-- States that are alike read a character alike. -/
theorem maskStep (h : Alike forms s t) (c : Char) (next : Option Char) :
    (Text.maskStep forms s c next).toOption.map stepFace = (Text.maskStep forms t c next).toOption.map stepFace := by
  have face (es : List Enclosure) (r : Except Unterminated (Bool × MaskMode)) :
      (r.map fun r => (r.1, r.2, es)).toOption.map stepFace =
        (r.toOption.map (Prod.map id MaskMode.unplaced)).map fun r => (r.1, r.2, es) := by
    cases r <;> rfl
  have claimed (m m' : MaskMode) (same : m.unplaced = m'.unplaced) :
      ((stepMode m c).map fun r => (r.1, r.2, s.enclosures)).toOption.map stepFace =
        ((stepMode m' c).map fun r => (r.1, r.2, t.enclosures)).toOption.map stepFace := by
    rw [face, face, h.enclosures, ← stepMode_unplaced m, ← stepMode_unplaced m', same]
  have mode := h.mode
  unfold Text.maskStep
  cases hs : s.mode <;> cases ht : t.mode <;>
    simp only [hs, ht, MaskMode.unplaced, reduceCtorEq] at mode
  case plain.plain =>
    simp only [h.enclosures]
    split_ifs
    · rfl
    · exact congrArg some (h.stepCode c next)
  case substitutionOpen.substitutionOpen =>
    simp only [h.enclosures]
  all_goals exact claimed _ _ (by simp only [MaskMode.unplaced, mode])

/-- A reading from one state is a reading from the other one, and the states behind are alike again. -/
theorem scans (h : Alike forms s s') (read : Scans forms follow s text cells t) :
    ∃ t', Scans forms follow s' text cells t' ∧ Alike forms t t' := by
  induction read generalizing s' with
  | nil => exact ⟨s', .nil, h⟩
  | @cons s t c cs shown mode enclosures cells step _ ih =>
    have steps := h.maskStep c (cs.head?.or follow)
    rw [step] at steps
    cases step' : Text.maskStep forms s' c (cs.head?.or follow) with
    | error e =>
      rw [step'] at steps
      cases steps
    | ok r =>
      obtain ⟨shown', mode', enclosures'⟩ := r
      rw [step'] at steps
      obtain ⟨rfl, same, rfl⟩ : shown = shown' ∧ mode.unplaced = mode'.unplaced ∧ enclosures = enclosures' := by
        simpa [Except.toOption, stepFace] using steps
      have behind : Alike forms (s.after c shown mode enclosures) (s'.after c shown mode' enclosures) :=
        ⟨same, rfl, fun on => (h.past on).cons _⟩
      obtain ⟨t', read', alike⟩ := ih behind
      exact ⟨t', .cons step' read', alike⟩

/-- Whether something is open does not depend on places. -/
theorem unterminated?_unplaced (s : MaskState) :
    ({ mode := s.mode.unplaced, enclosures := s.enclosures } : MaskState).unterminated?.isNone =
      s.unterminated?.isNone := by
  obtain ⟨mode, enclosures, past, byte, backtick⟩ := s
  cases mode with
  | escaped inside => cases inside <;> cases enclosures <;> rfl
  | _ => cases enclosures <;> rfl

/-- Nothing is open in both states or in neither. -/
theorem unterminated? (h : Alike forms s t) (closed : s.unterminated? = none) : t.unterminated? = none := by
  rw [← Option.isNone_iff_eq_none, ← unterminated?_unplaced] at closed ⊢
  rwa [← h.mode, ← h.enclosures]

/-- What is a mask behind one state is a mask behind the other. -/
theorem maskFrom (h : Alike forms s s') (masked : Text.maskFrom forms s text = .ok cells) :
    Text.maskFrom forms s' text = .ok cells := by
  obtain ⟨t, read, closed⟩ := maskFrom_eq_ok_iff.1 masked
  obtain ⟨t', read', alike⟩ := h.scans read
  exact maskFrom_eq_ok_iff.2 ⟨t', read', alike.unterminated? closed⟩

end Alike

/-! ## Code -/

/-- In code, outside of all templates. -/
structure IsCode (s : MaskState) : Prop where
  mode : s.mode = .plain
  enclosures : s.enclosures = []

theorem isCode_start : IsCode {} := ⟨rfl, rfl⟩

theorem IsCode.of_alike (h : IsCode s) (alike : Alike forms s t) : IsCode t := by
  refine ⟨?_, alike.enclosures ▸ h.enclosures⟩
  have mode := alike.mode
  rw [h.mode] at mode
  cases at_ : t.mode <;> simp_all [MaskMode.unplaced]

theorem IsCode.closed (h : IsCode s) : s.unterminated? = none := by
  simp [MaskState.unterminated?, h.mode, h.enclosures]

end Codewright.Text
