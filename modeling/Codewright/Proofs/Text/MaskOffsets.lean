import Mathlib
import Codewright.Proofs.Text.Bytewise

/-!
# The offsets of a mask

* `Ready` – both readers stand at one place between two rounds of the loop; `round_agrees`: what a round does is what the other
  reader does with some characters, and where one stops, so does the other;
* `readBytes_eq` – so the loop gives the mask, and makes a cut inside a character where `maskCuts` says so;
* `CutsAtSlash` – where that is; `maskCuts_iff`;
* `MasksSafely` – the loop makes no such cut, and what it gives keeps the offsets of the source; `masksSafely_iff`: unless there is
  such a slash.
-/

namespace Codewright.Text.Bytewise

open Source

variable {forms : LexicalForms} {text run rest cs : List Char} {cells : List Cell} {c : Char} {r : Reader} {es : List Enclosure}

/-! ## Strings and patterns -/

/-- The mode in which a string or a pattern is read. -/
def Quoting.mode (inClass : Bool) : Quoting → MaskMode
  | .string quote start => .string (Char.ofUInt8 quote) start
  | .regex start => .regex inClass start

theorem toUInt8_ofUInt8 (b : UInt8) : (Char.ofUInt8 b).toUInt8 = b := by
  simp [Char.ofUInt8, Char.toUInt8]

theorem firstByte_eq_iff_ofUInt8 {b : UInt8} (ascii : b.toNat < 128) : firstByte c = b ↔ c = Char.ofUInt8 b := by
  have ascii' : (Char.ofUInt8 b).toNat < 128 := by rwa [toNat_ofUInt8]
  rw [← firstByte_eq_iff ascii', toUInt8_ofUInt8]

section Quoted

variable {q : Quoting} (ascii : q.close.toNat < 128)

include ascii

/-- What the reader of characters does in a string or a pattern, told by the first byte of the character. -/
theorem maskStep_quoted {s : MaskState} {inClass : Bool} (inside : s.mode = q.mode inClass) (next : Option Char) :
    maskStep forms s c next =
      if c = '\n' then .error q.part
      else if firstByte c = q.close ∧ ¬(q.hasClasses ∧ inClass) then .ok (true, .plain, s.enclosures)
      else if c = '\\' then .ok (false, .escaped (q.mode inClass), s.enclosures)
      else .ok (false, q.mode (classAfter inClass (firstByte c)), s.enclosures) := by
  have close : firstByte c = q.close ↔ c = Char.ofUInt8 q.close := firstByte_eq_iff_ofUInt8 ascii
  simp only [close]
  cases q with
  | string quote start =>
    rw [maskStep, inside]
    simp only [Quoting.mode, stepMode, Quoting.close, Quoting.hasClasses, Quoting.part]
    split_ifs <;> simp_all [Except.map]
  | regex start =>
    rw [maskStep, inside]
    simp only [Quoting.mode, stepMode, Quoting.close, Quoting.hasClasses, Quoting.part, classAfter]
    have opens : firstByte c = '['.toUInt8 ↔ c = '[' := firstByte_eq_iff (by decide)
    have closes : firstByte c = ']'.toUInt8 ↔ c = ']' := firstByte_eq_iff (by decide)
    have slash : Char.ofUInt8 '/'.toUInt8 = '/' := by decide
    rw [slash]
    simp only [opens, closes]
    split_ifs <;> simp_all [Except.map]

/-- What comes of reading a string or a pattern: it is left open, or it is read up to its end. -/
inductive Closes (forms : LexicalForms) (text : List Char) (q : Quoting) (p : Spot) (r : Reader) :
    Except Halt Reader → Prop
  | opened (same : p.answer forms = .error (.unterminated q.part)) :
    Closes forms text q p r (.error (.unterminated q.part))
  | closed {front : List Cell} {cs : List Char} {r' : Reader}
    (stands : At text (front ++ [code (Char.ofUInt8 q.close)]) cs r') (frames : r'.frames = r.frames)
    (reads : Reads forms p ⟨front ++ [code (Char.ofUInt8 q.close)], cs, .plain, p.enclosures⟩) :
    Closes forms text q p r (.ok r')

omit ascii in
theorem Closes.of_reads {p p' : Spot} {run : List Char} {result : Except Halt Reader} (reads : Reads forms p p')
    (same : p'.enclosures = p.enclosures) (h : Closes forms text q p' (r.blanked run) result) :
    Closes forms text q p r result := by
  cases h with
  | opened error => exact .opened (reads.answer.trans error)
  | closed stands frames reads' => exact .closed stands frames (same ▸ reads.trans reads')

/-- Both readers read a string or a pattern alike. -/
theorem quoted_closes (n : Nat) {inClass : Bool} (h : At text cells rest r) (rounds : rest.length < n) :
    Closes forms text q ⟨cells, rest, q.mode inClass, es⟩ r (r.quoted text q n inClass) := by
  have claimed (inClass : Bool) : q.mode inClass ≠ .plain := by cases q <;> exact nofun
  induction n generalizing inClass cells rest r with
  | zero => cases rounds
  | succ n ih =>
    rw [Reader.quoted, h.byte]
    cases rest with
    | nil =>
      refine .opened ?_
      rw [Spot.answer_nil]
      cases q <;> rfl
    | cons c cs =>
      have feed : firstByte c = '\n'.toUInt8 ↔ c = '\n' := firstByte_eq_iff (by decide)
      have slash : firstByte c = '\\'.toUInt8 ↔ c = '\\' := firstByte_eq_iff (by decide)
      have step := @maskStep_quoted forms c q ascii (Spot.mk cells (c :: cs) (q.mode inClass) es).state inClass rfl cs.head?
      simp only [List.head?_cons, Option.map_some, feed, slash]
      by_cases ends : c = '\n'
      · rw [if_pos ends] at step ⊢
        exact .opened (Spot.answer_error (Spot.no_cut_of_mode (claimed _) _) step)
      rw [if_neg ends] at step ⊢
      by_cases closes : firstByte c = q.close ∧ ¬(q.hasClasses ∧ inClass)
      · rw [if_pos closes] at step ⊢
        obtain rfl := (firstByte_eq_iff_ofUInt8 ascii).1 closes.1
        have ascii' : (Char.ofUInt8 q.close).toNat < 128 := by rwa [toNat_ofUInt8]
        exact .closed (h.push ascii') rfl (.claimed (claimed _) step)
      rw [if_neg closes] at step ⊢
      by_cases escape : c = '\\'
      · rw [if_pos escape] at step ⊢
        subst escape
        obtain ⟨run, rest, blanked, same, reads⟩ :=
          blank_escape h (.claimed (claimed _) step) (by cases q <;> exact fun _ => rfl)
        rw [blanked]
        have stands : At text cells (run ++ rest) r := same ▸ h
        have fewer : rest.length < cs.length + 1 := reads.fewer
        exact (ih stands.blanked (by simp only [List.length_cons] at rounds; omega)).of_reads reads rfl
      · rw [if_neg escape] at step ⊢
        rw [h.blank_char]
        exact (ih (@At.blanked text [c] cs cells r h) (by simp only [List.length_cons] at rounds; omega)).of_reads
          (.claimed (claimed _) step) rfl

end Quoted

/-! ## Rounds -/

/-- Both readers stand at one place, between two rounds of the loop. -/
structure Ready (text : List Char) (p : Spot) (r : Reader) : Prop where
  stands : At text p.cells p.rest r
  frames : r.frames = p.enclosures
  plain : p.mode = .plain
  last : p.enclosures.head? ≠ some .template → LastMatches (p.cells.map Cell.face).reverse r.last

/-- What comes of a round: the loop stops where the other reader stops, or both come to another place. -/
inductive Agrees (forms : LexicalForms) (text : List Char) (p : Spot) : Except Halt Reader → Prop
  | halts {why : Halt} (same : p.answer forms = .error why) : Agrees forms text p (.error why)
  | reads {q : Spot} {r : Reader} (ready : Ready text q r) (reads : Reads forms p q) : Agrees forms text p (.ok r)

theorem lastMatches_push (letter : isAsciiSpace c = false) :
    LastMatches ((cells ++ [code c]).map Cell.face).reverse (some (firstByte c)) := by
  have own : (code c).face = c := rfl
  rw [List.map_append, List.map_singleton, List.reverse_append, List.reverse_singleton, own]
  exact lastMatches_cons letter

/-- A round in a template. -/
theorem template_agrees (h : Ready text ⟨cells, c :: cs, .plain, es⟩ r) (inside : es.head? = some .template) :
    Agrees forms text ⟨cells, c :: cs, .plain, es⟩ (r.template text (firstByte c)) := by
  obtain ⟨stands, rfl, -, -⟩ := h
  have tick : firstByte c = '\x60'.toUInt8 ↔ c = '\x60' := firstByte_eq_iff (by decide)
  have dollar : firstByte c = '$'.toUInt8 ↔ c = '$' := firstByte_eq_iff (by decide)
  have slash : firstByte c = '\\'.toUInt8 ↔ c = '\\' := firstByte_eq_iff (by decide)
  have brace (here : c = '$') : (bytes text)[r.offset + 1]? = some '\x7b'.toUInt8 ↔ cs.head? = some '\x7b' := by
    subst here
    rw [stands.next (by decide), map_firstByte_eq_some_iff (by decide)]
  rw [Reader.template]
  simp only [tick, dollar, slash]
  by_cases closes : c = '\x60'
  · subst closes
    rw [if_pos rfl]
    refine .reads (q := ⟨cells ++ [code '\x60'], cs, .plain, r.frames.tail⟩)
      ⟨(stands.push (by decide)).reframe _ _, rfl, rfl, fun _ => lastMatches_push rfl⟩ (.template inside rfl)
  rw [if_neg closes]
  by_cases opens : c = '$' ∧ cs.head? = some '\x7b'
  · obtain ⟨rfl, next⟩ := opens
    obtain ⟨cs, rfl⟩ := List.head?_eq_some_iff.1 next
    rw [if_pos ⟨rfl, (brace rfl).2 next⟩]
    have first : Reads forms ⟨cells, '$' :: '\x7b' :: cs, .plain, r.frames⟩
        ⟨cells ++ [code '$'], '\x7b' :: cs, .substitutionOpen, r.frames⟩ := .template inside rfl
    refine .reads (q := ⟨cells ++ [code '$'] ++ [code '\x7b'], cs, .plain, .substitution 0 :: r.frames⟩)
      ⟨((stands.push (by decide)).push (by decide)).reframe _ _, rfl, rfl, fun _ => lastMatches_push rfl⟩
      (first.trans (.claimed (by simp) rfl))
  rw [if_neg fun both => opens ⟨both.1, (brace both.1).1 both.2⟩]
  have in_template {q : Spot} (same : q.enclosures = r.frames) (at_ : q.enclosures.head? ≠ some .template) :
      LastMatches (q.cells.map Cell.face).reverse r.last := absurd (same ▸ inside) at_
  by_cases escape : c = '\\'
  · subst escape
    rw [if_pos rfl]
    obtain ⟨run, rest, blanked, same, reads⟩ := blank_escape stands (.template inside rfl) fun _ => rfl
    rw [blanked]
    have stands : At text cells (run ++ rest) r := same ▸ stands
    exact .reads ⟨stands.blanked, rfl, rfl, in_template rfl⟩ reads
  · rw [if_neg escape, stands.blank_char]
    have step : stepTemplate r.frames c cs.head? = (false, .plain, r.frames) := by
      rw [stepTemplate, if_neg closes, if_neg opens, if_neg escape]
    exact .reads ⟨@At.blanked text [c] cs cells r stands, rfl, rfl, in_template rfl⟩ (.template inside step)

/-! ### Comments -/

/-- What a comment hides before its end. -/
theorem answer_comment {star : Bool} {start : Nat} (rest : List Char)
    (no_end : ¬['*', '/'] <:+: (if star then ['*'] else []) ++ run) :
    ∃ star', (Spot.mk cells (run ++ rest) (.comment star start) es).answer forms =
      (Spot.mk (cells ++ run.map unseen) rest (.comment star' start) es).answer forms := by
  induction run generalizing cells star with
  | nil => exact ⟨star, by simp⟩
  | cons c run ih =>
    have goes_on : ¬(c = '/' ∧ star = true) := by
      rintro ⟨rfl, rfl⟩
      exact no_end ⟨[], run, rfl⟩
    have step : maskStep forms (Spot.mk cells (c :: (run ++ rest)) (.comment star start) es).state c (run ++ rest).head? =
        .ok (false, .comment (c = '*') start, es) := by
      rw [maskStep]
      show (stepMode (.comment star start) c).map _ = _
      rw [stepMode, if_neg goes_on]
      rfl
    have later : ¬['*', '/'] <:+: (if decide (c = '*') = true then ['*'] else []) ++ run := by
      refine fun inside => no_end (inside.trans ?_)
      by_cases is_star : c = '*'
      · subst is_star
        exact ⟨if star then ['*'] else [], [], by simp⟩
      · simp only [is_star, decide_false, Bool.false_eq_true, if_false, List.nil_append]
        exact ⟨(if star then ['*'] else []) ++ [c], [], by simp⟩
    have first : Reads forms ⟨cells, c :: (run ++ rest), .comment star start, es⟩
        ⟨cells ++ [unseen c], run ++ rest, .comment (c = '*') start, es⟩ := .claimed (by simp) step
    obtain ⟨star', same⟩ := @ih (cells ++ [unseen c]) _ later
    refine ⟨star', first.answer.trans ?_⟩
    rw [same, List.append_assoc]
    rfl

/-- What a comment hides before the end of its line. -/
theorem answer_line (rest : List Char) (no_feed : '\n' ∉ run) :
    (Spot.mk cells (run ++ rest) .lineComment es).answer forms =
      (Spot.mk (cells ++ run.map unseen) rest .lineComment es).answer forms := by
  induction run generalizing cells with
  | nil => simp
  | cons c run ih =>
    rw [List.mem_cons, not_or] at no_feed
    have step : maskStep forms (Spot.mk cells (c :: (run ++ rest)) .lineComment es).state c (run ++ rest).head? =
        .ok (false, .lineComment, es) := by
      rw [maskStep]
      show (stepMode .lineComment c).map _ = _
      rw [stepMode, if_neg (Ne.symm no_feed.1)]
      rfl
    have first : Reads forms ⟨cells, c :: (run ++ rest), .lineComment, es⟩
        ⟨cells ++ [unseen c], run ++ rest, .lineComment, es⟩ := .claimed (by simp) step
    refine first.answer.trans ?_
    rw [ih no_feed.2, List.append_assoc]
    rfl

/-- A comment ends where its line ends. -/
theorem answer_lineEnd (outside : es.head? ≠ some .template) (ends : ∀ c ∈ rest.head?, c = '\n') :
    (Spot.mk cells rest .lineComment es).answer forms = (Spot.mk cells rest .plain es).answer forms := by
  cases rest with
  | nil =>
    rw [Spot.answer_nil, Spot.answer_nil]
    rfl
  | cons c cs =>
    obtain rfl : c = '\n' := ends c rfl
    have here : Reads forms ⟨cells, '\n' :: cs, .lineComment, es⟩ ⟨cells ++ [code '\n'], cs, .plain, es⟩ :=
      .claimed (by simp) rfl
    have there : Reads forms ⟨cells, '\n' :: cs, .plain, es⟩ ⟨cells ++ [code '\n'], cs, .plain, es⟩ :=
      .code outside (Spot.no_cut_of_char (by decide) _) rfl
    exact here.answer.trans there.answer.symm

/-- What is blank does not matter for the last byte of code. -/
theorem lastMatches_unseen {last : Option UInt8} (h : LastMatches (cells.map Cell.face).reverse last)
    (run : List Char) : LastMatches ((cells ++ run.map unseen).map Cell.face).reverse last := by
  rw [List.map_append, List.reverse_append]
  refine h.spaces fun c mem => ?_
  rw [List.mem_reverse, List.map_map] at mem
  obtain ⟨d, -, rfl⟩ := List.mem_map.1 mem
  by_cases feed : d = '\n' <;> simp [Cell.face, feed, isAsciiSpace]

/-- The text from the offset on. -/
theorem At.dropBytes? (h : At text cells rest r) : dropBytes? r.offset text = some rest := by
  rw [h.whole, h.offset, dropBytes?_append]

/-- A round that reads a block comment. -/
theorem blockComment_agrees (h : Ready text ⟨cells, '/' :: '*' :: cs, .plain, es⟩ r)
    (outside : es.head? ≠ some .template) :
    Agrees forms text ⟨cells, '/' :: '*' :: cs, .plain, es⟩ (r.blockComment text) := by
  obtain ⟨stands, frames, -, last⟩ := h
  have behind : dropBytes? (r.offset + 2) text = some cs := by
    have behind := (@At.blanked text ['/', '*'] cs cells r stands).dropBytes?
    exact behind
  have first : Reads forms ⟨cells, '/' :: '*' :: cs, .plain, es⟩ ⟨cells ++ [unseen '/'], '*' :: cs,
      .commentOpen (byteLength (chars cells)), es⟩ := .code outside (by simp [asksForWord]) rfl
  have second : Reads forms ⟨cells ++ [unseen '/'], '*' :: cs, .commentOpen (byteLength (chars cells)), es⟩
      ⟨cells ++ [unseen '/'] ++ [unseen '*'], cs, .comment false (byteLength (chars cells)), es⟩ := .claimed (by simp) rfl
  have start := first.trans second
  rw [Reader.blockComment, behind, checked_some_bind]
  cases found : cutAt ['*', '/'] cs with
  | none =>
    have no_end : ¬['*', '/'] <:+: cs := (cutAt_eq_none_iff (by simp)).1 found
    obtain ⟨star, same⟩ := @answer_comment forms cs (cells ++ [unseen '/'] ++ [unseen '*']) es false
      (byteLength (chars cells)) [] no_end
    rw [List.append_nil, Spot.answer_nil] at same
    rw [stands.offset]
    exact .halts (start.answer.trans same)
  | some parts =>
    obtain ⟨body, rest⟩ := parts
    obtain ⟨⟨more, rfl⟩, no_end⟩ := of_cutAt_eq_some (by simp) found
    obtain rfl := append_of_cutAt found
    -- The first closing lies behind the body, so the body and its star are read without an end.
    obtain ⟨star, hides⟩ := @answer_comment forms body (cells ++ [unseen '/'] ++ [unseen '*']) es false
      (byteLength (chars cells)) ('*' :: '/' :: more) (fun inside => no_end (inside.trans (List.prefix_append _ _).isInfix))
    have star_read := @Reads.claimed forms ('/' :: more) (cells ++ [unseen '/'] ++ [unseen '*'] ++ body.map unseen) '*' false
      (.comment star (byteLength (chars cells))) (.comment true (byteLength (chars cells))) es es (by simp) rfl
    have slash_read := @Reads.claimed forms more
      (cells ++ [unseen '/'] ++ [unseen '*'] ++ body.map unseen ++ [unseen '*']) '/' false
      (.comment true (byteLength (chars cells))) .plain es es (by simp) rfl
    have run_eq : cells ++ [unseen '/'] ++ [unseen '*'] ++ body.map unseen ++ [unseen '*'] ++ [unseen '/'] =
        cells ++ ('/' :: '*' :: (body ++ ['*'] ++ ['/'])).map unseen := by simp
    have answer := start.answer.trans (hides.trans (star_read.trans slash_read).answer)
    rw [run_eq] at answer
    have stands : At text cells (('/' :: '*' :: (body ++ ['*'])) ++ ['/'] ++ more) r := by simpa using stands
    have size : byteLength body + 4 = byteLength (('/' :: '*' :: (body ++ ['*'])) ++ ['/']) := by
      have one : '/'.utf8Size = 1 ∧ '*'.utf8Size = 1 := ⟨rfl, rfl⟩
      simp only [List.cons_append, byteLength, byteLength_append, one]
      omega
    have blanked := @At.blank text more cells '/' r (byteLength body + 4) ('/' :: '*' :: (body ++ ['*'])) stands (by
      rw [size, byteLength_append]
      exact Nat.lt_add_of_pos_right (by decide)) (.inl (Nat.le_of_eq size))
    show Agrees _ _ _ (r.blank text (byteLength body + 4))
    rw [blanked]
    refine .reads (q := ⟨cells ++ (('/' :: '*' :: (body ++ ['*'])) ++ ['/']).map unseen, more, .plain, es⟩)
      ⟨stands.blanked, frames, rfl, fun at_ => lastMatches_unseen (last at_) _⟩ ⟨answer, ?_⟩
    simp only [List.length_cons, List.length_append]
    omega

/-- A round that reads a comment up to the end of its line. -/
theorem lineComment_agrees (h : Ready text ⟨cells, '/' :: '/' :: cs, .plain, es⟩ r)
    (outside : es.head? ≠ some .template) (lines : forms.lineComments = true) :
    Agrees forms text ⟨cells, '/' :: '/' :: cs, .plain, es⟩ (r.lineComment text) := by
  obtain ⟨stands, frames, -, last⟩ := h
  have first : Reads forms ⟨cells, '/' :: '/' :: cs, .plain, es⟩ ⟨cells ++ [unseen '/'], '/' :: cs, .lineComment, es⟩ :=
    .code outside (by simp [asksForWord, lines]) (by simp [stepCode, lines, Spot.state])
  have agrees {body rest : List Char} (cut : cs = body ++ rest) (no_feed : '\n' ∉ body)
      (ends : ∀ c ∈ rest.head?, c = '\n') :
      Agrees forms text ⟨cells, '/' :: '/' :: cs, .plain, es⟩ (r.blank text (byteLength ('/' :: '/' :: body))) := by
    subst cut
    have hides := @answer_line forms ('/' :: body) (cells ++ [unseen '/']) es rest (by simp [no_feed])
    have answer := first.answer.trans (hides.trans (answer_lineEnd outside ends))
    rw [List.append_assoc] at answer
    have stands : At text cells (('/' :: '/' :: body) ++ rest) r := stands
    obtain ⟨front, x, run⟩ := (List.eq_nil_or_concat' ('/' :: '/' :: body)).resolve_left (List.cons_ne_nil _ _)
    have blanked : r.blank text (byteLength ('/' :: '/' :: body)) = .ok (r.blanked ('/' :: '/' :: body)) := by
      rw [run] at stands ⊢
      refine stands.blank ?_ (.inl (Nat.le_refl _))
      rw [byteLength_append]
      exact Nat.lt_add_of_pos_right (byteLength_pos (List.cons_ne_nil _ _))
    rw [blanked]
    refine .reads (q := ⟨cells ++ ('/' :: '/' :: body).map unseen, rest, .plain, es⟩)
      ⟨stands.blanked, frames, rfl, fun at_ => lastMatches_unseen (last at_) _⟩ ⟨answer, ?_⟩
    simp only [List.length_cons, List.length_append]
    omega
  have skips : cutAt ['\n'] ('/' :: '/' :: cs) = (cutAt ['\n'] cs).map fun parts => ('/' :: '/' :: parts.1, parts.2) := by
    cases found : cutAt ['\n'] cs <;> simp [cutAt, found]
  rw [Reader.lineComment, stands.dropBytes?, checked_some_bind, skips]
  cases found : cutAt ['\n'] cs with
  | none =>
    have no_feed : '\n' ∉ cs := by
      have not_inside := (cutAt_eq_none_iff (by simp)).1 found
      rwa [List.singleton_infix_iff] at not_inside
    have size : byteLength text - r.offset = byteLength ('/' :: '/' :: cs) := by
      rw [stands.whole, stands.offset, byteLength_append, Nat.add_sub_cancel_left]
    show Agrees _ _ _ (r.blank text (byteLength text - r.offset))
    rw [size]
    exact agrees (List.append_nil cs).symm no_feed (by simp)
  | some parts =>
    obtain ⟨body, rest⟩ := parts
    obtain ⟨⟨more, rfl⟩, no_feed⟩ := of_cutAt_eq_some (by simp) found
    rw [List.dropLast_singleton, List.append_nil, List.singleton_infix_iff] at no_feed
    exact agrees (append_of_cutAt found).symm no_feed (by simp)

/-! ### Code -/

/-- A round that reads a string or a pattern from its first byte on. -/
theorem quoted_agrees {q : Quoting} {last : Option UInt8} (h : Ready text ⟨cells, c :: cs, .plain, es⟩ r)
    (ascii : c.toNat < 128) (ascii' : q.close.toNat < 128)
    (first : Reads forms ⟨cells, c :: cs, .plain, es⟩ ⟨cells ++ [code c], cs, q.mode false, es⟩)
    (fits : ∀ front, LastMatches ((front ++ [code (Char.ofUInt8 q.close)]).map Cell.face).reverse last) :
    Agrees forms text ⟨cells, c :: cs, .plain, es⟩ (do
      let r' ← (r.push (firstByte c)).quoted text q (text.length + 1) false
      return { r' with last := last }) := by
  obtain ⟨stands, frames, -, -⟩ := h
  have rounds : cs.length < text.length + 1 := by
    rw [stands.whole]
    simp only [List.length_append, List.length_cons]
    omega
  have closes := @quoted_closes forms text cs (cells ++ [code c]) (r.push (firstByte c)) es q ascii' (text.length + 1) false
    (stands.push ascii) rounds
  generalize (r.push (firstByte c)).quoted text q (text.length + 1) false = result at closes
  cases closes with
  | opened same => exact .halts (first.answer.trans same)
  | @closed front cs' r' stands' frames' reads =>
    exact .reads (q := ⟨front ++ [code (Char.ofUInt8 q.close)], cs', .plain, es⟩)
      ⟨stands'.reframe _ _, frames'.trans frames, rfl, fun _ => fits _⟩ (first.trans reads)

/-- A round that reads a byte of code that begins neither a quoted part nor a comment. -/
theorem plain_agrees (h : Ready text ⟨cells, c :: cs, .plain, es⟩ r) (outside : es.head? ≠ some .template)
    (no_cut : (asksForWord forms (Spot.mk cells (c :: cs) .plain es).state c cs.head? &&
      slashCuts (Spot.mk cells (c :: cs) .plain es).state.past) = false)
    (step : stepCode forms (Spot.mk cells (c :: cs) .plain es).state c cs.head? =
      if c = '\x60' ∧ forms.templates then (true, .plain, .template :: es)
      else if c = '\x7b' then (true, .plain, openBrace es)
      else if c = '\x7d' then (true, .plain, closeBrace es)
      else (true, .plain, es)) :
    Agrees forms text ⟨cells, c :: cs, .plain, es⟩ (r.plain forms text (firstByte c)) := by
  obtain ⟨stands, rfl, -, last⟩ := h
  have tick : firstByte c = '\x60'.toUInt8 ↔ c = '\x60' := firstByte_eq_iff (by decide)
  have opens : firstByte c = '\x7b'.toUInt8 ↔ c = '\x7b' := firstByte_eq_iff (by decide)
  have closes : firstByte c = '\x7d'.toUInt8 ↔ c = '\x7d' := firstByte_eq_iff (by decide)
  rw [Reader.plain]
  simp only [tick, opens, closes]
  by_cases template : c = '\x60' ∧ forms.templates
  · rw [if_pos template] at step ⊢
    obtain ⟨rfl, -⟩ := template
    exact .reads (q := ⟨cells ++ [code '\x60'], cs, .plain, .template :: r.frames⟩)
      ⟨(stands.push (by decide)).reframe _ _, rfl, rfl, fun no => absurd rfl no⟩ (.code outside no_cut step)
  rw [if_neg template] at step ⊢
  by_cases opening : c = '\x7b'
  · rw [if_pos opening] at step ⊢
    subst opening
    exact .reads (q := ⟨cells ++ [code '\x7b'], cs, .plain, openBrace r.frames⟩)
      ⟨(stands.push (by decide)).reframe _ _, rfl, rfl, fun _ => lastMatches_push rfl⟩ (.code outside no_cut step)
  rw [if_neg opening] at step ⊢
  by_cases closing : c = '\x7d'
  · rw [if_pos closing] at step ⊢
    subst closing
    exact .reads (q := ⟨cells ++ [code '\x7d'], cs, .plain, closeBrace r.frames⟩)
      ⟨(stands.push (by decide)).reframe _ _, rfl, rfl, fun _ => lastMatches_push rfl⟩ (.code outside no_cut step)
  rw [if_neg closing] at step ⊢
  have stop : min (r.offset + sizeFrom (firstByte c)) (byteLength text) = byteLength (chars cells ++ [c]) := by
    rw [sizeFrom_firstByte, stands.whole, stands.offset]
    simp only [byteLength_append, byteLength]
    omega
  have cut : slice r.offset (byteLength (chars cells ++ [c])) text = .ok [c] := by
    have cut := slice_eq (chars cells) [c] cs
    rwa [List.append_assoc, List.singleton_append, ← stands.whole, ← stands.offset] at cut
  simp only [stop, cut]
  refine .reads (q := ⟨cells ++ [code c], cs, .plain, r.frames⟩) ⟨⟨?_, ?_, ?_⟩, rfl, rfl, fun at_ => ?_⟩
    (.code outside no_cut step)
  · rw [stands.whole]
    simp
  · show byteLength (chars cells ++ [c]) = byteLength (chars (cells ++ [code c]))
    rw [chars_append]
    rfl
  · show r.out ++ [c] = written (cells ++ [code c])
    rw [stands.out, written_append]
    rfl
  · show LastMatches _ (if isAsciiSpace (Char.ofUInt8 (firstByte c)) then r.last else some (firstByte c))
    rw [apply_ofUInt8_firstByte isAsciiSpace_narrow]
    split
    · next space =>
      rw [List.map_append, List.reverse_append]
      exact @LastMatches.spaces [c] _ _ (last at_) (by simpa using space)
    · next letter => exact lastMatches_push (Bool.eq_false_iff.2 letter)

theorem asksForWord_iff {s : MaskState} {next : Option Char} : asksForWord forms s c next = true ↔
    s.mode = .plain ∧ s.enclosures.head? ≠ some .template ∧ c = '/' ∧ next ≠ some '*' ∧
      ¬(forms.lineComments = true ∧ next = some '/') ∧ forms.regexLiterals = true := by
  cases lines : forms.lineComments <;> simp [asksForWord, and_assoc, lines]

/-- A round in code. -/
theorem code_agrees (h : Ready text ⟨cells, c :: cs, .plain, es⟩ r) (outside : es.head? ≠ some .template) :
    Agrees forms text ⟨cells, c :: cs, .plain, es⟩ (r.code forms text (firstByte c)) := by
  have stands := h.stands
  have single : firstByte c = '\''.toUInt8 ↔ c = '\'' := firstByte_eq_iff (by decide)
  have double : firstByte c = '"'.toUInt8 ↔ c = '"' := firstByte_eq_iff (by decide)
  have slash : firstByte c = '/'.toUInt8 ↔ c = '/' := firstByte_eq_iff (by decide)
  have next (here : c = '/') {d : Char} (ascii : d.toNat < 128) :
      (bytes text)[r.offset + 1]? = some d.toUInt8 ↔ cs.head? = some d := by
    subst here
    rw [stands.next (by decide), map_firstByte_eq_some_iff ascii]
  rw [Reader.code]
  simp only [single, double, slash]
  by_cases quote : c = '\'' ∨ c = '"'
  · rw [if_pos quote]
    have ascii : c.toNat < 128 := by rcases quote with rfl | rfl <;> decide
    have letter : isAsciiSpace c = false := by rcases quote with rfl | rfl <;> rfl
    have no_slash : c ≠ '/' := by rcases quote with rfl | rfl <;> decide
    have own : Char.ofUInt8 (firstByte c) = c := ofUInt8_firstByte ascii
    refine quoted_agrees (q := .string (firstByte c) r.offset) h ascii ?_ ?_ fun front => ?_
    · rwa [Quoting.close, firstByte_of_ascii ascii, toNat_toUInt8_of_ascii ascii]
    · rw [Quoting.mode, own, stands.offset]
      exact .code outside (Spot.no_cut_of_char no_slash _) (by rw [stepCode, if_pos quote]; rfl)
    · rw [Quoting.close, own]
      exact lastMatches_push letter
  rw [if_neg quote]
  by_cases comment : c = '/' ∧ cs.head? = some '*'
  · obtain ⟨rfl, star⟩ := comment
    rw [if_pos ⟨rfl, (next rfl (by decide)).2 star⟩]
    obtain ⟨cs, rfl⟩ := List.head?_eq_some_iff.1 star
    exact blockComment_agrees h outside
  rw [if_neg fun both => comment ⟨both.1, (next both.1 (by decide)).1 both.2⟩]
  by_cases line : c = '/' ∧ forms.lineComments ∧ cs.head? = some '/'
  · obtain ⟨rfl, lines, second⟩ := line
    rw [if_pos ⟨rfl, lines, (next rfl (by decide)).2 second⟩]
    obtain ⟨cs, rfl⟩ := List.head?_eq_some_iff.1 second
    exact lineComment_agrees h outside lines
  rw [if_neg fun all => line ⟨all.1, all.2.1, (next all.1 (by decide)).1 all.2.2⟩]
  -- What is left of a step in code, unless a slash opens a pattern.
  have falls (divides : ¬(c = '/' ∧ forms.regexLiterals ∧ slashOpensRegex (cells.map Cell.face).reverse)) :
      stepCode forms (Spot.mk cells (c :: cs) .plain es).state c cs.head? =
        if c = '\x60' ∧ forms.templates then (true, .plain, .template :: es)
        else if c = '\x7b' then (true, .plain, openBrace es)
        else if c = '\x7d' then (true, .plain, closeBrace es)
        else (true, .plain, es) := by
    rw [stepCode, if_neg quote, if_neg comment, if_neg line]
    exact if_neg divides
  by_cases pattern : c = '/' ∧ forms.regexLiterals
  · obtain ⟨rfl, patterns⟩ := pattern
    have judged := startsRegex_written (h.last outside)
    rw [if_pos ⟨rfl, patterns⟩, stands.out, judged]
    by_cases cuts : slashCuts (cells.map Cell.face).reverse
    · rw [if_pos cuts]
      have asks : asksForWord forms (Spot.mk cells ('/' :: cs) .plain es).state '/' cs.head? = true := by
        have no_star : cs.head? ≠ some '*' := fun star => comment ⟨rfl, star⟩
        exact asksForWord_iff.2 ⟨rfl, outside, rfl, no_star, fun both => line ⟨rfl, both⟩, patterns⟩
      have cut : cutsFrom forms (Spot.mk cells ('/' :: cs) .plain es).state ('/' :: cs) = true := by
        rw [cutsFrom, asks]
        exact if_pos cuts
      exact .halts (if_pos cut)
    rw [if_neg cuts]
    have no_cut : (asksForWord forms (Spot.mk cells ('/' :: cs) .plain es).state '/' cs.head? &&
        slashCuts (Spot.mk cells ('/' :: cs) .plain es).state.past) = false := by
      simp [Spot.state, cuts]
    by_cases opens : slashOpensRegex (cells.map Cell.face).reverse
    · show Agrees _ _ _ (if slashOpensRegex (cells.map Cell.face).reverse then _ else _)
      rw [if_pos opens]
      refine quoted_agrees (q := .regex r.offset) h (by decide) (show '/'.toUInt8.toNat < 128 by decide) ?_ fun front => ?_
      · rw [Quoting.mode, stands.offset]
        refine .code outside no_cut ?_
        rw [stepCode, if_neg quote, if_neg comment, if_neg line]
        exact if_pos ⟨rfl, patterns, opens⟩
      · rw [List.map_append, List.reverse_append]
        exact .inr ⟨rfl, rfl⟩
    · show Agrees _ _ _ (if slashOpensRegex (cells.map Cell.face).reverse then _ else _)
      rw [if_neg opens]
      exact plain_agrees h outside no_cut (falls fun all => opens all.2.2)
  · rw [if_neg pattern]
    refine plain_agrees h outside ?_ (falls fun all => pattern ⟨all.1, all.2.1⟩)
    rw [not_and, Bool.not_eq_true] at pattern
    by_cases here : c = '/'
    · simp [asksForWord, pattern here]
    · exact Spot.no_cut_of_char here _

/-! ## The whole loop -/

/-- A round of the loop reads what the other reader reads. -/
theorem round_agrees {p : Spot} (h : Ready text p r) (more : p.rest ≠ []) : Agrees forms text p (r.round forms text) := by
  obtain ⟨cells, rest, m, es⟩ := p
  obtain rfl : m = .plain := h.plain
  obtain ⟨c, cs, rfl⟩ := List.exists_cons_of_ne_nil more
  rw [Reader.round, h.stands.byte]
  show Agrees _ _ _ (if r.frames.head? = some .template then _ else _)
  rw [h.frames]
  split
  · next inside => exact template_agrees h inside
  · next outside => exact code_agrees h outside

/-- At the end of the text, both readers have the mask, or a template is open. -/
theorem finish_eq {p : Spot} (h : Ready text p r) (ends : p.rest = []) : r.finish text = p.answer forms := by
  obtain ⟨cells, rest, m, es⟩ := p
  obtain rfl : m = .plain := h.plain
  obtain rfl : rest = [] := ends
  have whole : text = chars cells := by
    rw [h.stands.whole]
    exact List.append_nil _
  rw [Spot.answer_nil, Reader.finish, h.frames, h.stands.out, whole]
  cases es <;> rfl

theorem loop_eq (n : Nat) {p : Spot} (h : Ready text p r) (rounds : p.rest.length < n) :
    r.loop forms text n = p.answer forms := by
  induction n generalizing p r with
  | zero => cases rounds
  | succ n ih =>
    rw [Reader.loop]
    by_cases ends : p.rest = []
    · have at_end : ¬r.offset < byteLength text := by
        rw [h.stands.whole, h.stands.offset, ends, List.append_nil]
        exact Nat.lt_irrefl _
      rw [if_neg at_end]
      exact finish_eq h ends
    · have inside : r.offset < byteLength text := by
        rw [h.stands.whole, h.stands.offset, byteLength_append]
        exact Nat.lt_add_of_pos_right (byteLength_pos ends)
      rw [if_pos inside]
      have agrees := @round_agrees forms text r p h ends
      generalize r.round forms text = result at agrees
      cases agrees with
      | halts same => exact same.symm
      | reads ready reads =>
        have fewer := reads.fewer
        exact (ih ready (by omega)).trans reads.answer.symm

/-- The loop gives the mask, written out, or what is not closed; it stops at a cut where that is said of the text. -/
theorem readBytes_eq (forms : LexicalForms) (source : String) :
    readBytes forms source =
      if maskCuts forms source.toList then .error .cut
      else match mask forms source.toList with
        | .error part => .error (.unterminated part)
        | .ok cells => .ok (written cells) := by
  have ready : Ready source.toList ⟨[], source.toList, .plain, []⟩ {} := ⟨⟨rfl, rfl, rfl⟩, rfl, rfl, fun _ => rfl⟩
  exact loop_eq _ ready (Nat.lt_succ_self _)

/-! ## Where the loop stops -/

/-- What is seen ends with a word that follows directly on a character of several bytes, and blanks. -/
def EndsBehindWide (seen : List Char) : Prop :=
  ∃ front wide word blank, seen = front ++ wide :: (word ++ blank) ∧ 1 < wide.utf8Size ∧ word ≠ [] ∧
    (∀ c ∈ word, isPlainWord c = true) ∧ ∀ c ∈ blank, isAsciiSpace c = true

theorem slashCuts_iff {seen : List Char} : slashCuts seen.reverse = true ↔ EndsBehindWide seen := by
  constructor
  · intro cuts
    obtain ⟨front', blank, rfl, spaces, last⟩ := exists_lastRun isAsciiSpace seen
    obtain ⟨front, word, rfl, plain, first⟩ := exists_lastRun isPlainWord front'
    have turned := dropWhile_reverse_append spaces last
    by_cases no_word : word = []
    · subst no_word
      rw [slashCuts, turned, List.append_nil] at cuts
      rcases List.eq_nil_or_concat' front with rfl | ⟨front, x, rfl⟩
      · cases cuts
      · have other : isPlainWord x = false := first x (by simp)
        simp [other] at cuts
    · have parts : (front ++ word).reverse = word.reverse ++ front.reverse := List.reverse_append
      rw [parts] at turned
      have first' : ∀ c ∈ front.reverse.head?, isPlainWord c = false := by
        rwa [List.head?_reverse]
      rw [(slash_behind_word turned no_word plain first').2, List.head?_reverse, Option.any_eq_true] at cuts
      obtain ⟨wide, last_front, several⟩ := cuts
      obtain ⟨front, rfl⟩ := List.getLast?_eq_some_iff.1 last_front
      exact ⟨front, wide, word, blank, by simp, of_decide_eq_true several, no_word, plain, spaces⟩
  · rintro ⟨front, wide, word, blank, rfl, several, some_word, plain, spaces⟩
    have beyond : isPlainWord wide = false := by
      refine isPlainWord_narrow wide (Nat.not_lt.1 fun ascii => ?_)
      rw [utf8Size_of_ascii ascii] at several
      exact absurd several (Nat.lt_irrefl 1)
    have last : ∀ c ∈ (front ++ wide :: word).getLast?, isAsciiSpace c = false := by
      obtain ⟨w, d, rfl⟩ := (List.eq_nil_or_concat' word).resolve_left some_word
      intro c mem
      rw [← List.cons_append, ← List.append_assoc, List.getLast?_concat] at mem
      obtain rfl : d = c := Option.some.inj mem
      refine Bool.eq_false_iff.2 fun space => ?_
      have letter := isSpace_of_isPlainWord (plain d (by simp))
      rw [isSpace_of_isAsciiSpace space] at letter
      cases letter
    have turned := dropWhile_reverse_append spaces last
    have parts : (front ++ wide :: word).reverse = word.reverse ++ wide :: front.reverse := by simp
    rw [parts] at turned
    rw [show front ++ wide :: (word ++ blank) = front ++ wide :: word ++ blank by simp,
      (slash_behind_word turned some_word plain (by simpa using beyond)).2]
    simpa using several

/-- A slash of code that opens no comment, in a language with patterns, behind a word that follows directly on a character of
several bytes. -/
def CutsAtSlash (forms : LexicalForms) (text : List Char) : Prop :=
  forms.regexLiterals = true ∧ ∃ before behind cells t, text = before ++ '/' :: behind ∧
    Scans forms (some '/') {} before cells t ∧ t.mode = .plain ∧ t.enclosures.head? ≠ some .template ∧
    behind.head? ≠ some '*' ∧ ¬(forms.lineComments = true ∧ behind.head? = some '/') ∧
    EndsBehindWide (cells.map Cell.face)

theorem scans_past {follow : Option Char} {s t : MaskState} {before : List Char} (read : Scans forms follow s before cells t) :
    t.past = (cells.map Cell.face).reverse ++ s.past := by
  induction read with
  | nil => rfl
  | cons step rest ih =>
    rw [ih, List.map_cons, List.reverse_cons, List.append_assoc]
    rfl

theorem cutsFrom_iff {s : MaskState} : cutsFrom forms s text = true ↔
    ∃ before c behind cells t, text = before ++ c :: behind ∧ Scans forms (some c) s before cells t ∧
      asksForWord forms t c behind.head? = true ∧ slashCuts t.past = true := by
  induction text generalizing s with
  | nil =>
    refine iff_of_false nofun ?_
    rintro ⟨before, c, behind, cells, t, nil, -⟩
    simp at nil
  | cons c cs ih =>
    rw [cutsFrom]
    by_cases here : (asksForWord forms s c cs.head? && slashCuts s.past) = true
    · rw [if_pos here]
      obtain ⟨asks, cuts⟩ := Bool.and_eq_true_iff.1 here
      exact iff_of_true rfl ⟨[], c, cs, [], s, rfl, .nil, asks, cuts⟩
    · rw [if_neg here]
      constructor
      · intro later
        cases step : maskStep forms s c cs.head? with
        | error u =>
          rw [step] at later
          cases later
        | ok next =>
          obtain ⟨shown, m, es⟩ := next
          rw [step] at later
          obtain ⟨before, d, behind, cells, t, rfl, read, asks⟩ := ih.1 later
          refine ⟨c :: before, d, behind, ⟨c, shown⟩ :: cells, t, rfl, .cons ?_ read, asks⟩
          rwa [List.head?_append] at step
      · rintro ⟨before, d, behind, cells, t, same, read, asks, cuts⟩
        cases read with
        | nil =>
          obtain ⟨rfl, rfl⟩ := List.cons.inj same
          exact absurd (Bool.and_eq_true_iff.2 ⟨asks, cuts⟩) here
        | cons step rest =>
          obtain ⟨rfl, rfl⟩ := List.cons.inj same
          rw [List.append_eq, List.head?_append, List.head?_cons, step]
          exact ih.2 ⟨_, d, behind, _, t, rfl, rest, asks, cuts⟩

theorem maskCuts_iff : maskCuts forms text = true ↔ CutsAtSlash forms text := by
  rw [maskCuts, cutsFrom_iff]
  constructor
  · rintro ⟨before, c, behind, cells, t, same, read, asks, cuts⟩
    obtain ⟨plain, outside, rfl, no_star, no_line, patterns⟩ := asksForWord_iff.1 asks
    rw [scans_past read, List.append_nil, slashCuts_iff] at cuts
    exact ⟨patterns, before, behind, cells, t, same, read, plain, outside, no_star, no_line, cuts⟩
  · rintro ⟨patterns, before, behind, cells, t, same, read, plain, outside, no_star, no_line, wide⟩
    refine ⟨before, '/', behind, cells, t, same, read,
      asksForWord_iff.2 ⟨plain, outside, rfl, no_star, no_line, patterns⟩, ?_⟩
    rwa [scans_past read, List.append_nil, slashCuts_iff]

/-! ## Offsets -/

/-- What is asked of the loop: it stops only at a part without its end, and what it gives keeps the offsets of the source. -/
structure MasksSafely (forms : LexicalForms) (source : String) : Prop where
  halts : ∀ why, readBytes forms source = .error why → ∃ part, why = .unterminated part
  keeps : ∀ m, readBytes forms source = .ok m → KeepsOffsets source m

/-- The loop gives the mask that the reader of characters gives, written out. -/
theorem readBytes_eq_ok_iff {source : String} {m : List Char} : readBytes forms source = .ok m ↔
    ¬CutsAtSlash forms source.toList ∧ ∃ cells, mask forms source.toList = .ok cells ∧ m = written cells := by
  rw [readBytes_eq, ← maskCuts_iff]
  split
  · next cuts => exact iff_of_false nofun fun both => both.1 cuts
  · next goes_on =>
    cases mask forms source.toList with
    | error part => simp
    | ok cells => simp [goes_on, eq_comm]

theorem keepsOffsets_readBytes {source : String} {m : List Char} (made : readBytes forms source = .ok m) :
    KeepsOffsets source m := by
  obtain ⟨-, cells, masked, rfl⟩ := readBytes_eq_ok_iff.1 made
  obtain ⟨t, read, -⟩ := maskFrom_eq_ok_iff.1 masked
  exact keepsOffsets_written read.chars

/-- The loop does all that is asked of it, unless a slash of code stands behind a word that follows directly on a character of
several bytes: there it makes a cut through this character. Whatever it gives is the mask, and keeps the offsets of the source. -/
theorem masksSafely_iff (forms : LexicalForms) (source : String) :
    (MasksSafely forms source ↔ ¬CutsAtSlash forms source.toList) ∧
      ∀ m, readBytes forms source = .ok m → KeepsOffsets source m ∧
        ∃ cells, mask forms source.toList = .ok cells ∧ m = written cells := by
  refine ⟨⟨fun safe cuts => ?_, fun goes_on => ⟨fun why halts => ?_, fun m => keepsOffsets_readBytes⟩⟩, fun m made =>
    ⟨keepsOffsets_readBytes made, (readBytes_eq_ok_iff.1 made).2⟩⟩
  · have cut : readBytes forms source = .error .cut := by rw [readBytes_eq, if_pos (maskCuts_iff.2 cuts)]
    obtain ⟨part, same⟩ := safe.halts _ cut
    cases same
  · rw [readBytes_eq, if_neg (mt maskCuts_iff.1 goes_on)] at halts
    cases masked : mask forms source.toList with
    | error part =>
      rw [masked] at halts
      exact ⟨part, (Except.error.inj halts).symm⟩
    | ok cells =>
      rw [masked] at halts
      cases halts

/-- Behind a character of several bytes in a string, a slash divides two names. -/
theorem masksSafely_divided : MasksSafely .script "f('ï') / x" ∧
    readBytes .script "f('ï') / x" = .ok "f('  ') / x".toList ∧ KeepsOffsets "f('ï') / x" "f('  ') / x".toList := by
  have made : readBytes .script "f('ï') / x" = .ok "f('  ') / x".toList := by
    rw [readBytes_eq]
    rfl
  have goes_on : ¬CutsAtSlash .script "f('ï') / x".toList := by
    rw [← maskCuts_iff]
    decide
  exact ⟨(masksSafely_iff .script "f('ï') / x").1.2 goes_on, made, ((masksSafely_iff .script "f('ï') / x").2 _ made).1⟩

/-- The name in front of the slash is cut out from the second byte of its third letter on. -/
theorem not_masksSafely : ¬MasksSafely .script "naïve / 2" := by
  intro safe
  have cut : readBytes .script "naïve / 2" = .error .cut := by
    rw [readBytes_eq, if_pos (by decide)]
  obtain ⟨part, same⟩ := safe.halts _ cut
  cases same

end Codewright.Text.Bytewise
