import Codewright.Proofs.Script.Indentation
import Codewright.Script.Revision

/-!
# A script inside another one

A script that begins with a letter can be put on lines of its own wherever another one is in code. Each of the two is read as
before.

* `StandsInCode source inserted result` – the mask of the result is made of the mask of what is inserted and of those of the two
  parts of the source, white space at the seams apart;
* `Gap source a w b` – white space of a source in code;
* `Gap.standsInCode` – what is put into a gap stands in code.
-/

namespace Codewright.Script

open Text

/-- A text consists of white space. -/
def IsBlank (text : List Char) : Prop := ∀ c ∈ text, isSpace c = true

/-- The result consists of a front `l`, of what is inserted, and of a back `r`. It is read as these three are, one behind the
other. The front and the back are those of the source, up to white space of code at their seams. -/
def StandsInCode (source inserted result : List Char) : Prop :=
  ∃ l r cl ci cr, result = l ++ (inserted ++ r) ∧
    mask .script l = .ok cl ∧ mask .script inserted = .ok ci ∧ mask .script r = .ok cr ∧
    mask .script result = .ok (cl ++ (ci ++ cr)) ∧
    ∃ a gap b lead behind, mask .script source = .ok (a ++ (gap.map code ++ b)) ∧ cl = a ++ lead.map code ∧ cr = behind.map code ++ b ∧
      IsBlank gap ∧ IsBlank lead ∧ IsBlank behind

variable {source inserted result w lead x y text : List Char} {a b ci cells : List Cell} {s t u : MaskState} {c : Char}
  {follow : Option Char} {shown : Bool} {mode : MaskMode} {es : List Enclosure}

theorem brackets_code (blank : IsBlank w) : brackets (w.map code) = [] := by
  refine brackets_of_space ?_
  rw [List.forall_mem_map]
  exact blank

theorem find?_code (blank : IsBlank w) : (w.map code).find? (fun c => !isSpace c.face) = none := by
  rw [List.find?_eq_none, List.forall_mem_map]
  intro c hc
  have space : isSpace (code c).face = true := blank c hc
  simp [space]

/-- A valid script has a mask, and its brackets nest. -/
theorem exists_of_isValid (valid : isValid (String.ofList text) = true) :
    ∃ cells, mask .script text = .ok cells ∧ bracketsBalanced (brackets cells) = true := by
  rw [isValid, String.toList_ofList] at valid
  split at valid
  next cells masked => exact ⟨cells, masked, by rw [← bracketsBalanced_faces, valid]⟩
  next => cases valid

/-- A valid script stays valid with a valid one that stands in code. -/
theorem StandsInCode.isValid (stands : StandsInCode source inserted result) (valid : isValid (String.ofList source) = true)
    (masked : mask .script inserted = .ok ci) (balanced : bracketsBalanced (brackets ci) = true) :
    isValid (String.ofList result) = true := by
  obtain ⟨l, r, cl, ci', cr, -, -, masked', -, whole, a, gap, b, lead, behind, from_, rfl, rfl, blank, blank', blank''⟩ := stands
  obtain rfl : ci = ci' := Except.ok.inj (masked.symm.trans masked')
  obtain ⟨cells, masked, nested⟩ := exists_of_isValid valid
  obtain rfl := Except.ok.inj (masked.symm.trans from_)
  rw [Script.isValid, String.toList_ofList, whole]
  dsimp only
  rw [bracketsBalanced_faces]
  simp only [brackets_append, brackets_code blank, brackets_code blank', brackets_code blank'', List.append_nil,
    List.nil_append] at nested ⊢
  exact (bracketsBalancedFrom_insert balanced [] (brackets a) (brackets b)).trans nested

/-! ## White space in code -/

theorem not_opened_of_isCode (h : IsCode s) : s.mode ≠ .substitutionOpen := by
  rw [h.mode]
  nofun

theorem reached_of_isCode (h : IsCode s) : Reached s := by
  obtain ⟨mode, enclosures⟩ := h
  refine ⟨mode ▸ .plain, ?_⟩
  rw [enclosures]
  exact .nil

/-- No word goes on behind white space. -/
theorem isBounded_append (blank : IsBlank w) (some_char : w ≠ []) (p : List Char) : IsBounded (w ++ p) := by
  obtain ⟨c, w, rfl⟩ := List.exists_cons_of_ne_nil some_char
  obtain ⟨word, dot⟩ := bounded_face (blank c List.mem_cons_self)
  exact isBounded_cons word dot (w ++ p)

/-- A blank other than a line feed leads from code to code only. -/
theorem isCode_of_step_blank (reached : Reached s) (space : isSpace c = true) (no_feed : c ≠ '\n')
    (step : maskStep .script s c follow = .ok (shown, .plain, [])) : IsCode s := by
  have ne {d : Char} (letter : isSpace d = false) : c ≠ d := by
    rintro rfl
    rw [space] at letter
    cases letter
  generalize mode_eq : MaskMode.plain = mode, es_eq : ([] : List Enclosure) = es at step
  cases maskStep_cases step with
  | tick => cases space
  | templateText _ inside =>
    rw [← es_eq] at inside
    cases inside
  | lineComment | blockComment | regex | template | opening | closing | dollar | backslash => cases space
  | quote _ is_quote => rcases is_quote with rfl | rfl <;> cases space
  | code plain => exact ⟨plain, es_eq.symm⟩
  | substitution => cases es_eq
  | within not_plain not_opened claimed =>
    have fits := reached.mode
    subst mode_eq
    rw [← es_eq] at fits
    generalize s.mode = mode, es_eq' : ([] : List Enclosure) = es at *
    cases fits with
    | plain => exact absurd rfl not_plain
    | substitutionOpen => exact absurd rfl not_opened
    | string is_quote =>
      have not_quote := is_quote.elim (fun h => h ▸ ne (d := '\'') rfl) (fun h => h ▸ ne (d := '"') rfl)
      simp [stepMode, no_feed, not_quote, ne (d := '\\') rfl] at claimed
    | regex =>
      simp [stepMode, no_feed, ne (d := '/') rfl, ne (d := '\\') rfl, ne (d := '[') rfl, ne (d := ']') rfl] at claimed
    | commentOpen => simp [stepMode] at claimed
    | comment => simp [stepMode, ne (d := '/') rfl] at claimed
    | lineComment => simp [stepMode, no_feed] at claimed
    | escapedString | escapedRegex => simp [stepMode] at claimed
    | escapedTemplate => cases es_eq'

/-- White space of one line that leads to code is code. -/
theorem isCode_of_scans_blank (reached : Reached s) (not_opened : s.mode ≠ .substitutionOpen)
    (blank : ∀ c ∈ w, isSpace c = true ∧ c ≠ '\n') (read : Scans .script follow s w cells t) (is_code : IsCode t) : IsCode s := by
  induction w using List.reverseRecOn generalizing cells t follow with
  | nil =>
    cases read
    exact is_code
  | append_singleton w c ih =>
    rw [List.forall_mem_append, List.forall_mem_singleton] at blank
    obtain ⟨_, _, v, -, front, last⟩ := scans_append_iff.1 read
    have reached' := (scans_reached front reached fun h => absurd h not_opened).1
    cases last with
    | @cons _ _ _ _ _ mode es _ step rest =>
      cases rest
      obtain ⟨rfl, rfl⟩ : mode = .plain ∧ es = [] := ⟨is_code.mode, is_code.enclosures⟩
      exact ih blank.1 front (isCode_of_step_blank reached' blank.2.1 blank.2.2 step)

/-! ## Gaps -/

/-- White space `w` of a source in code, with the cells in front of it and behind it. What comes before could be a script, and
what follows begins plainly. -/
structure Gap (source : List Char) (a : List Cell) (w : List Char) (b : List Cell) : Prop where
  mask : mask .script source = .ok (a ++ (w.map code ++ b))
  blank : IsBlank w
  front : ∃ s, Scans .script none {} (chars a) a s ∧ IsCode s
  back : ∃ s t, Scans .script none s (chars b) b t ∧ IsCode s ∧ t.unterminated? = none ∧ BeginsPlainly s.past b

/-- What follows a gap is read alike behind a bound. -/
theorem Gap.scans_back (gap : Gap source a w b) (is_code : IsCode s) (bounded : IsBounded s.past) :
    ∃ t, Scans .script none s (chars b) b t ∧ t.unterminated? = none := by
  obtain ⟨s', t', read, is_code', closed, begins⟩ := gap.back
  have same : SameMode s' s := ⟨by rw [is_code.mode, is_code'.mode], by rw [is_code.enclosures, is_code'.enclosures]⟩
  obtain ⟨t, read', alike, -⟩ := same.scans bounded read begins
  exact ⟨t, read', alike.unterminated? closed⟩

/-- A line feed, white space and what follows a gap can stand behind a script. -/
theorem Gap.scans_behind (gap : Gap source a w b) (reached : Reached s) (closed : s.unterminated? = none) (blank : IsBlank x) :
    ∃ t, Scans .script none s ('\n' :: x ++ chars b) (('\n' :: x).map code ++ b) t ∧ t.unterminated? = none := by
  obtain ⟨v, feed, is_code, past⟩ := scans_feed_of_closed reached closed ((x ++ chars b).head?.or none)
  obtain ⟨u, space, is_code', past'⟩ := scans_space ((chars b).head?.or none) is_code blank
  have bounded : IsBounded u.past := by
    rw [past', past, ← List.singleton_append, ← List.append_assoc]
    refine isBounded_append ?_ (by simp) _
    intro c hc
    rcases List.mem_append.1 hc with hc | hc
    · exact blank c (List.mem_reverse.1 hc)
    · rw [List.mem_singleton.1 hc]
      rfl
  obtain ⟨t, back, closed'⟩ := gap.scans_back is_code' bounded
  exact ⟨t, feed.append (space.append back), closed'⟩

theorem isDull_or (blank : IsBlank w) (dull : IsDull follow) : IsDull (w.head?.or follow) := by
  cases w with
  | nil => exact dull
  | cons c w => exact isDull_of_isSpace (blank c List.mem_cons_self)

/-- Behind a line feed, no word goes on. -/
theorem isBounded_of_feed (read : Scans .script follow s text cells t) (ends : text.getLast? = some '\n') :
    IsBounded t.past := by
  obtain ⟨front, rfl⟩ := List.getLast?_eq_some_iff.1 ends
  obtain ⟨_, _, v, -, -, last⟩ := scans_append_iff.1 read
  cases last with
  | @cons _ _ _ _ shown _ _ _ _ rest =>
    cases rest
    have face : (Cell.mk '\n' shown).face = '\n' := by cases shown <;> rfl
    change IsBounded ((Cell.mk '\n' shown).face :: v.past)
    rw [face]
    exact isBounded_cons rfl (by decide) v.past

/-- A script that begins plainly is read in code as it is read alone. -/
theorem scans_inserted (is_code : IsCode s) (bounded : IsBounded s.past) (masked : mask .script inserted = .ok ci)
    (begins : BeginsPlainly [] ci) : ∃ t, Scans .script (some '\n') s inserted ci t ∧ Reached t ∧ t.unterminated? = none := by
  obtain ⟨u, read, closed⟩ := maskFrom_eq_ok_iff.1 masked
  have same : SameMode {} s := ⟨by rw [is_code.mode], by rw [is_code.enclosures]⟩
  obtain ⟨t, read', alike, -⟩ := same.scans bounded (read.dull isDull_none (isDull_of_isSpace (c := '\n') rfl)) begins
  have reached := (scans_reached read' (reached_of_isCode is_code) fun h => absurd h (not_opened_of_isCode is_code)).1
  exact ⟨t, read', reached, alike.unterminated? closed⟩

/-- What is put into a gap on lines of its own stands in code. -/
theorem Gap.standsInCode (gap : Gap source a w b) (blank : IsBlank lead) (ends : (chars a ++ lead).getLast? = some '\n')
    (masked : Text.mask .script inserted = .ok ci) (begins : BeginsPlainly [] ci) (dull : IsDull inserted.head?)
    (some_char : inserted ≠ []) (blank' : IsBlank x) :
    StandsInCode source inserted (chars a ++ lead ++ (inserted ++ ('\n' :: x ++ chars b))) := by
  obtain ⟨s, front, is_code⟩ := gap.front
  -- The front with its seam, in front of something dull.
  have seam (follow : Option Char) (dull : IsDull (lead.head?.or follow)) :
      ∃ t, Scans .script follow {} (chars a ++ lead) (a ++ lead.map code) t ∧ IsCode t := by
    obtain ⟨t, space, is_code', -⟩ := scans_space follow is_code blank
    exact ⟨t, (front.dull isDull_none dull).append space, is_code'⟩
  have first : (inserted ++ ('\n' :: x ++ chars b)).head? = inserted.head? := by
    rw [List.head?_append_of_ne_nil _ some_char]
  obtain ⟨t, left, is_code'⟩ := seam none (isDull_or blank isDull_none)
  obtain ⟨t', left', is_code''⟩ := seam (inserted.head?.or none) (isDull_or blank (by rwa [Option.or_none]))
  obtain ⟨v, middle, reached, closed⟩ := scans_inserted is_code'' (isBounded_of_feed left' ends) masked begins
  obtain ⟨u, behind, closed'⟩ := gap.scans_behind reached closed blank'
  obtain ⟨u', right, closed''⟩ := gap.scans_behind reached_start rfl blank'
  refine ⟨_, _, _, ci, _, rfl, maskFrom_eq_ok_iff.2 ⟨t, left, is_code'.closed⟩, masked, maskFrom_eq_ok_iff.2 ⟨u', right, closed''⟩,
    maskFrom_eq_ok_iff.2 ⟨u, ?_, closed'⟩, a, w, b, lead, '\n' :: x, gap.mask, rfl, rfl, gap.blank, blank, ?_⟩
  · have whole := left'
    rw [← first] at whole
    exact whole.append (middle.append behind)
  · exact List.forall_mem_cons.2 ⟨rfl, blank'⟩

end Codewright.Script
