import Mathlib.Data.List.Basic
import Codewright.Text.Pattern

/-!
# The ways of a pattern

A pattern leads from a place of a text to other places, some of them to be tried before others. A run takes the first place at
which what follows the pattern succeeds.

* `ways size pattern p` – the places to which a pattern leads, in the order in which they are tried; `run_eq_findSome?`;
* `Took p w q` – the way from `p` to `q` covers the text `w`; `Plain.took` says which characters it can cover;
* `Takes size pattern w rest groups` – in front of `rest`, the first way covers `w`; `Dead size pattern rest` – there is none;
* `exists_of_mem_findFrom`, `filterMap_findFrom` – where the matches in a text are.
-/

namespace Codewright.Text

namespace Pattern

/-- The places behind any number of pieces, at most `n`. -/
def repeatWays (greedy : Bool) (piece : MatchPoint → List MatchPoint) : Nat → MatchPoint → List MatchPoint
  | 0, p => [p]
  | n + 1, p =>
    let again := (piece p).flatMap fun q => if p.place < q.place then repeatWays greedy piece n q else []
    if greedy then again ++ [p] else p :: again

/-- The places to which a pattern leads, those that are tried first in front. -/
def ways (size : Nat) : Pattern → MatchPoint → List MatchPoint
  | .nothing, p => [p]
  | .one test, p =>
    match p.rest with
    | c :: cs => if test c then [{ p with before := some c, rest := cs, place := p.place + 1 }] else []
    | [] => []
  | .seq first second, p => (ways size first p).flatMap (ways size second)
  | .alt first second, p => ways size first p ++ ways size second p
  | .many greedy piece, p => repeatWays greedy (ways size piece) size p
  | .group index piece, p => (ways size piece p).map fun q => { q with groups := (index, p.place, q.place) :: q.groups }
  | .lineStart, p => if p.before = none || p.before = some '\n' then [p] else []
  | .wordEdge, p => if p.before.any isWord != p.rest.head?.any isWord then [p] else []

variable {size n skip place : Nat} {p q r : MatchPoint} {pattern first second piece : Pattern} {next : MatchPoint → Option Match}
  {m : Match} {test ok : Char → Bool} {c : Char} {w w' t rest u v : List Char} {before : Option Char} {greedy : Bool}
  {gs gs' : List (Nat × Nat × Nat)}

/-! ## Runs -/

theorem findSome?_flatMap {α β γ : Type} (f : β → Option γ) (g : α → List β) (l : List α) :
    (l.flatMap g).findSome? f = l.findSome? fun a => (g a).findSome? f := by
  induction l with
  | nil => rfl
  | cons a l ih =>
    rw [List.flatMap_cons, List.findSome?_append, ih, List.findSome?_cons]
    cases (g a).findSome? f <;> rfl

theorem repeats_eq_findSome? {try_ : (MatchPoint → Option Match) → MatchPoint → Option Match} {leads : MatchPoint → List MatchPoint}
    (same : ∀ next p, try_ next p = (leads p).findSome? next) (next : MatchPoint → Option Match) (n : Nat) (p : MatchPoint) :
    repeats greedy try_ next n p = (repeatWays greedy leads n p).findSome? next := by
  induction n generalizing p with
  | zero => simp [repeats, repeatWays]
  | succ n ih =>
    have again : try_ (fun q => if p.place < q.place then repeats greedy try_ next n q else none) p =
        ((leads p).flatMap fun q => if p.place < q.place then repeatWays greedy leads n q else []).findSome? next := by
      rw [same, findSome?_flatMap]
      congr 1
      funext q
      split_ifs
      · exact ih q
      · rfl
    rw [repeats, repeatWays, again]
    split_ifs
    · rw [List.findSome?_append, List.findSome?_singleton]
      cases List.findSome? next _ <;> rfl
    · rw [List.findSome?_cons]
      cases next p <;> rfl

/-- A run takes the first way behind which the rest succeeds. -/
theorem run_eq_findSome? (pattern : Pattern) (next : MatchPoint → Option Match) (p : MatchPoint) :
    pattern.run size next p = (pattern.ways size p).findSome? next := by
  induction pattern generalizing next p with
  | nothing => simp [run, ways]
  | one test =>
    rw [run, ways]
    cases p.rest with
    | nil => rfl
    | cons c cs =>
      dsimp only
      split_ifs <;> simp
  | seq first second ih ih' =>
    rw [run, ways, findSome?_flatMap, ih]
    exact congrArg (fun f => List.findSome? f (ways size first p)) (funext fun q => ih' next q)
  | alt first second ih ih' =>
    rw [run, ways, List.findSome?_append, ih, ih']
    cases (ways size first p).findSome? next <;> rfl
  | many greedy piece ih =>
    rw [run, ways]
    exact repeats_eq_findSome? (fun next p => ih next p) next size p
  | group index piece ih =>
    rw [run, ways, ih, List.findSome?_map]
    rfl
  | lineStart | wordEdge =>
    rw [run, ways]
    split_ifs <;> simp

/-- A match follows one of the ways. -/
theorem exists_of_matchAt? (h : pattern.matchAt? size before place rest = some m) :
    ∃ q ∈ pattern.ways size ⟨before, rest, place, []⟩, m = ⟨place, q.place, q.groups⟩ := by
  rw [matchAt?, run_eq_findSome?] at h
  obtain ⟨q, hq, same⟩ := List.exists_of_findSome?_eq_some h
  exact ⟨q, hq, (Option.some.inj same).symm⟩

/-! ## What a way covers -/

/-- The way from one place to another covers a text, and no group. -/
structure Took (p : MatchPoint) (w : List Char) (q : MatchPoint) : Prop where
  rest : p.rest = w ++ q.rest
  place : q.place = p.place + w.length
  groups : q.groups = p.groups

theorem Took.refl (p : MatchPoint) : Took p [] p := ⟨rfl, rfl, rfl⟩

theorem Took.trans (h : Took p w q) (h' : Took q w' r) : Took p (w ++ w') r := by
  refine ⟨by rw [h.rest, h'.rest, List.append_assoc], ?_, h'.groups.trans h.groups⟩
  rw [h'.place, h.place, List.length_append, Nat.add_assoc]

theorem mem_ways_one : q ∈ ways size (.one test) p ↔
    ∃ c cs, p.rest = c :: cs ∧ test c = true ∧ q = { p with before := some c, rest := cs, place := p.place + 1 } := by
  rw [ways]
  cases p.rest with
  | nil => simp
  | cons c cs =>
    dsimp only
    split_ifs with passes <;> simp [passes]

theorem took_one (h : q ∈ ways size (.one test) p) : ∃ c, Took p [c] q ∧ test c = true := by
  obtain ⟨c, cs, rest, passes, rfl⟩ := mem_ways_one.1 h
  refine ⟨c, ⟨rest, rfl, rfl⟩, passes⟩

theorem mem_ways_seq : q ∈ ways size (.seq first second) p ↔ ∃ r ∈ ways size first p, q ∈ ways size second r := by
  rw [ways, List.mem_flatMap]

theorem mem_ways_alt : q ∈ ways size (.alt first second) p ↔ q ∈ ways size first p ∨ q ∈ ways size second p := by
  rw [ways, List.mem_append]

theorem mem_ways_opt : q ∈ ways size (.opt piece) p ↔ q ∈ ways size piece p ∨ q = p := by
  rw [opt, mem_ways_alt, ways, List.mem_singleton]

theorem mem_ways_inOrder {ps : List Pattern} (h : q ∈ ways size (.inOrder (pattern :: ps)) p) :
    ∃ r ∈ ways size pattern p, q ∈ ways size (.inOrder ps) r := by
  cases ps with
  | nil => exact ⟨q, h, List.mem_singleton_self q⟩
  | cons => exact mem_ways_seq.1 h

theorem took_text {s : String} (h : q ∈ ways size (.text s) p) : Took p s.toList q := by
  unfold text at h
  generalize s.toList = cs at h ⊢
  induction cs generalizing p with
  | nil =>
    obtain rfl : q = p := List.mem_singleton.1 h
    exact .refl q
  | cons c cs ih =>
    obtain ⟨r, here, behind⟩ := mem_ways_seq.1 h
    obtain ⟨d, took, same⟩ := took_one here
    rw [beq_iff_eq.1 same] at took
    exact took.trans (ih behind)

/-- What holds of no piece, and of one more if it holds of some, holds of all ways of a repetition. -/
theorem repeatWays_induction {leads : MatchPoint → List MatchPoint} {motive : MatchPoint → MatchPoint → Prop}
    (refl : ∀ p, motive p p) (step : ∀ p q r, q ∈ leads p → motive q r → motive p r) (h : q ∈ repeatWays greedy leads n p) : motive p q := by
  induction n generalizing p with
  | zero =>
    obtain rfl : q = p := by simpa [repeatWays] using h
    exact refl q
  | succ n ih =>
    have again (h : q ∈ (leads p).flatMap fun r => if p.place < r.place then repeatWays greedy leads n r else []) : motive p q := by
      obtain ⟨r, hr, h⟩ := List.mem_flatMap.1 h
      split_ifs at h
      · exact step p r q hr (ih h)
      · cases h
    rw [repeatWays] at h
    split_ifs at h
    · rcases List.mem_append.1 h with h | h
      · exact again h
      · rw [List.mem_singleton.1 h]
        exact refl p
    · rcases List.mem_cons.1 h with rfl | h
      · exact refl q
      · exact again h

/-- The pattern has no groups, and covers only characters of a kind. -/
def Plain (ok : Char → Bool) : Pattern → Prop
  | .nothing => True
  | .one test => ∀ c, test c = true → ok c = true
  | .seq first second => Plain ok first ∧ Plain ok second
  | .alt first second => Plain ok first ∧ Plain ok second
  | .many _ piece => Plain ok piece
  | .group _ _ => False
  | .lineStart => True
  | .wordEdge => True

/-- Every way of a plain pattern covers characters of the kind. -/
theorem Plain.took (plain : Plain ok pattern) (h : q ∈ pattern.ways size p) : ∃ w, Took p w q ∧ ∀ c ∈ w, ok c = true := by
  induction pattern generalizing p q with
  | nothing =>
    obtain rfl := List.mem_singleton.1 h
    exact ⟨[], .refl q, nofun⟩
  | one test =>
    obtain ⟨c, took, passes⟩ := took_one h
    exact ⟨[c], took, List.forall_mem_singleton.2 (plain c passes)⟩
  | seq first second ih ih' =>
    obtain ⟨r, here, behind⟩ := mem_ways_seq.1 h
    obtain ⟨w, took, each⟩ := ih plain.1 here
    obtain ⟨w', took', each'⟩ := ih' plain.2 behind
    exact ⟨w ++ w', took.trans took', List.forall_mem_append.2 ⟨each, each'⟩⟩
  | alt first second ih ih' => exact (mem_ways_alt.1 h).elim (ih plain.1) (ih' plain.2)
  | many greedy piece ih =>
    rw [ways] at h
    refine repeatWays_induction (motive := fun p q => ∃ w, Took p w q ∧ ∀ c ∈ w, ok c = true) (fun p => ⟨[], .refl p, nofun⟩) ?_ h
    rintro p q r here ⟨w', took', each'⟩
    obtain ⟨w, took, each⟩ := ih plain here
    exact ⟨w ++ w', took.trans took', List.forall_mem_append.2 ⟨each, each'⟩⟩
  | group => cases plain
  | lineStart | wordEdge =>
    rw [ways] at h
    split_ifs at h
    · rw [List.mem_singleton.1 h]
      exact ⟨[], .refl p, nofun⟩
    · cases h

theorem plain_star (covers : ∀ c, test c = true → ok c = true) : Plain ok (.star (.one test)) := covers

/-- A repeated character covers characters that pass its test. -/
theorem took_star (h : q ∈ ways size (.star (.one test)) p) : ∃ w, Took p w q ∧ ∀ c ∈ w, test c = true :=
  (plain_star fun _ => id).took h

theorem plain_text {s : String} (covers : ∀ c ∈ s.toList, ok c = true) : Plain ok (.text s) := by
  unfold text
  generalize s.toList = cs at covers
  induction cs with
  | nil => trivial
  | cons c cs ih =>
    obtain ⟨here, more⟩ := List.forall_mem_cons.1 covers
    exact ⟨fun d same => by rwa [beq_iff_eq.1 same], ih more⟩

theorem plain_anyOf {ps : List Pattern} (each : ∀ p ∈ ps, Plain ok p) : Plain ok (.anyOf ps) := by
  induction ps with
  | nil => exact nofun
  | cons p ps ih =>
    obtain ⟨here, more⟩ := List.forall_mem_cons.1 each
    cases ps with
    | nil => exact here
    | cons => exact ⟨here, ih more⟩

/-! ## The first way -/

/-- Groups that stand so many places further on. -/
def shift (k : Nat) (gs : List (Nat × Nat × Nat)) : List (Nat × Nat × Nat) := gs.map fun g => (g.1, g.2.1 + k, g.2.2 + k)

theorem shift_shift (k l : Nat) (gs : List (Nat × Nat × Nat)) : shift k (shift l gs) = shift (l + k) gs := by
  simp [shift, Nat.add_assoc]

theorem shift_append (k : Nat) (gs gs' : List (Nat × Nat × Nat)) : shift k (gs ++ gs') = shift k gs ++ shift k gs' := List.map_append

/-- In front of `rest`, the first way of the pattern covers `w`, with groups that are counted from where it begins. -/
def Takes (size : Nat) (pattern : Pattern) (w rest : List Char) (gs : List (Nat × Nat × Nat)) : Prop :=
  ∀ p : MatchPoint, p.rest = w ++ rest → ∃ q, (pattern.ways size p).head? = some q ∧ q.rest = rest ∧ q.place = p.place + w.length ∧
    q.groups = shift p.place gs ++ p.groups

/-- The pattern has no way into a text. -/
def Dead (size : Nat) (pattern : Pattern) (rest : List Char) : Prop := ∀ p : MatchPoint, p.rest = rest → pattern.ways size p = []

theorem head?_flatMap {α β : Type} {l : List α} {f : α → List β} {a : α} {b : β} (here : l.head? = some a)
    (there : (f a).head? = some b) : (l.flatMap f).head? = some b := by
  obtain ⟨l, rfl⟩ := List.head?_eq_some_iff.1 here
  rw [List.flatMap_cons, List.head?_append, there]
  rfl

theorem Takes.of_eq (takes : Takes size pattern w rest gs) (same : w = w') (same_groups : gs = gs') :
    Takes size pattern w' rest gs' := by
  subst same same_groups
  exact takes

theorem Takes.nothing (rest : List Char) : Takes size .nothing [] rest [] := fun p h => ⟨p, rfl, h, rfl, rfl⟩

theorem Takes.one (passes : test c = true) (rest : List Char) : Takes size (.one test) [c] rest [] := by
  intro p h
  exact ⟨{ p with before := some c, rest := rest, place := p.place + 1 }, by simp [ways, h, passes], rfl, rfl, rfl⟩

theorem Takes.seq (here : Takes size first w t gs) (behind : Takes size second w' rest gs') (follows : t = w' ++ rest) :
    Takes size (.seq first second) (w ++ w') rest (shift w.length gs' ++ gs) := by
  subst follows
  intro p h
  obtain ⟨q, leads, rest_eq, place_eq, groups_eq⟩ := here p (by rw [h, List.append_assoc])
  obtain ⟨r, leads', rest_eq', place_eq', groups_eq'⟩ := behind q rest_eq
  refine ⟨r, ?_, rest_eq', ?_, ?_⟩
  · rw [ways]
    exact head?_flatMap leads leads'
  · rw [place_eq', place_eq, List.length_append, Nat.add_assoc]
  · rw [groups_eq', groups_eq, place_eq, shift_append, shift_shift, List.append_assoc, Nat.add_comm w.length]

theorem Takes.alt_left (here : Takes size first w rest gs) : Takes size (.alt first second) w rest gs := by
  intro p h
  obtain ⟨q, leads, told⟩ := here p h
  exact ⟨q, by rw [ways, List.head?_append, leads]; rfl, told⟩

theorem Takes.alt_right (dead : Dead size first (w ++ rest)) (here : Takes size second w rest gs) :
    Takes size (.alt first second) w rest gs := by
  intro p h
  obtain ⟨q, leads, told⟩ := here p h
  exact ⟨q, by rw [ways, dead p h, List.nil_append, leads], told⟩

theorem Takes.opt (here : Takes size piece w rest gs) : Takes size (.opt piece) w rest gs := here.alt_left

theorem Takes.opt_none (dead : Dead size piece rest) : Takes size (.opt piece) [] rest [] := .alt_right dead (.nothing rest)

theorem Takes.group (index : Nat) (here : Takes size piece w rest gs) :
    Takes size (.group index piece) w rest ((index, 0, w.length) :: gs) := by
  intro p h
  obtain ⟨q, leads, rest_eq, place_eq, groups_eq⟩ := here p h
  refine ⟨{ q with groups := (index, p.place, q.place) :: q.groups }, by rw [ways, List.head?_map, leads]; rfl, rest_eq, place_eq, ?_⟩
  simp [shift, groups_eq, place_eq, Nat.add_comm]

/-- The first way of a repetition of at most `n` pieces. -/
def TakesUpTo (size n : Nat) (piece : Pattern) (w rest : List Char) : Prop :=
  ∀ p : MatchPoint, p.rest = w ++ rest → ∃ q, (repeatWays true (piece.ways size) n p).head? = some q ∧ q.rest = rest ∧
    q.place = p.place + w.length ∧ q.groups = p.groups

theorem TakesUpTo.none (dead : Dead size piece rest) : TakesUpTo size n piece [] rest := by
  intro p h
  refine ⟨p, ?_, h, rfl, rfl⟩
  cases n with
  | zero => rfl
  | succ n => simp [repeatWays, dead p h]

theorem TakesUpTo.more (some_char : w ≠ []) (here : Takes size piece w (w' ++ rest) []) (behind : TakesUpTo size n piece w' rest) :
    TakesUpTo size (n + 1) piece (w ++ w') rest := by
  intro p h
  obtain ⟨q, leads, rest_eq, place_eq, groups_eq⟩ := here p (by rw [h, List.append_assoc])
  obtain ⟨r, leads', rest_eq', place_eq', groups_eq'⟩ := behind q rest_eq
  have further : p.place < q.place := by
    have := List.length_pos_iff.2 some_char
    omega
  have again : ((piece.ways size p).flatMap fun q => if p.place < q.place then repeatWays true (piece.ways size) n q else []).head? =
      some r := head?_flatMap leads (by rw [if_pos further, leads'])
  refine ⟨r, ?_, rest_eq', ?_, ?_⟩
  · rw [repeatWays, if_pos rfl, List.head?_append, again]
    rfl
  · rw [place_eq', place_eq, List.length_append, Nat.add_assoc]
  · rw [groups_eq', groups_eq]
    rfl

theorem TakesUpTo.star (here : TakesUpTo size size piece w rest) : Takes size (.star piece) w rest [] := here

theorem dead_one (ends : ∀ c ∈ rest.head?, test c = false) : Dead size (.one test) rest := by
  intro p h
  rw [ways, h]
  cases rest with
  | nil => rfl
  | cons c cs => simp [ends c rfl]

theorem takesUpTo_one (passes : ∀ c ∈ w, test c = true) (ends : ∀ c ∈ rest.head?, test c = false) (enough : w.length ≤ n) :
    TakesUpTo size n (.one test) w rest := by
  induction w generalizing n with
  | nil => exact .none (dead_one ends)
  | cons c w ih =>
    obtain ⟨here, more⟩ := List.forall_mem_cons.1 passes
    cases n with
    | zero => simp at enough
    | succ n => exact .more (w := [c]) (by simp) (.one here _) (ih more (Nat.le_of_succ_le_succ enough))

/-- A repetition of a character covers all such characters that come. -/
theorem Takes.star_one (passes : ∀ c ∈ w, test c = true) (ends : ∀ c ∈ rest.head?, test c = false) (enough : w.length ≤ size) :
    Takes size (.star (.one test)) w rest [] := (takesUpTo_one passes ends enough).star

theorem Takes.text (s : String) (rest : List Char) : Takes size (.text s) s.toList rest [] := by
  unfold Pattern.text
  induction s.toList with
  | nil => exact .nothing rest
  | cons c cs ih =>
    have here : Takes size (.one (· == c)) [c] (cs ++ rest) [] := .one (by simp) _
    exact here.seq ih rfl

/-! ## No way -/

theorem Dead.seq (dead : Dead size first rest) (second : Pattern) : Dead size (.seq first second) rest := by
  intro p h
  rw [ways, dead p h]
  rfl

theorem Dead.alt (dead : Dead size first rest) (dead' : Dead size second rest) : Dead size (.alt first second) rest := by
  intro p h
  rw [ways, dead p h, dead' p h]
  rfl

/-- There is no way behind any text that the first pattern can cover. -/
theorem Dead.behind (plain : Plain ok first)
    (dead : ∀ w rest', rest = w ++ rest' → (∀ c ∈ w, ok c = true) → Dead size second rest') :
    Dead size (.seq first second) rest := by
  intro p h
  rw [ways, List.flatMap_eq_nil_iff]
  intro q hq
  obtain ⟨w, took, each⟩ := plain.took hq
  exact dead w q.rest (h.symm.trans took.rest) each q rfl

theorem Dead.text {s : String} (other : ¬s.toList <+: rest) : Dead size (.text s) rest := by
  intro p h
  unfold Pattern.text
  generalize s.toList = cs at other
  induction cs generalizing rest p with
  | nil => exact absurd List.nil_prefix other
  | cons c cs ih =>
    rw [List.foldr_cons, ways, List.flatMap_eq_nil_iff]
    intro q hq
    obtain ⟨d, ds, rest_eq, passes, rfl⟩ := mem_ways_one.1 hq
    refine ih _ rfl fun more => other ?_
    rw [← h, rest_eq, beq_iff_eq.1 passes]
    exact List.cons_prefix_cons.2 ⟨rfl, more⟩

theorem dead_anyOf {ps : List Pattern} (each : ∀ p ∈ ps, Dead size p rest) : Dead size (.anyOf ps) rest := by
  induction ps with
  | nil => exact dead_one fun _ _ => rfl
  | cons p ps ih =>
    obtain ⟨here, more⟩ := List.forall_mem_cons.1 each
    cases ps with
    | nil => exact here
    | cons => exact here.alt (ih more)

/-- A text with another character in one of its places is not there. -/
theorem dead_text_append {s : String} (other : (s.toList.zip w).any (fun cs => cs.1 != cs.2) = true) (rest : List Char) :
    Dead size (.text s) (w ++ rest) := by
  refine .text ?_
  generalize s.toList = cs at other
  induction cs generalizing w with
  | nil => cases other
  | cons c cs ih =>
    cases w with
    | nil => cases other
    | cons d w =>
      rw [List.cons_append, List.cons_prefix_cons]
      rintro ⟨rfl, more⟩
      exact ih (by simpa using other) more

theorem Takes.anyOf {a b : List Pattern} (dead : ∀ p ∈ a, Dead size p (w ++ rest)) (here : Takes size piece w rest gs) :
    Takes size (.anyOf (a ++ piece :: b)) w rest gs := by
  induction a with
  | nil =>
    cases b with
    | nil => exact here
    | cons => exact here.alt_left
  | cons p a ih =>
    obtain ⟨first, more⟩ := List.forall_mem_cons.1 dead
    have behind := Takes.alt_right first (ih more)
    cases a <;> exact behind

/-- Of some words, the one that is there is found, if the words before it differ from it. -/
theorem Takes.anyOf_text {a b : List String} {s : String}
    (other : ∀ v ∈ a, (v.toList.zip s.toList).any (fun cs => cs.1 != cs.2) = true) (rest : List Char) :
    Takes size (.anyOf ((a ++ s :: b).map Pattern.text)) s.toList rest [] := by
  rw [List.map_append, List.map_cons]
  refine .anyOf ?_ (.text s rest)
  exact List.forall_mem_map.2 fun v hv => dead_text_append (other v hv) rest

/-! ## Matches -/

/-- At the start of a line, a match is the first way. -/
theorem matchAt?_of_takes (takes : Takes size pattern w rest gs) (starts : before = none ∨ before = some '\n') (place : Nat) :
    (Pattern.seq .lineStart pattern).matchAt? size before place (w ++ rest) = some ⟨place, place + w.length, shift place gs⟩ := by
  obtain ⟨q, leads, rest_eq, place_eq, groups_eq⟩ := takes ⟨before, w ++ rest, place, []⟩ rfl
  obtain ⟨l, ways_eq⟩ := List.head?_eq_some_iff.1 leads
  have start : ways size .lineStart ⟨before, w ++ rest, place, []⟩ = [⟨before, w ++ rest, place, []⟩] := by
    rw [ways]
    exact if_pos (by simpa using starts)
  rw [matchAt?, run_eq_findSome?, ways, start, List.flatMap_singleton, ways_eq, List.findSome?_cons, place_eq, groups_eq,
    List.append_nil]

theorem matchAt?_of_dead (dead : Dead size pattern rest) (before : Option Char) (place : Nat) :
    pattern.matchAt? size before place rest = none := by
  rw [matchAt?, run_eq_findSome?, dead _ rfl]
  rfl

/-- A match of such a pattern is at the start of a line. -/
theorem starts_of_matchAt? (h : (Pattern.seq .lineStart pattern).matchAt? size before place rest = some m) :
    before = none ∨ before = some '\n' := by
  obtain ⟨q, hq, -⟩ := exists_of_matchAt? h
  obtain ⟨r, hr, -⟩ := mem_ways_seq.1 hq
  rw [ways] at hr
  split_ifs at hr with starts
  · simpa using starts
  · cases hr

theorem getLast?_cons_or (c : Char) (x : List Char) (before : Option Char) :
    (c :: x).getLast?.or before = x.getLast?.or (some c) := by
  rw [List.getLast?_cons]
  cases x.getLast? <;> rfl

/-- A match in a text is one at a place of it. -/
theorem exists_of_mem_findFrom (h : m ∈ pattern.findFrom size skip before place rest) : ∃ x c y, rest = x ++ c :: y ∧
    pattern.matchAt? size (x.getLast?.or before) (place + x.length) (c :: y) = some m := by
  induction rest generalizing skip before place with
  | nil =>
    rw [findFrom] at h
    cases h
  | cons c cs ih =>
    have further {skip : Nat} (h : m ∈ pattern.findFrom size skip (some c) (place + 1) cs) : ∃ x d y, c :: cs = x ++ d :: y ∧
        pattern.matchAt? size (x.getLast?.or before) (place + x.length) (d :: y) = some m := by
      obtain ⟨x, d, y, rfl, found⟩ := ih h
      refine ⟨c :: x, d, y, rfl, ?_⟩
      rwa [getLast?_cons_or, List.length_cons, Nat.add_comm x.length, ← Nat.add_assoc]
    cases skip with
    | succ skip => exact further h
    | zero =>
      rw [findFrom] at h
      split at h
      next found =>
        rcases List.mem_cons.1 h with rfl | h
        · exact ⟨[], c, cs, rfl, found⟩
        · exact further h
      next => exact further h

/-- A part of a text adds nothing to what is made of the matches, if nothing is made of those that begin in it and if these end
in it. -/
theorem filterMap_findFrom {α : Type} {f : Match → Option α} (le : skip ≤ u.length)
    (quiet : ∀ x c y m, u = x ++ c :: y →
      pattern.matchAt? size (x.getLast?.or before) (place + x.length) (c :: y ++ v) = some m →
      f m = none ∧ m.stop ≤ place + u.length) :
    (pattern.findFrom size skip before place (u ++ v)).filterMap f =
      (pattern.findFrom size 0 (u.getLast?.or before) (place + u.length) v).filterMap f := by
  induction u generalizing skip before place with
  | nil =>
    obtain rfl : skip = 0 := Nat.le_zero.1 le
    rfl
  | cons c u ih =>
    -- What is said of the rest of the part.
    have further {skip : Nat} (le : skip ≤ u.length) : (pattern.findFrom size skip (some c) (place + 1) (u ++ v)).filterMap f =
        (pattern.findFrom size 0 ((c :: u).getLast?.or before) (place + (c :: u).length) v).filterMap f := by
      rw [getLast?_cons_or, List.length_cons, Nat.add_comm u.length, ← Nat.add_assoc]
      refine ih le fun x d y m cut found => ?_
      have := quiet (c :: x) d y m (by rw [cut, List.cons_append])
      rw [getLast?_cons_or, List.length_cons, List.length_cons, Nat.add_comm x.length, Nat.add_comm u.length, ← Nat.add_assoc,
        ← Nat.add_assoc] at this
      exact this found
    cases skip with
    | succ skip => exact further (Nat.le_of_succ_le_succ le)
    | zero =>
      rw [List.cons_append, findFrom]
      split
      next m found =>
        obtain ⟨unnamed, stops⟩ := quiet [] c u m rfl found
        rw [List.filterMap_cons_none unnamed]
        rw [List.length_cons] at stops
        exact further (by omega)
      next => exact further (Nat.zero_le _)

end Pattern

end Codewright.Text
