import Mathlib.Data.List.Forall2
import Mathlib.Data.Nat.Basic
import Mathlib.Order.Basic
import Codewright.Proofs.Text.Pattern
import Codewright.Proofs.Text.Ways

/-!
# Ways in another text

What a search finds in a part of a text depends neither on where the part begins nor on what comes behind it, as long as no match
begins in the part and goes beyond it.

* `Onward p q` – the way from one place to another, with the groups on it;
* `Counterpart k v v' p q` – two places, one in front of `v` and the other one, `k` further on, in front of `v'`, with the same text in
  between; `counterparts_ways` is the simulation;
* `findFrom_eq` – the same of the matches in a part of a text; `map_moved_findFrom` – the matches in a text that stands elsewhere.
-/

namespace Codewright.Text

theorem Goes.place_le {p q : MatchPoint} (goes : Goes p q) : p.place ≤ q.place := by
  obtain ⟨taken, -, place⟩ := goes
  omega

/-- On a way that leads somewhere else, less of the text is left. -/
theorem Goes.length_lt {p q : MatchPoint} (goes : Goes p q) (further : p.place < q.place) : q.rest.length < p.rest.length := by
  obtain ⟨taken, rest, place⟩ := goes
  rw [rest, List.length_append]
  omega

theorem Goes.length_le {p q : MatchPoint} (goes : Goes p q) : q.rest.length ≤ p.rest.length := by
  obtain ⟨taken, rest, -⟩ := goes
  rw [rest, List.length_append]
  omega

namespace Pattern

variable {size size' n n' k skip place : Nat} {p q r p' q' : MatchPoint} {pattern first second piece : Pattern} {m : Match}
  {w t rest u v v' : List Char} {before before' : Option Char} {greedy : Bool}

/-! ## Onward -/

/-- A way leads on, and the groups on it lie between its ends. -/
structure Onward (p q : MatchPoint) : Prop where
  goes : Goes p q
  groups : ∀ g ∈ q.groups, g ∈ p.groups ∨ p.place ≤ g.2.1 ∧ g.2.1 ≤ g.2.2 ∧ g.2.2 ≤ q.place

theorem Onward.refl (p : MatchPoint) : Onward p p := ⟨.refl p, fun _ hg => .inl hg⟩

theorem Onward.trans (h : Onward p q) (h' : Onward q r) : Onward p r := by
  refine ⟨h.goes.trans h'.goes, fun g hg => ?_⟩
  have le := h.goes.place_le
  have le' := h'.goes.place_le
  rcases h'.groups g hg with hg | between
  · rcases h.groups g hg with hg | between
    · exact .inl hg
    · exact .inr ⟨between.1, between.2.1, between.2.2.trans le'⟩
  · exact .inr ⟨le.trans between.1, between.2⟩

/-- Every way of a pattern leads on. -/
theorem onward_of_mem_ways (h : q ∈ pattern.ways size p) : Onward p q := by
  induction pattern generalizing p q with
  | nothing => exact List.mem_singleton.1 h ▸ .refl _
  | one test =>
    obtain ⟨c, cs, rest, -, rfl⟩ := mem_ways_one.1 h
    exact ⟨⟨[c], rest, rfl⟩, fun _ hg => .inl hg⟩
  | seq first second ih ih' =>
    obtain ⟨r, here, behind⟩ := mem_ways_seq.1 h
    exact (ih here).trans (ih' behind)
  | alt first second ih ih' => exact (mem_ways_alt.1 h).elim ih ih'
  | many greedy piece ih =>
    rw [ways] at h
    exact repeatWays_induction Onward.refl (fun p q r here behind => (ih here).trans behind) h
  | group index piece ih =>
    obtain ⟨r, here, rfl⟩ := List.mem_map.1 h
    have onward := ih here
    refine ⟨onward.goes, List.forall_mem_cons.2 ⟨.inr ⟨le_rfl, onward.goes.place_le, le_rfl⟩, onward.groups⟩⟩
  | lineStart | wordEdge =>
    rw [ways] at h
    split_ifs at h
    · exact List.mem_singleton.1 h ▸ .refl _
    · cases h

/-! ## Counterparts -/

/-- Places with the same text in front of `v` and of `v'`; the second one is `k` further on. -/
structure Counterpart (k : Nat) (v v' : List Char) (p q : MatchPoint) : Prop where
  rest : ∃ u, p.rest = u ++ v ∧ q.rest = u ++ v'
  place : q.place = p.place + k
  groups : q.groups = shift k p.groups
  /-- The start of a text is the start of a line. -/
  before : p.before.getD '\n' = q.before.getD '\n'

/-- A place in front of `v` or of more. -/
def reaches (v : List Char) (p : MatchPoint) : Bool := v.length ≤ p.rest.length

theorem Counterpart.reaches (same : Counterpart k v v' p q) : reaches v p = true := by
  obtain ⟨u, rest, -⟩ := same.rest
  simp [Pattern.reaches, rest]

theorem Counterpart.reaches' (same : Counterpart k v v' p q) : Pattern.reaches v' q = true := by
  obtain ⟨u, -, rest⟩ := same.rest
  simp [Pattern.reaches, rest]

/-- What leads on from a place behind `v` does not come back. -/
theorem filter_eq_nil_of_goes {l : List MatchPoint} (goes : ∀ q ∈ l, Goes p q) (beyond : ¬reaches v p = true) :
    l.filter (reaches v) = [] := by
  rw [List.filter_eq_nil_iff]
  intro q hq
  have shorter := (goes q hq).length_le
  simp only [reaches, decide_eq_true_eq] at beyond ⊢
  omega

theorem filter_flatMap_goes {l : List MatchPoint} {f : MatchPoint → List MatchPoint} (goes : ∀ p ∈ l, ∀ q ∈ f p, Goes p q) :
    (l.flatMap f).filter (reaches v) = (l.filter (reaches v)).flatMap fun p => (f p).filter (reaches v) := by
  induction l with
  | nil => rfl
  | cons p l ih =>
    obtain ⟨here, more⟩ := List.forall_mem_cons.1 goes
    rw [List.flatMap_cons, List.filter_append, ih more]
    by_cases stays : reaches v p = true
    · rw [List.filter_cons_of_pos stays, List.flatMap_cons]
    · rw [List.filter_cons_of_neg stays, filter_eq_nil_of_goes here stays, List.nil_append]

/-- Lists whose members are counterparts of each other, and their images. -/
theorem forall₂_flatMap {l l' : List MatchPoint} {f f' : MatchPoint → List MatchPoint} (same : List.Forall₂ (Counterpart k v v') l l')
    (each : ∀ p ∈ l, ∀ q ∈ l', Counterpart k v v' p q → List.Forall₂ (Counterpart k v v') (f p) (f' q)) :
    List.Forall₂ (Counterpart k v v') (l.flatMap f) (l'.flatMap f') := by
  induction same with
  | nil => exact .nil
  | cons here more ih =>
    rw [List.flatMap_cons, List.flatMap_cons]
    exact List.rel_append (each _ List.mem_cons_self _ List.mem_cons_self here)
      (ih fun p hp q hq => each p (List.mem_cons_of_mem _ hp) q (List.mem_cons_of_mem _ hq))

/-- In front of `v`, a repetition leads nowhere but beyond. -/
theorem filter_repeatWays {leads : MatchPoint → List MatchPoint} (onward : ∀ p, ∀ q ∈ leads p, Goes p q) (n : Nat)
    (end_ : p.rest = v) : (repeatWays greedy leads n p).filter (reaches v) = [p] := by
  have here : reaches v p = true := by simp [reaches, end_]
  cases n with
  | zero => simp [repeatWays, here]
  | succ n =>
    have none : ((leads p).flatMap fun q => if p.place < q.place then repeatWays greedy leads n q else []).filter (reaches v) = [] := by
      rw [List.filter_eq_nil_iff]
      intro r hr
      obtain ⟨q, hq, hr⟩ := List.mem_flatMap.1 hr
      split_ifs at hr with further
      · have shorter := (onward p q hq).length_lt further
        have far := (repeatWays_induction (motive := Goes) Goes.refl (fun p q r here behind => (onward p q here).trans behind)
          hr).length_le
        rw [end_] at shorter
        simp only [reaches, decide_eq_true_eq]
        omega
      · cases hr
    rw [repeatWays]
    split_ifs
    · rw [List.filter_append, none, List.nil_append, List.filter_cons_of_pos here, List.filter_nil]
    · rw [List.filter_cons_of_pos here, none]

/-- Repetitions of pieces whose ways are counterparts of each other. -/
theorem counterparts_repeatWays {leads leads' : MatchPoint → List MatchPoint} (onward : ∀ p, ∀ q ∈ leads p, Goes p q)
    (onward' : ∀ p, ∀ q ∈ leads' p, Goes p q)
    (same_leads : ∀ p q, Counterpart k v v' p q → p.rest.length ≤ size → q.rest.length ≤ size' →
      List.Forall₂ (Counterpart k v v') ((leads p).filter (reaches v)) ((leads' q).filter (reaches v')))
    (same : Counterpart k v v' p q) (enough : p.rest.length ≤ n) (enough' : q.rest.length ≤ n') (le : n ≤ size) (le' : n' ≤ size') :
    List.Forall₂ (Counterpart k v v') ((repeatWays greedy leads n p).filter (reaches v))
      ((repeatWays greedy leads' n' q).filter (reaches v')) := by
  induction n generalizing n' p q with
  | zero =>
    obtain ⟨u, rest, rest'⟩ := same.rest
    obtain ⟨rfl, rfl⟩ : u = [] ∧ v = [] := by simpa [rest] using enough
    rw [filter_repeatWays (v := []) onward 0 rest, filter_repeatWays (v := v') onward' n' rest']
    exact .cons same .nil
  | succ n ih =>
    obtain ⟨u, rest, rest'⟩ := same.rest
    cases u with
    | nil =>
      rw [filter_repeatWays (v := v) onward _ rest, filter_repeatWays (v := v') onward' n' rest']
      exact .cons same .nil
    | cons c u =>
      cases n' with
      | zero => simp [rest'] at enough'
      | succ n' =>
        have goes {leads : MatchPoint → List MatchPoint} {n : Nat} {p : MatchPoint} (onward : ∀ p, ∀ q ∈ leads p, Goes p q) :
            ∀ r ∈ leads p, ∀ s ∈ (if p.place < r.place then repeatWays greedy leads n r else []), Goes r s := by
          intro r hr s hs
          split_ifs at hs
          · exact repeatWays_induction (motive := Goes) Goes.refl (fun p q r here behind => (onward p q here).trans behind) hs
          · cases hs
        -- One more piece leads to counterparts, with less of the text left.
        have again : List.Forall₂ (Counterpart k v v')
            (((leads p).flatMap fun r => if p.place < r.place then repeatWays greedy leads n r else []).filter (reaches v))
            (((leads' q).flatMap fun r => if q.place < r.place then repeatWays greedy leads' n' r else []).filter (reaches v')) := by
          rw [filter_flatMap_goes (goes onward), filter_flatMap_goes (goes onward')]
          refine forall₂_flatMap (same_leads p q same (enough.trans le) (enough'.trans le')) fun r hr r' hr' same' => ?_
          by_cases further : p.place < r.place
          · have further' : q.place < r'.place := by rw [same.place, same'.place]; omega
            have less := (onward p r (List.mem_of_mem_filter hr)).length_lt further
            have less' := (onward' q r' (List.mem_of_mem_filter hr')).length_lt further'
            rw [if_pos further, if_pos further']
            exact ih same' (by omega) (by omega) (by omega) (by omega)
          · have further' : ¬q.place < r'.place := by rw [same.place, same'.place]; omega
            rw [if_neg further, if_neg further']
            exact .nil
        rw [repeatWays, repeatWays]
        split_ifs
        · rw [List.filter_append, List.filter_append, List.filter_cons_of_pos same.reaches, List.filter_cons_of_pos same.reaches']
          exact List.rel_append again (.cons same .nil)
        · rw [List.filter_cons_of_pos same.reaches, List.filter_cons_of_pos same.reaches']
          exact .cons same again

/-- From counterparts, the ways of a pattern that do not go beyond what is the same lead to counterparts, in the same order. -/
theorem counterparts_ways (edge : v.head?.any isWord = v'.head?.any isWord) (same : Counterpart k v v' p q)
    (enough : p.rest.length ≤ size) (enough' : q.rest.length ≤ size') :
    List.Forall₂ (Counterpart k v v') ((pattern.ways size p).filter (reaches v)) ((pattern.ways size' q).filter (reaches v')) := by
  induction pattern generalizing p q with
  | nothing =>
    rw [ways, ways, List.filter_cons_of_pos same.reaches, List.filter_cons_of_pos same.reaches']
    exact .cons same .nil
  | one test =>
    obtain ⟨u, rest, rest'⟩ := same.rest
    cases u with
    | nil =>
      -- A character of `v` leads beyond.
      have none {size : Nat} {v : List Char} {p : MatchPoint} (rest : p.rest = v) :
          ((Pattern.one test).ways size p).filter (reaches v) = [] := by
        rw [List.filter_eq_nil_iff]
        intro r hr
        obtain ⟨c, cs, rest', -, rfl⟩ := mem_ways_one.1 hr
        simp [reaches, ← rest, rest']
      rw [none (v := v) rest, none (v := v') rest']
      exact .nil
    | cons c u =>
      rw [ways, ways, rest, rest']
      dsimp only [List.cons_append]
      split_ifs
      · have here : Counterpart k v v' { p with before := some c, rest := u ++ v, place := p.place + 1 }
            { q with before := some c, rest := u ++ v', place := q.place + 1 } :=
          ⟨⟨u, rfl, rfl⟩, by have := same.place; dsimp only; omega, same.groups, rfl⟩
        rw [List.filter_cons_of_pos here.reaches, List.filter_cons_of_pos here.reaches']
        exact .cons here .nil
      · exact .nil
  | seq first second ih ih' =>
    have goes {size : Nat} {l : List MatchPoint} : ∀ p ∈ l, ∀ q ∈ second.ways size p, Goes p q :=
      fun _ _ _ hq => (onward_of_mem_ways hq).goes
    rw [ways, ways, filter_flatMap_goes goes, filter_flatMap_goes goes]
    refine forall₂_flatMap (ih same enough enough') fun r hr r' hr' same' => ih' same' ?_ ?_
    · exact (onward_of_mem_ways (List.mem_of_mem_filter hr)).goes.length_le.trans enough
    · exact (onward_of_mem_ways (List.mem_of_mem_filter hr')).goes.length_le.trans enough'
  | alt first second ih ih' =>
    rw [ways, ways, List.filter_append, List.filter_append]
    exact List.rel_append (ih same enough enough') (ih' same enough enough')
  | many greedy piece ih =>
    rw [ways, ways]
    exact counterparts_repeatWays (fun _ _ h => (onward_of_mem_ways h).goes) (fun _ _ h => (onward_of_mem_ways h).goes)
      (fun p q same enough enough' => ih same enough enough') same enough enough' le_rfl le_rfl
  | group index piece ih =>
    rw [ways, ways, List.filter_map, List.filter_map, List.forall₂_map_left_iff, List.forall₂_map_right_iff]
    refine (ih same enough enough').imp fun r r' same' => ⟨same'.rest, same'.place, ?_, same'.before⟩
    simp [shift, same'.groups, same.place, same'.place]
  | lineStart =>
    have starts (b : Option Char) : (b = none ∨ b = some '\n') ↔ b.getD '\n' = '\n' := by cases b <;> simp
    have alike : (p.before = none || p.before = some '\n') = (q.before = none || q.before = some '\n') := by
      rw [← Bool.decide_or, ← Bool.decide_or, decide_eq_decide, starts, starts, same.before]
    rw [ways, ways, alike]
    split_ifs
    · rw [List.filter_cons_of_pos same.reaches, List.filter_cons_of_pos same.reaches']
      exact .cons same .nil
    · exact .nil
  | wordEdge =>
    obtain ⟨u, rest, rest'⟩ := same.rest
    have next : p.rest.head?.any isWord = q.rest.head?.any isWord := by
      rw [rest, rest']
      cases u with
      | nil => exact edge
      | cons => rfl
    have last (b : Option Char) : b.any isWord = isWord (b.getD '\n') := by
      cases b with
      | none => decide
      | some => rfl
    have last : p.before.any isWord = q.before.any isWord := by rw [last, last, same.before]
    rw [ways, ways, next, last]
    split_ifs
    · rw [List.filter_cons_of_pos same.reaches, List.filter_cons_of_pos same.reaches']
      exact .cons same .nil
    · exact .nil

/-! ## Matches -/

/-- A match that stands `k` further on. -/
def movedMatch (k : Nat) (m : Match) : Match := ⟨m.start + k, m.stop + k, shift k m.groups⟩

theorem matchAt?_eq_head? (pattern : Pattern) (size : Nat) (before : Option Char) (place : Nat) (rest : List Char) :
    pattern.matchAt? size before place rest =
      (pattern.ways size ⟨before, rest, place, []⟩).head?.map fun q => ⟨place, q.place, q.groups⟩ := by
  rw [matchAt?, run_eq_findSome?]
  cases pattern.ways size ⟨before, rest, place, []⟩ <;> rfl

/-- Where no way goes beyond what is the same, a match is the same. -/
theorem matchAt?_counterpart (edge : v.head?.any isWord = v'.head?.any isWord) (same : before.getD '\n' = before'.getD '\n')
    (enough : (u ++ v).length ≤ size) (enough' : (u ++ v').length ≤ size')
    (stays : ∀ q ∈ pattern.ways size ⟨before, u ++ v, place, []⟩, v.length ≤ q.rest.length)
    (stays' : ∀ q ∈ pattern.ways size' ⟨before', u ++ v', place + k, []⟩, v'.length ≤ q.rest.length) :
    pattern.matchAt? size' before' (place + k) (u ++ v') = (pattern.matchAt? size before place (u ++ v)).map (movedMatch k) := by
  have alike : List.Forall₂ (Counterpart k v v') ((pattern.ways size _).filter _) ((pattern.ways size' _).filter _) :=
    counterparts_ways (p := ⟨before, u ++ v, place, []⟩) (q := ⟨before', u ++ v', place + k, []⟩) edge
      ⟨⟨u, rfl, rfl⟩, rfl, rfl, same⟩ enough enough'
  rw [List.filter_eq_self.2 fun q hq => by simpa [reaches] using stays q hq,
    List.filter_eq_self.2 fun q hq => by simpa [reaches] using stays' q hq] at alike
  rw [matchAt?_eq_head?, matchAt?_eq_head?]
  generalize pattern.ways size _ = l, pattern.ways size' _ = l' at alike ⊢
  cases alike with
  | nil => rfl
  | cons here => simp [movedMatch, here.place, here.groups]

/-- The matches in a text that stands elsewhere. -/
theorem map_moved_findFrom (same : before.getD '\n' = before'.getD '\n') (enough : v.length ≤ size) (enough' : v.length ≤ size') :
    pattern.findFrom size' skip before' (place + k) v = (pattern.findFrom size skip before place v).map (movedMatch k) := by
  induction v generalizing skip before before' place with
  | nil => rfl
  | cons c v ih =>
    have further (skip : Nat) : pattern.findFrom size' skip (some c) (place + k + 1) v =
        (pattern.findFrom size skip (some c) (place + 1) v).map (movedMatch k) := by
      rw [Nat.add_right_comm]
      exact ih rfl (Nat.le_of_succ_le enough) (Nat.le_of_succ_le enough')
    cases skip with
    | succ skip => exact further skip
    | zero =>
      have here : pattern.matchAt? size' before' (place + k) (c :: v) = (pattern.matchAt? size before place (c :: v)).map (movedMatch k) := by
        have whole : pattern.matchAt? size' before' (place + k) (c :: v ++ []) =
            (pattern.matchAt? size before place (c :: v ++ [])).map (movedMatch k) :=
          matchAt?_counterpart rfl same (by rwa [List.append_nil]) (by rwa [List.append_nil])
            (fun _ _ => Nat.zero_le _) (fun _ _ => Nat.zero_le _)
        rwa [List.append_nil] at whole
      rw [findFrom, findFrom, here]
      cases pattern.matchAt? size before place (c :: v) with
      | none => exact further 0
      | some m =>
        simp only [Option.map_some, List.map_cons]
        rw [further]
        congr 3
        simp only [movedMatch]
        omega

/-- A match and its groups lie in the text that it was looked for in. -/
theorem onward_of_matchAt? (h : pattern.matchAt? size before place rest = some m) :
    ∃ q ∈ pattern.ways size ⟨before, rest, place, []⟩, m = ⟨place, q.place, q.groups⟩ ∧ Onward ⟨before, rest, place, []⟩ q := by
  obtain ⟨q, hq, rfl⟩ := exists_of_matchAt? h
  exact ⟨q, hq, rfl, onward_of_mem_ways hq⟩

/-- The match lies in a part of a text, between two places. -/
structure LiesIn (opening closing : Nat) (m : Match) : Prop where
  start : opening ≤ m.start
  ordered : m.start ≤ m.stop
  stop : m.stop ≤ closing
  groups : ∀ g ∈ m.groups, opening ≤ g.2.1 ∧ g.2.1 ≤ g.2.2 ∧ g.2.2 ≤ closing

theorem liesIn_of_matchAt? (h : pattern.matchAt? size before place (u ++ v) = some m)
    (stays : ∀ q ∈ pattern.ways size ⟨before, u ++ v, place, []⟩, v.length ≤ q.rest.length) : LiesIn place (place + u.length) m := by
  obtain ⟨q, hq, rfl, ⟨taken, rest, place_eq⟩, groups⟩ := onward_of_matchAt? h
  have stop : q.place ≤ place + u.length := by
    have lengths := congrArg List.length rest
    have := stays q hq
    dsimp only at place_eq
    simp only [List.length_append] at lengths
    omega
  refine ⟨le_rfl, Goes.place_le (p := ⟨before, u ++ v, place, []⟩) ⟨taken, rest, place_eq⟩, stop, fun g hg => ?_⟩
  rcases groups g hg with hg | between
  · cases hg
  · exact ⟨between.1, between.2.1, between.2.2.trans stop⟩

theorem LiesIn.of_le {place' stop stop' : Nat} (lies : LiesIn place stop' m) (le : place' ≤ place) (le' : stop' ≤ stop) :
    LiesIn place' stop m :=
  ⟨le.trans lies.start, lies.ordered, lies.stop.trans le', fun g hg =>
    ⟨le.trans (lies.groups g hg).1, (lies.groups g hg).2.1, (lies.groups g hg).2.2.trans le'⟩⟩

/-- If nothing that begins in a part of a text goes beyond it, then the matches there do not depend on what follows. -/
theorem exists_findFrom_eq (pattern : Pattern) (size size' : Nat) (before : Option Char) (place : Nat)
    {u v w : List Char} (edge : v.head?.any isWord = w.head?.any isWord) (le : skip ≤ u.length)
    (enough : (u ++ v).length ≤ size) (enough' : (u ++ w).length ≤ size')
    (stays : ∀ x c y, u = x ++ c :: y → ∀ q ∈ pattern.ways size ⟨x.getLast?.or before, c :: y ++ v, place + x.length, []⟩,
      v.length ≤ q.rest.length)
    (stays' : ∀ x c y, u = x ++ c :: y → ∀ q ∈ pattern.ways size' ⟨x.getLast?.or before, c :: y ++ w, place + x.length, []⟩,
      w.length ≤ q.rest.length) :
    ∃ ms, (∀ m ∈ ms, LiesIn place (place + u.length) m) ∧
      pattern.findFrom size skip before place (u ++ v) = ms ++ pattern.findFrom size 0 (u.getLast?.or before) (place + u.length) v ∧
      pattern.findFrom size' skip before place (u ++ w) = ms ++ pattern.findFrom size' 0 (u.getLast?.or before) (place + u.length) w := by
  induction u generalizing skip before place with
  | nil =>
    obtain rfl : skip = 0 := Nat.le_zero.1 le
    exact ⟨[], nofun, rfl, rfl⟩
  | cons c u ih =>
    -- What is said of the rest of the part.
    have further (skip : Nat) (le : skip ≤ u.length) : ∃ ms, (∀ m ∈ ms, LiesIn place (place + (c :: u).length) m) ∧
        pattern.findFrom size skip (some c) (place + 1) (u ++ v) =
          ms ++ pattern.findFrom size 0 ((c :: u).getLast?.or before) (place + (c :: u).length) v ∧
        pattern.findFrom size' skip (some c) (place + 1) (u ++ w) =
          ms ++ pattern.findFrom size' 0 ((c :: u).getLast?.or before) (place + (c :: u).length) w := by
      have enough : u.length + v.length + 1 ≤ size := by simpa [Nat.add_right_comm] using enough
      have enough' : u.length + w.length + 1 ≤ size' := by simpa [Nat.add_right_comm] using enough'
      obtain ⟨ms, lie, found, found'⟩ := ih (some c) (place + 1) le (by simp; omega) (by simp; omega)
        (fun x d y cut => by
          have := stays (c :: x) d y (by rw [cut, List.cons_append])
          rwa [getLast?_cons_or, List.length_cons, Nat.add_comm x.length, ← Nat.add_assoc] at this)
        (fun x d y cut => by
          have := stays' (c :: x) d y (by rw [cut, List.cons_append])
          rwa [getLast?_cons_or, List.length_cons, Nat.add_comm x.length, ← Nat.add_assoc] at this)
      have length : place + (c :: u).length = place + 1 + u.length := by rw [List.length_cons]; omega
      rw [getLast?_cons_or, length]
      exact ⟨ms, fun m hm => (lie m hm).of_le (Nat.le_succ place) le_rfl, found, found'⟩
    cases skip with
    | succ skip => exact further skip (Nat.le_of_succ_le_succ le)
    | zero =>
      have here := matchAt?_counterpart (k := 0) edge rfl enough enough' (stays [] c u rfl) (stays' [] c u rfl)
      simp only [List.getLast?_nil, Option.none_or, List.length_nil, Nat.add_zero] at here
      rw [List.cons_append, List.cons_append, findFrom, findFrom]
      cases found : pattern.matchAt? size before place (c :: (u ++ v)) with
      | none =>
        rw [List.cons_append, List.cons_append, found] at here
        rw [here]
        dsimp only [Option.map_none]
        exact further 0 (Nat.zero_le _)
      | some m =>
        rw [List.cons_append, List.cons_append, found] at here
        have same : movedMatch 0 m = m := by simp [movedMatch, shift]
        rw [here, Option.map_some, same]
        dsimp only
        have lies := liesIn_of_matchAt? (u := c :: u) found (stays [] c u rfl)
        have stop := lies.stop
        rw [List.length_cons] at stop
        obtain ⟨ms, lie, rest, rest'⟩ := further (m.stop - place - 1) (by omega)
        exact ⟨m :: ms, List.forall_mem_cons.2 ⟨lies, lie⟩, by rw [rest, List.cons_append], by rw [rest', List.cons_append]⟩

end Pattern

end Codewright.Text
