import Codewright.Proofs.Script.InlineCode
import Codewright.Proofs.Script.MethodShape

/-!
# The methods in the block of a class

A search for methods goes along the members of a class, one behind the other. In a method it finds the name in its head. What it
finds in the body is not directly in the block, and ends in the body.

* `namesFrom` – what a search for methods finds in a block, from a place of it on;
* `Lists u names` – in some members `u`, a search finds `names`, whatever stands before them and behind them;
* `lists_line`, `lists_method` – a line that is no method, and a method.
-/

namespace Codewright.Script

open Text Pattern

variable {size n m k : Nat} {a b u v pre post front rest back head cells : List Cell} {c d : Char} {x y w t indent cs : List Char}
  {ws names names' : List String} {found : Match}

/-! ## Depths -/

/-- The depth behind cells whose braces nest. -/
theorem foldl_braceStep (behind : bracesBehind n cells = some m) (k : Nat) :
    (faces cells).foldl braceStep (n + k) = m + k := by
  induction cells generalizing n with
  | nil => rw [Option.some.inj behind, faces, List.map_nil, List.foldl_nil]
  | cons c cells ih =>
    rw [bracesBehind] at behind
    rw [faces, List.map_cons, List.foldl_cons, braceStep]
    split_ifs at behind ⊢ with opens closes none_open
    · rw [Nat.add_right_comm]
      exact ih behind
    · rw [Nat.sub_add_comm (Nat.pos_of_ne_zero none_open)]
      exact ih behind
    · exact ih behind

theorem bracesBehind_of_plain (plain : ∀ c ∈ faces cells, c ≠ '\x7b' ∧ c ≠ '\x7d') (n : Nat) : bracesBehind n cells = some n := by
  induction cells with
  | nil => rfl
  | cons c cells ih =>
    obtain ⟨here, more⟩ := List.forall_mem_cons.1 plain
    rw [bracesBehind, if_neg here.1, if_neg here.2, ih more]

/-- Brackets that nest close as many braces as they open. -/
theorem bracesBehind_of_balancedFrom {stack : List Char} (balanced : bracketsBalancedFrom stack (faces cells) = true) :
    bracesBehind (stack.count '\x7b') cells = some 0 := by
  induction cells generalizing stack with
  | nil =>
    obtain rfl : stack = [] := by simpa [bracketsBalancedFrom] using balanced
    rfl
  | cons c cells ih =>
    rw [faces, List.map_cons, bracketsBalancedFrom] at balanced
    rw [bracesBehind]
    by_cases opens : isOpener c.face = true
    · rw [if_pos opens] at balanced
      have inside := ih balanced
      have opener : (c.face = '(' ∨ c.face = '[') ∨ c.face = '\x7b' := by simpa [isOpener] using opens
      rcases opener with (round | square) | brace
      · simpa [round] using inside
      · simpa [square] using inside
      · simpa [brace] using inside
    · rw [if_neg opens] at balanced
      have no_brace : c.face ≠ '\x7b' := by
        intro brace
        rw [brace] at opens
        exact opens rfl
      rw [if_neg no_brace]
      cases closes : openerOf? c.face with
      | none =>
        have no_brace' : c.face ≠ '\x7d' := by
          intro brace
          rw [brace] at closes
          cases closes
        rw [if_neg no_brace']
        rw [closes] at balanced
        exact ih balanced
      | some opener =>
        rw [closes] at balanced
        cases stack with
        | nil => cases balanced
        | cons top stack =>
          have both : (top == opener && bracketsBalancedFrom stack (faces cells)) = true := balanced
          obtain ⟨same, inside⟩ := Bool.and_eq_true_iff.1 both
          obtain rfl : top = opener := beq_iff_eq.1 same
          have inside := ih inside
          rcases openerOf?_cases closes with ⟨rfl, closing⟩ | ⟨rfl, closing⟩ | ⟨rfl, closing⟩
          all_goals
            rw [closing]
            simpa using inside

theorem bracesBehind_of_balanced (balanced : bracketsBalanced (brackets cells) = true) : bracesBehind 0 cells = some 0 := by
  rw [← bracketsBalanced_faces] at balanced
  exact bracesBehind_of_balancedFrom balanced

/-- In front of some cells whose braces nest, they nest as well. -/
theorem exists_bracesBehind (nests : bracesBehind n (a ++ b) = some m) : ∃ k, bracesBehind n a = some k := by
  rw [bracesBehind_append] at nests
  obtain ⟨k, here, -⟩ := Option.bind_eq_some_iff.1 nests
  exact ⟨k, here⟩

/-! ## Names -/

/-- The source that some cells are made from, with its mask. -/
def readingOf (cells : List Cell) : Reading := ⟨chars cells, faces cells⟩

/-- The name that a match stands for in the block between `front` and its end, if the match is directly in the block. -/
def nameIn (front rest : List Cell) (found : Match) : Option String :=
  (found.group? 1).bind fun (start, stop) =>
    if braceDepth (faces (front ++ rest)) (front.length + start) = (faces front).foldl braceStep 0 then
      some ((readingOf (front ++ rest)).between (front.length + start, front.length + stop))
    else none

/-- What a search for methods finds behind a part `a` of a block. -/
def namesFrom (size : Nat) (front a b back : List Cell) : List String :=
  (Shape.method.findFrom size 0 (faces a).getLast? a.length (faces b)).filterMap (nameIn front (a ++ (b ++ back)))

theorem braceDepth_append (nests : bracesBehind 0 pre = some k) (front post : List Cell) :
    braceDepth (faces (front ++ (pre ++ post))) (front.length + pre.length) = (faces front).foldl braceStep 0 + k := by
  have place : front.length + pre.length = (faces front ++ faces pre).length := by simp
  rw [braceDepth, faces_append, faces_append, ← List.append_assoc, place, List.take_left' rfl, List.foldl_append,
    Nat.add_comm _ k]
  have := foldl_braceStep nests ((faces front).foldl braceStep 0)
  rwa [Nat.zero_add] at this

/-- What a reading has between two places. -/
theorem Reading.between_of_text {r : Reading} {x y z : List Char} (text : r.text = x ++ (y ++ z)) :
    r.between (x.length, x.length + y.length) = String.ofList y := by
  rw [Reading.between, text, slice_append]

/-- A match with its name directly in the block. -/
theorem nameIn_eq_some {name : List Char} (nests : bracesBehind 0 pre = some 0)
    (group : found.group? 1 = some (pre.length, pre.length + name.length)) (front post : List Cell) :
    nameIn front (pre ++ (name.map code ++ post)) found = some (String.ofList name) := by
  have whole : (readingOf (front ++ (pre ++ (name.map code ++ post)))).text = chars (front ++ pre) ++ (name ++ chars post) := by
    simp [readingOf, Function.comp_def]
  have place : front.length + pre.length = (chars (front ++ pre)).length := by simp
  rw [nameIn, group, Option.bind_some]
  dsimp only
  rw [if_pos (by rw [braceDepth_append nests, Nat.add_zero]), ← Nat.add_assoc, place, Reading.between_of_text whole]

/-- A match with its name deeper in the block. -/
theorem nameIn_eq_none {stop : Nat} (nests : bracesBehind 0 pre = some (k + 1)) (group : found.group? 1 = some (pre.length, stop))
    (front post : List Cell) : nameIn front (pre ++ post) found = none := by
  have deeper := braceDepth_append nests front post
  rw [nameIn, group, Option.bind_some]
  exact if_neg (by omega)

/-! ## Members -/

/-- Every `>` of the text comes behind a round bracket. -/
def IsCalm (text : List Char) : Prop := ∀ x w, text = x ++ '>' :: w → '(' ∈ x

theorem isCalm_nil : IsCalm [] := by simp [IsCalm]

theorem IsCalm.append_left (calm : IsCalm t) (none : '>' ∉ w) : IsCalm (w ++ t) := by
  intro x z same
  obtain ⟨x, rfl, rest⟩ := exists_of_append_cons none same
  exact List.mem_append_right _ (calm x z rest)

theorem isCalm_paren (none : '>' ∉ w) (t : List Char) : IsCalm (w ++ '(' :: t) := by
  intro x z same
  obtain ⟨x, rfl, rest⟩ := exists_of_append_cons none same
  cases x with
  | nil => cases rest
  | cons c x =>
    obtain ⟨rfl, -⟩ := List.cons.inj rest
    simp

/-- The cells end where a line ends. -/
def EndsLine (cells : List Cell) : Prop := ∀ c ∈ (faces cells).getLast?, c = '\n'

/-- In some members of a class, a search for methods finds some names, whatever comes before them and behind them. -/
structure Lists (u : List Cell) (names : List String) : Prop where
  nests : bracesBehind 0 u = some 0
  ends : EndsLine u
  calm : ∀ t, IsCalm t → IsCalm (faces u ++ t)
  found : ∀ {size : Nat} {front a b back : List Cell}, u.length ≤ size → bracesBehind 0 a = some 0 → EndsLine a → IsCalm (faces b) →
    namesFrom size front a (u ++ b) back = names ++ namesFrom size front (a ++ u) b back

theorem EndsLine.append (ha : EndsLine a) (hb : EndsLine b) : EndsLine (a ++ b) := by
  intro c hc
  rw [faces_append, List.getLast?_append, Option.mem_def, Option.or_eq_some_iff] at hc
  exact hc.elim (hb c) fun h => ha c h.2

theorem nests_append (ha : bracesBehind n a = some m) (hb : bracesBehind m b = some k) : bracesBehind n (a ++ b) = some k := by
  rw [bracesBehind_append, ha, Option.bind_some, hb]

theorem Lists.nil : Lists [] [] := by
  refine ⟨rfl, by simp [EndsLine], fun t calm => calm, fun _ _ _ _ => ?_⟩
  rw [List.nil_append, List.nil_append, List.append_nil]

theorem Lists.append (hu : Lists u names) (hv : Lists v names') : Lists (u ++ v) (names ++ names') := by
  refine ⟨nests_append hu.nests hv.nests, hu.ends.append hv.ends, fun t calm => ?_,
    fun {size front a b back} enough nests ends calm => ?_⟩
  · rw [faces_append, List.append_assoc]
    exact hu.calm _ (hv.calm t calm)
  · rw [List.length_append] at enough
    have calm' : IsCalm (faces (v ++ b)) := by
      rw [faces_append]
      exact hv.calm _ calm
    rw [List.append_assoc, hu.found (by omega) nests ends calm',
      hv.found (by omega) (nests_append nests hu.nests) (ends.append hu.ends) calm, List.append_assoc, List.append_assoc]

/-- A search behind some members. -/
theorem namesFrom_behind (size : Nat) (front a u b back : List Cell) : namesFrom size front (a ++ u) b back =
    (Shape.method.findFrom size 0 ((faces u).getLast?.or (faces a).getLast?) (a.length + u.length) (faces b)).filterMap
      (nameIn front (a ++ (u ++ b ++ back))) := by
  rw [namesFrom, faces_append, List.getLast?_append, List.length_append, List.append_assoc, List.append_assoc u]

/-- The rest of some members adds no name, if what is found there is not directly in the block and ends there. -/
theorem filterMap_findFrom_quiet {skip : Nat} {before : Option Char} (le : skip ≤ u.length)
    (quiet : ∀ x c y m, faces u = x ++ c :: y →
      Shape.method.matchAt? size (x.getLast?.or before) (n + x.length) (c :: y ++ faces b) = some m →
      nameIn front rest m = none ∧ m.stop ≤ n + u.length) :
    (Shape.method.findFrom size skip before n (faces (u ++ b))).filterMap (nameIn front rest) =
      (Shape.method.findFrom size 0 ((faces u).getLast?.or before) (n + u.length) (faces b)).filterMap (nameIn front rest) := by
  have length : (faces u).length = u.length := List.length_map _
  rw [← length] at le quiet
  rw [faces_append, ← length]
  exact filterMap_findFrom le quiet

/-- A line on which the pattern of methods has no match adds no name. -/
theorem lists_line {line : List Cell} (one : '\n' ∉ faces line) (no_angle : '>' ∉ faces line) (nests : bracesBehind 0 line = some 0)
    (unnamed : ∀ size before place t, Shape.method.matchAt? size before place (faces line ++ '\n' :: t) = none) :
    Lists (line ++ [code '\n']) [] := by
  have faces_eq : faces (line ++ [code '\n']) = faces line ++ ['\n'] := by simp [Cell.face]
  refine ⟨nests_append nests rfl, ?_, fun t calm => ?_, fun {size front a b back} _ _ ends _ => ?_⟩
  · intro c hc
    rw [faces_eq] at hc
    simpa using hc.symm
  · rw [faces_eq]
    exact calm.append_left (by simpa using no_angle)
  · rw [namesFrom_behind, List.nil_append]
    refine filterMap_findFrom_quiet (Nat.zero_le _) fun x c y m cut hit => ?_
    -- A match would be at the start of the line.
    have front_eq : faces line = x ++ (c :: y).dropLast := by
      rw [← List.dropLast_append_of_ne_nil (List.cons_ne_nil c y), ← cut, faces_eq, List.dropLast_concat]
    have one' : '\n' ∉ x := fun feed => one (front_eq ▸ List.mem_append_left _ feed)
    obtain rfl : x = [] := by
      rcases List.eq_nil_or_concat x with rfl | ⟨x, e, rfl⟩
      · rfl
      · rcases starts_of_matchAt? hit with none | some
        · simp at none
        · simp at some
          simp [some] at one'
    rw [List.nil_append] at cut
    rw [← cut, faces_eq, List.append_assoc, List.singleton_append, unnamed] at hit
    cases hit

/-- Where a character comes that belongs to no head, there is no name of a method before it. -/
theorem matchAt?_method_eq_none (plain : ∀ c ∈ w, (isHeadChar c || isSpace c) = true) (other : (isHeadChar d || isSpace d) = false)
    (no_tail : d ∉ ['?', '<', '(']) (size : Nat) (before : Option Char) (place : Nat) (t : List Char) :
    Shape.method.matchAt? size before place (w ++ d :: t) = none := by
  by_contra some_match
  obtain ⟨found, hit⟩ := Option.ne_none_iff_exists'.1 some_match
  obtain ⟨lead, name, tail, behind, whole, heads, -, is_tail, -⟩ := exists_of_method hit
  obtain ⟨s, e, z, rfl, blank, tail_char⟩ := is_tail.first
  -- Both texts are cut at the first character that is neither in a head nor white space.
  have plain' : ∀ c ∈ lead ++ name ++ s, (isHeadChar c || isSpace c) = true := by
    refine List.forall_mem_append.2 ⟨fun c hc => ?_, fun c hc => ?_⟩
    · rw [heads c hc, Bool.true_or]
    · rw [blank c hc, Bool.or_true]
  have other' : (isHeadChar e || isSpace e) = false := by
    have tails : (['?', '<', '('].any fun e => isHeadChar e || isSpace e) = false := rfl
    exact Bool.eq_false_of_not_eq_true (List.any_eq_false.1 tails e tail_char)
  have whole' : w ++ d :: t = (lead ++ name ++ s) ++ e :: (z ++ behind) := by simpa using whole
  have cut := congrArg (List.dropWhile fun c => isHeadChar c || isSpace c) whole'
  rw [List.dropWhile_append_of_pos plain, List.dropWhile_append_of_pos plain', List.dropWhile_cons_of_neg (by simp [other]),
    List.dropWhile_cons_of_neg (by simp [other'])] at cut
  rw [(List.cons.inj cut).1] at no_tail
  exact no_tail tail_char

/-- No method begins on an empty line. -/
theorem lists_feed : Lists [code '\n'] [] := by
  have one : '\n' ∉ faces [] := List.not_mem_nil
  have no_angle : '>' ∉ faces [] := List.not_mem_nil
  refine lists_line one no_angle rfl fun size before place t => ?_
  by_contra some_match
  obtain ⟨found, hit⟩ := Option.ne_none_iff_exists'.1 some_match
  obtain ⟨lead, name, tail, behind, whole, heads, some_name, -⟩ := exists_of_method hit
  obtain ⟨c, more, name_eq⟩ := List.exists_cons_of_ne_nil (List.append_ne_nil_of_right_ne_nil lead some_name)
  rw [← List.append_assoc, name_eq] at whole
  obtain ⟨rfl, -⟩ := List.cons.inj whole
  have head := heads '\n' (name_eq ▸ List.mem_cons_self)
  cases head

/-! ## Methods -/

/-- The cells of a head with a block behind it. -/
def blockCells (h block : List Cell) : List Cell := h ++ code '\x7b' :: (block ++ [code '\x7d', code '\n'])

theorem ReadsAsCode.blockCells {h block : List Cell} (head : ReadsAsCode h) (inside : ReadsAsCode (code '\x7b' :: block)) :
    ReadsAsCode (blockCells h block) := by
  have closing : ReadsAsCode ([code '\x7d', code '\n']) := readsAsCode_code (w := ['\x7d', '\n']) (List.all_eq_true.1 rfl)
  exact head.append (inside.append closing)

theorem balanced_blockCells {h block : List Cell} (head : bracketsBalanced (brackets h) = true)
    (inside : bracketsBalanced (brackets block) = true) : bracketsBalanced (brackets (blockCells h block)) = true := by
  have braces : openerOf? '\x7d' = some '\x7b' := rfl
  have enclosed := balanced_enclosed braces inside
  have whole := balanced_append head (balanced_append enclosed (b := [code '\n']) rfl)
  simpa [Script.blockCells] using whole

/-- Where a line begins behind a head of one line, it begins in the block. -/
theorem cases_blockCells {h block : List Cell} (one : '\n' ∉ faces h) (ends : (faces a).getLast? = some '\n') (more : b ≠ [])
    (cut : blockCells h block = a ++ b) : ∃ x y, block = x ++ y ∧ a = h ++ code '\x7b' :: x ∧ b = y ++ [code '\x7d', code '\n'] := by
  have not_head {z : List Cell} (head : h = a ++ z) : False := by
    refine one ?_
    rw [head, faces_append]
    exact List.mem_append_left _ (List.mem_of_getLast? ends)
  rcases List.append_eq_append_iff.1 cut with ⟨z, rfl, rest⟩ | ⟨z, head, -⟩
  · cases z with
    | nil => exact (not_head (z := []) (by simp)).elim
    | cons c z =>
      obtain ⟨rfl, inside⟩ := List.cons.inj rest
      rcases List.append_eq_append_iff.1 inside with ⟨z, rfl, last⟩ | ⟨z, rfl, last⟩
      · match z, last with
        | [], last => exact ⟨block, [], by simp, by simp, last.symm⟩
        | [_], last =>
          obtain ⟨rfl, -⟩ := List.cons.inj last
          simp [Cell.face, List.getLast?_cons] at ends
        | _ :: _ :: z, last =>
          have none : [] = z ++ b := (List.cons.inj (List.cons.inj last).2).2
          exact absurd (List.append_eq_nil_iff.1 none.symm).2 more
      · exact ⟨_, z, rfl, rfl, last⟩
  · exact (not_head head).elim

/-- What is found in the block of a method is no method of the class, and ends in the block. -/
theorem quiet_block {h block : List Cell} {before : Option Char} (nests : bracesBehind 0 h = some 0)
    (balanced : bracesBehind 0 block = some 0)
    (one : '\n' ∉ faces h) (some_char : x ≠ []) (cut : faces (blockCells h block) = x ++ c :: y) (calm : IsCalm (faces b))
    (nests_a : bracesBehind 0 a = some 0)
    (hit : Shape.method.matchAt? size (x.getLast?.or before) (a.length + x.length) (c :: y ++ faces b) = some found) :
    nameIn front (a ++ (blockCells h block ++ b ++ back)) found = none ∧ found.stop ≤ a.length + (blockCells h block).length := by
  -- The match begins in the block.
  have starts : x.getLast? = some '\n' := by
    obtain ⟨x, e, rfl⟩ := (List.eq_nil_or_concat x).resolve_left some_char
    simpa using starts_of_matchAt? hit
  obtain ⟨ux, uy, whole, rfl, uy_faces⟩ := List.map_eq_append_iff.1 cut
  have more : uy ≠ [] := by
    rintro rfl
    cases uy_faces
  obtain ⟨bx, by_, rfl, rfl, rfl⟩ := cases_blockCells one starts more whole
  obtain ⟨k, behind⟩ := exists_bracesBehind balanced
  have deeper : bracesBehind 0 (a ++ (h ++ code '\x7b' :: bx)) = some (k + 1) := by
    refine nests_append nests_a (nests_append nests ?_)
    exact bracesBehind_add behind 1
  rw [← uy_faces] at hit
  obtain ⟨lead, name, tail, last, rest_eq, heads, -, is_tail, group, stop⟩ := exists_of_method hit
  constructor
  · -- The head of the match has no braces.
    rw [← List.map_append] at rest_eq
    obtain ⟨cl, cr, rest_cells, rfl, -⟩ := List.map_eq_append_iff.1 rest_eq
    have plain : ∀ c ∈ faces cl, c ≠ '\x7b' ∧ c ≠ '\x7d' := by
      intro c hc
      have head := heads c (List.mem_append_left _ hc)
      constructor
      all_goals
        rintro rfl
        cases head
    have all : a ++ (blockCells h (bx ++ by_) ++ b ++ back) = (a ++ (h ++ code '\x7b' :: bx) ++ cl) ++ (cr ++ back) := by
      rw [whole, List.append_assoc (h ++ _), rest_cells]
      simp
    have place : (a ++ (h ++ code '\x7b' :: bx) ++ cl).length =
        a.length + (faces (h ++ code '\x7b' :: bx)).length + (faces cl).length := by
      simp only [List.length_append, List.length_map]
    rw [← place] at group
    rw [all]
    exact nameIn_eq_none (nests_append deeper (bracesBehind_of_plain plain _)) group front _
  · have no_brace : '\x7d' ∉ lead ++ name := fun brace => absurd (heads _ brace) (by decide)
    have rest_eq' : (lead ++ name) ++ (tail ++ last) = faces by_ ++ '\x7d' :: '\n' :: faces b := by
      simpa [Cell.face] using rest_eq.symm
    obtain ⟨y', by_eq, tail_eq⟩ := exists_of_append_cons no_brace rest_eq'
    -- If the tail of the match went past the block, a `>` would come behind it without a round bracket in between.
    have within : tail.length ≤ y'.length := by
      rcases List.append_eq_append_iff.1 tail_eq with ⟨z, rfl, -⟩ | ⟨z, rfl, past⟩
      · simp
      · cases z with
        | nil => simp
        | cons e z =>
          obtain ⟨rfl, past⟩ := List.cons.inj past
          obtain ⟨x, w, rfl, no_paren⟩ := is_tail.angle y' z rfl
          have calm' : IsCalm (['\n'] ++ faces b) := calm.append_left (by simp)
          exact absurd (calm' x (w ++ last) (by simpa using past)) no_paren
    have lengths := congrArg List.length by_eq
    simp only [List.length_append, List.length_map] at lengths
    rw [stop]
    simp [blockCells]
    omega

/-- A match at the start of some members, behind which nothing is found that counts. -/
theorem namesFrom_of_hit {name : String} (hit : Shape.method.matchAt? size (faces a).getLast? a.length (faces (u ++ b)) = some found)
    (some_char : u ≠ []) (named : nameIn front (a ++ (u ++ b ++ back)) found = some name) (stops : found.stop ≤ a.length + u.length)
    (quiet : ∀ x c y m, x ≠ [] → faces u = x ++ c :: y →
      Shape.method.matchAt? size (x.getLast?.or (faces a).getLast?) (a.length + x.length) (c :: y ++ faces b) = some m →
      nameIn front (a ++ (u ++ b ++ back)) m = none ∧ m.stop ≤ a.length + u.length) :
    namesFrom size front a (u ++ b) back = name :: namesFrom size front (a ++ u) b back := by
  obtain ⟨e, u, rfl⟩ := List.exists_cons_of_ne_nil some_char
  rw [List.cons_append] at hit named
  rw [faces_cons] at hit
  rw [List.length_cons] at stops
  rw [namesFrom_behind, namesFrom, List.cons_append, faces_cons, findFrom, hit]
  dsimp only
  rw [List.filterMap_cons_some named, filterMap_findFrom_quiet (by omega) fun x c y m cut found' => ?_]
  · rw [faces_cons, getLast?_cons_or, List.length_cons, Nat.add_comm u.length, Nat.add_assoc]
  · have cut' : faces (e :: u) = (e.face :: x) ++ c :: y := congrArg (e.face :: ·) cut
    have told := quiet (e.face :: x) c y m (by simp) cut'
    rw [getLast?_cons_or, List.length_cons, Nat.add_comm x.length, ← Nat.add_assoc, List.length_cons, Nat.add_comm u.length,
      ← Nat.add_assoc] at told
    exact told found'

/-- The cells of the head of a method: an indentation, words, the name, and parameters that begin with a bracket. -/
def methodHead (indent : List Char) (ws : List String) (name : List Char) (ps : List Cell) : List Cell :=
  (indent ++ (spaced ws ++ name)).map code ++ code '(' :: ps

section Head

variable {ps block : List Cell} (is_indent : IsIndent indent) (are_words : ∀ s ∈ ws, s = "static" ∨ s = "async")
  (starts : Shape.isNameStart c = true) (more : ∀ d ∈ cs, isPlainWord d = true)

include is_indent are_words starts more

theorem isHeadChar_front : ∀ d ∈ indent ++ (spaced ws ++ c :: cs), isHeadChar d = true := by
  have word {d : Char} (h : isPlainWord d = true) : isHeadChar d = true := by simp [isHeadChar, isNameRest_of_isPlainWord h]
  refine List.forall_mem_append.2 ⟨fun d hd => ?_, List.forall_mem_append.2 ⟨fun d hd => ?_, ?_⟩⟩
  · rcases is_indent d hd with rfl | rfl <;> rfl
  · obtain ⟨s, hs, hd⟩ := List.mem_flatMap.1 hd
    have letters : ∀ s ∈ ["static", "async"], (s.toList ++ [' ']).all isHeadChar = true := by decide
    exact List.all_eq_true.1 (letters s (by simpa using are_words s hs)) d hd
  · exact List.forall_mem_cons.2 ⟨word (isPlainWord_of_isNameStart starts), fun d hd => word (more d hd)⟩

theorem not_mem_front (other : isHeadChar d = false) : d ∉ indent ++ (spaced ws ++ c :: cs) := by
  intro hd
  rw [isHeadChar_front is_indent are_words starts more d hd] at other
  cases other

theorem nests_methodHead (params : IsInline (code '(' :: ps)) : bracesBehind 0 (methodHead indent ws (c :: cs) ps) = some 0 := by
  refine nests_append (bracesBehind_of_plain ?_ 0) (bracesBehind_of_balanced params.balanced)
  rw [faces_code]
  intro d hd
  constructor
  all_goals
    rintro rfl
    exact not_mem_front is_indent are_words starts more rfl hd

theorem oneLine_methodHead (params : IsInline (code '(' :: ps)) : '\n' ∉ faces (methodHead indent ws (c :: cs) ps) := by
  rw [methodHead, faces_append, faces_code, List.mem_append]
  exact fun feed => feed.elim (not_mem_front is_indent are_words starts more rfl) params.oneLine

end Head

theorem length_le_spaced (ws : List String) : ws.length ≤ (spaced ws).length := by
  induction ws with
  | nil => exact Nat.le_refl 0
  | cons s ws ih =>
    rw [spaced, List.flatMap_cons, ← spaced, List.length_cons, List.length_append, List.length_append, List.length_singleton]
    omega

/-- What is seen of a method. -/
theorem faces_method (indent : List Char) (ws : List String) (name : List Char) (ps block : List Cell) :
    faces (blockCells (methodHead indent ws name ps) block) =
      indent ++ (spaced ws ++ (name ++ '(' :: (faces ps ++ '\x7b' :: (faces block ++ ['\x7d', '\n'])))) := by
  rw [blockCells, methodHead, faces_append, faces_append, faces_code]
  simp [Cell.face]

/-- In a method, a search for methods finds its name. -/
theorem lists_method {ps block : List Cell} (is_indent : IsIndent indent) (are_words : ∀ s ∈ ws, s = "static" ∨ s = "async")
    (starts : Shape.isNameStart c = true) (more : ∀ d ∈ cs, isPlainWord d = true) (params : IsInline (code '(' :: ps))
    (balanced : bracesBehind 0 block = some 0) :
    Lists (blockCells (methodHead indent ws (c :: cs) ps) block) [String.ofList (c :: cs)] := by
  have one := oneLine_methodHead is_indent are_words starts more params
  have nests := nests_methodHead is_indent are_words starts more params
  have seen := faces_method indent ws (c :: cs) ps block
  refine ⟨nests_append nests ?_, ?_, fun t _ => ?_, fun {size front a b back} enough nests_a ends calm => ?_⟩
  · have inside : bracesBehind 1 (block ++ [code '\x7d', code '\n']) = some 0 := nests_append (bracesBehind_add balanced 1) rfl
    exact inside
  · intro d hd
    rw [seen] at hd
    simpa [List.getLast?_append, List.getLast?_cons] using hd.symm
  · have cut : faces (blockCells (methodHead indent ws (c :: cs) ps) block) ++ t = (indent ++ (spaced ws ++ c :: cs)) ++ '(' ::
        (faces ps ++ '\x7b' :: (faces block ++ ['\x7d', '\n']) ++ t) := by
      rw [seen]
      simp
    rw [cut]
    exact isCalm_paren (not_mem_front is_indent are_words starts more rfl) _
  · have at_line : (faces a).getLast? = none ∨ (faces a).getLast? = some '\n' := by
      cases last : (faces a).getLast? with
      | none => exact .inl rfl
      | some d => exact .inr (by rw [ends d last])
    have lengths := congrArg List.length seen
    simp only [List.length_append, List.length_map, List.length_cons] at lengths
    have words := length_le_spaced ws
    -- The name in the head is found, and nothing behind it.
    have enough' : indent.length + ws.length + cs.length ≤ size := by omega
    have hit := matchAt?_method is_indent are_words starts more enough' at_line a.length
      (faces ps ++ '\x7b' :: (faces block ++ ['\x7d', '\n']) ++ faces b)
    have text : indent ++ (spaced ws ++ (c :: cs ++ '(' :: (faces ps ++ '\x7b' :: (faces block ++ ['\x7d', '\n']) ++ faces b))) =
        faces (blockCells (methodHead indent ws (c :: cs) ps) block ++ b) := by
      rw [faces_append, seen]
      simp
    rw [text] at hit
    refine namesFrom_of_hit hit (by simp [blockCells]) ?_ (by dsimp only; omega) fun x d y m some_char cut found =>
      quiet_block nests balanced one some_char cut calm nests_a found
    have blank : bracesBehind 0 ((indent ++ spaced ws).map code) = some 0 := by
      refine bracesBehind_of_plain ?_ 0
      rw [faces_code]
      intro d hd
      have head := isHeadChar_front is_indent are_words starts more d (by simpa [or_assoc] using Or.inl (List.mem_append.1 hd))
      constructor
      all_goals
        rintro rfl
        cases head
    have cells : a ++ (blockCells (methodHead indent ws (c :: cs) ps) block ++ b ++ back) =
        (a ++ (indent ++ spaced ws).map code) ++ ((c :: cs).map code ++
          (code '(' :: ps ++ code '\x7b' :: (block ++ [code '\x7d', code '\n']) ++ b ++ back)) := by
      simp [blockCells, methodHead]
    rw [cells]
    refine nameIn_eq_some (nests_append nests_a blank) ?_ front _
    simp [Match.group?]
    omega

/-- The names of the methods in a block are those of its members. -/
theorem Lists.namesInBlock (lists : Lists u names) (front back : List Cell) :
    (readingOf (front ++ code '\x7b' :: (u ++ code '\x7d' :: back))).namesInBlock Shape.method front.length
      (front.length + 1 + u.length) = names := by
  have found : namesFrom u.length (front ++ [code '\x7b']) [] (u ++ []) (code '\x7d' :: back) =
      names ++ namesFrom u.length (front ++ [code '\x7b']) ([] ++ u) [] (code '\x7d' :: back) :=
    lists.found (Nat.le_refl _) rfl (by simp [EndsLine]) isCalm_nil
  have none : namesFrom u.length (front ++ [code '\x7b']) ([] ++ u) [] (code '\x7d' :: back) = [] := by
    simp [namesFrom, findFrom]
  rw [none, List.append_nil, List.append_nil] at found
  -- The depth in the block, and what is seen of it.
  have cells : front ++ code '\x7b' :: (u ++ code '\x7d' :: back) = (front ++ [code '\x7b']) ++ (u ++ code '\x7d' :: back) := by simp
  have opening : (front ++ [code '\x7b']).length = front.length + 1 := by simp
  have depth : braceDepth (faces ((front ++ [code '\x7b']) ++ (u ++ code '\x7d' :: back))) front.length + 1 =
      (faces (front ++ [code '\x7b'])).foldl braceStep 0 := by
    have place : front.length = (faces front).length := (List.length_map _).symm
    rw [braceDepth, List.append_assoc, faces_append, place, List.take_left' rfl, faces_append, List.foldl_append]
    rfl
  have block : slice (faces ((front ++ [code '\x7b']) ++ (u ++ code '\x7d' :: back))) (front.length + 1) (front.length + 1 + u.length) =
      faces u := by
    have place : (faces (front ++ [code '\x7b'])).length = front.length + 1 := by rw [faces, List.length_map, opening]
    rw [slice, Nat.add_sub_cancel_left, faces_append _ (u ++ _), List.drop_left' place, faces_append,
      List.take_left' (List.length_map _)]
  have size : (faces u).length = u.length := List.length_map _
  rw [cells, Reading.namesInBlock, readingOf]
  dsimp only
  rw [depth, block, findAll, size, ← opening]
  exact found

end Codewright.Script
