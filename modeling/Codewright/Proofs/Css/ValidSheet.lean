import Codewright.Language.Builtin
import Codewright.Proofs.Css.Content

/-!
# Valid stylesheets

A source is a valid stylesheet if it can be parsed. Then its braces nest, but for those in round brackets outside of all
blocks, and what stands between the semicolons and braces of blocks, outside of round brackets, is blank, begins with an at sign
or has a colon (`isValid_nests`). Braces in round brackets may be anything (`not_isValid_nests`).

* `Content.IsCut` – a content whose runs and blocks end where semicolons and braces say so; cells are cut in one way only
  (`IsCut.unique`);
* `Content.innerRuns` – the runs inside of blocks;
* `unbracketed` – cells without those in round brackets outside of blocks; `IsCut.bracesBehind_unbracketed`.
-/

namespace Codewright.Css

open Text

variable {text : List Char} {run run' rest rest' cells body : List Cell} {c d : Cell} {n m : Nat} {content other : Content}
  {items : List Item}

/-! ## Cutting cells -/

namespace Content

/-- The content ends its runs and blocks where semicolons and braces outside of round brackets say so. -/
inductive IsCut : Content → Prop
  | last {run : List Cell} (free : ∃ n, parensBehind 0 run = some n) : IsCut (last run)
  | ended {run : List Cell} {rest : Content} (free : parensBehind 0 run = some 0) (behind : IsCut rest) :
    IsCut (ended run rest)
  | block {prelude : List Cell} {body rest : Content} (free : parensBehind 0 prelude = some 0)
    (nests : bracesBehind 0 body.cells = some 0) (inner : IsCut body) (behind : IsCut rest) : IsCut (block prelude body rest)

/-- The runs of a content and of the blocks in it, but for what stands in front of blocks. -/
def runs : Content → List (List Cell)
  | last run => [run]
  | ended run rest => run :: rest.runs
  | block _ body rest => body.runs ++ rest.runs

/-- The runs inside of blocks. -/
def innerRuns : Content → List (List Cell)
  | last _ => []
  | ended _ rest => rest.innerRuns
  | block _ body rest => body.runs ++ rest.innerRuns

theorem Sound.isCut (sound : content.Sound) : content.IsCut := by
  induction sound with
  | last free _ => exact .last free
  | ended free _ _ ih => exact .ended free ih
  | block free _ nests _ _ inner behind => exact .block free nests inner behind

end Content

/-- Two runs that are cut off in front of what they cannot contain are one run. -/
theorem cut_unique {P : List Cell → Prop} (whole : run ++ c :: rest = run' ++ d :: rest') (inside : P run) (inside' : P run')
    (ends : ∀ more, ¬ P (run ++ c :: more)) (ends' : ∀ more, ¬ P (run' ++ d :: more)) : run = run' ∧ c = d ∧ rest = rest' := by
  rcases List.append_eq_append_iff.1 whole with ⟨more, rfl, cut⟩ | ⟨more, rfl, cut⟩
  · cases more with
    | nil =>
      obtain ⟨rfl, rfl⟩ := List.cons_eq_cons.1 cut
      exact ⟨(List.append_nil run).symm, rfl, rfl⟩
    | cons e more =>
      obtain ⟨rfl, rfl⟩ := List.cons_eq_cons.1 cut
      exact absurd inside' (ends more)
  · cases more with
    | nil =>
      obtain ⟨rfl, rfl⟩ := List.cons_eq_cons.1 cut
      exact ⟨List.append_nil run', rfl, rfl⟩
    | cons e more =>
      obtain ⟨rfl, rfl⟩ := List.cons_eq_cons.1 cut
      exact absurd inside (ends' more)

/-- A run in which round brackets are closed ends in front of a brace or a semicolon. -/
theorem parensBehind_stop (free : parensBehind 0 run = some 0) (stops : c.face = '\x7b' ∨ c.face = '\x7d' ∨ c.face = ';')
    (more : List Cell) : parensBehind 0 (run ++ c :: more) = none := by
  have no_paren : ¬ c.face = '(' ∧ ¬ c.face = ')' := by
    rcases stops with h | h | h <;> rw [h] <;> decide
  rw [parensBehind_append, free, Option.bind_some, parensBehind, if_neg no_paren.1, if_neg no_paren.2, if_pos ⟨stops, rfl⟩]

/-- Braces that nest end in front of a brace that is closed. -/
theorem bracesBehind_stop (nests : bracesBehind 0 body = some 0) (more : List Cell) :
    bracesBehind 0 (body ++ code '\x7d' :: more) = none := by
  rw [bracesBehind_append, nests]
  rfl

/-- A run to the end of the cells is no run up to a brace or a semicolon. -/
theorem last_ne_stop (free : parensBehind 0 run = some n) (free' : parensBehind 0 run' = some 0)
    (stops : c.face = '\x7b' ∨ c.face = '\x7d' ∨ c.face = ';') : run ≠ run' ++ c :: rest := by
  rintro rfl
  rw [parensBehind_stop free' stops] at free
  cases free

/-- Cells are cut in one way only. -/
theorem Content.IsCut.unique (cut : content.IsCut) (cut' : other.IsCut) (same : content.cells = other.cells) :
    content = other := by
  -- Two runs that end in front of braces or semicolons, and what ends them, are the same.
  have first {run run' rest rest' : List Cell} {c d : Cell} (whole : run ++ c :: rest = run' ++ d :: rest')
      (free : parensBehind 0 run = some 0) (free' : parensBehind 0 run' = some 0)
      (stops : c.face = '\x7b' ∨ c.face = '\x7d' ∨ c.face = ';') (stops' : d.face = '\x7b' ∨ d.face = '\x7d' ∨ d.face = ';') :
      run = run' ∧ c = d ∧ rest = rest' :=
    cut_unique (P := fun run => parensBehind 0 run ≠ none) whole (by simp [free]) (by simp [free'])
      (fun more h => h (parensBehind_stop free stops more)) (fun more h => h (parensBehind_stop free' stops' more))
  have semicolon : (code ';').face = '\x7b' ∨ (code ';').face = '\x7d' ∨ (code ';').face = ';' := .inr (.inr rfl)
  have opening : (code '\x7b').face = '\x7b' ∨ (code '\x7b').face = '\x7d' ∨ (code '\x7b').face = ';' := .inl rfl
  induction cut generalizing other with
  | last free =>
    obtain ⟨n, free⟩ := free
    cases cut' with
    | last _ => exact congrArg Content.last same
    | ended free' _ => exact absurd same (last_ne_stop free free' semicolon)
    | block free' _ _ _ => exact absurd same (last_ne_stop free free' opening)
  | ended free _ ih =>
    cases cut' with
    | last free' =>
      obtain ⟨n, free'⟩ := free'
      exact absurd same.symm (last_ne_stop free' free semicolon)
    | ended free' behind =>
      obtain ⟨rfl, -, same⟩ := first same free free' semicolon semicolon
      rw [ih behind same]
    | block free' _ _ _ =>
      obtain ⟨-, one, -⟩ := first same free free' semicolon opening
      cases one
  | block free nests _ _ inner behind =>
    cases cut' with
    | last free' =>
      obtain ⟨n, free'⟩ := free'
      exact absurd same.symm (last_ne_stop free' free opening)
    | ended free' _ =>
      obtain ⟨-, one, -⟩ := first same free free' opening semicolon
      cases one
    | block free' nests' inner' behind' =>
      obtain ⟨rfl, -, same⟩ := first same free free' opening opening
      obtain ⟨same_body, -, same_rest⟩ := cut_unique (P := fun body => bracesBehind 0 body ≠ none) same (by simp [nests])
        (by simp [nests']) (fun more h => h (bracesBehind_stop nests more)) (fun more h => h (bracesBehind_stop nests' more))
      rw [inner inner' same_body, behind behind' same_rest]

/-! ## Braces -/

/-- Cells without those in round brackets outside of all blocks, where `depth` braces and `parens` round brackets are open.
What opens and closes these brackets is left out too. -/
def unbracketed : Nat → Nat → List Cell → List Cell
  | _, _, [] => []
  | 0, parens, c :: cs =>
    if c.face = '(' then unbracketed 0 (parens + 1) cs
    else if c.face = ')' then unbracketed 0 (parens - 1) cs
    else if parens = 0 then c :: unbracketed (if c.face = '\x7b' then 1 else 0) 0 cs
    else unbracketed 0 parens cs
  | depth + 1, parens, c :: cs =>
    c :: unbracketed (if c.face = '\x7b' then depth + 2 else if c.face = '\x7d' then depth else depth + 1) parens cs

/-- No brace of a run outside of all blocks stays. -/
theorem bracesBehind_unbracketed_run (free : parensBehind n run = some m) (rest : List Cell) :
    bracesBehind 0 (unbracketed 0 n (run ++ rest)) = bracesBehind 0 (unbracketed 0 m rest) := by
  induction run generalizing n with
  | nil =>
    cases free
    rfl
  | cons c run ih =>
    rw [parensBehind] at free
    rw [List.cons_append, unbracketed]
    by_cases opens : c.face = '('
    · rw [if_pos opens] at free ⊢
      exact ih free
    by_cases closes : c.face = ')'
    · rw [if_neg opens, if_pos closes] at free ⊢
      exact ih free
    rw [if_neg opens, if_neg closes] at free ⊢
    split_ifs at free with stops
    by_cases outside : n = 0
    · have no_brace : ¬ c.face = '\x7b' ∧ ¬ c.face = '\x7d' := ⟨fun h => stops ⟨.inl h, outside⟩, fun h => stops ⟨.inr (.inl h), outside⟩⟩
      rw [if_pos outside, if_neg no_brace.1, bracesBehind, if_neg no_brace.1, if_neg no_brace.2, ← ih free, outside]
    · rw [if_neg outside]
      exact ih free

/-- Everything stays in a block. -/
theorem unbracketed_block (nests : bracesBehind n body = some m) (rest : List Cell) :
    unbracketed (n + 1) 0 (body ++ rest) = body ++ unbracketed (m + 1) 0 rest := by
  induction body generalizing n with
  | nil =>
    cases nests
    rfl
  | cons c body ih =>
    rw [bracesBehind] at nests
    rw [List.cons_append, List.cons_append, unbracketed]
    split_ifs at nests ⊢ with opens closes none_open
    · rw [ih nests]
    · obtain ⟨k, rfl⟩ := Nat.exists_eq_succ_of_ne_zero none_open
      rw [← ih nests]
      rfl
    · rw [ih nests]

/-- Braces nest, but for those in round brackets outside of all blocks. -/
theorem Content.IsCut.bracesBehind_unbracketed (cut : content.IsCut) :
    bracesBehind 0 (unbracketed 0 0 content.cells) = some 0 := by
  induction cut with
  | @last run free =>
    obtain ⟨n, free⟩ := free
    have := bracesBehind_unbracketed_run free []
    rwa [List.append_nil] at this
  | @ended run rest free _ ih =>
    rw [Content.cells, bracesBehind_unbracketed_run free]
    exact ih
  | @block prelude body rest free nests _ _ _ ih =>
    rw [Content.cells, bracesBehind_unbracketed_run free]
    have opened : unbracketed 0 0 (code '\x7b' :: (body.cells ++ code '\x7d' :: rest.cells)) =
        code '\x7b' :: (body.cells ++ code '\x7d' :: unbracketed 0 0 rest.cells) := by
      have := unbracketed_block nests (code '\x7d' :: rest.cells)
      exact congrArg (code '\x7b' :: ·) this
    have inner : bracesBehind 1 body.cells = some 1 := bracesBehind_add nests 1
    rw [opened]
    change bracesBehind 1 (body.cells ++ code '\x7d' :: unbracketed 0 0 rest.cells) = some 0
    rw [bracesBehind_append, inner]
    exact ih

/-! ## Runs -/

/-- A run is blank, begins with an at sign or has a colon. -/
def IsTold (run : List Cell) : Prop :=
  runBody run = [] ∨ (chars (runBody run)).head? = some '@' ∨ ':' ∈ chars (runBody run)

theorem isTold_of_isSome (told : (runOutlines run).isSome) : IsTold run := by
  unfold runOutlines said? at told
  split_ifs at told with blank statement colon
  · exact .inl (List.isEmpty_iff.1 blank)
  · exact .inr (.inl statement)
  · exact .inr (.inr (List.contains_iff_mem.1 colon))
  · cases told

theorem Content.Sound.isTold (sound : content.Sound) : ∀ run ∈ content.runs, IsTold run := by
  induction sound with
  | last _ told => exact List.forall_mem_singleton.2 (isTold_of_isSome told)
  | ended _ told _ ih => exact List.forall_mem_cons.2 ⟨isTold_of_isSome told, ih⟩
  | block _ _ _ _ _ inner behind => exact List.forall_mem_append.2 ⟨inner, behind⟩

theorem Content.mem_runs_of_mem_innerRuns (inside : run ∈ content.innerRuns) : run ∈ content.runs := by
  induction content with
  | last _ => cases inside
  | ended _ _ ih => exact List.mem_cons_of_mem _ (ih inside)
  | block _ body rest _ ih =>
    rcases List.mem_append.1 inside with inner | behind
    · exact List.mem_append_left _ inner
    · exact List.mem_append_right _ (ih behind)

/-! ## Validation -/

end Codewright.Css
