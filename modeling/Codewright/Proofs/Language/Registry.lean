import Mathlib
import Codewright.Language.Builtin
import Codewright.Language.Registry
import Codewright.Proofs.Text.Space

/-!
# What a registry finds

A registry takes the extensions of its languages one after the other, and stops at the first one whose normal form is taken.

* `listed` – the extensions of some languages in normal form, each with its language, in their order;
* `Takes` – what taking some of them leads to; `Takes.bind`: taking some and then others is taking them all;
* `get?_eq_some_iff`, `mem_extensions_iff` – a registry finds what is among its entries, and nothing else;
* `ofList_resolves` – when a registry can be made, what it finds, and what stands in its way;
* `HidesSpace` – white space behind the dots of an extension; `normalExtension_projects_iff`: what is lost by it.
-/

namespace Codewright.Registry

open Text

variable {r r' : Registry} {l : Language} {ls : List Language} {more others : List (String × Language)}
  {result : Except CraftError Registry} {x : String}

/-- The extensions of some languages in normal form, each with its language, in their order. -/
def listed (ls : List Language) : List (String × Language) :=
  ls.flatMap fun l => l.extensions.map fun extension => (normalExtension extension, l)

theorem mem_listed_iff {key : String} :
    (key, l) ∈ listed ls ↔ l ∈ ls ∧ ∃ extension ∈ l.extensions, normalExtension extension = key := by
  simp only [listed, List.mem_flatMap, List.mem_map, Prod.mk.injEq]
  constructor
  · rintro ⟨_, there, extension, claimed, same, rfl⟩
    exact ⟨there, extension, claimed, same⟩
  · rintro ⟨there, extension, claimed, same⟩
    exact ⟨l, there, extension, claimed, same, rfl⟩

/-! ## Taking extensions -/

/-- What comes of a registry that takes some more entries: it has them all, or stops at the first one with a key that
is taken by then. -/
inductive Takes (r : Registry) (more : List (String × Language)) : Except CraftError Registry → Prop
  | all {r' : Registry} (entries : r'.entries = r.entries ++ more) : Takes r more (.ok r')
  | upTo {before after : List (String × Language)} {key : String} {first second : Language}
    (split : more = before ++ (key, second) :: after) (distinct : ((r.entries ++ before).map (·.1)).Nodup)
    (taken : (key, first) ∈ r.entries ++ before) :
    Takes r more (.error (.duplicateExtension key first.name second.name))

theorem Takes.none (r : Registry) : Takes r [] (.ok r) := .all (List.append_nil _).symm

/-- Taking some entries and then others is taking them all. -/
theorem Takes.bind (h : Takes r more result) {next : Registry → Except CraftError Registry}
    (rest : ∀ r', Takes r' others (next r')) : Takes r (more ++ others) (result >>= next) := by
  cases h with
  | @all r' entries =>
    have rest : Takes r' others (next r') := rest r'
    change Takes r (more ++ others) (next r')
    generalize next r' = result at rest
    cases rest with
    | all entries' => exact .all (by rw [entries', entries, List.append_assoc])
    | @upTo before after key first second split distinct taken =>
      rw [entries, List.append_assoc] at distinct taken
      exact .upTo (by rw [split, List.append_assoc]) distinct taken
  | @upTo before after key first second split distinct taken =>
    have further : more ++ others = before ++ (key, second) :: (after ++ others) := by
      rw [split, List.append_assoc, List.cons_append]
    exact .upTo further distinct taken

theorem takes_claim (r : Registry) (l : Language) (extension : String) :
    Takes r [(normalExtension extension, l)] (r.claim l extension) := by
  unfold claim
  dsimp only
  split
  next e found =>
    have key : e.1 = normalExtension extension := by simpa using List.find?_some found
    have there : (normalExtension extension, e.2) ∈ r.entries ++ [] := by
      rw [← key, List.append_nil]
      exact List.mem_of_find?_eq_some found
    have first : [(normalExtension extension, l)] = [] ++ (normalExtension extension, l) :: [] := rfl
    exact .upTo first (by simpa using r.distinct) there
  next => exact .all rfl

/-- Taking a list of items, each of which takes its own entries. -/
theorem takes_foldlM {α : Type} {entriesOf : α → List (String × Language)} {step : Registry → α → Except CraftError Registry}
    (takes : ∀ r a, Takes r (entriesOf a) (step r a)) (as : List α) (r : Registry) :
    Takes r (as.flatMap entriesOf) (as.foldlM step r) := by
  induction as generalizing r with
  | nil => exact .none r
  | cons a as ih =>
    rw [List.flatMap_cons, List.foldlM_cons]
    exact (takes r a).bind fun r' => ih r'

theorem takes_add (r : Registry) (l : Language) :
    Takes r (l.extensions.map fun extension => (normalExtension extension, l)) (r.add l) := by
  have claimed := takes_foldlM (fun r extension => takes_claim r l extension) l.extensions r
  have kept (r' : Registry) : Takes r' [] (.ok { r' with languages := r'.languages ++ [l] }) :=
    .all (List.append_nil _).symm
  have whole := claimed.bind kept
  rw [List.append_nil, ← List.map_eq_flatMap] at whole
  exact whole

theorem takes_ofList (ls : List Language) : Takes empty (listed ls) (ofList ls) := takes_foldlM takes_add ls empty

/-! ## Finding languages -/

theorem get?_eq_some_iff {extension : String} :
    r.get? extension = some l ↔ (normalExtension extension, l) ∈ r.entries := by
  simp only [get?, claim?, Option.map_eq_some_iff]
  constructor
  · rintro ⟨e, found, rfl⟩
    have key : e.1 = normalExtension extension := by simpa using List.find?_some found
    rw [← key]
    exact List.mem_of_find?_eq_some found
  · intro there
    cases found : r.entries.find? fun e => e.1 == normalExtension extension with
    | none => simpa using List.find?_eq_none.1 found _ there
    | some e =>
      have key : e.1 = normalExtension extension := by simpa using List.find?_some found
      have same : e = (normalExtension extension, l) :=
        List.inj_on_of_nodup_map r.distinct (List.mem_of_find?_eq_some found) there key
      exact ⟨e, rfl, by rw [same]⟩

theorem get?_eq_none_iff {extension : String} :
    r.get? extension = none ↔ ∀ l, (normalExtension extension, l) ∉ r.entries := by
  rw [Option.eq_none_iff_forall_ne_some]
  exact forall_congr' fun l => not_congr get?_eq_some_iff

theorem perm_sorted (r : Registry) : r.sorted.Perm r.entries := List.mergeSort_perm _ _

theorem mem_extensions_iff {key : String} : key ∈ r.extensions ↔ ∃ l, (key, l) ∈ r.entries := by
  simp [extensions, r.perm_sorted.mem_iff]

/-- The extensions come in their order, each of them once. -/
theorem pairwise_extensions (r : Registry) : r.extensions.Pairwise (· < ·) := by
  have ordered : r.sorted.Pairwise fun a b => decide (a.1 ≤ b.1) = true := by
    refine List.pairwise_mergeSort ?_ ?_ r.entries
    · intro a b c ab bc
      exact decide_eq_true ((of_decide_eq_true ab).trans (of_decide_eq_true bc))
    · intro a b
      simpa using le_total a.1 b.1
  have distinct : (r.sorted.map (·.1)).Nodup := (r.perm_sorted.map _).nodup_iff.2 r.distinct
  refine List.Pairwise.imp₂ (fun a b le ne => lt_of_le_of_ne le ne) ?_ distinct
  exact List.pairwise_map.2 (ordered.imp fun le => of_decide_eq_true le)

/-! ## Making a registry -/

/-- A registry of some languages can be made if and only if their extensions in normal form are distinct, also those of
one language. It finds the one language that has an extension with the same normal form, and no language if there is
none; and its extensions are those of the languages in normal form. Otherwise the error names the first extension whose
normal form was taken, the language that had taken it, and the one that has it again. -/
theorem ofList_resolves (ls : List Language) :
    ((∃ r, ofList ls = .ok r) ↔ ((listed ls).map (·.1)).Nodup) ∧
    (∀ r, ofList ls = .ok r →
      (∀ x l, r.get? x = some l ↔ l ∈ ls ∧ ∃ extension ∈ l.extensions, normalExtension extension = normalExtension x) ∧
      (∀ x, r.get? x = none ↔ ∀ l ∈ ls, ∀ extension ∈ l.extensions, normalExtension extension ≠ normalExtension x) ∧
      r.extensions.Pairwise (· < ·) ∧
      ∀ key, key ∈ r.extensions ↔ ∃ l ∈ ls, ∃ extension ∈ l.extensions, normalExtension extension = key) ∧
    ∀ e, ofList ls = .error e →
      ∃ before key first second after, listed ls = before ++ (key, second) :: after ∧ (before.map (·.1)).Nodup ∧
        (key, first) ∈ before ∧ e = .duplicateExtension key first.name second.name := by
  have takes := takes_ofList ls
  generalize ofList ls = result at takes
  cases takes with
  | @all r entries =>
    have entries : r.entries = listed ls := entries
    refine ⟨⟨fun _ => entries ▸ r.distinct, fun _ => ⟨r, rfl⟩⟩, ?_, nofun⟩
    rintro _ ⟨⟩
    refine ⟨fun x l => ?_, fun x => ?_, r.pairwise_extensions, fun key => ?_⟩
    · rw [get?_eq_some_iff, entries, mem_listed_iff]
    · simp only [get?_eq_none_iff, entries, mem_listed_iff, not_and, not_exists]
    · simp only [mem_extensions_iff, entries, mem_listed_iff]
  | @upTo before after key first second split distinct taken =>
    have repeated : ¬((listed ls).map (·.1)).Nodup := by
      intro nodup
      rw [split, List.map_append, List.map_cons] at nodup
      have apart := (List.nodup_append.1 nodup).2.2 key (List.mem_map_of_mem taken) key List.mem_cons_self
      exact apart rfl
    refine ⟨⟨nofun, fun nodup => absurd nodup repeated⟩, nofun, ?_⟩
    rintro _ ⟨⟩
    exact ⟨before, key, first, second, after, split, distinct, taken, rfl⟩

/-- Two languages with three extensions, and one that has one of these again. -/
theorem ofList_resolves_repeated :
    let a : Language := { Language.json with name := "a", extensions := ["md", ".MDX"] }
    let b : Language := { Language.json with name := "b", extensions := ["x"] }
    let c : Language := { Language.json with name := "c", extensions := ["y", " .Mdx "] }
    (∃ r, ofList [a, b] = .ok r ∧ r.get? "..mdX" = some a ∧ r.get? "mdy" = none ∧ "mdx" ∈ r.extensions) ∧
      ∃ e, ofList [a, b, c] = .error e ∧ ∃ before key first second after,
        listed [a, b, c] = before ++ (key, second) :: after ∧ (before.map (·.1)).Nodup ∧ (key, first) ∈ before ∧
          e = .duplicateExtension key first.name second.name := by
  intro a b c
  have keys : (listed [a, b]).map (·.1) = ["md", "mdx", "x"] := by cbv
  have distinct : ((listed [a, b]).map (·.1)).Nodup := by
    rw [keys]
    decide
  have repeated : ¬((listed [a, b, c]).map (·.1)).Nodup := by
    have keys : (listed [a, b, c]).map (·.1) = ["md", "mdx", "x", "y", "mdx"] := by cbv
    rw [keys]
    decide
  obtain ⟨made, finds, -⟩ := ofList_resolves [a, b]
  obtain ⟨again, -, stops⟩ := ofList_resolves [a, b, c]
  obtain ⟨r, ok⟩ := made.2 distinct
  obtain ⟨found, absent, -, extensions⟩ := finds r ok
  have mdx : ".MDX" ∈ a.extensions := by simp [a]
  refine ⟨⟨r, ok, (found _ a).2 ⟨by simp, ".MDX", mdx, by cbv⟩, (absent _).2 ?_, ?_⟩, ?_⟩
  · intro l there extension claimed same
    have taken : normalExtension extension ∈ (listed [a, b]).map (·.1) :=
      List.mem_map.2 ⟨_, mem_listed_iff.2 ⟨there, extension, claimed, rfl⟩, rfl⟩
    have mdy : normalExtension "mdy" = "mdy" := by cbv
    rw [keys, same, mdy] at taken
    simp at taken
  · exact (extensions "mdx").2 ⟨a, by simp, ".MDX", mdx, by cbv⟩
  · cases result : ofList [a, b, c] with
    | ok r' => exact absurd (again.1 ⟨r', result⟩) repeated
    | error e => exact ⟨e, rfl, stops e result⟩

/-! ## Normal forms -/

/-- The extension without the white space around it, and then without dots at its start. -/
def bare (extension : String) : List Char := (trim extension.toList).dropWhile (· == '.')

/-- White space stands behind the dots at the start of the extension. -/
def HidesSpace (extension : String) : Prop := ∃ c ∈ (bare extension).head?, isSpace c = true

theorem toList_normalExtension (x : String) : (normalExtension x).toList = (bare x).map Char.toLower := by
  rw [normalExtension, asciiLower, String.toList_ofList, String.toList_ofList, bare]

theorem isSpace_toLower (c : Char) : isSpace c.toLower = isSpace c := by
  by_cases upper : c.isUpper = true
  · have letter : c.isAlpha = true := by rw [Char.isAlpha, upper, Bool.true_or]
    rw [isSpace_of_isAlphanum (by simp [Char.isAlphanum, letter]), isSpace_of_isAlphanum (by simp [Char.isAlphanum, letter])]
  · rw [Char.toLower_eq_of_not_isUpper upper]

theorem toLower_ne_dot {c : Char} (no_dot : c ≠ '.') : c.toLower ≠ '.' := by
  by_cases upper : c.isUpper = true
  · intro same
    have letter : c.toLower.isAlpha = true := by rw [Char.isAlpha_toLower_eq_isAlpha, Char.isAlpha, upper, Bool.true_or]
    rw [same] at letter
    cases letter
  · rwa [Char.toLower_eq_of_not_isUpper upper]

/-- No dot comes first, and no white space last. -/
theorem bare_ends (x : String) :
    (∀ c ∈ (bare x).head?, c ≠ '.') ∧ (bare x ≠ [] → ∃ c ∈ (bare x).getLast?, isSpace c = false) := by
  constructor
  · intro c first
    have := List.head?_dropWhile_not (· == '.') (trim x.toList)
    rw [bare] at first
    rw [first] at this
    simpa using this
  · intro some_char
    rcases exists_trimmed isSpace x.toList with blank | ⟨lead, body, tail, whole, trimmed⟩
    · rw [bare, trim_of_space blank] at some_char
      exact absurd rfl some_char
    · rw [bare, whole, trimmed.trim] at some_char ⊢
      obtain ⟨c, last, letter⟩ := trimmed.last
      refine ⟨c, ?_, letter⟩
      rw [← List.takeWhile_append_dropWhile (p := (· == '.')) (l := body), List.getLast?_append] at last
      rwa [Option.or_of_isSome (by simpa using some_char)] at last

/-- What begins with neither white space nor a dot and does not end with white space is, in lower case, its own normal form. -/
theorem normalExtension_of_trimmed {s : List Char} (trimmed : Trimmed isSpace [] s []) (no_dot : ∀ c ∈ s.head?, c ≠ '.')
    (lower : s.map Char.toLower = s) : normalExtension (String.ofList s) = String.ofList s := by
  have same : trim s = s := by simpa using trimmed.trim
  have stays : s.dropWhile (· == '.') = s := by
    obtain ⟨c, first, -⟩ := trimmed.first
    obtain ⟨rest, rfl⟩ := List.head?_eq_some_iff.1 first
    exact List.dropWhile_cons_of_neg (by simpa using no_dot c rfl)
  rw [normalExtension, asciiLower, String.toList_ofList, String.toList_ofList, same, stays, lower]

theorem length_trim_le (s : List Char) : (trim s).length ≤ s.length := by
  obtain ⟨tail, cut, -⟩ := exists_dropped isSpace (trimStart s)
  have dropped : (trimStart s).length ≤ s.length := (List.dropWhile_suffix _).length_le
  have := congrArg List.length cut
  rw [List.length_append] at this
  rw [trim, trimEnd]
  omega

/-- Hidden white space goes when the normal form is taken again. -/
theorem length_bare_lt (hides : HidesSpace x) : (bare (normalExtension x)).length < (bare x).length := by
  obtain ⟨c, first, blank⟩ := hides
  obtain ⟨rest, cut⟩ := List.head?_eq_some_iff.1 first
  have space : ∀ d ∈ [c.toLower], isSpace d = true := by
    rw [List.forall_mem_singleton, isSpace_toLower]
    exact blank
  have dropped := (List.dropWhile_suffix (p := (· == '.')) (l := trim (rest.map Char.toLower))).length_le
  have trimmed := length_trim_le (rest.map Char.toLower)
  rw [List.length_map] at trimmed
  rw [bare, toList_normalExtension, cut, List.map_cons, ← List.singleton_append, trim_space_append space, List.length_cons]
  omega

/-- The normal form stays as it is when it is taken again, unless white space is hidden behind dots. -/
theorem normalExtension_again_iff (x : String) : normalExtension (normalExtension x) = normalExtension x ↔ ¬HidesSpace x := by
  constructor
  · intro same hides
    have shorter := length_bare_lt hides
    have := congrArg (List.length ∘ String.toList) same
    rw [Function.comp_apply, Function.comp_apply, toList_normalExtension, toList_normalExtension, List.length_map,
      List.length_map] at this
    omega
  · intro plain
    obtain ⟨no_dot, ends⟩ := bare_ends x
    have whole : normalExtension x = String.ofList ((bare x).map Char.toLower) := by
      rw [← toList_normalExtension, String.ofList_toList]
    rw [whole]
    by_cases empty : bare x = []
    · rw [empty]
      rfl
    · obtain ⟨c, rest, cut⟩ := List.exists_cons_of_ne_nil empty
      obtain ⟨d, last, letter⟩ := ends empty
      have first : (bare x).head? = some c := by rw [cut, List.head?_cons]
      have letter' : isSpace c = false := by
        rw [← Bool.not_eq_true]
        exact fun blank => plain ⟨c, first, blank⟩
      have trimmed : Trimmed isSpace [] ((bare x).map Char.toLower) [] := by
        refine ⟨by simp, ⟨c.toLower, ?_, by rw [isSpace_toLower, letter']⟩, ⟨d.toLower, ?_, by rw [isSpace_toLower, letter]⟩,
          by simp⟩
        · rw [List.head?_map, first]
          rfl
        · rw [List.getLast?_map, last]
          rfl
      refine normalExtension_of_trimmed trimmed (fun e he => ?_) ?_
      · rw [List.head?_map, first] at he
        cases he
        exact toLower_ne_dot (no_dot c first)
      · rw [List.map_map]
        exact List.map_congr_left fun e _ => Char.toLower_toLower_eq_toLower e

/-- Languages whose extensions have distinct normal forms make a registry. -/
theorem exists_of_nodup (distinct : ((listed ls).map (·.1)).Nodup) : ∃ r, ofList ls = .ok r ∧ r.entries = listed ls := by
  have takes := takes_ofList ls
  generalize ofList ls = result at takes
  cases takes with
  | @all r entries => exact ⟨r, rfl, entries⟩
  | @upTo before after key first second split _ taken =>
    rw [split, List.map_append, List.map_cons] at distinct
    have apart := (List.nodup_append.1 distinct).2.2 key (List.mem_map_of_mem taken) key List.mem_cons_self
    exact absurd rfl apart

/-- A language that has an extension and no other makes a registry. -/
theorem exists_ofList_single (x : String) : ∃ l r, ofList [l] = .ok r ∧ r.entries = [(normalExtension x, l)] :=
  ⟨{ Language.json with extensions := [x] }, _, rfl, rfl⟩

theorem get?_congr {x y : String} (same : normalExtension x = normalExtension y) (r : Registry) : r.get? x = r.get? y := by
  rw [get?, get?, same]

/-- An extension that a registry lists is found, if its normal form stays as it is. -/
theorem isSome_get?_of_mem (there : x ∈ r.extensions) (same : normalExtension x = x) : (r.get? x).isSome = true := by
  obtain ⟨l, entry⟩ := mem_extensions_iff.1 there
  rw [← same] at entry
  rw [get?_eq_some_iff.2 entry]
  rfl

/-- The normal form of an extension is its own normal form, finds in every registry what the extension finds, and is found wherever
it is listed, if and only if no white space stands behind the dots at the start of the extension. -/
theorem normalExtension_projects_iff (x : String) :
    (normalExtension (normalExtension x) = normalExtension x ↔ ¬HidesSpace x) ∧
    ((∀ ls r, ofList ls = .ok r → r.get? (normalExtension x) = r.get? x) ↔ ¬HidesSpace x) ∧
    ((∀ ls r, ofList ls = .ok r → normalExtension x ∈ r.extensions → (r.get? (normalExtension x)).isSome = true) ↔
      ¬HidesSpace x) := by
  have again := normalExtension_again_iff x
  obtain ⟨l, r, made, entries⟩ := exists_ofList_single x
  refine ⟨again, ⟨fun finds => again.1 ?_, fun plain ls r _ => ?_⟩, ⟨fun finds => again.1 ?_, fun plain ls r _ there => ?_⟩⟩
  · have own : r.get? x = some l := get?_eq_some_iff.2 (by simp [entries])
    have there := get?_eq_some_iff.1 ((finds _ r made).trans own)
    simpa [entries] using there
  · exact get?_congr (again.2 plain) r
  · have listed : normalExtension x ∈ r.extensions := mem_extensions_iff.2 ⟨l, by simp [entries]⟩
    obtain ⟨l', found⟩ := Option.isSome_iff_exists.1 (finds _ r made listed)
    have there := get?_eq_some_iff.1 found
    rw [entries, List.mem_singleton, Prod.mk.injEq] at there
    exact there.1
  · exact isSome_get?_of_mem there (again.2 plain)

/-- The registry of all languages finds `json` behind a space, and not behind a dot and a space; and a language with the extension
`. x` is listed under ` x`, where it is not found. -/
theorem not_normalExtension_projects :
    normalExtension ". .json" = " .json" ∧ normalExtension " .json" = "json" ∧
      (∃ r, ofList (Language.builtin {}) = .ok r ∧ r.get? ". .json" = none ∧ (r.get? " .json").isSome = true) ∧
      ∃ l r, ofList [l] = .ok r ∧ " x" ∈ r.extensions ∧ r.get? " x" = none := by
  have dotted : normalExtension ". .json" = " .json" := by decide +kernel
  have blank : normalExtension " .json" = "json" := by decide +kernel
  refine ⟨dotted, blank, ?_, ?_⟩
  · have keys : (listed (Language.builtin {})).map (·.1) =
        ["php", "js", "mjs", "cjs", "jsx", "ts", "tsx", "mts", "css", "json"] := by decide +kernel
    have distinct : ((listed (Language.builtin {})).map (·.1)).Nodup := by
      rw [keys]
      decide
    obtain ⟨r, made, entries⟩ := exists_of_nodup distinct
    rw [← entries] at keys
    refine ⟨r, made, get?_eq_none_iff.2 fun l there => ?_, ?_⟩
    · have listed := List.mem_map_of_mem (f := (·.1)) there
      rw [keys, dotted] at listed
      simp at listed
    · have listed : "json" ∈ r.entries.map (·.1) := by simp [keys]
      obtain ⟨⟨_, l⟩, there, rfl⟩ := List.mem_map.1 listed
      rw [get?_eq_some_iff.2 (blank ▸ there)]
      rfl
  · obtain ⟨l, r, made, entries⟩ := exists_ofList_single ". x"
    have dotted : normalExtension ". x" = " x" := by decide +kernel
    have blank : normalExtension " x" = "x" := by decide +kernel
    rw [dotted] at entries
    refine ⟨l, r, made, mem_extensions_iff.2 ⟨l, by simp [entries]⟩, get?_eq_none_iff.2 fun l there => ?_⟩
    rw [entries, blank, List.mem_singleton, Prod.mk.injEq] at there
    exact absurd there.1 (by decide)

end Codewright.Registry
