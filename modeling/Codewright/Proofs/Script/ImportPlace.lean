import Codewright.Proofs.Script.AddedText
import Codewright.Proofs.Script.ImportShape
import Codewright.Proofs.Script.MemberSearch

/-!
# Imports that are added

An import that is added stands on a line of its own, and the imports before it and behind it are found as before.

* `Import.IsPlain` – an import with a source that needs no escape, and with plain names;
* `importPlace?` – where an import goes; `HasImportPlace` – nothing is open there, and no slash follows;
* `Import.lineCells` – the mask of an import; `mask_withLine`, `mask_lineFirst` – the mask of a script with such a line;
* `imports_withLine`, `imports_lineFirst` – the imports of a script with such a line;
* `addImport_imports` – an import that is added is listed behind the others.
-/

namespace Codewright.Script

open Text Pattern

variable {size place k n : Nat} {before : Option Char} {text w x y z f b rest : List Char} {c d : Char} {m : Match} {i : Import}
  {ca cb cells : List Cell} {s t u v : MaskState} {follow : Option Char}

/-! ## The mask of an import -/

/-- A source without quotes, backslashes and line feeds, plain names, and no name for the whole module. -/
structure Import.IsPlain (i : Import) : Prop where
  some_char : i.source ≠ ""
  source : ∀ c ∈ i.source.toList, c ≠ '\'' ∧ c ≠ '"' ∧ c ≠ '\\' ∧ c ≠ '\n'
  default : ∀ name ∈ i.default, isIdentifier name = true
  names : ∀ name ∈ i.names, isIdentifier name = true
  space : i.space = none

namespace Import

/-- The cells of an import in front of its semicolon: all but the source is seen. -/
def lineFront (i : Import) : List Cell :=
  ("import ".toList ++ i.defaultText).map code ++ (i.namesText.map code ++ (i.fromText.map code ++
    code '\'' :: (i.source.toList.map unseen ++ [code '\''])))

/-- The cells of an import. -/
def lineCells (i : Import) : List Cell := i.lineFront ++ [code ';']

theorem chars_lineCells (no_space : i.space = none) : chars i.lineCells = i.print.toList := by
  rw [print_eq no_space]
  unfold lineCells lineFront textWith
  simp [Function.comp_def]

/-- What is seen of an import: blanks in the place of its source. -/
def seen (i : Import) : List Char := i.textWith (i.source.toList.map fun _ => ' ')

theorem faces_lineCells (plain : i.IsPlain) : faces i.lineCells = i.seen := by
  have blank : faces (i.source.toList.map unseen) = i.source.toList.map fun _ => ' ' := by
    rw [faces, List.map_map]
    exact List.map_congr_left fun c hc => face_unseen (plain.source c hc).2.2.2
  unfold seen lineCells lineFront textWith
  simp only [faces_append, faces_code, faces_cons, blank]
  simp [Cell.face]

theorem isInlineChar_of_isPlainWord (word : isPlainWord c = true) : isInlineChar c = true := isInlineChar_of isPlainWord rfl word

theorem isInline_names (named : ∀ name ∈ i.names, isIdentifier name = true) : IsInline (i.namesText.map code) := by
  rw [namesText]
  split_ifs
  · exact .nil
  · have inside : IsInline (i.namesList.map code) := by
      refine isInline_code fun c hc => ?_
      by_contra other
      have no_word : isPlainWord c = false := by
        by_contra word
        exact other (isInlineChar_of_isPlainWord (by simpa using word))
      refine not_mem_namesList named no_word ?_ ?_ hc
      all_goals
        rintro rfl
        exact other rfl
    have braces : IsInline (code '\x7b' :: (i.namesList.map code ++ [code '\x7d'])) := inside.enclosed rfl
    have whole := braces.append (isInline_code (w := [' ']) (List.all_eq_true.1 rfl))
    simpa using whole

/-- An import stands by itself on its line. -/
theorem isInline_lineFront (plain : i.IsPlain) : IsInline i.lineFront := by
  have default : ∀ c ∈ "import ".toList ++ i.defaultText, isInlineChar c = true := by
    refine List.forall_mem_append.2 ⟨List.all_eq_true.1 (by decide), fun c hc => ?_⟩
    cases binding : i.default with
    | none => simp [defaultText, binding] at hc
    | some name =>
      rw [defaultText_some binding, List.mem_append] at hc
      rcases hc with hc | hc
      · exact isInlineChar_of_isPlainWord (isPlainWord_of_isIdentifier (plain.default name (by rw [binding]; rfl)) c hc)
      · split_ifs at hc
        · exact List.all_eq_true.1 (show [' '].all isInlineChar = true from rfl) c hc
        · exact List.all_eq_true.1 (show [',', ' '].all isInlineChar = true from rfl) c hc
  have from_ : ∀ c ∈ i.fromText, isInlineChar c = true := by
    rw [fromText]
    split_ifs
    · exact List.forall_mem_nil _
    · exact List.all_eq_true.1 (by decide)
  have source : IsInline (code '\'' :: (i.source.toList.map unseen ++ [code '\''])) := by
    refine isInline_string (.inl rfl) (fun feed => (plain.source _ feed).2.2.2 rfl) fun n s quoted => quoted.scans (fun c hc => ?_) _
    obtain ⟨quote, -, backslash, feed⟩ := plain.source c hc
    simp [isQuotable, quote, backslash, feed]
  exact (isInline_code default).append ((isInline_names plain.names).append ((isInline_code from_).append source))

theorem isInline_lineCells (plain : i.IsPlain) : IsInline i.lineCells :=
  (isInline_lineFront plain).append (isInline_code (w := [';']) (List.all_eq_true.1 rfl))

end Import

/-! ## The mask of a script with a line more -/

/-- Behind different pasts, blanks are read alike. -/
theorem SameMode.scans_blank (same : SameMode s t) (read : Scans .script follow s text cells u)
    (blank : ∀ c ∈ cells, isSpace c.face = true) : ∃ v, Scans .script follow t text cells v ∧ SameMode u v := by
  induction read generalizing t with
  | nil => exact ⟨t, .nil, same⟩
  | @cons s u c cs shown mode es cells step rest ih =>
    obtain ⟨here, more⟩ := List.forall_mem_cons.1 blank
    have face : (Cell.mk c shown).face ≠ '/' := by
      intro slash
      rw [slash] at here
      cases here
    obtain ⟨t', first, same', -⟩ := same.scans_single step face
    obtain ⟨v, behind, same''⟩ := ih same' more
    exact ⟨v, first.append behind, same''⟩

theorem SameMode.unterminated? (same : SameMode s t) (closed : s.unterminated? = none) : t.unterminated? = none := by
  rw [← Option.isNone_iff_eq_none, ← Alike.unterminated?_unplaced] at closed ⊢
  rwa [← same.mode, ← same.enclosures]

/-- What follows a line end is read alike behind different pasts, if no slash comes first. -/
theorem SameMode.scans_no_slash (same : SameMode s t) (bounded : IsBounded s.past) (bounded' : IsBounded t.past)
    (read : Scans .script follow s text cells u) (closed : u.unterminated? = none)
    (no_slash : (faces cells).find? (fun c => !isSpace c) ≠ some '/') :
    ∃ v, Scans .script follow t text cells v ∧ v.unterminated? = none := by
  rw [faces, List.find?_map] at no_slash
  cases first : cells.find? ((fun c => !isSpace c) ∘ Cell.face) with
  | none =>
    obtain ⟨v, read', same'⟩ := same.scans_blank read fun c hc => by simpa using List.find?_eq_none.1 first c hc
    exact ⟨v, read', same'.unterminated? closed⟩
  | some c =>
    rw [first, Option.map_some] at no_slash
    obtain ⟨v, read', alike, -⟩ := same.scans bounded' read ⟨c, first, fun slash => no_slash (congrArg some slash), .inl bounded⟩
    exact ⟨v, read', alike.unterminated? closed⟩

/-- In a script, a line of inline code goes behind a line at whose end nothing is open, if no slash follows. -/
theorem mask_withLine {line : List Cell} (masked : mask .script (f ++ b) = .ok cells) (front : mask .script f = .ok ca)
    (ends : b = [] ∨ b.head? = some '\n') (reads : ReadsAsCode line)
    (no_slash : ((faces cells).drop f.length).find? (fun c => !isSpace c) ≠ some '/') :
    ∃ z back, cells = ca ++ (z.map code ++ back) ∧ z ++ chars back = b ∧ (∀ c ∈ z, c = '\n') ∧ (z ≠ [] ∨ back = []) ∧
      mask .script (f ++ '\n' :: (chars line ++ b)) = .ok (ca ++ code '\n' :: (line ++ (z.map code ++ back))) := by
  obtain ⟨t, read, closed⟩ := maskFrom_eq_ok_iff.1 front
  obtain ⟨u, read', closed'⟩ := maskFrom_eq_ok_iff.1 masked
  obtain ⟨ca', cb, t', rfl, first, behind⟩ := scans_append_iff.1 read'
  have dull : IsDull (b.head?.or none) := by
    rw [Option.or_none]
    rcases ends with rfl | feed
    · exact isDull_none
    · rw [feed]
      exact isDull_of_isSpace rfl
  obtain ⟨rfl, rfl⟩ := (first.dull dull isDull_none).unique read
  have length : f.length = (faces ca').length := by rw [List.length_map, ← List.length_map (f := Cell.char), read.chars]
  rw [faces_append, length, List.drop_left] at no_slash
  have reached := (scans_reached read reached_start nofun).1
  obtain ⟨v, feed, is_code, -⟩ := scans_feed_of_closed reached closed ((chars line ++ b).head?.or none)
  obtain ⟨w, inserted, is_code'⟩ := reads (b.head?.or none) v is_code
  have feed_dull : IsDull (some '\n') := isDull_of_isSpace rfl
  have whole {t : MaskState} (rest : Scans .script none w b cb t) :
      Scans .script none {} (f ++ '\n' :: (chars line ++ b)) (ca' ++ code '\n' :: (line ++ cb)) t :=
    (read.dull isDull_none feed_dull).append (feed.append (inserted.append rest))
  rcases ends with rfl | feed'
  · cases behind
    exact ⟨[], [], by simp, rfl, List.forall_mem_nil _, .inr rfl, maskFrom_eq_ok_iff.2 ⟨w, whole .nil, is_code'.closed⟩⟩
  · -- The rest begins with the end of a line, behind which no word goes on.
    obtain ⟨b, rfl⟩ := List.head?_eq_some_iff.1 feed'
    rw [← List.singleton_append] at behind
    obtain ⟨_, cb', s, rfl, feed₁, rest⟩ := scans_append_iff.1 behind
    obtain ⟨s₁, feed₁', is_code₁, past₁⟩ := scans_feed_of_closed reached closed (b.head?.or none)
    obtain ⟨rfl, rfl⟩ := feed₁.unique feed₁'
    obtain ⟨s₂, feed₂, is_code₂, past₂⟩ := scans_feed_of_closed (reached_of_isCode is_code') is_code'.closed (b.head?.or none)
    have same : SameMode s s₂ := ⟨by rw [is_code₁.mode, is_code₂.mode], by rw [is_code₁.enclosures, is_code₂.enclosures]⟩
    obtain ⟨v', rest', closed''⟩ := same.scans_no_slash (past₁ ▸ isBounded_cons rfl (by decide) _)
      (past₂ ▸ isBounded_cons rfl (by decide) _) rest closed' no_slash
    exact ⟨['\n'], cb', rfl, congrArg ('\n' :: ·) rest.chars, List.forall_mem_singleton.2 rfl, .inl (by simp),
      maskFrom_eq_ok_iff.2 ⟨v', whole (feed₂.append rest'), closed''⟩⟩

/-- Behind a semicolon, a slash opens a pattern. -/
theorem slashOpensRegex_semicolon (p : List Char) : slashOpensRegex (';' :: p) = true := by
  unfold slashOpensRegex
  rw [List.dropWhile_cons_of_neg (by decide)]
  simp [show isPlainWord ';' = false from rfl]

/-- At the start of a script, a line of inline code that ends with a semicolon goes in the place of line feeds. -/
theorem mask_lineFirst {line : List Cell} {feeds feeds' : List Char} (masked : mask .script (feeds ++ b) = .ok cells)
    (are_feeds : ∀ c ∈ feeds, c = '\n') (are_feeds' : ∀ c ∈ feeds', c = '\n') (some_feed : feeds' ≠ [] ∨ b = [])
    (reads : ReadsAsCode line) : ∃ cb, cells = feeds.map code ++ cb ∧ chars cb = b ∧
      mask .script (chars line ++ (';' :: feeds' ++ b)) = .ok (line ++ (code ';' :: feeds'.map code ++ cb)) := by
  obtain ⟨u, read, closed⟩ := maskFrom_eq_ok_iff.1 masked
  obtain ⟨_, cb, s, rfl, first, behind⟩ := scans_append_iff.1 read
  have space {feeds : List Char} (are_feeds : ∀ c ∈ feeds, c = '\n') : ∀ c ∈ feeds, isAsciiSpace c = true := by
    intro c hc
    rw [are_feeds c hc]
    rfl
  have blank {feeds : List Char} (are_feeds : ∀ c ∈ feeds, c = '\n') : IsBlank feeds :=
    fun c hc => isSpace_of_isAsciiSpace (space are_feeds c hc)
  have reversed {feeds : List Char} (are_feeds : ∀ c ∈ feeds, c = '\n') : ∀ c ∈ feeds.reverse, c = '\n' :=
    fun c hc => are_feeds c (List.mem_reverse.1 hc)
  obtain ⟨s₁, first', is_code₁, past₁⟩ := scans_space (b.head?.or none) isCode_start (blank are_feeds)
  obtain ⟨rfl, rfl⟩ := first.unique first'
  refine ⟨cb, rfl, behind.chars, maskFrom_eq_ok_iff.2 ?_⟩
  obtain ⟨t, inserted, is_code⟩ := reads (some ';') {} isCode_start
  have semicolon (follow : Option Char) : Scans .script follow t [';'] [code ';'] (t.after ';' true .plain []) :=
    .cons (by simp [maskStep, is_code.mode, is_code.enclosures, stepCode]) .nil
  obtain ⟨s₂, second, is_code₂, past₂⟩ :=
    scans_space (b.head?.or none) (s := t.after ';' true .plain []) ⟨rfl, rfl⟩ (blank are_feeds')
  have whole {v : MaskState} (rest : Scans .script none s₂ b cb v) :
      Scans .script none {} (chars line ++ (';' :: feeds' ++ b)) (line ++ (code ';' :: feeds'.map code ++ cb)) v := by
    have behind_line : Scans .script none t (';' :: (feeds' ++ b)) (code ';' :: (feeds'.map code ++ cb)) v :=
      (semicolon _).append (second.append rest)
    exact inserted.append behind_line
  rcases some_feed with some_feed | rfl
  · -- A slash opens a pattern behind a semicolon as it does at the start.
    have bounded : IsBounded s.past := by
      rw [past₁]
      cases feeds with
      | nil => exact isBounded_nil
      | cons c feeds => exact isBounded_append (blank (reversed are_feeds)) (by simp) []
    have bounded' : IsBounded s₂.past := by
      rw [past₂]
      exact isBounded_append (blank (reversed are_feeds')) (by simpa using some_feed) _
    have opens : slashOpensRegex s.past = slashOpensRegex s₂.past := by
      rw [past₁, past₂, slashOpensRegex_space_append (space (reversed are_feeds)),
        slashOpensRegex_space_append (space (reversed are_feeds'))]
      exact (slashOpensRegex_semicolon t.past).symm
    have alike : Alike .script s s₂ := ⟨by rw [is_code₁.mode, is_code₂.mode], by rw [is_code₁.enclosures, is_code₂.enclosures],
      fun _ => samePast_of_bounded bounded bounded' opens⟩
    obtain ⟨v, rest, alike'⟩ := alike.scans behind
    exact ⟨v, whole rest, alike'.unterminated? closed⟩
  · cases behind
    exact ⟨s₂, whole .nil, is_code₂.closed⟩

/-! ## The imports of a script with a line more -/

/-- What a match of the pattern of imports says in a reading. -/
def Reading.importOf? (r : Reading) (m : Match) : Option Summary.Import :=
  (r.group? m 4).map fun source => ⟨source, r.group? m 1, r.listOf m 2, r.group? m 3⟩

theorem faces_readingOf (cells : List Cell) : (readingOf cells).faces = faces cells := rfl

theorem text_readingOf (cells : List Cell) : (readingOf cells).text = chars cells := rfl

theorem Reading.imports_eq (r : Reading) : r.imports = (r.topLevel Shape.importing).filterMap r.importOf? := rfl

theorem slice_append_left (le : k ≤ x.length) (j : Nat) (y : List Char) : slice (x ++ y) j k = slice x j k := by
  rw [slice, slice, List.drop_append, List.take_append_of_le_length]
  rw [List.length_drop]
  omega

/-- No import begins with a line feed. -/
theorem matchAt?_importing_feed (size : Nat) (before : Option Char) (place : Nat) (t : List Char) :
    Shape.importing.matchAt? size before place ('\n' :: t) = none := by
  refine matchAt?_of_dead ?_ before place
  have keyword {p : Pattern} : Dead size (.seq (.text "import") p) ('\n' :: t) := .seq (dead_text_append (w := ['\n']) (by decide) t) p
  refine Dead.behind (show Plain (fun _ => false) .lineStart from trivial) fun w rest' whole none => ?_
  obtain rfl : w = [] := List.eq_nil_iff_forall_not_mem.2 fun c hc => by cases none c hc
  obtain rfl : '\n' :: t = rest' := whole
  refine Dead.behind (plain_star fun _ => id) fun w rest' whole blank => ?_
  cases w with
  | nil =>
    obtain rfl : '\n' :: t = rest' := whole
    exact keyword
  | cons c w =>
    obtain ⟨rfl, -⟩ := List.cons.inj whole
    exact absurd (blank '\n' List.mem_cons_self) (by decide)

theorem findFrom_feeds (are_feeds : ∀ c ∈ z, c = '\n') : Shape.importing.findFrom size 0 before place (z ++ rest) =
    Shape.importing.findFrom size 0 (z.getLast?.or before) (place + z.length) rest := by
  induction z generalizing before place with
  | nil => rfl
  | cons c z ih =>
    obtain ⟨rfl, more⟩ := List.forall_mem_cons.1 are_feeds
    rw [List.cons_append, findFrom, matchAt?_importing_feed]
    dsimp only
    rw [ih more, getLast?_cons_or, List.length_cons, Nat.add_assoc, Nat.add_comm 1]

theorem findFrom_skip {pattern : Pattern} (u v : List Char) : pattern.findFrom size u.length before place (u ++ v) =
    pattern.findFrom size 0 (u.getLast?.or before) (place + u.length) v := by
  induction u generalizing before place with
  | nil => rfl
  | cons c u ih =>
    rw [List.cons_append, List.length_cons, findFrom, ih, getLast?_cons_or, Nat.add_assoc, Nat.add_comm 1]

/-- A text in front in which braces nest changes nothing but places. -/
theorem filter_findFrom_behind {pattern : Pattern} (line : before.getD '\n' = '\n') (depth : x.foldl braceStep 0 = 0)
    (enough : y.length ≤ size) : (pattern.findFrom size 0 before x.length y).filter (fun m => braceDepth (x ++ y) m.start = 0) =
      ((pattern.findAll y).filter fun m => braceDepth y m.start = 0).map (movedMatch x.length) := by
  have moved : pattern.findFrom size 0 before (0 + x.length) y = (pattern.findFrom y.length 0 none 0 y).map (movedMatch x.length) :=
    map_moved_findFrom line.symm le_rfl enough
  rw [Nat.zero_add] at moved
  rw [moved, List.filter_map, findAll]
  congr 2
  funext m
  have same : braceDepth (x ++ y) (m.start + x.length) = braceDepth y m.start := by
    rw [braceDepth, Nat.add_comm, List.take_length_add_append, List.foldl_append, depth, braceDepth]
  simp [movedMatch, same]

/-- What stands in front of a text behind some line feeds is one. -/
theorem getD_getLast?_feeds (are_feeds : ∀ c ∈ z, c = '\n') (some_feed : z ≠ [] ∨ y = []) (before : Option Char) :
    (z.getLast?.or before).getD '\n' = '\n' ∨ y = [] := by
  rcases some_feed with some_feed | rfl
  · rw [List.getLast?_eq_some_getLast some_feed, Option.some_or, Option.getD_some]
    exact .inl (are_feeds _ (List.getLast_mem some_feed))
  · exact .inr rfl

theorem foldl_braceStep_feeds (are_feeds : ∀ c ∈ z, c = '\n') (k : Nat) : z.foldl braceStep k = k := by
  induction z with
  | nil => rfl
  | cons c z ih =>
    obtain ⟨rfl, more⟩ := List.forall_mem_cons.1 are_feeds
    exact ih more

/-- The imports outside of braces that come behind line feeds are those of the text there. -/
theorem filter_findFrom_feeds (size : Nat) (are_feeds : ∀ c ∈ z, c = '\n') (line : (z.getLast?.or before).getD '\n' = '\n' ∨ y = [])
    (depth : x.foldl braceStep 0 = 0) (enough : y.length ≤ size) :
    (Shape.importing.findFrom size 0 before x.length (z ++ y)).filter (fun m => braceDepth (x ++ (z ++ y)) m.start = 0) =
      ((Shape.importing.findAll y).filter fun m => braceDepth y m.start = 0).map (movedMatch (x ++ z).length) := by
  rw [findFrom_feeds are_feeds]
  rcases line with line | rfl
  · have braces : (x ++ z).foldl braceStep 0 = 0 := by rw [List.foldl_append, depth, foldl_braceStep_feeds are_feeds]
    rw [← List.append_assoc, ← List.length_append]
    exact filter_findFrom_behind line braces enough
  · rfl

/-! ### Lists of names -/

theorem collapseSpace_name {name : String} {w v : List Char} (named : isIdentifier name = true) (blank : IsBlank w) (blank' : IsBlank v) :
    collapseSpace (String.ofList (w ++ (name.toList ++ v))) = name := by
  obtain ⟨c, cs, same, -, -⟩ := exists_of_isIdentifier named
  have letters : ∀ c ∈ name.toList, isSpace c = false := fun c hc => isSpace_of_isPlainWord (isPlainWord_of_isIdentifier named c hc)
  rw [← String.toList_inj, toList_collapseSpace, String.toList_ofList, words_space_append blank, words_append_space blank',
    words_of_no_space (by simp [same]) letters, List.intercalate_singleton]

/-- The entries of a list of names are the names. -/
theorem map_collapseSpace_names (name : String) (names : List String) (named : ∀ n ∈ name :: names, isIdentifier n = true)
    (blank : IsBlank w) : (splitOn ',' (w ++ ((String.intercalate ", " (name :: names)).toList ++ [' ']))).map
      (fun p => collapseSpace (String.ofList p)) = name :: names := by
  have absent {w : List Char} {n : String} (blank : IsBlank w) (named : isIdentifier n = true) : ',' ∉ w ++ n.toList := by
    refine fun comma => (List.mem_append.1 comma).elim (not_mem_of_blank blank rfl) fun comma => ?_
    cases isPlainWord_of_isIdentifier named ',' comma
  have one_blank : IsBlank [' '] := List.forall_mem_singleton.2 rfl
  induction names generalizing name w with
  | nil =>
    have named := named name List.mem_cons_self
    have whole : w ++ ((String.intercalate ", " [name]).toList ++ [' ']) = w ++ (name.toList ++ [' ']) := by simp
    have no_comma : ',' ∉ w ++ (name.toList ++ [' ']) := by simpa using absent blank named
    rw [whole, splitOn_of_not_mem no_comma, List.map_singleton, collapseSpace_name named blank one_blank]
  | cons name' names ih =>
    obtain ⟨here, more⟩ := List.forall_mem_cons.1 named
    have whole : w ++ ((String.intercalate ", " (name :: name' :: names)).toList ++ [' ']) =
        (w ++ name.toList) ++ ',' :: ([' '] ++ ((String.intercalate ", " (name' :: names)).toList ++ [' '])) := by
      simp
    have first := collapseSpace_name here blank (v := []) (List.forall_mem_nil _)
    rw [List.append_nil] at first
    rw [whole, splitOn_append_cons (absent blank here), List.map_cons, first, ih name' more one_blank]

theorem splitList_namesList (named : ∀ name ∈ i.names, isIdentifier name = true) (some_name : i.names ≠ []) :
    splitList (String.ofList i.namesList) = i.names := by
  obtain ⟨name, names, same⟩ := List.exists_cons_of_ne_nil some_name
  have entries := map_collapseSpace_names (w := [' ']) name names (same ▸ named) (List.forall_mem_singleton.2 rfl)
  have list : i.namesList = [' '] ++ ((String.intercalate ", " (name :: names)).toList ++ [' ']) := by
    unfold Import.namesList
    rw [same, List.singleton_append]
  have whole : splitList (String.ofList i.namesList) = (name :: names).filter fun item => !item.isEmpty := by
    unfold splitList piecesOf
    rw [String.toList_ofList, list, List.map_map]
    exact congrArg (List.filter _) entries
  rw [whole, same, List.filter_eq_self]
  intro item hitem
  obtain ⟨c, cs, same', -, -⟩ := exists_of_isIdentifier (named item (same ▸ hitem))
  have some_char : item ≠ "" := by
    rintro rfl
    cases same'
  simpa using some_char

/-! ### The line -/

namespace Import

theorem textWith_eq_cons (i : Import) (inner : List Char) : ∃ cs, i.textWith inner = 'i' :: cs := by
  unfold textWith
  exact ⟨_, rfl⟩

/-- Behind an import, as many braces are open as before it. -/
theorem foldl_braceStep_seen (plain : i.IsPlain) (k : Nat) : i.seen.foldl braceStep k = k := by
  have nests := foldl_braceStep (bracesBehind_of_balanced (isInline_lineCells plain).balanced) k
  rwa [Nat.zero_add, faces_lineCells plain] at nests

/-- What an import says in a reading where it is found. -/
theorem importOf?_eq (plain : i.IsPlain) {r : Reading} {m : Match} {x y : List Char} (text : r.text = x ++ (i.print.toList ++ y))
    (default : m.group? 1 = i.default.map fun name => (x.length + 7, x.length + 7 + name.toList.length))
    (names : m.group? 2 = if i.names.isEmpty then none else
      some (x.length + 8 + i.defaultText.length, x.length + 8 + i.defaultText.length + i.namesList.length))
    (module : m.group? 3 = none)
    (source : m.group? 4 = some (x.length + 8 + (i.defaultText ++ (i.namesText ++ i.fromText)).length,
      x.length + 8 + (i.defaultText ++ (i.namesText ++ i.fromText)).length + i.source.toList.length)) :
    r.importOf? m = some ⟨i.source, i.default, i.names, none⟩ := by
  rw [print_eq plain.space] at text
  unfold textWith at text
  have keyword : "import ".toList.length = 7 := rfl
  have between {u v w : List Char} {j : Nat} (cut : r.text = u ++ (v ++ w)) (start : j = u.length) :
      r.between (j, j + v.length) = String.ofList v := by
    subst start
    exact Reading.between_of_text cut
  have source_text : r.group? m 4 = some i.source := by
    have here := between (u := x ++ ("import ".toList ++ (i.defaultText ++ (i.namesText ++ (i.fromText ++ ['\'']))))) (v := i.source.toList)
      (w := ['\'', ';'] ++ y) (j := x.length + 8 + (i.defaultText ++ (i.namesText ++ i.fromText)).length)
      (by rw [text]; simp) (by simp only [List.length_append, List.length_singleton, keyword]; omega)
    rw [Reading.group?, source, Option.map_some, here, String.ofList_toList]
  have default_text : r.group? m 1 = i.default := by
    rw [Reading.group?, default]
    cases binding : i.default with
    | none => rfl
    | some name =>
      have here := between (u := x ++ "import ".toList) (v := name.toList)
        (w := (if i.names.isEmpty then [' '] else [',', ' ']) ++
          (i.namesText ++ (i.fromText ++ '\'' :: (i.source.toList ++ ['\'', ';']))) ++ y)
        (j := x.length + 7) (by rw [text, defaultText_some binding]; simp) (by simp only [List.length_append, keyword])
      rw [Option.map_some, Option.map_some, here, String.ofList_toList]
  have names_text : r.listOf m 2 = i.names := by
    rw [Reading.listOf, Reading.group?, names]
    split_ifs with empty
    · exact (List.isEmpty_iff.1 empty).symm
    · have here := between (u := x ++ ("import ".toList ++ (i.defaultText ++ ['\x7b']))) (v := i.namesList)
        (w := ['\x7d', ' '] ++ (i.fromText ++ '\'' :: (i.source.toList ++ ['\'', ';'])) ++ y)
        (j := x.length + 8 + i.defaultText.length)
        (by rw [text, namesText, if_neg empty]; simp only [List.append_assoc, List.cons_append, List.nil_append])
        (by simp only [List.length_append, List.length_singleton, keyword]; omega)
      rw [Option.map_some, Option.map_some, Option.getD_some, here, splitList_namesList plain.names (by simpa using empty)]
  rw [Reading.importOf?, source_text, Option.map_some, default_text, names_text, Reading.group?, module]
  rfl

end Import

/-- In a script, an import on a line of its own outside of all braces is found, and nothing else up to the end of the line feeds behind
it. -/
theorem Import.found {a back : List Cell} (plain : i.IsPlain) (untyped : i.IsUntyped) (depth : (faces a).foldl braceStep 0 = 0)
    (line : (faces a).getLast? = none ∨ (faces a).getLast? = some '\n') (are_feeds : ∀ c ∈ z, c = '\n')
    (some_feed : z ≠ [] ∨ back = [])
    (none_behind : ((Shape.importing.findAll (faces back)).filter fun m => braceDepth (faces back) m.start = 0) = [])
    {r : Reading} (reading : r = readingOf (a ++ (i.lineCells ++ (z.map code ++ back)))) :
    ((Shape.importing.findFrom r.faces.length 0 (faces a).getLast? a.length (faces (i.lineCells ++ (z.map code ++ back)))).filter
      fun m => braceDepth r.faces m.start = 0).filterMap r.importOf? = [⟨i.source, i.default, i.names, none⟩] := by
  have seen_eq : faces (i.lineCells ++ (z.map code ++ back)) = i.seen ++ (z ++ faces back) := by
    rw [faces_append, faces_append, faces_lineCells plain, faces_code]
  have faces_eq : r.faces = faces a ++ (i.seen ++ (z ++ faces back)) := by
    rw [reading, faces_readingOf, faces_append, seen_eq]
  have length : (faces a).length = a.length := List.length_map _
  have size_eq : r.faces.length = a.length + (i.seen.length + (z.length + (faces back).length)) := by
    rw [faces_eq]
    simp
  obtain ⟨m, found, start, stop, default, names, module, source⟩ := exists_matchAt?_import r.faces.length
    (i.source.toList.map fun _ => ' ') plain.default plain.names untyped (List.forall_mem_map.2 fun _ _ => rfl)
    (by rw [← seen, size_eq]; omega) line a.length (z ++ faces back)
  rw [← seen] at found stop
  -- Behind the import come line feeds, and then what has no import outside of braces.
  obtain ⟨cs, seen_cons⟩ := i.textWith_eq_cons (i.source.toList.map fun _ => ' ')
  rw [← seen] at seen_cons
  have matches_ : Shape.importing.findFrom r.faces.length 0 (faces a).getLast? a.length (i.seen ++ (z ++ faces back)) =
      m :: Shape.importing.findFrom r.faces.length 0 (i.seen.getLast?.or (faces a).getLast?) (a.length + i.seen.length)
        (z ++ faces back) := by
    have skipped : m.stop - a.length - 1 = cs.length := by
      rw [stop, seen_cons, List.length_cons]
      omega
    rw [seen_cons, List.cons_append] at found ⊢
    rw [findFrom, found]
    dsimp only
    rw [skipped, findFrom_skip, getLast?_cons_or, List.length_cons, Nat.add_assoc a.length, Nat.add_comm 1]
  have behind : (Shape.importing.findFrom r.faces.length 0 (i.seen.getLast?.or (faces a).getLast?) (a.length + i.seen.length)
      (z ++ faces back)).filter (fun m => braceDepth r.faces m.start = 0) = [] := by
    have front : r.faces = faces a ++ i.seen ++ (z ++ faces back) := by rw [faces_eq, List.append_assoc]
    have place : a.length + i.seen.length = (faces a ++ i.seen).length := by rw [List.length_append, length]
    have braces : (faces a ++ i.seen).foldl braceStep 0 = 0 := by rw [List.foldl_append, depth, foldl_braceStep_seen plain]
    have last := getD_getLast?_feeds are_feeds (some_feed.imp_right (congrArg faces)) (i.seen.getLast?.or (faces a).getLast?)
    have moved := filter_findFrom_feeds r.faces.length are_feeds last braces (by rw [size_eq]; omega)
    rw [front] at moved ⊢
    rw [place, moved, none_behind, List.map_nil]
  have top : braceDepth r.faces m.start = 0 := by
    rw [braceDepth, start, ← length, faces_eq, List.take_left' rfl, depth]
  have text : r.text = chars a ++ (i.print.toList ++ (z ++ chars back)) := by
    rw [reading, text_readingOf, ← chars_lineCells plain.space]
    simp [Function.comp_def]
  have place : a.length = (chars a).length := (List.length_map _).symm
  rw [seen_eq, matches_, List.filter_cons_of_pos (by simpa using top), behind, List.filterMap_cons_some, List.filterMap_nil]
  refine importOf?_eq plain text ?_ ?_ module ?_
  · rw [default, place]
  · rw [names, place]
  · rw [source]
    simp only [List.length_map]

/-! ## The place of an import -/

/-- Where an import goes if there are others: behind the line where the last one ends. -/
def importPlace? (text : List Char) : Option Nat :=
  (lastImportEnd? (Reading.ofText text)).map fun stop => stop + ((text.drop stop).takeWhile (· != '\n')).length

/-- At the end of the line where the last import ends, nothing is open, and what follows does not begin with a slash. -/
structure HasImportPlace (text : List Char) : Prop where
  closed : ∀ place ∈ importPlace? text, ∃ cells, mask .script (text.take place) = .ok cells ∧ braceDepth (faces cells) place = 0
  no_slash : ∀ place ∈ importPlace? text, ((Reading.ofText text).faces.drop place).find? (fun c => !isSpace c) ≠ some '/'

/-- Within a part with which two readings begin, a match says the same in both. -/
theorem Reading.importOf?_congr {r r' : Reading} {x y y' : List Char} (text : r.text = x ++ y) (text' : r'.text = x ++ y')
    (lies : LiesIn 0 x.length m) : r'.importOf? m = r.importOf? m := by
  have group (index : Nat) : r'.group? m index = r.group? m index := by
    rw [Reading.group?, Reading.group?]
    cases found : m.group? index with
    | none => rfl
    | some g =>
      obtain ⟨g', here, rfl⟩ := Option.map_eq_some_iff.1 found
      have within := (lies.groups g' (List.mem_of_find?_eq_some here)).2.2
      rw [Option.map_some, Option.map_some, Reading.between, Reading.between, text, text', slice_append_left within, slice_append_left within]
  rw [Reading.importOf?, Reading.importOf?, group, group, Reading.listOf, Reading.listOf, group, group]

theorem Reading.ofText_eq (masked : mask .script text = .ok cells) : Reading.ofText text = readingOf cells := by
  obtain ⟨t, read, -⟩ := maskFrom_eq_ok_iff.1 masked
  rw [Reading.ofText, maskOrAll, masked, readingOf, ← read.chars]

theorem closes_of_depth (depth : x.foldl braceStep 0 = 0) : Closes x := by
  have grows (b : List Char) (open_ : '\x7d' ∉ b) (n : Nat) : n ≤ b.foldl braceStep n := by
    induction b generalizing n with
    | nil => exact le_rfl
    | cons c b ih =>
      rw [List.mem_cons, not_or] at open_
      have step : n ≤ braceStep n c := by
        rw [braceStep, if_neg (Ne.symm open_.1)]
        split_ifs <;> omega
      exact step.trans (ih open_.2 _)
  rintro a b rfl
  by_contra open_
  rw [List.foldl_append, List.foldl_cons] at depth
  have := grows b open_ (braceStep (a.foldl braceStep 0) '\x7b')
  rw [depth, braceStep, if_pos rfl] at this
  omega

theorem no_feed_takeWhile (cells : List Cell) : '\n' ∉ (faces cells).take ((chars cells).takeWhile (· != '\n')).length := by
  induction cells with
  | nil => exact List.not_mem_nil
  | cons c cells ih =>
    by_cases feed : c.char = '\n'
    · rw [chars, List.map_cons, List.takeWhile_cons_of_neg (by simpa using feed)]
      exact List.not_mem_nil
    · have face : c.face ≠ '\n' := by
        unfold Cell.face
        split_ifs
        · exact feed
        · decide
      rw [chars, List.map_cons, List.takeWhile_cons_of_pos (by simpa using feed), List.length_cons, faces_cons, List.take_succ_cons,
        List.mem_cons, not_or]
      exact ⟨Ne.symm face, ih⟩

/-- The last import ends with a quote and what follows it on its line. The braces that are opened in front of the quote are closed there. -/
theorem exists_lastImport {r : Reading} {stop : Nat} (last : lastImportEnd? r = some stop) :
    ∃ front q tail y, r.faces = front ++ q :: tail ++ y ∧ stop = (front ++ q :: tail).length ∧ Closes front ∧ isQuote q = true ∧
      '\n' ∉ tail := by
  obtain ⟨m, hm, rfl⟩ := Option.map_eq_some_iff.1 last
  obtain ⟨found, depth⟩ := List.mem_filter.1 (List.mem_of_getLast? hm)
  obtain ⟨x, c, y, whole, found⟩ := exists_of_mem_findFrom found
  obtain ⟨q, hq, rfl, ⟨taken, rest, place⟩, -⟩ := onward_of_matchAt? found
  obtain ⟨-, head, braces, middle, quote, tail, covers, text⟩ := exists_of_importing hq
  have cut : taken ++ q.rest = (head ++ (braces ++ (middle ++ quote :: tail))) ++ q.rest := by
    rw [← rest, covers]
    simp
  obtain rfl := List.append_cancel_right cut
  dsimp only at rest place depth
  rw [Nat.zero_add] at place depth
  refine ⟨x ++ (head ++ (braces ++ middle)), quote, tail, q.rest, ?_, ?_, ?_, text.quote, text.tail⟩
  · rw [whole, rest]
    simp
  · rw [place]
    simp
  · rw [braceDepth, whole, List.take_left' rfl] at depth
    exact (closes_of_depth (by simpa using depth)).append
      ((closes_of_bare text.head).append (text.braces.closes.append (closes_of_bare text.middle)))

/-- No import begins in front of the place of imports and goes beyond it. -/
theorem stays_importPlace {place : Nat} (masked : mask .script text = .ok cells) (here : importPlace? text = some place)
    {x y behind : List Char} {c : Char} (cut : (faces cells).take place = x ++ c :: y) (ends : behind = [] ∨ behind.head? = some '\n')
    {size k : Nat} {r : MatchPoint} (h : r ∈ ways size Shape.importing ⟨x.getLast?.or none, c :: y ++ behind, k, []⟩) :
    behind.length ≤ r.rest.length := by
  obtain ⟨stop, last, rfl⟩ := Option.map_eq_some_iff.1 here
  rw [Reading.ofText_eq masked] at last
  obtain ⟨t, read, -⟩ := maskFrom_eq_ok_iff.1 masked
  obtain ⟨front, q, tail, z, whole, rfl, closes, quote, one⟩ := exists_lastImport last
  have whole : faces cells = front ++ q :: tail ++ z := whole
  have line := no_feed_takeWhile (cells.drop (front ++ q :: tail).length)
  rw [faces, List.map_drop, ← faces, whole, List.drop_left, chars, List.map_drop, read.chars] at line
  rw [whole, List.take_length_add_append, List.append_assoc, List.cons_append] at cut
  refine length_le_of_importing cut.symm closes quote ?_ ends h
  rw [List.mem_append, not_or]
  exact ⟨one, line⟩

/-- The place of an import is the end of a line behind the last import. -/
theorem importPlace_cases {place : Nat} (masked : mask .script text = .ok cells) (here : importPlace? text = some place) :
    place ≤ text.length ∧ (text.drop place = [] ∨ (text.drop place).head? = some '\n') ∧
      ∃ m, ((readingOf cells).topLevel Shape.importing).getLast? = some m ∧ m.stop ≤ place := by
  obtain ⟨stop, last, rfl⟩ := Option.map_eq_some_iff.1 here
  rw [Reading.ofText_eq masked] at last
  obtain ⟨t, read, -⟩ := maskFrom_eq_ok_iff.1 masked
  obtain ⟨m, hm, stop_eq⟩ := Option.map_eq_some_iff.1 last
  have within : stop ≤ text.length := by
    obtain ⟨front, q, tail, y, whole, rfl, -⟩ := exists_lastImport last
    have length : text.length = (faces cells).length := by rw [← read.chars, List.length_map, List.length_map]
    have whole : faces cells = front ++ q :: tail ++ y := whole
    rw [length, whole]
    simp
  have line : ((text.drop stop).takeWhile (· != '\n')).length ≤ (text.drop stop).length := (List.takeWhile_sublist _).length_le
  rw [List.length_drop] at line
  refine ⟨by omega, ?_, m, hm, by omega⟩
  rw [← List.drop_drop]
  exact drop_takeWhile_feed _

/-- Where a match lies that is found behind a place. -/
theorem start_of_mem_findFrom {pattern : Pattern} (h : m ∈ pattern.findFrom size 0 before place rest) :
    place ≤ m.start ∧ m.start ≤ m.stop := by
  obtain ⟨x, c, y, -, found⟩ := exists_of_mem_findFrom h
  obtain ⟨q, -, rfl, goes, -⟩ := onward_of_matchAt? found
  have := goes.place_le
  dsimp only at this ⊢
  omega

/-- What is put between brackets leaves them nesting, if its own do. -/
theorem isValid_insert {a c b : List Cell} {result : String} (masked : mask .script text = .ok (a ++ b))
    (valid : isValid (String.ofList text) = true) (inserted : mask .script result.toList = .ok (a ++ (c ++ b)))
    (balanced : bracketsBalanced (brackets c) = true) : isValid result = true := by
  obtain ⟨cells, masked', nested⟩ := exists_of_isValid valid
  obtain rfl := Except.ok.inj (masked.symm.trans masked')
  rw [isValid, inserted]
  dsimp only
  rw [bracketsBalanced_faces, brackets_append, brackets_append, bracketsBalanced, bracketsBalancedFrom_insert balanced, ← brackets_append]
  exact nested

/-- Where the last import of some ends in front of line feeds, there is none behind them. -/
theorem filter_findFrom_behind_last {ms : List Match} {inside : Match → Bool} {before : Option Char} (are_feeds : ∀ c ∈ z, c = '\n')
    (some_feed : z ≠ [] ∨ y = [])
    (last : ∃ m, (ms ++ (Shape.importing.findFrom size 0 before place (z ++ y)).filter inside).getLast? = some m ∧ m.stop ≤ place) :
    (Shape.importing.findFrom size 0 before place (z ++ y)).filter inside = [] := by
  by_contra some_match
  obtain ⟨m, here, stop⟩ := last
  have mem : m ∈ Shape.importing.findFrom size 0 before place (z ++ y) := by
    rw [List.getLast?_append, List.getLast?_eq_some_getLast some_match, Option.some_or] at here
    rw [← Option.some.inj here]
    exact List.mem_of_mem_filter (List.getLast_mem some_match)
  rw [findFrom_feeds are_feeds] at mem
  obtain ⟨start, ordered⟩ := start_of_mem_findFrom mem
  rcases some_feed with some_feed | rfl
  · have := List.length_pos_iff.2 some_feed
    omega
  · cases mem

/-- Behind some cells with imports, outside of all braces, stands one more import. -/
theorem imports_withLine {a back : List Cell} (plain : i.IsPlain) (untyped : i.IsUntyped) (depth : (faces a).foldl braceStep 0 = 0)
    (are_feeds : ∀ c ∈ z, c = '\n') (some_feed : z ≠ [] ∨ back = [])
    (stays : ∀ x c y behind, faces a = x ++ c :: y → behind = [] ∨ behind.head? = some '\n' → ∀ size place,
      ∀ r ∈ ways size Shape.importing ⟨x.getLast?.or none, c :: y ++ behind, place, []⟩, behind.length ≤ r.rest.length)
    (last : ∃ m, ((readingOf (a ++ (z.map code ++ back))).topLevel Shape.importing).getLast? = some m ∧ m.stop ≤ a.length) :
    (readingOf (a ++ code '\n' :: (i.lineCells ++ (z.map code ++ back)))).imports =
      (readingOf (a ++ (z.map code ++ back))).imports ++ [⟨i.source, i.default, i.names, none⟩] := by
  obtain ⟨r, r_eq⟩ : ∃ r, r = readingOf (a ++ (z.map code ++ back)) := ⟨_, rfl⟩
  obtain ⟨r', r'_eq⟩ : ∃ r', r' = readingOf (a ++ code '\n' :: (i.lineCells ++ (z.map code ++ back))) := ⟨_, rfl⟩
  rw [← r_eq] at last
  rw [← r_eq, ← r'_eq]
  have faces_eq : r.faces = faces a ++ (z ++ faces back) := by
    rw [r_eq, faces_readingOf, faces_append, faces_append, faces_code]
  have faces_eq' : r'.faces = faces a ++ '\n' :: faces (i.lineCells ++ (z.map code ++ back)) := by
    rw [r'_eq, faces_readingOf, faces_append, faces_cons]
    rfl
  have length : (faces a).length = a.length := List.length_map _
  have some_feed' : z ≠ [] ∨ faces back = [] := some_feed.imp_right (congrArg faces)
  have ends : z ++ faces back = [] ∨ (z ++ faces back).head? = some '\n' := by
    cases z with
    | nil =>
      obtain rfl := some_feed.resolve_left (fun h => h rfl)
      exact .inl rfl
    | cons c z => exact .inr (congrArg some (are_feeds c List.mem_cons_self))
  have edge : (z ++ faces back).head?.any isWord =
      ('\n' :: faces (i.lineCells ++ (z.map code ++ back))).head?.any isWord := by
    rcases ends with none | feed
    · rw [none]
      rfl
    · rw [feed]
      rfl
  -- The imports in front are the same.
  obtain ⟨ms, lie, found, found'⟩ := exists_findFrom_eq Shape.importing r.faces.length r'.faces.length none 0 (u := faces a) (v := z ++ faces back)
    (w := '\n' :: faces (i.lineCells ++ (z.map code ++ back))) edge (Nat.zero_le _) (by rw [faces_eq]) (by rw [faces_eq'])
    (fun x c y cut => stays x c y _ cut ends _ _) (fun x c y cut => stays x c y _ cut (.inr rfl) _ _)
  rw [← faces_eq, Nat.zero_add] at found
  rw [← faces_eq', Nat.zero_add, findFrom, matchAt?_importing_feed] at found'
  dsimp only at found'
  have top : r.topLevel Shape.importing = ms.filter (fun m => braceDepth r.faces m.start = 0) ++
      (Shape.importing.findFrom r.faces.length 0 ((faces a).getLast?.or none) (faces a).length (z ++ faces back)).filter
        fun m => braceDepth r.faces m.start = 0 := by
    rw [Reading.topLevel, Reading.all, findAll, found, List.filter_append]
  have none_behind : (Shape.importing.findFrom r.faces.length 0 ((faces a).getLast?.or none) (faces a).length (z ++ faces back)).filter
      (fun m => braceDepth r.faces m.start = 0) = [] := by
    rw [top, ← length] at last
    exact filter_findFrom_behind_last are_feeds some_feed' last
  have none_behind' : ((Shape.importing.findAll (faces back)).filter fun m => braceDepth (faces back) m.start = 0) = [] := by
    have line := getD_getLast?_feeds are_feeds some_feed' ((faces a).getLast?.or none)
    have moved := filter_findFrom_feeds r.faces.length are_feeds line depth (by rw [faces_eq]; simp; omega)
    rw [← faces_eq, none_behind] at moved
    exact List.map_eq_nil_iff.1 moved.symm
  have same : ms.filter (fun m => braceDepth r'.faces m.start = 0) = ms.filter fun m => braceDepth r.faces m.start = 0 := by
    refine List.filter_congr fun m hm => ?_
    have le : m.start ≤ (faces a).length := by
      have lies := lie m hm
      have := lies.ordered.trans lies.stop
      omega
    rw [braceDepth, braceDepth, faces_eq, faces_eq', List.take_append_of_le_length le, List.take_append_of_le_length le]
  have congr : (ms.filter fun m => braceDepth r.faces m.start = 0).filterMap r'.importOf? =
      (ms.filter fun m => braceDepth r.faces m.start = 0).filterMap r.importOf? := by
    refine List.filterMap_congr fun m hm => ?_
    have lies := lie m (List.mem_of_mem_filter hm)
    rw [Nat.zero_add, length] at lies
    have text : r.text = chars a ++ chars (z.map code ++ back) := by
      rw [r_eq, text_readingOf]
      exact List.map_append
    have text' : r'.text = chars a ++ chars (code '\n' :: (i.lineCells ++ (z.map code ++ back))) := by
      rw [r'_eq, text_readingOf]
      exact List.map_append
    exact Reading.importOf?_congr text text' (by rwa [List.length_map])
  have feed : faces (a ++ [code '\n']) = faces a ++ ['\n'] := faces_append a _
  have line := Import.found (a := a ++ [code '\n']) plain untyped (by rw [feed, List.foldl_append, depth]; rfl)
    (.inr (by rw [feed, List.getLast?_concat])) are_feeds some_feed none_behind' (r := r') (by rw [r'_eq]; simp)
  rw [feed, List.getLast?_concat, List.length_append, List.length_singleton, ← length] at line
  rw [Reading.imports_eq, Reading.imports_eq, top, none_behind, List.append_nil, ← congr, Reading.topLevel, Reading.all, findAll, found',
    List.filter_append, List.filterMap_append, same, line]

/-- Where no import is found outside of braces, an import comes first. -/
theorem imports_lineFirst {back : List Cell} {feeds : List Char} (plain : i.IsPlain) (untyped : i.IsUntyped)
    (are_feeds : ∀ c ∈ feeds, c = '\n') (are_feeds' : ∀ c ∈ z, c = '\n') (some_feed : z ≠ [] ∨ back = [])
    (none : (readingOf (feeds.map code ++ back)).topLevel Shape.importing = []) :
    (readingOf (i.lineCells ++ (z.map code ++ back))).imports = [⟨i.source, i.default, i.names, .none⟩] := by
  have none_behind : ((Shape.importing.findAll (faces back)).filter fun m => braceDepth (faces back) m.start = 0) = [] := by
    have line : (feeds.getLast?.or .none).getD '\n' = '\n' ∨ faces back = [] := by
      left
      cases last : feeds.getLast? with
      | none => rfl
      | some c => exact are_feeds c (List.mem_of_getLast? last)
    have moved := filter_findFrom_feeds (x := []) (feeds ++ faces back).length are_feeds line rfl (by simp)
    have top : (Shape.importing.findAll (feeds ++ faces back)).filter (fun m => braceDepth (feeds ++ faces back) m.start = 0) = [] := by
      rw [← none, Reading.topLevel, Reading.all, faces_readingOf, faces_append, faces_code]
    rw [findAll] at top
    rw [List.nil_append, List.length_nil, top] at moved
    exact List.map_eq_nil_iff.1 moved.symm
  have line := Import.found (a := []) plain untyped rfl (.inl rfl) are_feeds' some_feed none_behind rfl
  exact line

/-- An import that is added behind another one. -/
theorem imports_behind {place : Nat} (plain : i.IsPlain) (untyped : i.IsUntyped) (valid : isValid (String.ofList text) = true)
    (fits : HasImportPlace text) (here : importPlace? text = some place) {result : String}
    (result_eq : result.toList = text.take place ++ '\n' :: (i.print.toList ++ text.drop place)) :
    isValid result = true ∧ (Reading.ofText result.toList).imports =
      (Reading.ofText text).imports ++ [⟨i.source, i.default, i.names, none⟩] := by
  obtain ⟨cells, masked, -⟩ := exists_of_isValid valid
  obtain ⟨within, ends, last⟩ := importPlace_cases masked here
  obtain ⟨ca, front, depth⟩ := fits.closed place here
  have no_slash := fits.no_slash place here
  have whole : mask .script (text.take place ++ text.drop place) = .ok cells := by rwa [List.take_append_drop]
  have length : (text.take place).length = place := by
    rw [List.length_take]
    omega
  obtain ⟨t, read, -⟩ := maskFrom_eq_ok_iff.1 front
  have length' : (faces ca).length = place := by rw [List.length_map, ← List.length_map (f := Cell.char), read.chars, length]
  have depth : (faces ca).foldl braceStep 0 = 0 := by rwa [braceDepth, ← length', List.take_length] at depth
  have inline := Import.isInline_lineCells plain
  rw [Reading.ofText_eq masked, faces_readingOf] at no_slash
  obtain ⟨z, back, rfl, -, are_feeds, some_feed, inserted⟩ := mask_withLine whole front ends inline.reads (by rwa [length])
  rw [Import.chars_lineCells plain.space, ← result_eq] at inserted
  have balanced : bracketsBalanced (brackets (code '\n' :: i.lineCells)) = true := inline.balanced
  refine ⟨isValid_insert masked valid (c := code '\n' :: i.lineCells) (by rw [inserted]; simp) balanced, ?_⟩
  rw [Reading.ofText_eq inserted, Reading.ofText_eq masked]
  refine imports_withLine plain untyped depth are_feeds some_feed (fun x c y behind cut ends size k r h => ?_) ?_
  · refine stays_importPlace masked here (x := x) (c := c) (y := y) ?_ ends h
    rw [← cut, faces_append, ← length', List.take_left' rfl]
  · obtain ⟨m, hm, stop⟩ := last
    rw [List.length_map] at length'
    exact ⟨m, hm, by omega⟩

/-- What is put in front of a text in the place of its line feeds leaves its brackets nesting, if its own do. -/
theorem isValid_lineFirst {c b : List Cell} {feeds : List Char} {result : String} (masked : mask .script text = .ok (feeds.map code ++ b))
    (valid : isValid (String.ofList text) = true) (are_feeds : ∀ c ∈ feeds, c = '\n') (are_feeds' : ∀ c ∈ z, c = '\n')
    (inserted : mask .script result.toList = .ok (c ++ (z.map code ++ b))) (balanced : bracketsBalanced (brackets c) = true) :
    isValid result = true := by
  have blank {w : List Char} (are_feeds : ∀ c ∈ w, c = '\n') : brackets (w.map code) = [] :=
    brackets_code fun c hc => by rw [are_feeds c hc]; rfl
  obtain ⟨_, masked', nested⟩ := exists_of_isValid valid
  obtain rfl := Except.ok.inj (masked.symm.trans masked')
  rw [brackets_append, blank are_feeds, List.nil_append] at nested
  rw [isValid, inserted]
  dsimp only
  rw [bracketsBalanced_faces, brackets_append, brackets_append, blank are_feeds', List.nil_append, bracketsBalanced,
    ← List.nil_append (brackets c ++ _), bracketsBalancedFrom_insert balanced]
  exact nested

/-- An import that is added where there is no other one outside of braces. -/
theorem imports_first (plain : i.IsPlain) (untyped : i.IsUntyped) (valid : isValid (String.ofList text) = true)
    (none : importPlace? text = none) {result : String}
    (result_eq : result.toList = if isBlankList text then i.print.toList ++ ['\n'] else
      i.print.toList ++ '\n' :: '\n' :: text.dropWhile (· == '\n')) :
    isValid result = true ∧ (Reading.ofText result.toList).imports =
      (Reading.ofText text).imports ++ [⟨i.source, i.default, i.names, .none⟩] := by
  obtain ⟨cells, masked, -⟩ := exists_of_isValid valid
  have no_match : (readingOf cells).topLevel Shape.importing = [] := by
    rw [importPlace?, Option.map_eq_none_iff, lastImportEnd?, Option.map_eq_none_iff, List.getLast?_eq_none_iff, Reading.ofText_eq masked]
      at none
    exact none
  have no_import : (Reading.ofText text).imports = [] := by rw [Reading.ofText_eq masked, Reading.imports_eq, no_match, List.filterMap_nil]
  rw [no_import, List.nil_append]
  have line : i.print.toList = chars i.lineFront ++ [';'] := by
    rw [← Import.chars_lineCells plain.space, Import.lineCells]
    simp
  have inline := Import.isInline_lineFront plain
  have balanced := (Import.isInline_lineCells plain).balanced
  split_ifs at result_eq with blank
  · have nothing : mask .script ([] ++ []) = .ok [] := rfl
    obtain ⟨cb, cells_eq, -, inserted⟩ :=
      mask_lineFirst nothing (List.forall_mem_nil _) (show ∀ c ∈ ['\n'], c = '\n' by simp) (.inl (by simp)) inline.reads
    obtain rfl : cb = [] := cells_eq.symm
    have cells_eq : i.lineFront ++ (code ';' :: ['\n'].map code ++ []) = i.lineCells ++ (['\n'].map code ++ []) := by simp [Import.lineCells]
    have chars_eq : chars i.lineFront ++ (';' :: ['\n'] ++ []) = result.toList := by
      rw [result_eq, line]
      simp
    rw [cells_eq, chars_eq] at inserted
    have no_feeds : ∀ c ∈ ([] : List Char), c = '\n' := List.forall_mem_nil _
    have feed : ∀ c ∈ ['\n'], c = '\n' := List.forall_mem_singleton.2 rfl
    refine ⟨isValid_lineFirst nothing (by decide) no_feeds feed inserted balanced, ?_⟩
    rw [Reading.ofText_eq inserted]
    exact imports_lineFirst plain untyped no_feeds feed (.inl (by simp)) (by rfl)
  · have feeds : ∀ c ∈ text.takeWhile (· == '\n'), c = '\n' := fun c hc => by simpa using List.all_eq_true.1 List.all_takeWhile c hc
    have feeds' : ∀ c ∈ ['\n', '\n'], c = '\n' := by simp
    have whole : mask .script (text.takeWhile (· == '\n') ++ text.dropWhile (· == '\n')) = .ok cells := by
      rwa [List.takeWhile_append_dropWhile]
    obtain ⟨cb, rfl, -, inserted⟩ := mask_lineFirst whole feeds feeds' (.inl (by simp)) inline.reads
    have cells_eq : i.lineFront ++ (code ';' :: ['\n', '\n'].map code ++ cb) = i.lineCells ++ (['\n', '\n'].map code ++ cb) := by
      simp [Import.lineCells]
    have chars_eq : chars i.lineFront ++ (';' :: ['\n', '\n'] ++ text.dropWhile (· == '\n')) = result.toList := by
      rw [result_eq, line]
      simp
    rw [cells_eq, chars_eq] at inserted
    refine ⟨isValid_lineFirst masked valid feeds feeds' inserted balanced, ?_⟩
    rw [Reading.ofText_eq inserted]
    exact imports_lineFirst plain untyped feeds feeds' (.inl (by simp)) no_match

theorem addImport_eq {source : String} (named : isBlankText i.source = false) : addImport source i = .ok (String.ofList
    (match importPlace? source.toList with
    | some place => source.toList.take place ++ '\n' :: (i.print.toList ++ source.toList.drop place)
    | none => if isBlankList source.toList then i.print.toList ++ ['\n'] else
        i.print.toList ++ '\n' :: '\n' :: source.toList.dropWhile (· == '\n'))) := by
  have text : (Reading.ofText source.toList).text = source.toList := rfl
  unfold addImport importPlace?
  rw [if_neg (by simp [named])]
  dsimp only
  rw [text]
  cases lastImportEnd? (Reading.ofText source.toList) with
  | none =>
    dsimp only [Option.map_none]
    split_ifs <;> rfl
  | some stop =>
    dsimp only [Option.map_some]
    rw [List.append_assoc, List.cons_append]

/-- An import that is added to a script is listed behind the others, and the script stays valid, if nothing is open at the end of the line
where the last import ends, and no slash follows. -/
theorem addImport_imports {source : String} (valid : isValid source = true) (plain : i.IsPlain) (named : isBlankText i.source = false)
    (untyped : i.IsUntyped) (fits : HasImportPlace source.toList) :
    ∃ result, addImport source i = .ok result ∧ isValid result = true ∧
      (Reading.ofText result.toList).imports = (Reading.ofText source.toList).imports ++ [⟨i.source, i.default, i.names, none⟩] := by
  rw [← String.ofList_toList (s := source)] at valid
  refine ⟨_, addImport_eq named, ?_⟩
  cases here : importPlace? source.toList with
  | none => exact imports_first plain untyped valid here (String.toList_ofList)
  | some place => exact imports_behind plain untyped valid fits here (String.toList_ofList)

/-- An import behind one with more code on its line, in front of a comment. -/
theorem addImport_imports_behind : ∃ result,
    addImport "import a from 'a'; f(\x60$\x7b1\x7d\x60);\n// b\ng(a);\n"
        { source := "b", default := some "b", names := ["c", "d"] } = .ok result ∧
      isValid result = true ∧ (Reading.ofText result.toList).imports =
        (Reading.ofText "import a from 'a'; f(\x60$\x7b1\x7d\x60);\n// b\ng(a);\n".toList).imports ++
          [⟨"b", some "b", ["c", "d"], none⟩] := by
  have here : importPlace? "import a from 'a'; f(\x60$\x7b1\x7d\x60);\n// b\ng(a);\n".toList = some 29 := by decide +kernel
  have at_ {place : Nat} (h : place ∈ importPlace? "import a from 'a'; f(\x60$\x7b1\x7d\x60);\n// b\ng(a);\n".toList) : place = 29 :=
    Option.some.inj (h.symm.trans here)
  have fits : HasImportPlace "import a from 'a'; f(\x60$\x7b1\x7d\x60);\n// b\ng(a);\n".toList := by
    refine ⟨fun place h => ?_, fun place h => ?_⟩
    · rw [at_ h]
      exact ⟨_, rfl, by decide +kernel⟩
    · rw [at_ h]
      decide +kernel
  exact addImport_imports (by decide +kernel)
    ⟨by decide +kernel, List.forall_mem_singleton.2 (by decide +kernel), by decide +kernel, by decide +kernel, rfl⟩
    (by decide +kernel) (.inl (by decide +kernel)) fits

/-- A comment that begins behind an import and goes on on the next line takes the new import in. -/
theorem not_addImport_imports : ¬∀ (source : String) (i : Import), isValid source = true → i.IsPlain →
    ∃ result, addImport source i = .ok result ∧ isValid result = true ∧
      (Reading.ofText result.toList).imports = (Reading.ofText source.toList).imports ++ [⟨i.source, i.default, i.names, none⟩] := by
  intro claim
  obtain ⟨result, added, -, imports⟩ := claim "import a from 'a'; /* x\n y */ foo();\n" { source := "b", default := some "b" }
    (by decide +kernel)
    ⟨by decide +kernel, List.forall_mem_singleton.2 (by decide +kernel), by decide +kernel, by decide +kernel, rfl⟩
  have : addImport "import a from 'a'; /* x\n y */ foo();\n" { source := "b", default := some "b" } =
      .ok "import a from 'a'; /* x\nimport b from 'b';\n y */ foo();\n" := by decide +kernel
  cases added.symm.trans this
  have length := congrArg List.length imports
  revert length
  decide +kernel

end Codewright.Script
