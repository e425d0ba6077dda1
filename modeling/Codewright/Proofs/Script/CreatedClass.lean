import Codewright.Proofs.Script.ClassText

/-!
# Classes that are created

* `topLevel_blockCells` – in a head with a block behind it, a declaration that is not in the block is at the start;
* `Class.IsPlain.exists_topLevel` – the pattern of classes has one match, with the name and the parent of the class;
* `Class.IsPlain.summary` – a script that is one class: its name, its parent and its methods, and neither functions nor imports;
* `summary_create_class` – a class that is created from a record is a valid script with that summary.
-/

namespace Codewright.Script

open Text Pattern Json

variable {h u : List Cell} {m : Match} {c : Class} {pattern : Pattern} {x y : List Char}

/-! ## A head with a block -/

/-- Where a match begins. -/
theorem start_of_matchAt? {size place : Nat} {before : Option Char} {rest : List Char}
    (found : pattern.matchAt? size before place rest = some m) : m.start = place := by
  obtain ⟨q, -, rfl⟩ := exists_of_matchAt? found
  rfl

/-- A line that begins behind the head of a block is in the block. -/
theorem braceDepth_block (one : '\n' ∉ faces h) (nests : bracesBehind 0 h = some 0) (nests' : bracesBehind 0 u = some 0) {d : Char}
    (cut : faces (blockCells h u) = x ++ d :: y) (line : x.getLast? = some '\n') :
    braceDepth (faces (blockCells h u)) x.length ≠ 0 := by
  obtain ⟨a, b, whole, rfl, behind⟩ := List.map_eq_append_iff.1 cut
  have more : b ≠ [] := by
    rintro rfl
    cases behind
  obtain ⟨p, q, rfl, rfl, rfl⟩ := cases_blockCells one line more whole
  obtain ⟨k, inside⟩ := exists_bracesBehind nests'
  have deeper : bracesBehind 0 (h ++ code '\x7b' :: p) = some (k + 1) := nests_append nests (bracesBehind_add inside 1)
  have depth := braceDepth_append deeper [] (q ++ [code '\x7d', code '\n'])
  rw [whole, List.length_map]
  rw [List.nil_append, List.length_nil, Nat.zero_add] at depth
  rw [depth]
  simp

/-- A declaration that is not in the block is at the start. -/
theorem topLevel_blockCells (one : '\n' ∉ faces h) (nests : bracesBehind 0 h = some 0) (nests' : bracesBehind 0 u = some 0)
    (at_line : ∃ p, pattern = .seq .lineStart p) : (readingOf (blockCells h u)).topLevel pattern =
      (pattern.matchAt? (blockCells h u).length none 0 (faces (blockCells h u))).toList := by
  obtain ⟨p, rfl⟩ := at_line
  obtain ⟨e, more, cut⟩ : ∃ e more, faces (blockCells h u) = e :: more := List.exists_cons_of_ne_nil (by simp [blockCells])
  -- Further declarations begin on further lines.
  have behind (skip : Nat) : ((Pattern.seq .lineStart p).findFrom (blockCells h u).length skip (some e) 1 more).filter
      (fun m => braceDepth (faces (blockCells h u)) m.start = 0) = [] := by
    rw [List.filter_eq_nil_iff]
    intro m hm
    obtain ⟨x, d, y, rfl, found⟩ := exists_of_mem_findFrom hm
    have line : (e :: x).getLast? = some '\n' := by
      rw [← Option.or_none (o := (e :: x).getLast?), getLast?_cons_or]
      have starts := starts_of_matchAt? found
      rw [Option.or_some] at starts ⊢
      simpa using starts
    have deeper := braceDepth_block one nests nests' (x := e :: x) cut line
    rw [start_of_matchAt? found, Nat.add_comm]
    simpa using deeper
  have size : (faces (blockCells h u)).length = (blockCells h u).length := List.length_map _
  rw [Reading.topLevel, Reading.all, readingOf, findAll, size]
  dsimp only
  rw [cut] at behind ⊢
  rw [findFrom]
  cases found : (Pattern.seq .lineStart p).matchAt? (blockCells h u).length none 0 (e :: more) with
  | none => exact behind 0
  | some m =>
    have top : braceDepth (e :: more) m.start = 0 := by
      rw [start_of_matchAt? found]
      rfl
    dsimp only
    rw [List.filter_cons_of_pos (by simpa using top), behind]
    rfl

/-- The end of the block. -/
theorem closingOf_blockCells (nests' : bracesBehind 0 u = some 0) (stop : m.stop = h.length + 1) :
    (readingOf (blockCells h u)).closingOf m = h.length + 1 + u.length := by
  have closing : closingBrace? Cell.face 1 (u ++ [code '\x7d', code '\n']) = some u.length :=
    closingBrace?_eq_some_iff.2 ⟨u, code '\x7d', [code '\n'], rfl, rfl, nests', rfl⟩
  have opens : (code '\x7b').face = '\x7b' := rfl
  have rest : (faces (blockCells h u)).drop h.length = faces (code '\x7b' :: (u ++ [code '\x7d', code '\n'])) := by
    rw [blockCells, faces_append, List.drop_left' (List.length_map _)]
  rw [Reading.closingOf, readingOf]
  dsimp only
  rw [stop, Nat.add_sub_cancel, matchingBrace?, rest, closingBrace?_map_face, closingBrace?, if_pos opens, closing]
  simp
  omega

/-! ## Classes -/

/-- The names of the methods of a plain class are names of methods. -/
theorem Class.IsPlain.filter_methodNames (plain : c.IsPlain) :
    (c.methodNames.filter fun n => !notMethods.contains n) = c.methodNames := by
  rw [List.filter_eq_self]
  intro n hn
  rw [Bool.not_eq_true', ← Bool.not_eq_true, List.contains_iff_mem]
  rcases List.mem_append.1 hn with hn | hn
  · split_ifs at hn
    · rw [List.mem_singleton.1 hn]
      decide
    · cases hn
  · obtain ⟨m, hm, rfl⟩ := List.mem_map.1 hn
    exact plain.notWords m hm

/-- The pattern of classes has one match outside of blocks, which covers the head and reads the name and the parent. -/
theorem Class.IsPlain.exists_topLevel (plain : c.IsPlain) (lists : Lists u c.methodNames) {r : Reading}
    (reading : r = readingOf (blockCells c.headCells u)) :
    ∃ m, r.topLevel Shape.cls = [m] ∧ m.stop = c.headCells.length + 1 ∧ r.group? m 1 = some c.name ∧ r.group? m 2 = c.parent ∧
      r.listOf m 3 = [] := by
  have head := plain.isInline_head
  have length := c.length_headCells
  have size : (blockCells c.headCells u).length = c.headCells.length + u.length + 3 := by
    simp [blockCells]
    omega
  have enough : c.name.toList.length + (parentText c.parent).length ≤ (blockCells c.headCells u).length := by omega
  obtain ⟨m, found, -, stop, name, parent, interfaces⟩ :=
    exists_matchAt?_cls c.isExport_exportWords plain.named plain.parent enough (faces u ++ ['\x7d', '\n'])
  rw [← c.head_append, ← c.faces_headCells] at found
  have at_line : ∃ p, Shape.cls = .seq .lineStart p := ⟨_, rfl⟩
  have text : r.text = (spaced c.exportWords ++ "class ".toList) ++ (c.name.toList ++
      (parentText c.parent ++ ' ' :: '\x7b' :: (chars u ++ ['\x7d', '\n']))) := by
    rw [reading, readingOf, c.chars_headCells, c.head_append, List.append_assoc]
  refine ⟨m, ?top, by omega, ?name, ?parent, ?interfaces⟩
  case top =>
    rw [reading, topLevel_blockCells head.oneLine (bracesBehind_of_balanced head.balanced) lists.nests at_line, found]
    rfl
  case name =>
    have place : (spaced c.exportWords ++ "class ".toList).length = (spaced c.exportWords).length + 6 := List.length_append
    rw [Reading.group?, name, ← place, Option.map_some, Reading.between_of_text text, String.ofList_toList]
  case parent =>
    rw [Reading.group?, parent]
    cases given : c.parent with
    | none => rfl
    | some p =>
      have text' : r.text = (spaced c.exportWords ++ "class ".toList ++ c.name.toList ++ " extends ".toList) ++
          (p.toList ++ ' ' :: '\x7b' :: (chars u ++ ['\x7d', '\n'])) := by
        rw [text, given, parentText]
        simp
      have place' : (spaced c.exportWords ++ "class ".toList ++ c.name.toList ++ " extends ".toList).length =
          (spaced c.exportWords).length + c.name.toList.length + 15 := by
        simp
        omega
      rw [← place', Option.map_some, Option.map_some, Reading.between_of_text text', String.ofList_toList]
  case interfaces =>
    rw [Reading.listOf, Reading.group?, interfaces]
    rfl

/-- A class is found with its name, its parent and its methods. -/
theorem Class.IsPlain.classes_blockCells (plain : c.IsPlain) (lists : Lists u c.methodNames) :
    (readingOf (blockCells c.headCells u)).classes = [⟨c.name, c.parent, [], c.methodNames⟩] := by
  obtain ⟨m, top, stop, named, parented, no_interfaces⟩ := plain.exists_topLevel lists rfl
  have methods : (readingOf (blockCells c.headCells u)).namesInBlock Shape.method (m.stop - 1)
      ((readingOf (blockCells c.headCells u)).closingOf m) = c.methodNames := by
    rw [closingOf_blockCells lists.nests stop, stop, Nat.add_sub_cancel]
    exact lists.namesInBlock c.headCells [code '\n']
  rw [Reading.classes, top, List.filterMap_cons_some]
  · rfl
  · rw [named, Option.map_some, parented, no_interfaces, methods, plain.filter_methodNames]

/-- Behind the words of a class, nothing else is declared. -/
theorem Class.IsPlain.topLevel_eq_nil (plain : c.IsPlain) (lists : Lists u c.methodNames)
    (at_line : ∃ p, pattern = .seq .lineStart p)
    (dead : ∀ {size : Nat} {r t : List Char}, ClassHead r t → (∀ d ∈ r.head?, isSpace d = false) → Dead size pattern t) :
    (readingOf (blockCells c.headCells u)).topLevel pattern = [] := by
  have head := plain.isInline_head
  obtain ⟨d, ds, name, starts, -⟩ := exists_of_isIdentifier plain.named
  have begins {ws : List String} {r : List Char} (is_export : IsExport ws) : ClassHead r (spaced ws ++ ("class ".toList ++ r)) := by
    rcases is_export with rfl | rfl | rfl
    · exact .cls
    · exact .more (.inl rfl) .cls
    · exact .more (.inl rfl) (.more (.inr rfl) .cls)
  rw [topLevel_blockCells head.oneLine (bracesBehind_of_balanced head.balanced) lists.nests at_line, c.faces_headCells, c.head_append,
    matchAt?_of_dead (dead (begins c.isExport_exportWords) ?_)]
  · rfl
  · rw [name]
    rintro e ⟨⟩
    exact isSpace_of_isPlainWord (isPlainWord_of_isNameStart starts)

/-- The summary of a plain class. -/
theorem Class.IsPlain.summary (plain : c.IsPlain) (lists : Lists u c.methodNames) {r : Reading}
    (reading : r = readingOf (blockCells c.headCells u)) (d : Dialect) :
    (r.summary d).classes = [⟨c.name, c.parent, [], c.methodNames⟩] ∧ (r.summary d).functions = [] ∧ (r.summary d).imports = [] := by
  have classes : r.classes = [⟨c.name, c.parent, [], c.methodNames⟩] := reading ▸ plain.classes_blockCells lists
  have function : r.topLevel Shape.function = [] :=
    reading ▸ plain.topLevel_eq_nil lists ⟨_, rfl⟩ fun head named => head.dead_function named
  have arrow : r.topLevel Shape.arrow = [] := reading ▸ plain.topLevel_eq_nil lists ⟨_, rfl⟩ fun head named => head.dead_arrow named
  have importing : r.topLevel Shape.importing = [] :=
    reading ▸ plain.topLevel_eq_nil lists ⟨_, rfl⟩ fun head _ => head.dead_importing
  refine ⟨classes, ?_, ?_⟩
  · rw [Reading.summary, Reading.topLevelNames, Reading.topLevelNames, function, arrow]
    rfl
  · rw [Reading.summary, Reading.imports, importing]
    rfl

/-- A class that is created from a record is a valid script. It declares the class with its parent, its constructor and its
methods, and neither functions nor imports. -/
theorem summary_create_class (settings : Settings) {options : Json} (kind : (options.textAt? "type").getD "class" = "class")
    (read : readOptions Class.record options = .ok c) (plain : c.IsPlain) :
    ∃ text, create ⟨.javascript, settings.unit⟩ options = .ok text ∧ isValid text = true ∧
      (Summary.ofText .javascript text).classes = [⟨c.name, c.parent, [], c.methodNames⟩] ∧
      (Summary.ofText .javascript text).functions = [] ∧ (Summary.ofText .javascript text).imports = [] := by
  obtain ⟨u, text, reads, balanced, lists⟩ := plain.exists_cells (isIndent_unit settings)
  refine ⟨c.print ⟨.javascript, settings.unit⟩, ?_, reads.isValid balanced text, ?_⟩
  · unfold create
    rw [kind]
    dsimp only [bind, Except.bind]
    rw [read]
    rfl
  · have reading : Reading.ofText (c.print ⟨.javascript, settings.unit⟩).toList = readingOf (blockCells c.headCells u) := by
      rw [Reading.ofText, maskOrAll, text, reads.mask]
      rfl
    exact plain.summary lists reading .javascript

/-- What a class is created from, whose methods hold calls, a class and a template. -/
def stackOptions : Json := .object [("type", .string "class"), ("name", .string "Stack"), ("extends", .string "base.List"),
  ("fields", .array [.object [("name", .string "items"), ("value", .array [.number "1", .string "if ("])]]),
  ("constructor_params", .array [.string "size", .object [("name", .string "rest"), ("rest", .bool true)]]),
  ("methods", .array [
    .object [("name", .string "push"), ("params", .array [.string "x"]),
      ("body", .string "if (x < 1) \x7b\n  save(x);\n\x7d\nreturn \x60$\x7bpop(x)\x7d\x60;")],
    .object [("name", .string "make"), ("static", .bool true),
      ("body", .string "class Inner \x7b\n  push() \x7b\x7d\n\x7d\nreturn new Inner();")]])]

/-- The class that these options describe. -/
def stack : Class where
  name := "Stack"
  parent := some "base.List"
  constructorParams := some [{ name := "size" }, { name := "rest", rest := true }]
  fields := [{ name := "items", value := some (.array [.number "1", .string "if ("]) }]
  methods := [
    { name := "push", params := [{ name := "x" }],
      body := some "if (x < 1) \x7b\n  save(x);\n\x7d\nreturn \x60$\x7bpop(x)\x7d\x60;" },
    { name := "make", isStatic := true, body := some "class Inner \x7b\n  push() \x7b\x7d\n\x7d\nreturn new Inner();" }]

theorem isPlain_stack : stack.IsPlain where
  named := by decide
  parent := by decide
  params := by
    rintro _ ⟨⟩
    exact List.forall_mem_cons.2 ⟨⟨by decide, nofun⟩, List.forall_mem_singleton.2 ⟨by decide, nofun⟩⟩
  fields := by
    refine List.forall_mem_singleton.2 ⟨by decide, ?_⟩
    rintro _ ⟨⟩
    exact ⟨show Php.IsNumeral "1" by decide, trivial, trivial⟩
  methods := by
    refine List.forall_mem_cons.2 ⟨⟨by decide, List.forall_mem_singleton.2 ⟨by decide, nofun⟩, ?_⟩,
      List.forall_mem_singleton.2 ⟨by decide, nofun, ?_⟩⟩
    all_goals
      rintro _ ⟨⟩
      decide +kernel
  notWords := by decide

theorem summary_create_class_stack : ∃ text, create ⟨.javascript, Settings.unit {}⟩ stackOptions = .ok text ∧ isValid text = true ∧
    (Summary.ofText .javascript text).classes = [⟨"Stack", some "base.List", [], ["constructor", "push", "make"]⟩] ∧
    (Summary.ofText .javascript text).functions = [] ∧ (Summary.ofText .javascript text).imports = [] :=
  summary_create_class {} rfl (c := stack) rfl isPlain_stack

/-- What a class is created from, one of whose bodies begins with a no-break space. -/
def quotientOptions : Json := .object [("type", .string "class"), ("name", .string "A"),
  ("methods", .array [.object [("name", .string "m"), ("body", .string "\u00a0/ 1")]])]

/-- A no-break space at the start of a body goes, and the slash behind it then begins a pattern. -/
theorem not_summary_create_class : ¬∀ (settings : Settings) (options : Json) (c : Class),
    (options.textAt? "type").getD "class" = "class" → readOptions Class.record options = .ok c → isIdentifier c.name = true →
    (∀ p ∈ c.parent, isDottedName p = true) → (∀ ps ∈ c.constructorParams, ∀ p ∈ ps, p.IsPlain) → (∀ f ∈ c.fields, f.IsPlain) →
    (∀ m ∈ c.methods, isIdentifier m.name = true ∧ m.name ∉ notMethods ∧ (∀ p ∈ m.params, p.IsPlain) ∧
      ∀ b ∈ m.body, isValid b = true) →
    ∃ text, create ⟨.javascript, settings.unit⟩ options = .ok text ∧ isValid text = true ∧
      (Summary.ofText .javascript text).classes = [⟨c.name, c.parent, [], c.methodNames⟩] ∧
      (Summary.ofText .javascript text).functions = [] ∧ (Summary.ofText .javascript text).imports = [] := by
  intro claim
  have made : create ⟨.javascript, Settings.unit {}⟩ quotientOptions =
      .ok "export class A \x7b\n    m() \x7b\n        / 1\n    \x7d\n\x7d\n" := by decide +kernel
  obtain ⟨text, made', valid, -⟩ := claim {} quotientOptions
    { name := "A", methods := [{ name := "m", body := some "\u00a0/ 1" }] } rfl rfl (by decide) nofun nofun nofun
    (List.forall_mem_singleton.2 ⟨by decide, by decide, nofun, by decide +kernel⟩)
  cases made.symm.trans made'
  revert valid
  decide +kernel

end Codewright.Script
