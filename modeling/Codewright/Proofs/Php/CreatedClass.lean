import Codewright.Proofs.Php.ClassReading

/-!
# Classes made, printed and read back

A file with a class is made of a descriptor and printed. What is read back has a summary that says what the descriptor
says.

* `Descriptor.Class.fileSummary` – what the descriptor says of the file;
* `Descriptor.Class.ReadsBack` – this is what the printed file says;
* `Descriptor.Class.readsBack` – every plain class is read back; `Descriptor.Class.not_readsBack` – not every class
  whose names are names.
-/

namespace Codewright.Php

open Text Source

namespace Descriptor.Class

/-- What the descriptor says of the file: no backslash stands in front of its namespace and imports. -/
def fileSummary (c : Class) : Summary :=
  ⟨c.frame.space.map withoutRoot, c.frame.imports.map withoutRoot, [c.summary], [], [], [], []⟩

/-- The printed file can be read, and its summary says what the descriptor says, if a file is made at all. -/
def ReadsBack (c : Class) : Prop :=
  ∀ made, c.build = .ok made → ∃ f, parse (made.value.print usualIndent) = .ok f ∧ f.summary = c.fileSummary

variable {c : Class}

/-- Only the last statement of the file is a namespace. -/
theorem spaceIsLast (c : Class) : Section.SpaceIsLast c.sections := by
  intro name parts rest suffix
  rw [sections] at suffix
  cases space : spaceOf? c.frame.space with
  | none =>
    have member : Section.space name parts ∈ _ := suffix.mem (List.mem_cons_self ..)
    rw [space] at member
    cases strict : c.frame.strictTypes <;> simp [strict] at member
  | some name' =>
    rw [space] at suffix
    cases strict : c.frame.strictTypes <;> simp_all [List.suffix_cons_iff]

theorem flatMap_classes_parts (c : Class) : c.parts.flatMap Part.classes = [c.summary] := by
  have imports : (c.frame.imports.map fun text => Part.use (imported text)).flatMap Part.classes = [] := by
    rw [List.flatMap_map]
    exact List.flatMap_eq_nil_iff.2 fun _ _ => rfl
  rw [parts, List.flatMap_append, imports]
  rfl

theorem flatMap_imports_parts (h : c.frame.IsPlain) : c.parts.flatMap Part.imports = c.frame.imports.map withoutRoot := by
  have imports : (c.frame.imports.map fun text => Part.use (imported text)).flatMap Part.imports =
      c.frame.imports.map withoutRoot := by
    rw [List.flatMap_map, List.map_eq_flatMap]
    exact List.flatMap_congr fun text ht => congrArg (fun s => [s]) (imported_spec (h.imports text ht)).2
  rw [parts, List.flatMap_append, imports]
  simp [Part.imports]

/-- What the sections of the file show together is what the imports and the class show. -/
theorem flatMap_sections (c : Class) {α : Type} {f : Section → List α} {g : Part → List α}
    (part : ∀ p, f (.part p) = g p)
    (space : ∀ name parts, f (.space name parts) = parts.flatMap g) (strict : g .strict = []) :
    c.sections.flatMap f = c.parts.flatMap g := by
  rw [sections]
  cases spaceOf? c.frame.space <;> cases c.frame.strictTypes <;> simp [List.flatMap_map, part, space, strict]

theorem findSome?_sections (c : Class) :
    c.sections.findSome? Section.space? = (spaceOf? c.frame.space).map some := by
  have parts : (c.parts.map Section.part).findSome? Section.space? = none := by
    rw [List.findSome?_eq_none_iff]
    intro s hs
    obtain ⟨p, -, rfl⟩ := List.mem_map.1 hs
    rfl
  rw [sections]
  cases spaceOf? c.frame.space <;> cases c.frame.strictTypes
  · exact parts
  · exact parts
  · rfl
  · rfl

/-- The only class that the sections of the file show is the one of the descriptor. -/
theorem flatMap_classes (c : Class) : c.sections.flatMap Section.classes = [c.summary] :=
  (c.flatMap_sections (fun _ => rfl) (fun _ _ => rfl) rfl).trans c.flatMap_classes_parts

/-- What the sections of the file show is what the descriptor says. -/
theorem summary_of_shows (h : c.frame.IsPlain) {xs : List Stmt} (shows : ShowsStmts xs c.sections) (span : Span) :
    (File.mk (.ofList xs) span).summary = c.fileSummary := by
  have space : (c.sections.findSome? Section.space?).join = c.frame.space.map withoutRoot := by
    rw [findSome?_sections, h.spaceOf?_eq]
    cases c.frame.space <;> rfl
  have imports : c.sections.flatMap Section.imports = c.frame.imports.map withoutRoot :=
    (c.flatMap_sections (fun _ => rfl) (fun _ _ => rfl) rfl).trans (flatMap_imports_parts h)
  have declared : (File.mk (.ofList xs) span).declarations = xs.flatMap Node.declarations := Node.declarations_ofList xs
  have named : (File.mk (.ofList xs) span).firstNamespace? = c.sections.findSome? Section.space? := shows.space
  rw [File.summary, declared, named, space, shows.imports, imports, shows.classes, c.flatMap_classes,
    shows.interfaces, shows.traits, shows.enums, shows.functions]
  rfl

/-- The printed file is read, and a summary says of it what its sections say. -/
theorem exists_parse_file (h : c.frame.IsPrintable) (printable : c.IsPrintable) : ∃ xs span,
    parse ((c.frame.file c.node).print usualIndent) = .ok ⟨.ofList xs, span⟩ ∧ ShowsStmts xs c.sections := by
  have blank : ∀ d ∈ usualIndent.toList, isSpace d = true := List.all_eq_true.1 (by decide)
  obtain ⟨cs, source, spelled⟩ := spells_file h printable blank
  exact exists_parse_eq_ok source spelled fun _ =>
    Section.finds_fileBody (sections_isPrintable h printable) c.spaceIsLast

/-- What is read of the printed file has a summary that says what the descriptor says. -/
theorem summary_print (h : c.frame.IsPlain) (printable : c.IsPrintable) :
    ∃ f, parse ((c.frame.file c.node).print usualIndent) = .ok f ∧ f.summary = c.fileSummary := by
  obtain ⟨xs, span, read, shows⟩ := exists_parse_file h.isPrintable printable
  exact ⟨_, read, summary_of_shows h shows span⟩

/-- A plain class is read back from the printed file. -/
theorem readsBack (h : c.IsPlain) : c.ReadsBack := by
  intro made built
  obtain ⟨printable, rfl⟩ := build_eq h built
  exact summary_print h.frame printable

/-- A class with members of all kinds. -/
def account : Class where
  name := "Account"
  frame := { space := some "\\App", imports := ["\\Psr\\Log as Log", "Countable"], strictTypes := true }
  parent := some "Base"
  interfaces := ["Countable"]
  isFinal := true
  traits := ["Shared"]
  constants := [{ name := "LIMIT", value := .number "-1.5", visibility := .prot }]
  properties := [{ name := "$id", type := some "?int", default := some .null, visibility := .priv }]
  methods := [{ name := "find", returnType := some "A&B", parameters := [
    { name := "key", type := some "(A&B)|null", promote := some .priv },
    { name := "rest", byRef := true, variadic := true }] }]

theorem isPlain_account : account.IsPlain := by
  have two : 2 ≤ ["A", "B"].length := by decide
  have key : IsTypeText (IsNameBut Parameter.promotingWords) "(A&B)|null" := by
    refine ⟨.union [.intersection (["A", "B"].map .named), .named "null"], .union (by decide) ?_, by decide⟩
    simpa using ⟨TypeHint.IsAlternative.intersection two (by decide), .named (by decide)⟩
  have id : IsTypeText (IsNameBut memberWords) "?int" :=
    ⟨.nullable (.named "int"), .nullable (by decide), by decide⟩
  have found : IsTypeText (IsNameBut []) "A&B" :=
    ⟨.intersection (["A", "B"].map .named), .intersection two (by decide), by decide⟩
  have log : IsImportText "\\Psr\\Log as Log" := by
    have text : "\\Psr\\Log as Log" = "\\Psr\\Log" ++ " as " ++ "Log" := by decide
    exact text ▸ .renamed ⟨by decide, by decide, by decide⟩ (by decide) (by decide)
  have countable : IsImportText "Countable" := .plain ⟨by decide, by decide, by decide⟩
  constructor
  case frame => exact ⟨by decide, by simpa [account] using ⟨log, countable⟩⟩
  case parent => decide
  case interfaces => decide
  case traits => decide
  case constants =>
    have value : HasNumerals (.number "-1.5") := show IsNumeral "-1.5" by decide
    simpa [account, Constant.IsPlain] using value
  case properties =>
    have plain : Property.IsPlain { name := "$id", type := some "?int", default := some .null, visibility := .priv } :=
      ⟨by simpa using id, by simp [HasNumerals], rfl⟩
    simpa [account] using plain
  case methods =>
    have promoted : Parameter.IsPlain { name := "key", type := some "(A&B)|null", promote := some .priv } :=
      ⟨by simpa using key, by simp⟩
    have rest : Parameter.IsPlain { name := "rest", byRef := true, variadic := true } := ⟨by simp, by simp⟩
    intro m hm
    obtain rfl := List.mem_singleton.1 hm
    exact ⟨by simpa using found, by simpa using ⟨promoted, rest⟩, rfl, rfl⟩
  case doc => rfl

theorem readsBack_account : account.IsPlain ∧ account.build.isOk = true ∧ account.ReadsBack :=
  ⟨isPlain_account, by decide +kernel, readsBack isPlain_account⟩

/-- The class `X` in a file with this frame. -/
def framed (frame : Frame) : Class := { name := "X", frame }

/-- A file is made, and its namespace and imports are read back as others. -/
def isMisread (c : Class) : Bool :=
  match c.build with
  | .ok made =>
    (parse (made.value.print usualIndent)).toOption.map (fun f => (f.summary.space, f.summary.imports)) !=
      some (c.frame.space.map withoutRoot, c.frame.imports.map withoutRoot)
  | .error _ => false

theorem not_readsBack_of_isMisread (h : c.isMisread = true) : ¬c.ReadsBack := by
  intro same
  rw [isMisread] at h
  split at h
  next made built =>
    obtain ⟨f, read, summary⟩ := same made built
    rw [read] at h
    simp [Except.toOption, summary, fileSummary] at h
  next => cases h

/-- Not every name is read back: an import is trimmed and loses its backslash, and what is left may be a keyword, or
whitespace may stand in front of it. -/
theorem not_readsBack :
    (IsNameBut ["function", "const"] "\\function" ∧ ¬(framed { imports := ["\\function"] }).ReadsBack) ∧
      (IsName "A\u00a0" ∧ ¬(framed { imports := ["A\u00a0"] }).ReadsBack) ∧
      (IsName "B\u00a0" ∧ ¬(framed { imports := ["A as B\u00a0"] }).ReadsBack) ∧
      (IsName "\\\u00a0A" ∧ ¬(framed { imports := ["\\\u00a0A"] }).ReadsBack) ∧
      (IsName "\\\u00a0A" ∧ ¬(framed { space := some "\\\u00a0A" }).ReadsBack) := by
  refine ⟨⟨?_, ?_⟩, ⟨?_, ?_⟩, ⟨?_, ?_⟩, ⟨?_, ?_⟩, ?_, ?_⟩
  all_goals first
    | exact not_readsBack_of_isMisread (by decide +kernel)
    | decide +kernel

end Descriptor.Class

end Codewright.Php
