import Codewright.Proofs.Php.MemberText
import Codewright.Proofs.Text.Search

/-!
# The text of a file with a class

* `Spaced` – documents one after the other, with or without blank lines between them: `Spaced.spells`;
* `Descriptor.Class.IsPlain` – the classes that have neither doc comments nor bodies, and whose names are names;
* `Descriptor.Class.entries`, `Descriptor.Section` – the members of such a class, and the statements of its file;
* `Descriptor.Class.build_eq` – these are what is made; `Descriptor.Class.spells` – the tokens of the printed file.
-/

namespace Codewright.Php

open Text Source

/-! ## Blank lines -/

/-- The documents one after the other, perhaps with blank lines in front of some. -/
inductive Spaced : List Doc → Doc → Prop
  | nil : Spaced [] []
  | cons {gap d e : Doc} {ds : List Doc} (blank : gap = [] ∨ gap = Doc.blankLine) (tail : Spaced ds e) :
    Spaced (d :: ds) (gap ++ d ++ e)

theorem spaced_separateMembers (before : Option MemberKind) (afterComment : Bool) (members : List (Member × Doc)) :
    Spaced (members.map Prod.snd) (separateMembers before afterComment members) := by
  induction members generalizing before afterComment with
  | nil => exact .nil
  | cons m members ih =>
    refine .cons ?_ (ih _ _)
    split
    · split
      · exact .inr rfl
      · exact .inl rfl
    · exact .inl rfl

theorem spaced_separateStmts (before : Option StmtGroup) (afterComment : Bool) (stmts : List (Stmt × Doc)) :
    Spaced (stmts.map Prod.snd) (separateStmts before afterComment stmts) := by
  induction stmts generalizing before afterComment with
  | nil => exact .nil
  | cons s stmts ih =>
    refine .cons ?_ (ih _ _)
    split
    · split
      · exact .inr rfl
      · exact .inl rfl
    · exact .inl rfl

/-- All members are printed. -/
theorem spaced_printedMembers (n : Nat) (members : List Member) :
    Spaced (members.map (Node.doc n)) (printedMembers members (members.map (Node.doc n))) := by
  have spaced := spaced_separateMembers none false (members.zip (members.map (Node.doc n)))
  rwa [List.map_snd_zip (by simp)] at spaced

/-- All statements are printed, if none of them prints nothing. -/
theorem spaced_printedTopLevel (n : Nat) {stmts : List Stmt} (no_nop : ∀ s ∈ stmts, s.isNop = false) :
    Spaced (stmts.map (Node.doc n)) (printedTopLevel stmts (stmts.map (Node.doc n))) := by
  have all : (stmts.zip (stmts.map (Node.doc n))).filter (fun p => !p.1.isNop) = stmts.zip (stmts.map (Node.doc n)) :=
    List.filter_eq_self.2 fun p hp => by rw [no_nop p.1 (List.of_mem_zip hp).1]; rfl
  have spaced := spaced_separateStmts none false (stmts.zip (stmts.map (Node.doc n)))
  rw [List.map_snd_zip (by simp)] at spaced
  rwa [printedTopLevel, all]

/-- Blank lines between documents change no tokens. -/
theorem Spaced.spells {ι : Type} {items : List ι} {doc : ι → Doc} {faces : ι → List Face} {unit : String} {d : Doc}
    (spaced : Spaced (items.map doc) d) (h : ∀ i ∈ items, ∀ rest, Lexer.Spells (Doc.chars unit (doc i)) (faces i) rest)
    (rest : List Char) : Lexer.Spells (Doc.chars unit d) (items.flatMap faces) rest := by
  induction items generalizing d with
  | nil =>
    cases spaced
    exact .nil rest
  | cons i items ih =>
    cases spaced with
    | cons blank tail =>
      have others := ih tail fun i hi => h i (by simp [hi])
      rw [Doc.chars_append, Doc.chars_append, List.append_assoc, List.flatMap_cons]
      have both := (h i (by simp) _).append others
      rcases blank with rfl | rfl
      · exact both
      · rw [Doc.chars_blankLine]
        exact both.newline

/-- Statements with blank lines between them spell the tokens of each. -/
theorem spells_topLevel {ι : Type} {items : List ι} {node : ι → Stmt} {faces : ι → List Face} {unit : String} {n : Nat}
    (no_nop : ∀ i, (node i).isNop = false)
    (h : ∀ i ∈ items, ∀ rest, Lexer.Spells (Doc.chars unit (Node.doc n (node i))) (faces i) rest) (rest : List Char) :
    Lexer.Spells (Doc.chars unit (printedTopLevel (items.map node) ((items.map node).map (Node.doc n))))
      (items.flatMap faces) rest := by
  have all : ∀ s ∈ items.map node, s.isNop = false := by
    intro s hs
    obtain ⟨i, -, rfl⟩ := List.mem_map.1 hs
    exact no_nop i
  have item (i : ι) (hi : i ∈ items) (rest : List Char) :
      Lexer.Spells (Doc.chars unit ((Node.doc n ∘ node) i)) (faces i) rest := h i hi rest
  exact Spaced.spells (List.map_map ▸ spaced_printedTopLevel n all) item rest

/-! ## Imports -/

/-- A name without the backslashes in front of it. -/
def withoutRoot (name : Name) : Name := String.ofList (name.toList.dropWhile (· == '\\'))

/-- The name can be imported: it is not trimmed, and without the backslash in front of it is still a name, and neither
`function` nor `const`. -/
structure IsImportName (name : Name) : Prop where
  isName : IsName name
  trimmed : trimmed name = name
  bare : IsNameBut ["function", "const"] (withoutRoot name)

/-- The text of an import: a name, perhaps with another one behind `as`. -/
inductive IsImportText : String → Prop
  | plain {name : Name} (h : IsImportName name) : IsImportText name
  | renamed {name new : Name} (h : IsImportName name) (isName : IsName new) (trimmed : trimmed new = new) :
    IsImportText (name ++ " as " ++ new)

/-- What is imported can be printed. -/
def Import.IsPrintable (i : Import) : Prop :=
  IsNameBut ["function", "const"] i.name ∧ ∀ new ∈ i.rename, IsName new

namespace Descriptor

/-- What an import with this text brings in. -/
def imported (text : String) : Import :=
  match importOf text with
  | .useDecl _ (i :: _) => i
  | _ => default

theorem importOf_eq (text : String) : importOf text = .useDecl .normal [imported text] := by
  rw [imported, importOf]

theorem cutAt_eq_none {c : Char} {needle s : List Char} (other : c ∉ s) : cutAt (c :: needle) s = none :=
  (cutAt_eq_none_iff (List.cons_ne_nil c needle)).2 fun inside => other (inside.subset (List.mem_cons_self ..))

theorem cutAt_append {c : Char} {needle s t : List Char} (other : c ∉ s) :
    cutAt (c :: needle) (s ++ (c :: needle ++ t)) = some (s, c :: needle ++ t) := by
  induction s with
  | nil =>
    have here : (c :: needle).isPrefixOf (c :: needle ++ t) = true := by simp
    rw [List.nil_append, List.cons_append, cutAt, ← List.cons_append, if_pos here]
  | cons d s ih =>
    simp only [List.mem_cons, not_or] at other
    rw [List.cons_append, cutAt, ih other.2]
    simp [List.isPrefixOf, other.1]

/-- Of an import a summary says its text without the backslash in front. -/
theorem imported_spec {text : String} (h : IsImportText text) :
    (imported text).IsPrintable ∧ Summary.importText .normal (imported text) = withoutRoot text := by
  have no_space {name : Name} (h : IsName name) : ' ' ∉ name.toList := Lexer.IsName.not_mem h (by decide)
  have whole {name : Name} (h : trimmed name = name) : trim name.toList = name.toList := by
    rw [← String.toList_ofList (l := trim name.toList)]
    exact congrArg String.toList h
  cases h with
  | plain h =>
    have same : imported text = ⟨withoutRoot text, none⟩ := by
      rw [imported, importOf, show " as ".toList = ' ' :: ['a', 's', ' '] from rfl, cutAt_eq_none (no_space h.isName)]
      simp only [whole h.trimmed]
      rfl
    rw [same]
    exact ⟨⟨h.bare, by simp⟩, by simp [Summary.importText]⟩
  | @renamed name new h isName trimmed =>
    have same : imported (name ++ " as " ++ new) = ⟨withoutRoot name, some new⟩ := by
      have chars : (name ++ " as " ++ new).toList = name.toList ++ (' ' :: ['a', 's', ' '] ++ new.toList) := by
        simp
      rw [imported, importOf, chars, show " as ".toList = ' ' :: ['a', 's', ' '] from rfl,
        cutAt_append (no_space h.isName)]
      simp only [whole h.trimmed]
      exact congrArg (Import.mk _ ∘ some) trimmed
    have ne_nil : (name.toList.dropWhile (· == '\\')).isEmpty = false := by
      obtain ⟨c, cs, chars, -⟩ := Lexer.IsName.exists_cons h.bare.1
      rw [withoutRoot, String.toList_ofList] at chars
      rw [chars]
      rfl
    have bare : withoutRoot (name ++ " as " ++ new) = withoutRoot name ++ " as " ++ new := by
      rw [← String.toList_inj]
      simp [withoutRoot, List.dropWhile_append, ne_nil]
    rw [same, bare]
    exact ⟨⟨h.bare, by simpa using isName⟩, by simp [Summary.importText, String.append_assoc]⟩

/-! ## Namespaces -/

/-- No name has a backslash at its end. -/
theorem dropWhileEnd_backslash {cs : List Char} (h : Lexer.nameLength cs = cs.length) :
    dropWhileEnd (· == '\\') cs = cs := by
  induction cs with
  | nil => rfl
  | cons c cs ih =>
    rw [Lexer.nameLength] at h
    split at h
    next goes_on =>
      have tail : dropWhileEnd (· == '\\') cs = cs := ih (by simpa using h)
      rw [dropWhileEnd] at tail
      rw [dropWhileEnd, List.foldr_cons, tail, if_neg]
      rintro last
      rw [Bool.and_eq_true, List.isEmpty_iff, beq_iff_eq] at last
      obtain ⟨rfl, rfl⟩ := last
      revert goes_on
      decide
    next => cases h

theorem spaceOf?_some {space : Name} (h : IsName (withoutRoot space)) :
    spaceOf? (some space) = some (withoutRoot space) := by
  obtain ⟨c, cs, chars, no_space, start, length⟩ := Lexer.IsName.exists_cons h
  rw [withoutRoot, String.toList_ofList] at chars
  have no_end : dropWhileEnd (· == '\\') (c :: cs) = c :: cs := by
    have tail := dropWhileEnd_backslash length
    rw [dropWhileEnd] at tail
    rw [dropWhileEnd, List.foldr_cons, tail, if_neg]
    intro last
    rw [Bool.and_eq_true, List.isEmpty_iff, beq_iff_eq] at last
    obtain ⟨rfl, rfl⟩ := last
    revert start
    decide
  rw [spaceOf?, Option.bind_some, chars, no_end, withoutRoot, chars]
  rfl

/-! ## What is made of classes -/

/-- The entries of a class in the order in which they are printed. -/
def Class.entries (c : Class) : List Entry :=
  (if c.traits.isEmpty then [] else [.traits c.traits]) ++ c.constants.map .constant ++ c.properties.map .property ++
    c.methods.map .method

/-- The modifiers of a class. -/
def Class.modifiers (c : Class) : Modifiers := { Modifiers.none with isAbstract := c.isAbstract, isFinal := c.isFinal }

/-- What is made of the head of a class without a doc comment. -/
def Class.decl (c : Class) : ClassDecl := ⟨.cls c.modifiers c.parent c.interfaces, c.name, none, [], .nowhere⟩

/-- A namespace and imports whose names are names, also without a backslash in front. -/
structure Frame.IsPlain (f : Frame) : Prop where
  space : ∀ name ∈ f.space, IsName name ∧ IsName (withoutRoot name)
  imports : ∀ text ∈ f.imports, IsImportText text

/-- What is printed of the namespace and the imports is names. -/
structure Frame.IsPrintable (f : Frame) : Prop where
  space : ∀ name ∈ spaceOf? f.space, IsName name
  imports : ∀ text ∈ f.imports, (imported text).IsPrintable

theorem Frame.IsPlain.spaceOf?_eq {f : Frame} (h : f.IsPlain) : spaceOf? f.space = f.space.map withoutRoot := by
  cases space : f.space with
  | none => rfl
  | some name => exact spaceOf?_some (h.space name (by simp [space])).2

theorem Frame.IsPlain.isPrintable {f : Frame} (h : f.IsPlain) : f.IsPrintable := by
  refine ⟨fun name member => ?_, fun text ht => (imported_spec (h.imports text ht)).1⟩
  rw [h.spaceOf?_eq, Option.mem_def, Option.map_eq_some_iff] at member
  obtain ⟨name, named, rfl⟩ := member
  exact (h.space name named).2

/-- A class without doc comments and bodies whose names are names, whose types are canonical, and whose numbers are
numerals. -/
structure Class.IsPlain (c : Class) : Prop where
  frame : c.frame.IsPlain
  parent : ∀ name ∈ c.parent, IsName name
  interfaces : ∀ name ∈ c.interfaces, IsName name
  traits : ∀ name ∈ c.traits, IsName name
  constants : ∀ k ∈ c.constants, k.IsPlain
  properties : ∀ p ∈ c.properties, p.IsPlain
  methods : ∀ m ∈ c.methods, m.IsPlain
  doc : c.doc = none

/-- The class can be printed. -/
structure Class.IsPrintable (c : Class) : Prop where
  name : isIdentifier c.name.toList = true
  consistent : (c.isAbstract && c.isFinal) = false
  parent : ∀ name ∈ c.parent, IsName name
  interfaces : ∀ name ∈ c.interfaces, IsName name
  entries : ∀ e ∈ c.entries, e.IsPrintable

/-- The statement with the class. -/
def Class.node (c : Class) : Stmt := .classLike c.decl (.ofList (c.entries.map (Entry.node literalOf)))

theorem Class.all_entries (c : Class) :
    Built.all (traitsMember c.traits ++ c.constants.map (fun k => ⟨k.node literalOf, []⟩) ++
      c.properties.map (fun p => ⟨p.node literalOf, []⟩) ++ c.methods.map fun m => ⟨m.node literalOf, []⟩) =
      ⟨c.entries.map (Entry.node literalOf), []⟩ := by
  have traits : (traitsMember c.traits).map Built.value =
      (if c.traits.isEmpty then [] else [Entry.traits c.traits]).map (Entry.node literalOf) := by
    rw [traitsMember]
    split <;> rfl
  have no_warning : (traitsMember c.traits).flatMap Built.warnings = [] := by
    rw [traitsMember]
    split <;> rfl
  simp [Built.all, entries, traits, no_warning, Function.comp_def, Entry.node]

theorem Class.build_eq {c : Class} (h : c.IsPlain) {made : Built File} (built : c.build = .ok made) :
    c.IsPrintable ∧ made = ⟨c.frame.file c.node, []⟩ := by
  rw [build] at built
  simp only [checkName, refuseIf] at built
  split at built
  next is_identifier =>
    split at built
    · cases built
    next consistent =>
      cases constants : c.constants.mapM Constant.build with
      | error _ =>
        rw [constants] at built
        cases built
      | ok ks =>
        cases properties : c.properties.mapM Property.build with
        | error _ =>
          rw [constants, properties] at built
          cases built
        | ok ps =>
          cases methods : c.methods.mapM Method.build with
          | error _ =>
            rw [constants, properties, methods] at built
            cases built
          | ok ms =>
            rw [constants, properties, methods] at built
            obtain ⟨ks_ok, rfl⟩ := mapM_eq_ok (fun k _ _ => Constant.build_eq) constants
            have property_eq (p : Property) (hp : p ∈ c.properties) (made : Built Member) (built : p.build = .ok made) :
                isIdentifier (bareName p.name).toList = true ∧ made = ⟨p.node literalOf, []⟩ := by
              obtain ⟨is_identifier, -, same⟩ := Property.build_eq (h.properties p hp).doc built
              exact ⟨is_identifier, same⟩
            obtain ⟨ps_ok, rfl⟩ := mapM_eq_ok property_eq properties
            obtain ⟨ms_ok, rfl⟩ := mapM_eq_ok (fun m hm _ => Method.build_eq (h.methods m hm)) methods
            cases built
            refine ⟨⟨is_identifier, by simpa using consistent, h.parent, h.interfaces, fun e he => ?_⟩, ?_⟩
            · simp only [entries, List.mem_append, List.mem_map] at he
              rcases he with ((traits | ⟨k, hk, rfl⟩) | ⟨p, hp, rfl⟩) | ⟨m, hm, rfl⟩
              · split at traits
                · cases traits
                next some_trait =>
                  rw [List.mem_singleton] at traits
                  subst traits
                  exact ⟨by simpa using some_trait, h.traits⟩
              · exact ⟨h.constants k hk, ks_ok k hk⟩
              · exact ⟨(h.properties p hp).isWritable, ps_ok p hp⟩
              · exact ⟨(h.methods m hm).isWritable, ms_ok m hm⟩
            · rw [Frame.declare, h.doc, all_entries]
              rfl
  next => cases built

/-! ## Tokens of a class -/

/-- The modifiers of a class in the order in which they are printed. -/
def Class.words (c : Class) : List Modifier :=
  (if c.isAbstract then [Modifier.abstract] else []) ++ (if c.isFinal then [Modifier.final] else [])

/-- The tokens of the parent behind its keyword, if there is one. -/
def parentFaces (parent : Option Name) : List Face := parent.elim [] fun name => [(.ident, "extends"), (.ident, name)]

/-- The tokens of the interfaces behind their keyword, if there are any. -/
def interfaceFaces (names : List Name) : List Face :=
  if names.isEmpty then [] else (.ident, "implements") :: commaFaces (names.map nameFaces)

/-- The tokens of the members in braces. -/
def Class.bodyFaces (c : Class) : List Face :=
  (.openBrace, "\x7b") :: (c.entries.flatMap Entry.faces ++ [(.closeBrace, "\x7d")])

/-- The tokens of the class behind its modifiers. -/
def Class.bareFaces (c : Class) : List Face :=
  (.ident, "class") :: (.ident, c.name) :: (parentFaces c.parent ++ (interfaceFaces c.interfaces ++ c.bodyFaces))

/-- The tokens of the class. -/
def Class.faces (c : Class) : List Face := c.words.map Modifier.face ++ c.bareFaces

theorem Class.toList_modifiers (c : Class) :
    (wordIf c.isAbstract "abstract" ++ wordIf c.isFinal "final").toList = wordsChars c.words := by
  rw [words]
  cases c.isAbstract <;> cases c.isFinal <;> rfl

theorem Class.chars_node (unit : String) (n : Nat) (c : Class) :
    Doc.chars unit (Node.doc n c.node) = (List.replicate n unit.toList).flatten ++
      (wordsChars c.words ++ ("class".toList ++ ' ' :: (c.name.toList ++ ((parentText c.parent c.interfaces).toList ++
        '\n' :: ((List.replicate n unit.toList).flatten ++ '\x7b' :: '\n' ::
          (Doc.chars unit (printedMembers (c.entries.map (Entry.node literalOf))
            ((c.entries.map (Entry.node literalOf)).map (Node.doc (n + 1)))) ++
            ((List.replicate n unit.toList).flatten ++ ['\x7d', '\n']))))))) := by
  have printed : (Node.doc n c.node : Doc) = Doc.line n [.text (wordIf c.isAbstract "abstract" ++
      wordIf c.isFinal "final" ++ "" ++ "class " ++ c.name ++ parentText c.parent c.interfaces)] ++
      bracedBelow n (printedMembers (Node.ofList (c.entries.map (Entry.node literalOf))).toList
        (Node.doc (n + 1) (.ofList (c.entries.map (Entry.node literalOf))))) := rfl
  rw [printed, Node.toList_ofList, Node.doc_ofList, ← Class.toList_modifiers]
  simp [Doc.chars_line, bracedBelow]

/-- Names behind a keyword, in front of the end of a line. -/
theorem spells_names {names : List Name} (h : ∀ name ∈ names, IsName name) {b : List Char} {fs : List Face}
    {rest : List Char} (tail : Lexer.Spells ('\n' :: b) fs rest) :
    Lexer.Spells ((namesText names).toList ++ '\n' :: b) (commaFaces (names.map nameFaces) ++ fs) rest := by
  have items : Lexer.SpellsApart (Doc.commaChars (names.map String.toList)) (commaFaces (names.map nameFaces)) :=
    .commas (List.forall₂_map_left_iff.2 <| List.forall₂_map_right_iff.2 <|
      List.forall₂_same.2 fun name hn _ boundary =>
      Lexer.IsName.spells (h name hn) (.of_boundary boundary))
  have chars : (namesText names).toList = Doc.commaChars (names.map String.toList) := by
    simp [namesText, Doc.intercalate_comma]
  rw [chars]
  exact (items _ (Lexer.boundary_cons (by decide) _)).append tail

theorem endsName_clause (keyword : String) (names : List Name) (rest : List Char) :
    Lexer.EndsName ((clauseText keyword names).toList ++ '\n' :: rest) := by
  rw [clauseText]
  split
  · rfl
  · simp only [String.toList_append, List.append_assoc]
    rfl

theorem endsName_clauses (parent : Option Name) (interfaces : List Name) (rest : List Char) :
    Lexer.EndsName ((parentText parent interfaces).toList ++ '\n' :: rest) := by
  cases parent with
  | none => simpa [parentText] using endsName_clause "implements" interfaces rest
  | some name =>
    simp only [parentText, String.toList_append, List.append_assoc]
    rfl

theorem spells_clauses {parent : Option Name} {interfaces : List Name} (parent_ok : ∀ name ∈ parent, IsName name)
    (interfaces_ok : ∀ name ∈ interfaces, IsName name) {b : List Char} {fs : List Face} {rest : List Char}
    (tail : Lexer.Spells ('\n' :: b) fs rest) :
    Lexer.Spells ((parentText parent interfaces).toList ++ '\n' :: b)
      (parentFaces parent ++ (interfaceFaces interfaces ++ fs)) rest := by
  have others : Lexer.Spells ((clauseText "implements" interfaces).toList ++ '\n' :: b)
      (interfaceFaces interfaces ++ fs)
      rest := by
    rw [clauseText, interfaceFaces]
    split
    · exact tail
    · have word : IsName "implements" := by decide
      simpa using ((spells_names interfaces_ok tail).word word).space
  have ends : Lexer.EndsName ((clauseText "implements" interfaces).toList ++ '\n' :: b ++ rest) := by
    rw [List.append_assoc]
    exact endsName_clause _ _ _
  cases parent with
  | none => simpa [parentText, parentFaces] using others
  | some name =>
    have word : IsName "extends" := by decide
    simpa [parentText, parentFaces] using ((others.name (parent_ok name rfl) ends).word word).space

theorem Class.spells {c : Class} (h : c.IsPrintable) {unit : String} (blank : ∀ d ∈ unit.toList, isSpace d = true)
    (n : Nat)
    (rest : List Char) : Lexer.Spells (Doc.chars unit (Node.doc n c.node)) c.faces rest := by
  have members : Lexer.Spells (Doc.chars unit (printedMembers (c.entries.map (Entry.node literalOf))
      ((c.entries.map (Entry.node literalOf)).map (Node.doc (n + 1))))) (c.entries.flatMap Entry.faces)
      ((List.replicate n unit.toList).flatten ++ ['\x7d', '\n'] ++ rest) := by
    have spaced := spaced_printedMembers (n + 1) (c.entries.map (Entry.node literalOf))
    have entry (e : Entry) (he : e ∈ c.entries) (rest : List Char) :
        Lexer.Spells (Doc.chars unit ((Node.doc (n + 1) ∘ Entry.node literalOf) e)) e.faces rest :=
      Entry.spells blank (n + 1) rest (h.entries e he)
    exact Spaced.spells (List.map_map ▸ spaced) entry _
  have close : Lexer.Spells ((List.replicate n unit.toList).flatten ++ ['\x7d', '\n']) [(.closeBrace, "\x7d")] rest :=
    .indent blank n (.closeBrace (.newline (.nil rest)))
  rw [Class.chars_node]
  refine .indent blank n (.words _ (.word (by decide) (.name (Lexer.isName_of_isIdentifier h.name) ?_ ?_)))
  · rw [List.append_assoc]
    exact endsName_clauses _ _ _
  · refine spells_clauses h.parent h.interfaces (.newline (.indent blank n (.openBrace (.newline ?_))))
    exact members.append close

/-! ## Statements of a file -/

/-- A statement beside namespaces: the declaration of strict types, an import, or the class. -/
inductive Part where
  | strict
  | use (i : Import)
  | cls (c : Class)

/-- A statement of a file: a part, or a namespace with parts. -/
inductive Section where
  | part (p : Part)
  | space (name : Name) (parts : List Part)

namespace Part

/-- What is made of a part. -/
def node : Part → Stmt
  | strict => .declare (.ofList [.directive "strict_types" (.literal (.int "1"))])
  | use i => .useDecl .normal [i]
  | cls c => c.node

/-- The tokens of a part. -/
def faces : Part → List Face
  | strict => (.ident, "declare") :: (.openParen, "(") :: (.ident, "strict_types") :: (.assign, "=") :: (.int, "1") ::
      [(.closeParen, ")"), (.semicolon, ";")]
  | use i => (.ident, "use") :: (.ident, i.name) ::
      (i.rename.elim [] (fun new => [(.ident, "as"), (.ident, new)]) ++ [(.semicolon, ";")])
  | cls c => c.faces

/-- The part can be printed. -/
def IsPrintable : Part → Prop
  | strict => True
  | use i => i.IsPrintable
  | cls c => c.IsPrintable

theorem isNop_node (p : Part) : p.node.isNop = false := by
  cases p <;> rfl

variable {unit : String} (blank : ∀ d ∈ unit.toList, isSpace d = true) (n : Nat) (rest : List Char)

include blank

theorem spells_strict : Lexer.Spells (Doc.chars unit (Node.doc n strict.node)) strict.faces rest := by
  have printed : (Node.doc n strict.node : Doc) =
    Doc.line n [.text "declare(", .text "strict_types=", .text "1", .text ");"] := rfl
  have chars : Doc.chars unit (Node.doc n strict.node) = (List.replicate n unit.toList).flatten ++
      ("declare".toList ++ '(' :: ("strict_types".toList ++ '=' :: ("1".toList ++ [')', ';', '\n']))) := by
    rw [printed, Doc.chars_line]
    simp
  have value :
      Lexer.Spells ("1".toList ++ [')', ';', '\n']) [(.int, "1"), (.closeParen, ")"), (.semicolon, ";")] rest :=
    (Lexer.spells_decimal ⟨by decide, by decide⟩ (Lexer.boundary_cons (by decide) _)).append
      (.closeParen (.semicolon (.newline (.nil rest))))
  have opens : Lexer.OpensNoCast ("strict_types".toList ++ '=' :: ("1".toList ++ [')', ';', '\n']) ++ rest) := by
    have start : "strict_types".toList = "strict".toList ++ '_' :: "types".toList := by decide
    rw [start, List.append_assoc, List.append_assoc]
    exact .append (by simp) (.cons (by decide) (by decide) _)
  rw [chars]
  refine .indent blank n (.name (by decide) rfl (.openParen opens (.name (by decide) rfl (value.mark rfl))))

theorem spells_use {i : Import} (h : i.IsPrintable) :
    Lexer.Spells (Doc.chars unit (Node.doc n (use i).node)) (use i).faces rest := by
  have printed : (Node.doc n (use i).node : Doc) =
    Doc.line n [.text ("use " ++ "" ++ String.intercalate ", " [i.text] ++ ";")] := rfl
  have chars : Doc.chars unit (Node.doc n (use i).node) = (List.replicate n unit.toList).flatten ++
      ("use".toList ++ ' ' :: (i.text.toList ++ [';', '\n'])) := by
    rw [printed, Doc.chars_line]
    simp
  have ends : Lexer.Spells [';', '\n'] [(.semicolon, ";")] rest := .semicolon (.newline (.nil rest))
  have stop : Lexer.EndsName ([';', '\n'] ++ rest) := rfl
  rw [chars, faces]
  refine .indent blank n (.word (by decide) ?_)
  cases new : i.rename with
  | none => simpa [Import.text, new] using ends.name h.1.1 stop
  | some name =>
    have is_name : IsName name := h.2 name (by simp [new])
    have as : IsName "as" := by decide
    simpa [Import.text, new] using ((ends.name is_name stop).word as).word h.1.1

/-- The text of a part spells its tokens. -/
theorem spells {p : Part} (h : p.IsPrintable) : Lexer.Spells (Doc.chars unit (Node.doc n p.node)) p.faces rest := by
  cases p with
  | strict => exact spells_strict blank n rest
  | use i => exact spells_use blank n rest h
  | cls c => exact Class.spells h blank n rest

end Part

namespace Section

/-- What is made of a section. -/
def node : Section → Stmt
  | part p => p.node
  | space name parts => .namespaceDecl (some name) (.ofList (parts.map Part.node)) false .nowhere

/-- The tokens of a section. -/
def faces : Section → List Face
  | part p => p.faces
  | space name parts => (.ident, "namespace") :: (.ident, name) :: (.semicolon, ";") :: parts.flatMap Part.faces

/-- The section can be printed. -/
def IsPrintable : Section → Prop
  | part p => p.IsPrintable
  | space name parts => IsName name ∧ ∀ p ∈ parts, p.IsPrintable

theorem isNop_node (s : Section) : s.node.isNop = false := by
  cases s with
  | part p => exact p.isNop_node
  | space name parts => rfl

variable {unit : String} (blank : ∀ d ∈ unit.toList, isSpace d = true) (n : Nat) (rest : List Char)

include blank

/-- The text of a section spells its tokens. -/
theorem spells {s : Section} (h : s.IsPrintable) : Lexer.Spells (Doc.chars unit (Node.doc n s.node)) s.faces rest := by
  cases s with
  | part p => exact Part.spells blank n rest h
  | space name parts =>
    have inner : Lexer.Spells (Doc.chars unit (printedTopLevel (parts.map Part.node)
        ((parts.map Part.node).map (Node.doc n)))) (parts.flatMap Part.faces) rest :=
      spells_topLevel Part.isNop_node (fun p hp rest => Part.spells blank n rest (h.2 p hp)) rest
    have printed : (Node.doc n (space name parts).node : Doc) = Doc.line n [.text ("namespace " ++ name ++ ";")] ++
        if (Node.ofList (parts.map Part.node)).toList.all Stmt.isNop then []
        else Doc.blankLine ++ printedTopLevel (Node.ofList (parts.map Part.node)).toList
          (Node.doc n (.ofList (parts.map Part.node))) := rfl
    have body : Lexer.Spells (Doc.chars unit (if (parts.map Part.node).all Stmt.isNop then [] else Doc.blankLine ++
        printedTopLevel (parts.map Part.node) ((parts.map Part.node).map (Node.doc n)))) (parts.flatMap Part.faces)
        rest := by
      cases parts with
      | nil => exact .nil rest
      | cons p ps =>
        rw [List.map_cons, List.all_cons, p.isNop_node, Bool.false_and, if_neg (by decide), Doc.chars_append,
          Doc.chars_blankLine]
        exact inner.newline
    rw [printed, Node.toList_ofList, Node.doc_ofList, Doc.chars_append, Doc.chars_line]
    have head : Lexer.Spells ("namespace".toList ++ ' ' :: (name.toList ++ ';' :: '\n' :: Doc.chars unit
        (if (parts.map Part.node).all Stmt.isNop then [] else Doc.blankLine ++
          printedTopLevel (parts.map Part.node)
            ((parts.map Part.node).map (Node.doc n))))) (space name parts).faces rest :=
      .word (by decide) (.name h.1 rfl body.newline.semicolon)
    simpa using head.indent blank n

end Section

/-! ## The file -/

namespace Class

variable {c : Class}

/-- The imports and the class. -/
def parts (c : Class) : List Part := c.frame.imports.map (fun text => .use (imported text)) ++ [.cls c]

/-- The statements of the file with the class. -/
def sections (c : Class) : List Section :=
  (if c.frame.strictTypes then [.part .strict] else []) ++
    match spaceOf? c.frame.space with
    | some name => [.space name c.parts]
    | none => c.parts.map .part

theorem file_eq (c : Class) : c.frame.file c.node = ⟨.ofList (c.sections.map Section.node), .nowhere⟩ := by
  have parts : c.frame.imports.map importOf ++ [c.node] = c.parts.map Part.node := by
    simp [Class.parts, importOf_eq, Part.node]
  have strict : (if c.frame.strictTypes then [Part.strict.node] else []) =
      (if c.frame.strictTypes then [Section.part .strict] else []).map Section.node := by
    split <;> rfl
  rw [Frame.file, parts, sections, List.map_append, ← strict]
  cases spaceOf? c.frame.space with
  | none =>
    rw [List.map_map]
    rfl
  | some name => rfl

theorem sections_isPrintable (h : c.frame.IsPrintable) (printable : c.IsPrintable) : ∀ s ∈ c.sections, s.IsPrintable := by
  have parts : ∀ p ∈ c.parts, p.IsPrintable := by
    intro p hp
    simp only [Class.parts, List.mem_append, List.mem_map, List.mem_singleton] at hp
    rcases hp with ⟨text, ht, rfl⟩ | rfl
    · exact h.imports text ht
    · exact printable
  intro s hs
  rw [sections, List.mem_append] at hs
  rcases hs with strict | body
  · split at strict
    · rw [List.mem_singleton] at strict
      rw [strict]
      exact trivial
    · cases strict
  · split at body
    next name space =>
      rw [List.mem_singleton] at body
      rw [body]
      exact ⟨h.space name space, parts⟩
    next =>
      obtain ⟨p, hp, rfl⟩ := List.mem_map.1 body
      exact parts p hp

theorem sections_ne_nil (c : Class) : c.sections ≠ [] := by
  rw [sections, parts]
  cases spaceOf? c.frame.space <;> simp

/-- The printed file is the tokens of its sections behind an opening tag. -/
theorem spells_file (h : c.frame.IsPrintable) (printable : c.IsPrintable) {unit : String}
    (blank : ∀ d ∈ unit.toList, isSpace d = true) : ∃ cs,
      ((c.frame.file c.node).print unit).toList = Lexer.openingTag '\n' ++ cs ∧
        Lexer.Spells cs (c.sections.flatMap Section.faces) [] := by
  have inner : Lexer.Spells (Doc.chars unit (printedTopLevel (c.sections.map Section.node)
      ((c.sections.map Section.node).map (Node.doc 0)))) (c.sections.flatMap Section.faces) [] :=
    spells_topLevel Section.isNop_node
      (fun s hs rest => Section.spells blank 0 rest (sections_isPrintable h printable s hs)) []
  have some_stmt : (c.sections.map Section.node).all Stmt.isNop = false := by
    obtain ⟨s, ss, sections⟩ := List.exists_cons_of_ne_nil c.sections_ne_nil
    rw [sections, List.map_cons, List.all_cons, s.isNop_node, Bool.false_and]
  refine ⟨_, ?_, inner.newline⟩
  rw [file_eq]
  change Doc.chars unit (File.doc _) = _
  rw [File.doc]
  simp only [Node.toList_ofList, Node.doc_ofList, some_stmt]
  simp [Lexer.openingTag]

end Class

end Descriptor

end Codewright.Php
