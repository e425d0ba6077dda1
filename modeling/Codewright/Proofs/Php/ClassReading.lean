import Codewright.Proofs.Php.ClassText
import Codewright.Proofs.Php.MemberReading

/-!
# Reading a file with a class

The tokens of the file that is made of the descriptor of a class are read as statements of which a summary says what the
descriptor says.

* `ShowsStmts` – a summary says of some statements what their sections say;
* `Descriptor.Class.finds`, `Descriptor.Part.finds`, `Descriptor.Section.finds` – statements, one by one;
* `Descriptor.Class.finds_file` – all of them.
-/

namespace Codewright.Php

open Text Source

/-! ## What a summary says of statements -/

namespace Descriptor

/-- What a summary says of the class. -/
def Class.summary (c : Class) : Summary.Class :=
  ⟨c.name, c.parent, c.interfaces, c.modifiers, c.traits, c.constants.map Constant.name, c.methods.map Method.summary,
    c.properties.map Property.summary⟩

namespace Part

/-- What a summary lists of the part among the imports. -/
def imports : Part → List String
  | use i => [Summary.importText .normal i]
  | _ => []

/-- What a summary lists of the part among the classes. -/
def classes : Part → List Summary.Class
  | cls c => [c.summary]
  | _ => []

end Part

namespace Section

/-- The name of the section, if it is a namespace. -/
def space? : Section → Option (Option Name)
  | space name _ => some (some name)
  | part _ => none

/-- What a summary lists of the section among the imports. -/
def imports : Section → List String
  | space _ parts => parts.flatMap Part.imports
  | part p => p.imports

/-- What a summary lists of the section among the classes. -/
def classes : Section → List Summary.Class
  | space _ parts => parts.flatMap Part.classes
  | part p => p.classes

end Section

end Descriptor

/-- The declarations of a list are those of its entries. -/
theorem Node.declarations_ofList {c : Category} (xs : List (Node c)) :
    (Node.ofList xs).declarations = xs.flatMap Node.declarations := by
  induction xs with
  | nil => rfl
  | cons x xs ih => rw [ofList, declarations_cons, ih, List.flatMap_cons]

/-- A summary says of the statements what the sections say, and nothing else. -/
structure ShowsStmts (xs : List Stmt) (ss : List Descriptor.Section) : Prop where
  space : (File.mk (.ofList xs) .nowhere).firstNamespace? = ss.findSome? Descriptor.Section.space?
  imports : Summary.importsOf (xs.flatMap Node.declarations) = ss.flatMap Descriptor.Section.imports
  classes : Summary.classesOf (xs.flatMap Node.declarations) = ss.flatMap Descriptor.Section.classes
  interfaces : Summary.interfacesOf (xs.flatMap Node.declarations) = []
  traits : Summary.traitDeclsOf (xs.flatMap Node.declarations) = []
  enums : Summary.enumsOf (xs.flatMap Node.declarations) = []
  functions : Summary.functionsOf (xs.flatMap Node.declarations) = []

namespace ShowsStmts

variable {xs xs' : List Stmt} {ss ss' : List Descriptor.Section}

theorem append (h : ShowsStmts xs ss) (h' : ShowsStmts xs' ss') : ShowsStmts (xs ++ xs') (ss ++ ss') := by
  obtain ⟨space, imports, classes, interfaces, traits, enums, functions⟩ := h
  obtain ⟨space', imports', classes', interfaces', traits', enums', functions'⟩ := h'
  constructor
  case space =>
    simp only [File.firstNamespace?, Node.toList_ofList, List.findSome?_append] at *
    rw [space, space']
  all_goals
    simp only [Summary.importsOf, Summary.classesOf, Summary.interfacesOf, Summary.traitDeclsOf, Summary.enumsOf,
      Summary.functionsOf, List.flatMap_append, List.filterMap_append] at *
    simp only [*, List.append_nil]

/-- Comments say nothing. -/
theorem comments {xs : List Stmt} (h : ∀ x ∈ xs, ∃ text, x = .comment text) : ShowsStmts xs [] := by
  have none : xs.flatMap Node.declarations = [] := by
    rw [List.flatMap_eq_nil_iff]
    intro x hx
    obtain ⟨text, rfl⟩ := h x hx
    rfl
  constructor
  case space =>
    rw [File.firstNamespace?, Node.toList_ofList, List.findSome?_nil, List.findSome?_eq_none_iff]
    intro x hx
    obtain ⟨text, rfl⟩ := h x hx
    rfl
  all_goals rw [none]; rfl

end ShowsStmts

/-! ## Classes -/

/-- No member declares anything that a summary of the file lists. -/
theorem Member.unlisted (xs : List Member) {ds : List Declaration} (same : ds = xs.flatMap Node.declarations) :
    Summary.importsOf ds = [] ∧ Summary.classesOf ds = [] ∧ Summary.interfacesOf ds = [] ∧
      Summary.traitDeclsOf ds = [] ∧ Summary.enumsOf ds = [] ∧ Summary.functionsOf ds = [] := by
  subst same
  induction xs with
  | nil => exact ⟨rfl, rfl, rfl, rfl, rfl, rfl⟩
  | cons x xs ih =>
    rw [List.flatMap_cons]
    cases x <;> exact ih

namespace Descriptor

theorem Class.flatMap_entries (c : Class) : c.entries.flatMap Entry.traitNames = c.traits ∧
    c.entries.flatMap Entry.constantNames = c.constants.map Constant.name ∧
      c.entries.flatMap Entry.methods = c.methods.map Method.summary ∧
        c.entries.flatMap Entry.properties = c.properties.map Property.summary := by
  have none {α β : Type} (xs : List α) : xs.flatMap (fun _ => ([] : List β)) = [] :=
    List.flatMap_eq_nil_iff.2 fun _ _ => rfl
  rw [entries]
  cases traits : c.traits
  all_goals
    simp [List.flatMap_map, Entry.traitNames, Entry.constantNames, Entry.methods, Entry.properties, none,
      ← List.map_eq_flatMap]

theorem Class.shows {c : Class} {xs : List Member} (h : ShowsMembers xs c.entries) (doc : Option String) (span : Span) :
    ShowsStmts [.classLike ⟨c.decl.kind, c.name, doc, [], span⟩ (.ofList xs)] [.part (.cls c)] := by
  obtain ⟨imports, classes, interfaces, traits, enums, functions⟩ := Member.unlisted xs rfl
  obtain ⟨traitNames, constantNames, methods, properties⟩ := c.flatMap_entries
  have declared : [Node.classLike ⟨c.decl.kind, c.name, doc, [], span⟩ (.ofList xs)].flatMap Node.declarations =
      .classLike ⟨c.decl.kind, c.name, doc, [], span⟩ (.ofList xs) :: xs.flatMap Node.declarations := by
    rw [List.flatMap_singleton, Node.declarations_classLike, Node.declarations_ofList]
  constructor
  case space => rfl
  all_goals rw [declared]
  case imports => exact imports
  case interfaces => exact interfaces
  case traits => exact traits
  case enums => exact enums
  case functions => exact functions
  case classes =>
    have first : Summary.classesOf (.classLike ⟨c.decl.kind, c.name, doc, [], span⟩ (.ofList xs) ::
        xs.flatMap Node.declarations) =
      ⟨c.name, c.parent, c.interfaces, c.modifiers, Summary.traitsOf (Node.ofList xs).declarations,
        Summary.constantsOf (Node.ofList xs).declarations,
        Summary.Method.ofMembers (Node.ofList xs).declarations,
          Summary.Property.ofMembers (Node.ofList xs).declarations⟩ ::
        Summary.classesOf (xs.flatMap Node.declarations) := rfl
    rw [first, classes, Node.declarations_ofList, h.traits, h.constants, h.methods, h.properties, traitNames,
      constantNames, methods, properties]
    rfl

theorem Class.addAll?_words (c : Class) : Modifiers.none.addAll? c.words = some c.modifiers := by
  rw [words, modifiers]
  cases c.isAbstract <;> cases c.isFinal <;> rfl

theorem Class.mem_words {c : Class} {w : Modifier} (h : w ∈ c.words) : w ∈ [Modifier.abstract, .final, .readonly] := by
  revert h
  rw [words]
  cases c.isAbstract <;> cases c.isFinal <;> revert w <;> decide

theorem Class.reads_modifiers {c : Class} (consistent : (c.isAbstract && c.isFinal) = false) (rest : List Face) :
    Reads Parse.classModifiers (c.words.map Modifier.face) c.modifiers ((.ident, "class") :: rest) := by
  refine Reads.bind_nil (.refine_words c.addAll?_words ?round ?last) ?_
  case round =>
    intro m m' w hw added r
    simp only [Modifiers.addAll?] at added
    split at added
    · cases added
    next fresh =>
      cases added
      rw [Bool.not_eq_true, Bool.or_eq_false_iff] at fresh
      refine Reads.get_bind fun s hs => ?_
      rw [Parse.nextModifier?_face (mem_words hw) hs]
      simp only [fresh.1, Bool.false_eq_true, if_false]
      exact Reads.skip (by decide) (.pure _ r)
  case last =>
    intro m
    refine Reads.get_bind fun s hs => ?_
    rw [Parse.nextModifier?_none (by decide) hs]
    exact .pure _ _
  have consistent : (c.modifiers.isAbstract && c.modifiers.isFinal) = false := consistent
  rw [consistent]
  exact .pure _ _

theorem reads_parent (parent : Option Name) {f : Face} (rest : List Face) (other : f.isKeyword "extends" = false) :
    Reads Parse.parent (parentFaces parent) parent (f :: rest) := by
  cases parent with
  | none => exact Reads.afterKeyword_none other
  | some name => exact Reads.afterKeyword_some (by decide) (Reads.expectIdent _)

theorem reads_interfaces (names : List Name) (rest : List Face) :
    Reads (Parse.interfaces "implements") (interfaceFaces names) names ((.openBrace, "\x7b") :: rest) := by
  rw [interfaceFaces]
  split
  next none =>
    rw [List.isEmpty_iff.1 none]
    exact (Reads.afterKeyword_none (by decide)).map fun names? : Option (List Name) => names?.getD []
  next some_name =>
    have items : List.Forall₂ (fun fs name => ∀ r, True → Reads (Parse.expectIdent "interface name") fs name r)
        (names.map nameFaces) names :=
      List.forall₂_map_left_iff.2 <| List.forall₂_same.2 fun name _ r _ => Reads.expectIdent _
    have list : Reads (Parse.nameList "interface name") (commaFaces (names.map nameFaces)) names
        ((.openBrace, "\x7b") :: rest) :=
      Reads.commaList items (by simpa using some_name) (by decide) (fun _ => trivial) trivial
    exact (Reads.afterKeyword_some (by decide) list).map fun names? : Option (List Name) => names?.getD []

theorem Class.reads_head {c : Class} (consistent : (c.isAbstract && c.isFinal) = false) (rest : List Face) :
    Reads Grammar.classHead
      (c.words.map Modifier.face ++ (.ident, "class") :: (.ident, c.name) ::
        (parentFaces c.parent ++ interfaceFaces c.interfaces))
      (c.name, c.decl.kind) ((.openBrace, "\x7b") :: rest) := by
  have clauses : Reads (do
      let parent ← Parse.parent
      return (c.name, ClassKind.cls c.modifiers parent (← Parse.interfaces "implements")))
      (parentFaces c.parent ++ interfaceFaces c.interfaces) (c.name, c.decl.kind) ((.openBrace, "\x7b") :: rest) := by
    refine Reads.bind ?_ ((reads_interfaces c.interfaces rest).map
      fun names => (c.name, ClassKind.cls c.modifiers c.parent names))
    rw [interfaceFaces]
    split
    · exact reads_parent _ _ (by decide)
    · exact reads_parent _ _ (by decide)
  refine Reads.bind (reads_modifiers consistent _) (Reads.expectKeyword (by decide) ?_)
  exact (Reads.expectIdent _).cons_bind clauses

theorem Class.finds_classLike {c : Class} (h : c.IsPrintable) {n : Nat} (enough : 3 * c.faces.length ≤ n)
    (doc : Option String) (rest : List Face) : Finds ((Grammar.upTo n).classLike doc [] Grammar.classHead) c.faces
      (fun x => ShowsStmts [x] [.part (.cls c)]) rest := by
  have parts : c.faces = (c.words.map Modifier.face ++ (.ident, "class") :: (.ident, c.name) ::
      (parentFaces c.parent ++ interfaceFaces c.interfaces)) ++ c.bodyFaces := by
    simp [faces, bareFaces]
  rw [parts]
  simp only [parts, bodyFaces, List.length_append, List.length_cons] at enough
  refine Finds.get_bind fun s _ => Finds.bind_reads (reads_head h.consistent _) ?_
  refine Finds.bind_nil (finds_members h.entries (by omega) rest) fun members shows => Finds.get_bind fun s' _ => ?_
  exact Finds.pure (P := fun x => ShowsStmts [x] [.part (.cls c)]) (Class.shows shows doc _) rest

/-! ## Where statements begin -/

theorem isClassModifier_eq (t : Token) : Stream.isClassModifier t =
    (t.face.isKeyword "abstract" || t.face.isKeyword "final" || t.face.isKeyword "readonly") := rfl

/-- The words in front of a class are passed over. -/
theorem map_dropWhile_isClassModifier {ws : List Modifier} (h : ∀ w ∈ ws, w ∈ [Modifier.abstract, .final, .readonly])
    {ts : List Token} {fs : List Face} (hs : ts.map Token.face = ws.map Modifier.face ++ (.ident, "class") :: fs) :
    (ts.dropWhile Stream.isClassModifier).map Token.face = (.ident, "class") :: fs := by
  induction ws generalizing ts with
  | nil =>
    obtain ⟨t, ts, rfl, face, left⟩ := List.map_eq_cons_iff.1 hs
    have stop : Stream.isClassModifier t = false := by
      rw [isClassModifier_eq, face]
      decide
    rw [List.dropWhile_cons, stop]
    exact hs
  | cons w ws ih =>
    obtain ⟨t, ts, rfl, face, left⟩ := List.map_eq_cons_iff.1 hs
    have goes_on : Stream.isClassModifier t = true := by
      rw [isClassModifier_eq, face]
      exact (show ∀ w ∈ [Modifier.abstract, .final, .readonly], (w.face.isKeyword "abstract" ||
        w.face.isKeyword "final" ||
        w.face.isKeyword "readonly") = true by decide) w (h w (by simp))
    rw [List.dropWhile_cons, goes_on]
    exact ih (fun w hw => h w (by simp [hw])) left

/-- A class begins behind its modifiers with its word and its name. -/
theorem atClass_of_words {ws : List Modifier} (h : ∀ w ∈ ws, w ∈ [Modifier.abstract, .final, .readonly]) {name : String}
    {s : Stream} {fs : List Face} (hs : s.faces = ws.map Modifier.face ++ (.ident, "class") :: (.ident, name) :: fs) :
    s.atClass = true := by
  have left := map_dropWhile_isClassModifier h hs
  obtain ⟨t, ts, tokens, face, left⟩ := List.map_eq_cons_iff.1 left
  obtain ⟨u, us, rfl, face', -⟩ := List.map_eq_cons_iff.1 left
  have word : t.isKeyword "class" = true := by
    change t.face.isKeyword "class" = true
    rw [face]
    decide
  have named : u.kind = .ident := congrArg Prod.fst face'
  rw [Stream.atClass, tokens]
  simp [word, named]

theorem atClass_eq_false {s : Stream} {f : Face} {fs : List Face} (hs : s.faces = f :: fs)
    (no_word : ∀ word ∈ ["abstract", "final", "readonly", "class"], f.isKeyword word = false) : s.atClass = false := by
  obtain ⟨t, ts, tokens, face, -⟩ := List.map_eq_cons_iff.1 hs
  have stop : Stream.isClassModifier t = false := by
    rw [isClassModifier_eq, face, no_word "abstract" (by decide), no_word "final" (by decide),
      no_word "readonly" (by decide)]
    rfl
  have no_class : t.isKeyword "class" = false := by
    rw [← no_word "class" (by decide), ← face]
    rfl
  rw [Stream.atClass, tokens, List.dropWhile_cons, stop]
  cases ts with
  | nil => rfl
  | cons u us => simp [no_class]

theorem atDeclaration_eq_false {s : Stream} {f : Face} {fs : List Face} (hs : s.faces = f :: fs)
    (no_attribute : f.1 ≠ .attributeGroup)
    (no_word : ∀ word ∈ ["abstract", "final", "readonly", "class", "interface", "trait", "enum", "function"],
      f.isKeyword word = false) : s.atDeclaration = false := by
  have no_class := atClass_eq_false hs fun word hw => no_word word (List.mem_append_left _ hw)
  have others : s.atAnyKeyword ["interface", "trait", "enum"] = false := by
    simp [Stream.atAnyKeyword, Stream.atKeyword_eq hs, no_word]
  rw [Stream.atDeclaration, Stream.atFunction, Stream.at_eq hs, Stream.atKeyword_eq hs, no_class, others,
    no_word "function" (by decide)]
  simpa using no_attribute

/-! ## Statements -/

/-- A class is read as a class of which a summary says the same. -/
theorem Class.finds {c : Class} (h : c.IsPrintable) {n : Nat} (enough : 3 * c.faces.length ≤ n) (rest : List Face) :
    Finds (Grammar.upTo (n + 1)).stmt c.faces (fun x => ShowsStmts [x] [.part (.cls c)]) rest := by
  have here {s : Stream} (hs : s.faces = c.faces ++ rest) : s.atClass = true := by
    rw [faces, bareFaces, List.append_assoc] at hs
    exact atClass_of_words (fun w hw => mem_words hw) hs
  have declared (doc : Option String) : Finds ((Grammar.upTo n).declarationOf doc []) c.faces
      (fun x => ShowsStmts [x] [.part (.cls c)]) rest := by
    refine Finds.get_bind fun s hs => ?_
    rw [if_pos (here hs)]
    exact Class.finds_classLike h enough doc rest
  have no_attribute : Begins (·.1 ≠ .attributeGroup) c.faces := by
    rw [faces, bareFaces, words]
    cases c.isAbstract <;> cases c.isFinal <;> exact ⟨_, _, rfl, by decide⟩
  change Finds (Grammar.upTo n).statement c.faces _ rest
  refine Finds.get_bind fun s hs => ?_
  rw [if_pos (by rw [Stream.atDeclaration, here hs]; simp)]
  refine Finds.nil_bind .takeDoc fun before _ => ?_
  refine Finds.nil_bind (P := (· = [])) ((Reads.attributes_nil (no_attribute.append rest)).finds rfl) ?_
  rintro _ rfl
  cases before with
  | some doc => exact declared (some doc)
  | none => exact Finds.nil_bind .takeDoc fun doc _ => declared doc

namespace Part

/-- A statement that begins with a word that is no label and begins no declaration. -/
theorem reads_word {n : Nat} {word : String} {f : Face} {fs rest : List Face} {x : Stmt}
    (no_word : ∀ w ∈ ["abstract", "final", "readonly", "class", "interface", "trait", "enum", "function"],
      Face.isKeyword (.ident, word) w = false) (no_label : f.1 ≠ .colon)
    (h : ∀ s : Stream, s.faces = (.ident, word) :: f :: fs ++ rest →
      Reads ((Grammar.upTo n).wordStmt (asciiLower word)) ((.ident, word) :: f :: fs) x rest) :
    Reads (Grammar.upTo (n + 1)).stmt ((.ident, word) :: f :: fs) x rest := by
  change Reads (Grammar.upTo n).statement _ x rest
  refine Reads.get_bind fun s hs => ?_
  rw [if_neg (by rw [atDeclaration_eq_false hs (by simp) no_word]; simp), Stream.kind_eq hs]
  have label : Grammar.atLabel s = false := by
    rw [Grammar.atLabel, Stream.hasAt_one_eq hs]
    simp [no_label]
  have text : s.peek.text = word := congrArg Prod.snd (Stream.face_peek hs)
  simp only [label, text]
  exact h s hs

theorem reads_strict {n : Nat} (enough : 3 ≤ n) (rest : List Face) :
    Reads (Grammar.upTo (n + 1)).stmt strict.faces strict.node rest := by
  have value : Reads (Grammar.upTo n).anyExpr [(.int, "1")] (.literal (.int "1"))
        ((.closeParen, ")") :: (.semicolon, ";") :: rest) :=
    reads_literal (v := .number "1") (show IsNumeral "1" by decide) enough (.closeParen _)
  have directive : Reads (do
      let name ← Parse.expectIdent "directive name"
      let _ ← Parse.expect .assign
      return Node.directive name (← (Grammar.upTo n).anyExpr)) [(.ident, "strict_types"), (.assign, "="), (.int, "1")]
      (.directive "strict_types" (.literal (.int "1"))) ((.closeParen, ")") :: (.semicolon, ";") :: rest) :=
    (Reads.expectIdent _).cons_bind (Reads.expect (by decide) (value.map (Node.directive "strict_types")))
  have directives : Reads (Parse.enclosedBy .openParen .closeParen _) ((.openParen, "(") :: ([(.ident, "strict_types"),
      (.assign, "="), (.int, "1")] ++ [(.closeParen, ")")])) [Node.directive "strict_types" (.literal (.int "1"))]
      ([(.semicolon, ";")] ++ rest) :=
    Reads.enclosedBy (by decide) (by decide) (Reads.commaList_single directive (by decide))
  have declared : Reads (Grammar.upTo n).declareStmt strict.faces strict.node rest := by
    refine Reads.expectKeyword (by decide) (Reads.bind directives ?_)
    refine Reads.get_bind fun s hs => ?_
    rw [Stream.at_eq hs, Stream.at_eq hs]
    exact Reads.expectSemicolon.bind_nil (.pure _ rest)
  refine reads_word (by decide) (by decide) fun s _ => ?_
  have word : asciiLower "declare" = "declare" := by decide
  rw [word, Grammar.wordStmt]
  exact Reads.get_bind fun _ _ => declared

/-- What is read of an import behind its keyword, in front of a semicolon. -/
theorem reads_importItems (i : Import) (rest : List Face) : Reads Parse.importItems
    ((.ident, i.name) :: i.rename.elim [] fun new => [(.ident, "as"), (.ident, new)]) [i]
      ((.semicolon, ";") :: rest) := by
  have rename : Reads Parse.importRename (i.rename.elim [] fun new => [(.ident, "as"), (.ident, new)]) i.rename
      ((.semicolon, ";") :: rest) := by
    cases i.rename with
    | none => exact Reads.afterKeyword_none (by decide)
    | some new => exact Reads.afterKeyword_some (by decide) (Reads.expectIdent _)
  refine (Reads.expectIdent _).cons_bind (Reads.get_bind fun s hs => ?_)
  have no_group : s.at_ .backslash = false := by
    cases new : i.rename with
    | none =>
      rw [new] at hs
      rw [Stream.at_eq hs]
      rfl
    | some name =>
      rw [new] at hs
      rw [Stream.at_eq hs]
      rfl
  rw [no_group, Bool.false_and, if_neg (by decide)]
  exact rename.map fun rename => [Import.mk i.name rename]

theorem reads_use {i : Import} (h : i.IsPrintable) (n : Nat) (rest : List Face) :
    Reads (Grammar.upTo (n + 1)).stmt (use i).faces (use i).node rest := by
  have kind : Reads Parse.importKind [] .normal ((use i).faces.tail ++ rest) := by
    refine Reads.nil_bind (Reads.tryKeyword_false (h.1.2 "function" (by decide))) ?_
    exact Reads.nil_bind (Reads.tryKeyword_false (h.1.2 "const" (by decide))) (.pure _ _)
  have items : Reads (Parse.commaList Parse.importItems)
      ((.ident, i.name) :: i.rename.elim [] fun new => [(.ident, "as"), (.ident, new)]) [[i]]
      ([(.semicolon, ";")] ++ rest) :=
    Reads.commaList_single (reads_importItems i rest) (by decide)
  have behind : Reads (do
      let items ← Parse.commaList Parse.importItems
      Parse.expectSemicolon
      return Node.useDecl .normal items.flatten) (use i).faces.tail (use i).node rest := by
    refine Reads.bind items ?_
    exact Reads.expectSemicolon.bind_nil (.pure _ rest)
  have imported : Reads Parse.useDecl (use i).faces (use i).node rest :=
    Reads.expectKeyword (by decide) (Reads.nil_bind kind behind)
  refine reads_word (f := (.ident, i.name)) (by decide) (by simp) fun s _ => ?_
  have word : asciiLower "use" = "use" := by decide
  rw [word, Grammar.wordStmt]
  exact Reads.get_bind fun _ _ => imported

/-- A part is read as a statement of which a summary says the same. -/
theorem finds {p : Part} (h : p.IsPrintable) {n : Nat} (enough : 3 * p.faces.length ≤ n) (rest : List Face) :
    Finds (Grammar.upTo (n + 1)).stmt p.faces (fun x => ShowsStmts [x] [.part p]) rest := by
  cases p with
  | strict =>
    have length : 3 ≤ n := Nat.le_trans (show 3 ≤ 3 * strict.faces.length by decide) enough
    exact (reads_strict length rest).finds ⟨rfl, rfl, rfl, rfl, rfl, rfl, rfl⟩
  | use i => exact (reads_use h n rest).finds ⟨rfl, rfl, rfl, rfl, rfl, rfl, rfl⟩
  | cls c => exact Class.finds h enough rest

/-- A part begins with a word, and not with `namespace`. -/
theorem begins_faces (p : Part) : Begins (fun f => f.1 = .ident ∧ f.isKeyword "namespace" = false) p.faces := by
  cases p with
  | strict => exact ⟨_, _, rfl, rfl, by decide⟩
  | use i => exact ⟨_, _, rfl, rfl, by decide⟩
  | cls c =>
    rw [faces, Class.faces, Class.bareFaces, Class.words]
    cases c.isAbstract <;> cases c.isFinal <;> exact ⟨_, _, rfl, rfl, by decide⟩

theorem faces_ne_nil (p : Part) : p.faces ≠ [] := by
  obtain ⟨f, fs, first, -⟩ := p.begins_faces
  rw [first]
  exact List.cons_ne_nil _ _

/-- The parts of a namespace are read up to the end. -/
theorem finds_namespaceBody {ps : List Part} (h : ∀ p ∈ ps, p.IsPrintable) {n : Nat}
    (enough : 3 * (ps.flatMap faces).length ≤ n) :
    Finds (Grammar.upTo (n + 1)).namespaceBody (ps.flatMap faces) (fun xs => ShowsStmts xs (ps.map .part))
      [eofFace] := by
  refine Finds.collect_items (fun xs ps => ShowsStmts xs (ps.map .part)) (fun fs => ∀ f ∈ fs, f.1 ∈ Parse.fillers) []
    ?append ?round ?last (fun p _ => p.faces_ne_nil) (by simp) (by simp)
  case append =>
    intro xs xs' ps ps' shows shows'
    rw [List.map_append]
    exact shows.append shows'
  case round =>
    intro passed fillers p is suffix
    have hp : p ∈ ps := suffix.mem (by simp)
    have size : p.faces.length ≤ (ps.flatMap faces).length :=
      (List.sublist_flatten_of_mem (List.mem_map_of_mem hp)).length_le
    have read := finds (h p hp) (n := n) (by omega) (is.flatMap faces ++ [eofFace])
    obtain ⟨f, fs, first, word, no_namespace⟩ := p.begins_faces
    refine Finds.leading passed fillers ?_ fun comments s all hs => ?_
    · rw [first]
      exact .cons (by rw [word]; decide) _
    · rw [first] at hs
      have goes_on : (s.atEnd || s.atNamespace || s.at_ .closeBrace) = false := by
        rw [Stream.atEnd, Stream.atNamespace, Stream.at_eq hs, Stream.at_eq hs,
          Stream.atKeyword_eq hs, no_namespace, word]
        rfl
      rw [goes_on]
      exact read.map fun x shows => ⟨rfl, (ShowsStmts.comments all).append shows⟩
  case last =>
    intro passed fillers
    have whole : passed = passed ++ [] := (List.append_nil passed).symm
    rw [whole]
    refine Finds.leading passed fillers (.cons (by decide) _) fun comments s all hs => ?_
    have stops : s.atEnd = true := by
      rw [Stream.atEnd, Stream.at_eq hs]
      rfl
    rw [stops, Bool.true_or, Bool.true_or, if_pos rfl]
    exact .pure ⟨rfl, .comments all⟩ _

end Part

namespace Section

/-- The statements of a file are sections the last of which may be a namespace. -/
def SpaceIsLast (ss : List Section) : Prop := ∀ name parts rest, space name parts :: rest <:+ ss → rest = []

theorem shows_space {xs : List Stmt} {parts : List Part} (h : ShowsStmts xs (parts.map part))
    (name : Name) (span : Span) :
    ShowsStmts [.namespaceDecl (some name) (.ofList xs) false span] [.space name parts] := by
  have declared : [Node.namespaceDecl (some name) (.ofList xs) false span].flatMap Node.declarations =
      .space (some name) (.ofList xs) :: xs.flatMap Node.declarations := by
    rw [List.flatMap_singleton, Node.declarations_namespaceDecl, Node.declarations_ofList]
  constructor
  case space => rfl
  all_goals rw [declared]
  case imports =>
    have same := h.imports
    rw [List.flatMap_map] at same
    rw [List.flatMap_singleton]
    exact same
  case classes =>
    have same := h.classes
    rw [List.flatMap_map] at same
    rw [List.flatMap_singleton]
    exact same
  case interfaces => exact h.interfaces
  case traits => exact h.traits
  case enums => exact h.enums
  case functions => exact h.functions

/-- A namespace is read up to the end of the file. -/
theorem finds_space {parts : List Part} (h : ∀ p ∈ parts, p.IsPrintable) {n : Nat} {name : Name}
    (enough : 3 * (parts.flatMap Part.faces).length ≤ n) :
    Finds (Grammar.upTo (n + 1)).namespaceDecl (space name parts).faces (fun x => ShowsStmts [x] [.space name parts])
      [eofFace] := by
  refine Finds.get_bind fun s _ => Finds.cons_bind (Finds.expectKeyword (by decide)) fun _ _ => ?_
  refine Finds.get_bind fun s' hs => ?_
  have named : s'.at_ .ident = true := by
    rw [Stream.at_eq hs]
    rfl
  rw [named, if_pos rfl]
  refine Finds.cons_bind (Finds.advance (by decide)) fun t text => ?_
  refine Finds.nil_bind (P := (· = some name)) ((Reads.pure _ _).finds (congrArg some text)) ?_
  rintro _ rfl
  refine Finds.get_bind fun s' hs => ?_
  have no_brace : s'.at_ .openBrace = false := by
    rw [Stream.at_eq hs]
    rfl
  rw [no_brace, if_neg (by decide), if_neg (by simp)]
  refine Finds.cons_bind (P := fun _ => True) (Reads.expectSemicolon.finds trivial) fun _ _ => ?_
  refine Finds.bind_nil (Part.finds_namespaceBody h enough) fun xs shows => Finds.get_bind fun s' _ => ?_
  exact Finds.pure (P := fun x => ShowsStmts [x] [.space name parts]) (shows_space shows name _) [eofFace]

theorem faces_ne_nil (s : Section) : s.faces ≠ [] := by
  cases s with
  | part p => exact p.faces_ne_nil
  | space name parts => exact List.cons_ne_nil _ _

/-- The sections of a file, the last of which may be a namespace, are read behind an opening tag. -/
theorem finds_fileBody {ss : List Section} (h : ∀ s ∈ ss, s.IsPrintable) (last : SpaceIsLast ss) {n : Nat}
    (enough : 3 * (ss.flatMap faces).length ≤ n) : Finds (Grammar.upTo (n + 1)).fileBody
      ((.openTag, "<?php") :: ss.flatMap faces) (ShowsStmts · ss) [eofFace] := by
  refine Finds.collect_items ShowsStmts (fun fs => ∀ f ∈ fs, f.1 ∈ Parse.fillers) [(.openTag, "<?php")] .append
    ?round ?last
    (fun s _ => s.faces_ne_nil) (by simp) (by decide)
  case round =>
    intro passed fillers s is suffix
    have member : s ∈ ss := suffix.mem (by simp)
    have size : s.faces.length ≤ (ss.flatMap faces).length :=
      (List.sublist_flatten_of_mem (List.mem_map_of_mem member)).length_le
    cases s with
    | part p =>
      have read := p.finds (h _ member) (n := n) (by simp only [faces] at size; omega) (is.flatMap faces ++ [eofFace])
      obtain ⟨f, fs, first, word, no_namespace⟩ := p.begins_faces
      refine Finds.leading passed fillers ?_ fun comments s all hs => ?_
      · rw [faces, first]
        exact .cons (by rw [word]; decide) _
      · rw [faces, first] at hs
        have goes_on : s.atEnd = false ∧ s.atNamespace = false := by
          rw [Stream.atEnd, Stream.atNamespace, Stream.at_eq hs, Stream.atKeyword_eq hs, no_namespace, word]
          exact ⟨rfl, rfl⟩
        rw [goes_on.1, goes_on.2]
        exact read.map fun x shows => ⟨rfl, (ShowsStmts.comments all).append shows⟩
    | space name parts =>
      obtain rfl := last name parts is suffix
      obtain ⟨-, parts_ok⟩ : IsName name ∧ ∀ p ∈ parts, p.IsPrintable := h _ member
      simp only [faces, List.length_cons] at size
      refine Finds.leading passed fillers (.cons (by decide) _) fun comments s all hs => ?_
      have here : s.atEnd = false ∧ s.atNamespace = true := by
        rw [Stream.atEnd, Stream.atNamespace, Stream.at_eq hs, Stream.atKeyword_eq hs, Stream.hasAt_one_eq hs]
        have keyword : Face.isKeyword (.ident, "namespace") "namespace" = true := by decide
        exact ⟨rfl, by simp [keyword]⟩
      rw [here.1, here.2]
      exact (finds_space parts_ok (by omega)).map fun x shows => ⟨rfl, (ShowsStmts.comments all).append shows⟩
  case last =>
    intro passed fillers
    have whole : passed = passed ++ [] := (List.append_nil passed).symm
    rw [whole]
    refine Finds.leading passed fillers (.cons (by decide) _) fun comments s all hs => ?_
    have stops : s.atEnd = true := by
      rw [Stream.atEnd, Stream.at_eq hs]
      rfl
    rw [stops, if_pos rfl]
    exact .pure ⟨rfl, .comments all⟩ _

end Section

end Descriptor

end Codewright.Php
