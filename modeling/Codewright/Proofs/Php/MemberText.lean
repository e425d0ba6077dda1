import Codewright.Proofs.Php.ParameterText

/-!
# The text of the members of a class

* `Descriptor.Entry` – the members of a class as their descriptors; `Entry.node`, `Entry.faces` – the trees that are
  made of them, and their tokens;
* `Constant.build_eq`, `Property.build_eq`, `Method.build_eq` – these are the trees that are made;
* `Entry.spells` – the text of a member spells its tokens.
-/

namespace Codewright.Php

open Text Source

/-- A list whose entries are all made in the same way. -/
theorem mapM_eq_ok {ε α β : Type} {f : α → Except ε β} {g : α → β} {P : α → Prop} {xs : List α} {ys : List β}
    (h : ∀ x ∈ xs, ∀ y, f x = .ok y → P x ∧ y = g x) (made : xs.mapM f = .ok ys) :
    (∀ x ∈ xs, P x) ∧ ys = xs.map g := by
  induction xs generalizing ys with
  | nil =>
    cases made
    exact ⟨by simp, rfl⟩
  | cons x xs ih =>
    rw [List.mapM_cons] at made
    cases first : f x with
    | error _ =>
      rw [first] at made
      cases made
    | ok y =>
      rw [first] at made
      cases others : xs.mapM f with
      | error _ =>
        rw [others] at made
        cases made
      | ok zs =>
        rw [others] at made
        cases made
        obtain ⟨holds, rfl⟩ := h x (by simp) y first
        obtain ⟨all, rfl⟩ := ih (fun x hx => h x (by simp [hx])) others
        exact ⟨by simpa using ⟨holds, all⟩, rfl⟩

namespace Descriptor

/-- What may stand in a class. -/
inductive Entry where
  | traits (names : List Name)
  | constant (c : Constant)
  | property (p : Property)
  | method (m : Method)

/-! ## What is made of descriptors -/

/-- What is made of a constant, given what becomes of its value. -/
def Constant.node (value : Json → Expr) (c : Constant) : Member :=
  .classConst { modifiers := c.visibility.modifiers, doc := none, attributes := [] }
    (.ofList [.definition c.name (value c.value)])

/-- The modifiers of a property. -/
def Property.modifiers (p : Property) : Modifiers :=
  { p.visibility.modifiers with isStatic := p.isStatic, isReadonly := p.isReadonly }

/-- What is made of a property without a doc comment, given what becomes of its default value. -/
def Property.node (value : Json → Expr) (p : Property) : Member :=
  .property { modifiers := p.modifiers, type := p.type.map hintOf, doc := none, attributes := [], span := .nowhere }
    (.ofList [.varItem (bareName p.name) (.ofOption (p.default.map value))])

/-- What is made of a method without a doc comment and a body, given what becomes of the default values of its
parameters. -/
def Method.node (value : Json → Expr) (m : Method) : Member :=
  .method { name := m.name, modifiers := m.modifiers, byRef := false, returnType := m.returnType.map hintOf,
            doc := none, attributes := [], span := .nowhere }
    (.ofList (m.parameters.map (Parameter.node value))) (if m.isAbstract then .absent else .present .nil)

/-- What is made of an entry. -/
def Entry.node (value : Json → Expr) : Entry → Member
  | .traits names => .traitUse names []
  | .constant c => c.node value
  | .property p => p.node value
  | .method m => m.node value

/-- The words that cannot stand in the type of a property. -/
def memberWords : List String := Modifier.all.map Modifier.keyword ++ ["var", "const", "function"]

/-- A property without a doc comment whose type is canonical and whose numbers are numerals. -/
structure Property.IsPlain (p : Property) : Prop where
  type : ∀ text ∈ p.type, IsTypeText (IsNameBut memberWords) text
  default : ∀ v ∈ p.default, HasNumerals v
  doc : p.doc = none

/-- A property whose type is read back behind modifiers and whose numbers are numerals. -/
structure Property.IsWritable (p : Property) : Prop where
  type : ∀ text ∈ p.type, IsPrintedType memberWords text
  default : ∀ v ∈ p.default, HasNumerals v

theorem Property.IsPlain.isWritable {p : Property} (h : p.IsPlain) : p.IsWritable :=
  ⟨fun text ht => (h.type text ht).isPrintedType, h.default⟩

/-- A method without a doc comment and a body whose types are canonical and whose numbers are numerals. -/
structure Method.IsPlain (m : Method) : Prop where
  returnType : ∀ text ∈ m.returnType, IsTypeText (IsNameBut []) text
  parameters : ∀ p ∈ m.parameters, p.IsPlain
  body : m.body = none
  doc : m.doc = none

/-- A method whose return type is read back. -/
def Method.IsWritable (m : Method) : Prop := ∀ text ∈ m.returnType, IsPrintedType [] text

theorem Method.IsPlain.isWritable {m : Method} (h : m.IsPlain) : m.IsWritable :=
  fun text ht => (h.returnType text ht).isPrintedType

/-- The numbers in the value of a constant are numerals. -/
def Constant.IsPlain (c : Constant) : Prop := HasNumerals c.value

theorem Constant.build_eq {c : Constant} {made : Built Member} (built : c.build = .ok made) :
    isIdentifier c.name.toList = true ∧ made = ⟨c.node literalOf, []⟩ := by
  rw [build] at built
  simp only [checkName] at built
  split at built
  next is_identifier =>
    cases built
    exact ⟨is_identifier, rfl⟩
  next => cases built

theorem Property.build_eq {p : Property} (doc : p.doc = none) {made : Built Member} (built : p.build = .ok made) :
    isIdentifier (bareName p.name).toList = true ∧ (∀ text ∈ p.type, parseType text = .ok (hintOf text)) ∧
      made = ⟨p.node literalOf, []⟩ := by
  rw [build, doc] at built
  simp only [checkName, refuseIf] at built
  split at built
  next is_identifier =>
    split at built
    · cases built
    · split at built
      · cases built
      · cases type : typeOf? p.type with
        | error _ =>
          rw [type] at built
          cases built
        | ok τ? =>
          rw [type] at built
          cases built
          obtain ⟨rfl, parsed⟩ := typeOf?_eq_ok type
          exact ⟨is_identifier, parsed, rfl⟩
  next => cases built

theorem Method.buildHead_eq {m : Method} (h : m.IsPlain) {made : MethodDecl × Node (.list .param)}
    (built : m.buildHead = .ok made) :
    (isIdentifier m.name.toList = true ∧ (m.isAbstract && m.isFinal) = false ∧ ∀ p ∈ m.parameters, p.IsPrintable) ∧
      made = ({ name := m.name, modifiers := m.modifiers, byRef := false, returnType := m.returnType.map hintOf,
                doc := none, attributes := [], span := .nowhere },
              .ofList (m.parameters.map (Parameter.node literalOf))) := by
  rw [buildHead, h.doc] at built
  simp only [checkName, refuseIf] at built
  split at built
  next is_identifier =>
    split at built
    · cases built
    next consistent =>
      split at built
      · cases built
      · cases params : m.parameters.mapM Parameter.build with
        | error _ =>
          rw [params] at built
          cases built
        | ok nodes =>
          rw [params] at built
          have build_eq (p : Parameter) (hp : p ∈ m.parameters) (node : Node .param) (made : p.build = .ok node) :
              p.IsPrintable ∧ node = p.node literalOf := by
            obtain ⟨is_identifier, -, same⟩ := Parameter.build_eq made
            exact ⟨⟨(h.parameters p hp).isWritable, Lexer.isIdentifier_spec is_identifier⟩, same⟩
          obtain ⟨printable, rfl⟩ := mapM_eq_ok build_eq params
          cases type : typeOf? m.returnType with
          | error _ =>
            rw [type] at built
            cases built
          | ok τ? =>
            rw [type] at built
            cases built
            obtain ⟨rfl, -⟩ := typeOf?_eq_ok type
            exact ⟨⟨is_identifier, by simpa using consistent, printable⟩, rfl⟩
  next => cases built

theorem Method.build_eq {m : Method} (h : m.IsPlain) {made : Built Member} (built : m.build = .ok made) :
    (isIdentifier m.name.toList = true ∧ (m.isAbstract && m.isFinal) = false ∧ ∀ p ∈ m.parameters, p.IsPrintable) ∧
      made = ⟨m.node literalOf, []⟩ := by
  rw [build] at built
  cases head : m.buildHead with
  | error _ =>
    rw [head] at built
    cases built
  | ok parts =>
    obtain ⟨printable, rfl⟩ := Method.buildHead_eq h head
    refine ⟨printable, ?_⟩
    rw [head] at built
    have no_body : bodyOf m.name m.body = ⟨[], []⟩ := by rw [h.body]; rfl
    simp only [bind, Except.bind, no_body] at built
    rw [node]
    split at built
    next is_abstract =>
      cases built
      rw [if_pos is_abstract]
    next is_concrete =>
      cases built
      rw [if_neg is_concrete]
      rfl

/-! ## Tokens -/

/-- The tokens of a type behind a colon, if there is one. -/
def returnFaces (type? : Option String) : List Face := (type?.map hintOf).elim [] fun τ => (.colon, ":") :: τ.faces

/-- The modifiers of a method in the order in which they are printed. -/
def Method.words (m : Method) : List Modifier :=
  (if m.isAbstract then [Modifier.abstract] else []) ++ (if m.isFinal then [Modifier.final] else []) ++
    [m.visibility.word] ++ (if m.isStatic then [Modifier.static] else [])

/-- The modifiers of a property in the order in which they are printed. -/
def Property.words (p : Property) : List Modifier :=
  [p.visibility.word] ++ (if p.isStatic then [Modifier.static] else []) ++
    (if p.isReadonly then [Modifier.readonly] else [])

/-- The tokens of a constant behind its modifiers. -/
def Constant.bareFaces (c : Constant) : List Face :=
  (.ident, "const") :: (.ident, c.name) :: (.assign, "=") :: (literalFaces c.value ++ [(.semicolon, ";")])

/-- The tokens of a property behind its modifiers. -/
def Property.bareFaces (p : Property) : List Face :=
  (p.type.map hintOf).elim [] TypeHint.faces ++
    (.variable, bareName p.name) :: (initFaces p.default ++ [(.semicolon, ";")])

/-- The tokens of what ends a method: a semicolon or an empty body. -/
def Method.bodyFaces (m : Method) : List Face :=
  if m.isAbstract then [(.semicolon, ";")] else [(.openBrace, "\x7b"), (.closeBrace, "\x7d")]

/-- The tokens of a method behind its modifiers. -/
def Method.bareFaces (m : Method) : List Face :=
  (.ident, "function") :: (.ident, m.name) ::
    (Parameter.listFaces m.parameters ++ (returnFaces m.returnType ++ m.bodyFaces))

/-- The tokens of an entry. -/
def Entry.faces : Entry → List Face
  | .traits names => (.ident, "use") :: (commaFaces (names.map nameFaces) ++ [(.semicolon, ";")])
  | .constant c => [c.visibility.word].map Modifier.face ++ c.bareFaces
  | .property p => p.words.map Modifier.face ++ p.bareFaces
  | .method m => m.words.map Modifier.face ++ m.bareFaces

/-- The types and values of the entry can be read back, and its names can be printed. -/
def Entry.IsPrintable : Entry → Prop
  | .traits names => names ≠ [] ∧ ∀ name ∈ names, IsName name
  | .constant c => c.IsPlain ∧ isIdentifier c.name.toList = true
  | .property p => p.IsWritable ∧ isIdentifier (bareName p.name).toList = true
  | .method m => m.IsWritable ∧ isIdentifier m.name.toList = true ∧ (m.isAbstract && m.isFinal) = false ∧
      ∀ p ∈ m.parameters, p.IsPrintable

end Descriptor

/-! ## Spelled tokens -/

namespace Lexer.Spells

variable {b cs : List Char} {fs : List Face} {rest : List Char}

theorem blanks (h : ∀ c ∈ cs, isSpace c = true) (tail : Spells b fs rest) : Spells (cs ++ b) fs rest := by
  induction cs with
  | nil => exact tail
  | cons c cs ih => exact (ih fun d hd => h d (by simp [hd])).blank (h c (by simp))

/-- The start of a line, if the unit of indentation is blank. -/
theorem indent {unit : String} (blank : ∀ c ∈ unit.toList, isSpace c = true) (n : Nat) (tail : Spells b fs rest) :
    Spells ((List.replicate n unit.toList).flatten ++ b) fs rest := by
  refine tail.blanks fun c hc => ?_
  obtain ⟨cs, member, hc⟩ := List.mem_flatten.1 hc
  rw [List.eq_of_mem_replicate member] at hc
  exact blank c hc

end Lexer.Spells

namespace Descriptor

variable {unit : String} (blank : ∀ c ∈ unit.toList, isSpace c = true) (n : Nat) (rest : List Char)

include blank

theorem spells_traits {names : List Name} (h : ∀ name ∈ names, IsName name) :
    Lexer.Spells (Doc.chars unit (Node.doc n ((Entry.traits names).node literalOf)))
      (Entry.traits names).faces rest := by
  have chars : Doc.chars unit (Node.doc n ((Entry.traits names).node literalOf)) =
      (List.replicate n unit.toList).flatten ++
        ("use".toList ++ ' ' :: (Doc.commaChars (names.map String.toList) ++ [';', '\n'])) := by
    have printed : (Node.doc n ((Entry.traits names).node literalOf) : Doc) =
      Doc.line n [.text ("use " ++ namesText names ++ ";")] := rfl
    rw [printed, Doc.chars_line]
    simp [namesText, Doc.intercalate_comma]
  have items : Lexer.SpellsApart (Doc.commaChars (names.map String.toList)) (commaFaces (names.map nameFaces)) :=
    .commas (List.forall₂_map_left_iff.2 <| List.forall₂_map_right_iff.2 <|
      List.forall₂_same.2 fun name hn _ boundary =>
      Lexer.IsName.spells (h name hn) (.of_boundary boundary))
  rw [chars]
  refine .indent blank n (.word (by decide) ?_)
  exact (items _ (Lexer.boundary_cons (by decide) _)).append (.semicolon (.newline (.nil rest)))

theorem Constant.spells {c : Constant} (h : c.IsPlain) (is_identifier : isIdentifier c.name.toList = true) :
    Lexer.Spells (Doc.chars unit (Node.doc n (c.node literalOf))) (Entry.constant c).faces rest := by
  have chars : Doc.chars unit (Node.doc n (c.node literalOf)) = (List.replicate n unit.toList).flatten ++
      (wordsChars [c.visibility.word] ++ ("const".toList ++ ' ' :: (c.name.toList ++
        ' ' :: '=' :: ' ' :: (Node.chars unit n (literalOf c.value) ++ [';', '\n'])))) := by
    have printed : (Node.doc n (c.node literalOf) : Doc) =
      Doc.line n (.text (wordIf c.visibility.modifiers.isFinal "final" ++ c.visibility.modifiers.visibilityText ++
        "const ") :: (.text (c.name ++ " = ") :: (Node.doc n (literalOf c.value) : Doc)) ++ [.text ";"]) := rfl
    have words : (wordIf c.visibility.modifiers.isFinal "final" ++ c.visibility.modifiers.visibilityText).toList =
        wordsChars [c.visibility.word] := by
      cases c.visibility <;> rfl
    rw [printed, Doc.chars_line, ← words]
    simp [Node.chars]
  rw [chars]
  refine .indent blank n (.words _ (.word (by decide) (.name (Lexer.isName_of_isIdentifier is_identifier) rfl ?_)))
  exact .space (.assign ((spells_literal unit n h _ (Lexer.boundary_cons (by decide) _)).append
    (.semicolon (.newline (.nil rest)))))

omit blank in
theorem Property.toList_modifiers (p : Property) :
    (if p.modifiers.propertyText.isEmpty then "var " else p.modifiers.propertyText).toList = wordsChars p.words := by
  rw [modifiers, words]
  cases p.visibility <;> cases p.isStatic <;> cases p.isReadonly <;> rfl

theorem Property.spells {p : Property} (h : p.IsWritable) (is_identifier : isIdentifier (bareName p.name).toList = true) :
    Lexer.Spells (Doc.chars unit (Node.doc n (p.node literalOf))) (Entry.property p).faces rest := by
  have chars : Doc.chars unit (Node.doc n (p.node literalOf)) = (List.replicate n unit.toList).flatten ++
      (wordsChars p.words ++ ((typeText (p.type.map hintOf)).toList ++
        '$' :: ((bareName p.name).toList ++ (initChars unit n p.default ++ [';', '\n'])))) := by
    have printed : (Node.doc n (p.node literalOf) : Doc) =
      Doc.line n (.text ((if p.modifiers.propertyText.isEmpty then "var " else p.modifiers.propertyText) ++
        typeText (p.type.map hintOf)) :: (.text ("$" ++ bareName p.name) ::
          initDoc (Node.doc n (.ofOption (p.default.map literalOf)))) ++ [.text ";"]) := rfl
    rw [printed, Doc.chars_line, ← Property.toList_modifiers]
    simp [chars_initDoc]
  have ends : Lexer.Boundary ([';', '\n'] ++ rest) := Lexer.boundary_cons (by decide) _
  rw [chars]
  refine .indent blank n (.words _ (.typeText h.type (.var (Lexer.isIdentifier_spec is_identifier) ?_ ?_)))
  · rw [List.append_assoc]
    exact boundary_init unit n p.default ends
  · exact (spells_init unit n h.default _ ends).append (.semicolon (.newline (.nil rest)))

omit blank in
/-- A type behind a colon, if there is one, in front of the end of a declaration. -/
theorem spells_returnType {words : List String} {type? : Option String}
    (h : ∀ text ∈ type?, IsPrintedType words text) {b : List Char} {fs : List Face}
    (stop : Lexer.EndsName (b ++ rest)) (tail : Lexer.Spells b fs rest) :
    Lexer.Spells ((returnTypeText (type?.map hintOf)).toList ++ b) (returnFaces type? ++ fs) rest := by
  cases type? with
  | none => simpa [returnTypeText, returnFaces] using tail
  | some text =>
    have type : Lexer.Spells (hintOf text).text.toList (hintOf text).faces (b ++ rest) :=
      (h text rfl).spec.written.spells _ stop
    simpa [returnTypeText, returnFaces] using (type.append tail).colon

omit blank in
theorem Method.toList_modifiers (m : Method) :
    (wordIf m.modifiers.isAbstract "abstract" ++ wordIf m.modifiers.isFinal "final" ++ m.modifiers.visibilityText ++
      wordIf m.modifiers.isStatic "static").toList = wordsChars m.words := by
  rw [modifiers, words]
  cases m.visibility <;> cases m.isStatic <;> cases m.isAbstract <;> cases m.isFinal <;> rfl

/-- The characters of what ends a method. -/
def Method.bodyChars (unit : String) (n : Nat) (m : Method) : List Char :=
  if m.isAbstract then [';', '\n']
  else '\n' :: ((List.replicate n unit.toList).flatten ++ '\x7b' :: '\n' ::
    ((List.replicate n unit.toList).flatten ++ ['\x7d', '\n']))

theorem Method.spells_body (m : Method) : Lexer.Spells (m.bodyChars unit n) m.bodyFaces rest := by
  rw [bodyChars, bodyFaces]
  split
  · exact .semicolon (.newline (.nil rest))
  · exact .newline (.indent blank n (.openBrace (.newline (.indent blank n (.closeBrace (.newline (.nil rest)))))))

/-- The printed head of a method. -/
def Method.headDoc (n : Nat) (m : Method) : Doc :=
  .text (wordIf m.modifiers.isAbstract "abstract" ++ wordIf m.modifiers.isFinal "final" ++ m.modifiers.visibilityText ++
    wordIf m.modifiers.isStatic "static" ++ "function " ++ "" ++ m.name ++ "(") ::
    Doc.commas (m.parameters.map fun p => Node.doc n (p.node literalOf)) ++
    [.text (")" ++ returnTypeText (m.returnType.map hintOf))]

omit blank in
theorem Method.doc_node (m : Method) : (Node.doc n (m.node literalOf) : Doc) =
    if m.isAbstract then Doc.line n (m.headDoc n ++ [.text ";"]) else Doc.line n (m.headDoc n) ++ bracedBelow n [] := by
  have params : (Node.doc n (.ofList (m.parameters.map (Parameter.node literalOf))) : List Doc) =
      m.parameters.map fun p => Node.doc n (p.node literalOf) := by
    rw [Node.doc_ofList, List.map_map]
    rfl
  rw [node, headDoc, ← params]
  split <;> rfl

omit blank in
theorem Method.chars_node (m : Method) :
    Doc.chars unit (Node.doc n (m.node literalOf)) = (List.replicate n unit.toList).flatten ++
      (wordsChars m.words ++ ("function".toList ++ ' ' :: (m.name.toList ++ '(' ::
        (Doc.chars unit (Doc.commas (m.parameters.map fun p => Node.doc n (p.node literalOf))) ++
          ')' :: ((returnTypeText (m.returnType.map hintOf)).toList ++ m.bodyChars unit n))))) := by
  rw [Method.doc_node, headDoc, bodyChars, ← Method.toList_modifiers]
  split <;> simp [Doc.chars_line, bracedBelow]

theorem Method.spells {m : Method} (h : m.IsWritable) (is_identifier : isIdentifier m.name.toList = true)
    (printable : ∀ p ∈ m.parameters, p.IsPrintable) :
    Lexer.Spells (Doc.chars unit (Node.doc n (m.node literalOf))) (Entry.method m).faces rest := by
  have body := Method.spells_body blank n rest m
  have stop : Lexer.EndsName (m.bodyChars unit n ++ rest) := by
    rw [bodyChars]
    split <;> rfl
  rw [Method.chars_node]
  refine .indent blank n (.words _ (.word (by decide) (.name (Lexer.isName_of_isIdentifier is_identifier) rfl ?_)))
  exact Parameter.spells_list printable unit n (spells_returnType rest h stop body)

/-- The text of an entry spells its tokens, wherever it stands. -/
theorem Entry.spells {e : Entry} (h : e.IsPrintable) :
    Lexer.Spells (Doc.chars unit (Node.doc n (e.node literalOf))) e.faces rest := by
  cases e with
  | traits names => exact spells_traits blank n rest h.2
  | constant c => exact Constant.spells blank n rest h.1 h.2
  | property p => exact Property.spells blank n rest h.1 h.2
  | method m => exact Method.spells blank n rest h.1 h.2.1 h.2.2.2

end Descriptor

end Codewright.Php
