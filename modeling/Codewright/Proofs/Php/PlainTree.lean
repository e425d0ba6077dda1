import Codewright.Proofs.Php.Names
import Codewright.Proofs.Php.ReindentedDoc

/-!
# Trees whose texts are texts of code

* `Node.IsPlain` – the names and numbers in a tree are texts of code, its strings and attributes are tokens that keep their text, its
  comments are comments, and its text sections open no tag; the names of classes, interfaces and traits are names;
* `TypeHint.IsPlain`, `ClassDecl.IsPlain`, … – the same for the leaves of trees;
* `ClassDecl.isCodeText`, `Import.isCodeText`, … – what is printed of such leaves is a text of code.
-/

namespace Codewright.Php

open Text Lexer

/-! ## Leaves -/

theorem IsName.isCodeText {text : String} (h : IsName text) : IsCodeText text := by
  refine .of_inner fun c member => ?_
  have char := Lexer.IsName.forall_mem h c member
  rw [Bool.or_eq_true, beq_iff_eq] at char
  rcases char with inside | rfl
  · exact isInner_of_isIdentChar inside
  · decide

/-- A text of code that may stand behind a question mark. -/
structure IsTypeCode (w : String) : Prop where
  code : IsCodeText w
  begins : ∃ c cs, w.toList = c :: cs ∧ c ≠ '>'

/-- The type is such a text. -/
def TypeHint.IsPlain (t : TypeHint) : Prop := IsTypeCode t.text

/-- Numbers are texts of code, strings keep their text. -/
def Literal.IsPlain : Literal → Prop
  | .int text | .float text => IsCodeText text
  | .string text => IsRaw text.toList
  | .null | .bool _ => True

/-- The names of an import are texts of code. -/
structure Import.IsPlain (i : Import) : Prop where
  name : IsCodeText i.name
  rename : ∀ new ∈ i.rename, IsCodeText new

/-- The names in a rule for the methods of traits are texts of code. -/
def Adaptation.IsPlain : Adaptation → Prop
  | .precedence traitName method insteadOf => IsCodeText traitName ∧ IsCodeText method ∧ ∀ n ∈ insteadOf, IsCodeText n
  | .rename traitName method _ newName =>
    (∀ t ∈ traitName, IsCodeText t) ∧ IsCodeText method ∧ ∀ n ∈ newName, IsCodeText n

/-- The names in the head of a class-like declaration are names, and its type is a text of code. -/
def ClassKind.IsPlain : ClassKind → Prop
  | .cls _ parent interfaces => (∀ p ∈ parent, IsName p) ∧ ∀ i ∈ interfaces, IsName i
  | .iface parents => ∀ p ∈ parents, IsName p
  | .trait => True
  | .enum backing interfaces => (∀ t ∈ backing, t.IsPlain) ∧ ∀ i ∈ interfaces, IsName i

/-- A doc comment that is a comment, and attributes that keep their text. -/
structure IsPlainLead (doc : Option String) (attributes : List String) : Prop where
  doc : ∀ text ∈ doc, IsComment text.toList
  attributes : ∀ a ∈ attributes, IsRaw a.toList

structure ClassDecl.IsPlain (d : ClassDecl) : Prop where
  kind : d.kind.IsPlain
  name : IsName d.name
  lead : IsPlainLead d.doc d.attributes

structure FunctionDecl.IsPlain (d : FunctionDecl) : Prop where
  name : IsCodeText d.name
  returnType : ∀ t ∈ d.returnType, t.IsPlain
  lead : IsPlainLead d.doc d.attributes

structure ClosureDecl.IsPlain (d : ClosureDecl) : Prop where
  captures : ∀ c ∈ d.captures, IsCodeText c.name
  returnType : ∀ t ∈ d.returnType, t.IsPlain

structure ParamDecl.IsPlain (d : ParamDecl) : Prop where
  name : IsCodeText d.name
  type : ∀ t ∈ d.type, t.IsPlain
  attributes : ∀ a ∈ d.attributes, IsRaw a.toList

structure MethodDecl.IsPlain (d : MethodDecl) : Prop where
  name : IsCodeText d.name
  returnType : ∀ t ∈ d.returnType, t.IsPlain
  lead : IsPlainLead d.doc d.attributes

structure PropertyDecl.IsPlain (d : PropertyDecl) : Prop where
  type : ∀ t ∈ d.type, t.IsPlain
  lead : IsPlainLead d.doc d.attributes

structure CaseDecl.IsPlain (d : CaseDecl) : Prop where
  name : IsCodeText d.name
  lead : IsPlainLead d.doc d.attributes

/-! ## Trees -/

/-- The texts in a tree are texts of code, the strings and attributes tokens that keep their text, the comments comments. -/
def Node.IsPlain : {c : Category} → Node c → Prop
  | _, .nil => True
  | _, .cons head tail => IsPlain head ∧ IsPlain tail
  | _, .absent => True
  | _, .present value => IsPlain value
  -- Expressions
  | _, .variable name => IsCodeText name
  | _, .variableVariable name => IsPlain name
  | _, .literal value => value.IsPlain
  | _, .array items _ => IsPlain items
  | _, .nameRef name | _, .constantRef name => IsCodeText name
  | _, .classConstant cls name | _, .staticProperty cls name => IsPlain cls ∧ IsCodeText name
  | _, .propertyFetch object name _ => IsPlain object ∧ IsPlain name
  | _, .methodCall object name args _ => IsPlain object ∧ IsPlain name ∧ IsPlain args
  | _, .staticCall cls name args => IsPlain cls ∧ IsPlain name ∧ IsPlain args
  | _, .call callee args => IsPlain callee ∧ IsPlain args
  | _, .new cls args => IsPlain cls ∧ IsPlain args
  | _, .anonymousClass args decl members => IsPlain args ∧ decl.kind.IsPlain ∧ IsPlain members
  | _, .subscript value index => IsPlain value ∧ IsPlain index
  | _, .assign target _ value => IsPlain target ∧ IsPlain value
  | _, .assignRef target value => IsPlain target ∧ IsPlain value
  | _, .binary _ left right => IsPlain left ∧ IsPlain right
  | _, .unary _ operand | _, .incDec _ operand | _, .cast _ operand => IsPlain operand
  | _, .ternary cond yes no => IsPlain cond ∧ IsPlain yes ∧ IsPlain no
  | _, .instanceOf operand cls => IsPlain operand ∧ IsPlain cls
  | _, .isset operands => IsPlain operands
  | _, .emptyCheck operand => IsPlain operand
  | _, .closure decl params body => decl.IsPlain ∧ IsPlain params ∧ IsPlain body
  | _, .arrowFn decl params body => decl.IsPlain ∧ IsPlain params ∧ IsPlain body
  | _, .matchExpr subject arms => IsPlain subject ∧ IsPlain arms
  | _, .clone operand | _, .print operand | _, .throwExpr operand | _, .yieldFrom operand => IsPlain operand
  | _, .yield key value => IsPlain key ∧ IsPlain value
  | _, .callablePlaceholder => True
  | _, .includeExpr _ operand | _, .suppress operand | _, .paren operand => IsPlain operand
  -- Parts of expressions
  | _, .ident name => IsCodeText name
  | _, .computed name => IsPlain name
  | _, .item key value _ _ => IsPlain key ∧ IsPlain value
  | _, .arg name value _ => (∀ n ∈ name, IsCodeText n) ∧ IsPlain value
  | _, .arm conditions body => IsPlain conditions ∧ IsPlain body
  | _, .param decl default => decl.IsPlain ∧ IsPlain default
  -- Statements
  | _, .namespaceDecl name body _ _ => (∀ n ∈ name, IsCodeText n) ∧ IsPlain body
  | _, .useDecl _ items => ∀ i ∈ items, i.IsPlain
  | _, .declare directives => IsPlain directives
  | _, .declareBlock directives body => IsPlain directives ∧ IsPlain body
  | _, .constDecl items => IsPlain items
  | _, .classLike decl members => decl.IsPlain ∧ IsPlain members
  | _, .function decl params body => decl.IsPlain ∧ IsPlain params ∧ IsPlain body
  | _, .exprStmt value => IsPlain value
  | _, .echo values => IsPlain values
  | _, .returnStmt value | _, .breakStmt value | _, .continueStmt value => IsPlain value
  | _, .ifStmt cond yes elseIfs no => IsPlain cond ∧ IsPlain yes ∧ IsPlain elseIfs ∧ IsPlain no
  | _, .whileStmt cond body => IsPlain cond ∧ IsPlain body
  | _, .doWhile body cond => IsPlain body ∧ IsPlain cond
  | _, .forStmt init cond step body => IsPlain init ∧ IsPlain cond ∧ IsPlain step ∧ IsPlain body
  | _, .foreach subject key value _ body => IsPlain subject ∧ IsPlain key ∧ IsPlain value ∧ IsPlain body
  | _, .switchStmt subject cases => IsPlain subject ∧ IsPlain cases
  | _, .throwStmt value => IsPlain value
  | _, .tryStmt body catches last => IsPlain body ∧ IsPlain catches ∧ IsPlain last
  | _, .block body => IsPlain body
  | _, .global names => ∀ n ∈ names, IsCodeText n
  | _, .staticVars vars => IsPlain vars
  | _, .unset values => IsPlain values
  | _, .goto name | _, .label name => IsCodeText name
  | _, .inlineHtml text => IsHtml text.toList
  | _, .comment text => IsComment text.toList
  | _, .nop => True
  -- Parts of statements
  | _, .directive name value | _, .definition name value => IsCodeText name ∧ IsPlain value
  | _, .varItem name default => IsCodeText name ∧ IsPlain default
  | _, .elseIf cond body => IsPlain cond ∧ IsPlain body
  | _, .switchCase test body => IsPlain test ∧ IsPlain body
  | _, .catchClause types var body => (∀ t ∈ types, IsCodeText t) ∧ (∀ v ∈ var, IsCodeText v) ∧ IsPlain body
  -- Members
  | _, .traitUse traits adaptations => (∀ t ∈ traits, IsName t) ∧ ∀ a ∈ adaptations, a.IsPlain
  | _, .classConst decl items => IsPlainLead decl.doc decl.attributes ∧ IsPlain items
  | _, .property decl items => decl.IsPlain ∧ IsPlain items
  | _, .method decl params body => decl.IsPlain ∧ IsPlain params ∧ IsPlain body
  | _, .enumCase decl value => decl.IsPlain ∧ IsPlain value
  | _, .memberComment text => IsComment text.toList

namespace Node

variable {c : Category}

@[simp] theorem isPlain_ofList {xs : List (Node c)} : (ofList xs).IsPlain ↔ ∀ x ∈ xs, x.IsPlain := by
  induction xs with
  | nil => exact iff_of_true trivial (List.forall_mem_nil _)
  | cons x xs ih => rw [List.forall_mem_cons, ← ih]; rfl

@[simp] theorem isPlain_ofOption {x : Option (Node c)} : (ofOption x).IsPlain ↔ ∀ y ∈ x, y.IsPlain := by
  cases x with
  | none => exact iff_of_true trivial fun _ held => absurd held (Option.not_mem_none _)
  | some y =>
    constructor
    · rintro plain _ ⟨⟩
      exact plain
    · exact fun all => all y rfl

end Node

/-! ## Types -/

theorem IsTypeCode.append {v w : String} (h : IsTypeCode v) (h' : IsCodeText w) : IsTypeCode (v ++ w) := by
  obtain ⟨c, cs, text, no_bracket⟩ := h.begins
  exact ⟨h.code.append h', c, cs ++ w.toList, by simp [text], no_bracket⟩

theorem IsTypeCode.paren {w : String} (h : IsCodeText w) : IsTypeCode ("(" ++ w ++ ")") := by
  refine .append (.append ⟨.of_isCodeWord rfl, '(', [], rfl, by decide⟩ h) (.of_isCodeWord rfl)

namespace TypeHint.IsPlain

theorem nullable {t : TypeHint} (h : t.IsPlain) : (TypeHint.nullable t).IsPlain := by
  obtain ⟨c, cs, text, no_bracket⟩ := h.begins
  refine ⟨⟨fun r s same => ?_⟩, '?', t.text.toList, by simp [TypeHint.text], by decide⟩
  have code : isCode '?' (t.text.toList ++ r) = true := by
    rw [text]
    simpa [isCode, headIs] using no_bracket
  simpa [TypeHint.text] using Reindented.char code (h.code.reindented _ _ same)

theorem intersection {ts : List TypeHint} (some_part : ts ≠ []) (h : ∀ t ∈ ts, t.IsPlain) :
    (TypeHint.intersection ts).IsPlain := by
  show IsTypeCode (intersectionText ts)
  induction ts with
  | nil => exact absurd rfl some_part
  | cons t ts ih =>
    rw [List.forall_mem_cons] at h
    cases ts with
    | nil =>
      rw [intersectionText]
      exact h.1
    | cons t' ts =>
      rw [intersectionText]
      · exact (IsTypeCode.append h.1 (.of_isCodeWord rfl)).append (ih (by simp) h.2).code
      · simp

/-- An alternative of a union, in parentheses if it is an intersection. -/
theorem unionPart {t : TypeHint} (h : t.IsPlain) : IsTypeCode (unionPartText t) := by
  cases t with
  | intersection parts =>
    rw [unionPartText]
    exact .paren h.code
  | _ =>
    rw [unionPartText]
    exact h

theorem union {ts : List TypeHint} (some_part : ts ≠ []) (h : ∀ t ∈ ts, t.IsPlain) : (TypeHint.union ts).IsPlain := by
  show IsTypeCode (unionText ts)
  induction ts with
  | nil => exact absurd rfl some_part
  | cons t ts ih =>
    rw [List.forall_mem_cons] at h
    cases ts with
    | nil =>
      rw [unionText]
      exact h.1.unionPart
    | cons t' ts =>
      rw [unionText]
      · exact (h.1.unionPart.append (.of_isCodeWord rfl)).append (ih (by simp) h.2).code
      · simp

end TypeHint.IsPlain

/-! ## Texts of leaves -/

namespace IsCodeText

theorem returnTypeText {t : Option TypeHint} (h : ∀ t' ∈ t, t'.IsPlain) : IsCodeText (returnTypeText t) := by
  cases t with
  | none => exact .empty
  | some t => exact .append (.of_isCodeWord rfl) (h t rfl).code

theorem typeText {t : Option TypeHint} (h : ∀ t' ∈ t, t'.IsPlain) : IsCodeText (typeText t) := by
  cases t with
  | none => exact .empty
  | some t => exact (h t rfl).code.append (.of_isCodeWord rfl)

theorem wordIf {w : String} (h : IsCodeText w) (wanted : Bool) : IsCodeText (wordIf wanted w) := by
  cases wanted with
  | false => exact .empty
  | true => exact h.append (.of_isCodeWord rfl)

theorem namesText {names : List Name} (h : ∀ n ∈ names, IsCodeText n) : IsCodeText (namesText names) :=
  .intercalate (.of_isCodeWord rfl) h

theorem clauseText {keyword : String} (hk : IsCodeText keyword) {names : List Name} (h : ∀ n ∈ names, IsName n) :
    IsCodeText (clauseText keyword names) := by
  unfold Php.clauseText
  split
  · exact .empty
  · exact .append (.append (.append (.of_isCodeWord rfl) hk) (.of_isCodeWord rfl)) (.namesText fun n hn => (h n hn).isCodeText)

theorem parentText {parent : Option Name} {interfaces : List Name} (hp : ∀ p ∈ parent, IsName p)
    (hi : ∀ i ∈ interfaces, IsName i) : IsCodeText (parentText parent interfaces) := by
  refine .append ?_ (.clauseText (.of_isCodeWord rfl) hi)
  cases parent with
  | none => exact .empty
  | some p => exact .append (.of_isCodeWord rfl) (hp p rfl).isCodeText

theorem visibilityText (m : Modifiers) : IsCodeText m.visibilityText := by
  unfold Modifiers.visibilityText
  split
  · refine .append ?_ (.of_isCodeWord rfl)
    cases m.visibility <;> exact .of_isCodeWord rfl
  · exact .empty

theorem propertyText (m : Modifiers) : IsCodeText m.propertyText :=
  .append (.append (.visibilityText m) (.wordIf (.of_isCodeWord rfl) _)) (.wordIf (.of_isCodeWord rfl) _)

/-- The head of a namespace. -/
theorem namespaceHead {name : Option Name} : (∀ n ∈ name, IsCodeText n) → IsCodeText (match name with
    | some name => "namespace " ++ name
    | none => "namespace") := by
  intro h
  cases name with
  | none => exact .of_isCodeWord rfl
  | some name => exact .append (.of_isCodeWord rfl) (h name rfl)

/-- The variable of a `catch`, if there is one. -/
theorem caughtVariable {var : Option String} : (∀ v ∈ var, IsCodeText v) → IsCodeText (match var with
    | some v => " $" ++ v
    | none => "") := by
  intro h
  cases var with
  | none => exact .empty
  | some v => exact .append (.of_isCodeWord rfl) (h v rfl)

/-- One of two texts. -/
theorem ite {v w : String} (h : IsCodeText v) (h' : IsCodeText w) (c : Prop) [Decidable c] : IsCodeText (if c then v else w) := by
  split
  · exact h
  · exact h'

end IsCodeText

theorem ClassDecl.IsPlain.isCodeText {d : ClassDecl} (h : d.IsPlain) : IsCodeText d.text := by
  have kind := h.kind
  have name := h.name.isCodeText
  unfold ClassDecl.text
  cases same : d.kind with
  | cls m parent interfaces =>
    rw [same] at kind
    have words := ((IsCodeText.wordIf (.of_isCodeWord rfl) m.isAbstract (w := "abstract")).append
      (.wordIf (.of_isCodeWord rfl) m.isFinal (w := "final"))).append
      (.wordIf (.of_isCodeWord rfl) m.isReadonly (w := "readonly"))
    exact ((words.append (.of_isCodeWord rfl)).append name).append (.parentText kind.1 kind.2)
  | iface parents =>
    rw [same] at kind
    exact (IsCodeText.append (.of_isCodeWord rfl) name).append (.clauseText (.of_isCodeWord rfl) kind)
  | trait => exact .append (.of_isCodeWord rfl) name
  | enum backing interfaces =>
    rw [same] at kind
    exact ((IsCodeText.append (.of_isCodeWord rfl) name).append (.returnTypeText kind.1)).append
      (.clauseText (.of_isCodeWord rfl) kind.2)

theorem ClassKind.IsPlain.isCodeText {d : ClassDecl} (h : d.kind.IsPlain) :
    IsCodeText d.anonymousText.1 ∧ IsCodeText d.anonymousText.2 := by
  unfold ClassDecl.anonymousText
  cases same : d.kind with
  | cls m parent interfaces =>
    rw [same] at h
    exact ⟨.append (.wordIf (.of_isCodeWord rfl) _) (.of_isCodeWord rfl), .parentText h.1 h.2⟩
  | iface | trait | enum =>
    have word : IsCodeText "class" := .of_isCodeWord rfl
    exact ⟨word, .empty⟩

/-- The text of a parameter in front of its default value. -/
theorem ParamDecl.IsPlain.isCodeText {d : ParamDecl} (h : d.IsPlain) :
    IsCodeText (String.join (d.attributes.map (· ++ " ")) ++ d.promoted.propertyText ++ typeText d.type ++
      (if d.byRef then "&" else "") ++ (if d.variadic then "..." else "") ++ "$" ++ d.name) := by
  have attributes : IsCodeText (String.join (d.attributes.map (· ++ " "))) := by
    refine .join (List.forall_mem_map.2 fun a member => ?_)
    exact .raw_append (h.attributes a member) (.of_isCodeWord rfl) fun _ => rfl
  have marks : IsCodeText (if d.byRef then "&" else "") ∧ IsCodeText (if d.variadic then "..." else "") :=
    ⟨.ite (.of_isCodeWord rfl) .empty _, .ite (.of_isCodeWord rfl) .empty _⟩
  exact (((((attributes.append (.propertyText _)).append (.typeText h.type)).append marks.1).append marks.2).append
    (.of_isCodeWord rfl)).append h.name

/-- The variables that a closure captures. -/
theorem ClosureDecl.IsPlain.isCodeText {d : ClosureDecl} (h : d.IsPlain) :
    IsCodeText (if d.captures.isEmpty then "" else
      " use (" ++ String.intercalate ", " (d.captures.map fun c => (if c.byRef then "&$" else "$") ++ c.name) ++ ")") := by
  refine .ite .empty (.append (.append (.of_isCodeWord rfl) (.intercalate (.of_isCodeWord rfl) ?_)) (.of_isCodeWord rfl)) _
  refine List.forall_mem_map.2 fun c member => ?_
  exact .append (.ite (.of_isCodeWord rfl) (.of_isCodeWord rfl) _) (h.captures c member)

/-- The doc comment and the attributes in front of a declaration. -/
theorem OnLines.leadDoc {u v : String} (hu : ∀ c ∈ u.toList, c = ' ') (hv : ∀ c ∈ v.toList, c = ' ') {doc : Option String}
    {attributes : List String} (h : IsPlainLead doc attributes) (level : Nat) :
    OnLines u v (leadDoc level doc attributes) := by
  have groups : OnLines u v (attributes.map fun a => Doc.line level [.text a]).flatten := by
    refine .flatten (List.forall_mem_map.2 fun a member => ?_)
    exact .line hu hv (.raw (h.attributes a member)) level
  cases doc with
  | none => exact groups
  | some text => exact (comment hu hv (h.doc text rfl) level).append groups

theorem Import.IsPlain.isCodeText {i : Import} (h : i.IsPlain) : IsCodeText i.text := by
  unfold Import.text
  cases same : i.rename with
  | none => exact h.name
  | some new => exact (h.name.append (.of_isCodeWord rfl)).append (h.rename new same)

theorem Adaptation.IsPlain.isCodeText {a : Adaptation} (h : a.IsPlain) : IsCodeText a.text := by
  cases a with
  | precedence traitName method insteadOf =>
    obtain ⟨traitName_ok, method_ok, others⟩ := h
    refine .append (.append (.append (.append (.append traitName_ok ?_) method_ok) ?_) (.namesText others)) ?_
    all_goals exact .of_isCodeWord rfl
  | rename traitName method visibility newName =>
    obtain ⟨traitName_ok, method_ok, newName_ok⟩ := h
    refine .append (.append (.append (.append (.append ?_ method_ok) (.of_isCodeWord rfl)) ?_) ?_) (.of_isCodeWord rfl)
    · cases traitName with
      | none => exact .empty
      | some t => exact (traitName_ok t rfl).append (.of_isCodeWord rfl)
    · cases visibility with
      | none => exact .empty
      | some v => cases v <;> exact .of_isCodeWord rfl
    · cases newName with
      | none => exact .empty
      | some n => exact .append (.of_isCodeWord rfl) (newName_ok n rfl)

end Codewright.Php
