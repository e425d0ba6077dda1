import Codewright.Php.Summary
import Codewright.Proofs.Php.LiteralText
import Codewright.Proofs.Php.TypeText

/-!
# The text of parameters

What is made of the descriptor of a parameter has a text that is read back as the same parameter.

* `Modifiers.addAll?` – modifiers read one after the other; `Reads.refine_words`: how they are read;
* `hintOf` – the type that a text denotes; `IsTypeText` – the text is that of a canonical type; `IsPrintedType` – of any
  type that is read back behind some words;
* `Descriptor.Parameter.IsWritable` – types are read back, and numbers are numerals; `Descriptor.Parameter.IsPlain` – types
  are canonical;
* `Descriptor.Parameter.spells`, `Descriptor.Parameter.reads` – the tokens of a parameter, and what is read of them.
-/

namespace Codewright.Php

open Text Source

/-! ## Modifiers -/

/-- The token of a modifier. -/
def Modifier.face (w : Modifier) : Face := (.ident, w.keyword)

theorem Modifier.mem_all (w : Modifier) : w ∈ Modifier.all := by
  cases w <;> decide

theorem Modifier.isKeyword_face (v w : Modifier) : v.face.isKeyword w.keyword = decide (v = w) :=
  (show ∀ v ∈ Modifier.all, ∀ w ∈ Modifier.all, v.face.isKeyword w.keyword = decide (v = w) by decide) v
    v.mem_all w w.mem_all

/-- The set with the modifiers added one after the other, if none of them is there already and at most one of them is a
visibility. -/
def Modifiers.addAll? : Modifiers → List Modifier → Option Modifiers
  | m, [] => some m
  | m, w :: ws =>
    if m.includes (.single w) || (w.isVisibility && m.hasVisibility) then Option.none
    else Modifiers.addAll? (m.union (.single w)) ws

/-- Modifiers, each with a space behind it. -/
def wordsChars (ws : List Modifier) : List Char := ws.flatMap fun w => w.keyword.toList ++ [' ']

theorem Lexer.Spells.words {b : List Char} {fs : List Face} {rest : List Char} (ws : List Modifier)
    (tail : Spells b fs rest) : Spells (wordsChars ws ++ b) (ws.map Modifier.face ++ fs) rest := by
  induction ws with
  | nil => exact tail
  | cons w ws ih =>
    have is_name : IsName w.keyword := by cases w <;> decide
    have front := ih.word is_name
    simpa [wordsChars, Modifier.face] using front

/-- The token is no modifier. -/
def NoModifier (f : Face) : Prop := ∀ w : Modifier, f.isKeyword w.keyword = false

theorem NoModifier.of_kind {f : Face} (h : f.1 ≠ .ident) : NoModifier f := by
  intro w
  simp [Face.isKeyword, h]

namespace Parse

variable {flags : List Modifier} {s : Stream} {fs : List Face}

theorem nextModifier?_face {w : Modifier} (known : w ∈ flags) (hs : s.faces = w.face :: fs) :
    nextModifier? flags s = some w := by
  have found : (nextModifier? flags s).isSome = true := by
    rw [nextModifier?, List.find?_isSome]
    exact ⟨w, known, by rw [Stream.atKeyword_eq hs, Modifier.isKeyword_face]; simp⟩
  obtain ⟨v, same⟩ := Option.isSome_iff_exists.1 found
  have keyword := List.find?_some same
  rw [Stream.atKeyword_eq hs, Modifier.isKeyword_face, decide_eq_true_eq] at keyword
  rw [same, keyword]

theorem nextModifier?_none {f : Face} (no_modifier : ∀ w ∈ flags, f.isKeyword w.keyword = false)
    (hs : s.faces = f :: fs) : nextModifier? flags s = none := by
  rw [nextModifier?, List.find?_eq_none]
  intro w hw
  rw [Stream.atKeyword_eq hs, no_modifier w hw]
  decide

end Parse

namespace Reads

variable {rest : List Face} {m m' : Modifiers} {w : Modifier} {ws : List Modifier}

theorem addModifier (added : m.addAll? [w] = some m') : Reads (Parse.addModifier m w) [w.face] m' rest := by
  simp only [Modifiers.addAll?] at added
  split at added
  · cases added
  next fresh =>
    cases added
    rw [Bool.not_eq_true, Bool.or_eq_false_iff] at fresh
    rw [Parse.addModifier, fresh.1, fresh.2]
    exact skip (by decide) (.pure _ rest)

/-- Modifiers are read one by one, up to a token where the reader stops. -/
theorem refine_words {step : Modifiers → Parse (Option Modifiers)} (added : m.addAll? ws = some m')
    (round : ∀ (m m' : Modifiers), ∀ w ∈ ws, m.addAll? [w] = some m' → ∀ r, Reads (step m) [w.face] (some m') r)
    (last : ∀ m, Reads (step m) [] none rest) : Reads (Parse.refine step m) (ws.map Modifier.face) m' rest := by
  refine refine fun n enough => ?_
  induction ws generalizing m n with
  | nil =>
    obtain ⟨n, rfl⟩ : ∃ k, n = k + 1 := ⟨n - 1, by omega⟩
    rw [Modifiers.addAll?, Option.some_inj] at added
    exact added ▸ refineUpTo_stop (last m) n
  | cons w ws ih =>
    rw [List.map_cons, List.length_cons] at enough
    obtain ⟨n, rfl⟩ : ∃ k, n = k + 1 := ⟨n - 1, by omega⟩
    rw [Modifiers.addAll?] at added
    split at added
    · cases added
    next fresh =>
      have single : m.addAll? [w] = some (m.union (.single w)) := by
        rw [Modifiers.addAll?, if_neg fresh, Modifiers.addAll?]
      have tail := ih added (fun m m' v hv => round m m' v (by simp [hv])) n (by omega)
      exact refineUpTo_more (round m _ w (by simp) single _) tail

end Reads

/-! ## Types -/

/-- The type that a text denotes. -/
def hintOf (text : String) : TypeHint := (parseType text).toOption.getD default

/-- The text is that of a canonical type with such names. -/
def IsTypeText (Ok : Name → Prop) (text : String) : Prop := ∃ τ : TypeHint, τ.IsCanonical Ok ∧ text = τ.text

/-- A name that is none of these words in any spelling. -/
def IsNameBut (words : List String) (name : Name) : Prop :=
  IsName name ∧ ∀ word ∈ words, Face.isKeyword (.ident, name) word = false

instance (words : List String) (name : Name) : Decidable (IsNameBut words name) := inferInstanceAs (Decidable (_ ∧ _))

/-- The text of the type does not begin with one of the words. -/
def TypeHint.OpensWithout (words : List String) (τ : TypeHint) : Prop :=
  ∀ name ∈ τ.opening?, ∀ word ∈ words, Face.isKeyword (.ident, name) word = false

instance (words : List String) (τ : TypeHint) : Decidable (τ.OpensWithout words) :=
  inferInstanceAs (Decidable (∀ name ∈ τ.opening?, _))

/-- The text is that of a type that is read back where each of the words would be read as itself. -/
def IsPrintedType (words : List String) (text : String) : Prop :=
  ∃ τ : TypeHint, τ.IsWritten ∧ τ.OpensWithout words ∧ text = τ.text

theorem IsTypeText.isPrintedType {words : List String} {text : String} (h : IsTypeText (IsNameBut words) text) :
    IsPrintedType words text := by
  obtain ⟨τ, canonical, rfl⟩ := h
  exact ⟨τ, canonical.isWritten fun _ => And.left, fun _ opens => (canonical.opening opens).2, rfl⟩

/-- What is read of the text of a type. -/
structure IsHintOf (words : List String) (text : String) (τ : TypeHint) : Prop where
  parsed : parseType text = .ok τ
  text_eq : τ.text = text
  written : τ.IsWritten
  apart : τ.OpensWithout words

theorem IsPrintedType.spec {words : List String} {text : String} (h : IsPrintedType words text) :
    IsHintOf words text (hintOf text) := by
  obtain ⟨τ, written, apart, rfl⟩ := h
  have parsed := parseType_text written
  have hint : hintOf τ.text = τ := by rw [hintOf, parsed]; rfl
  rw [hint]
  exact ⟨parsed, rfl, written, apart⟩

/-- What is read of the text of a type is the type that the text denotes. -/
theorem typeOf?_eq_ok {text? : Option String} {τ? : Option TypeHint} (h : typeOf? text? = .ok τ?) :
    τ? = text?.map hintOf ∧ ∀ text ∈ text?, parseType text = .ok (hintOf text) := by
  cases text? with
  | none =>
    cases h
    exact ⟨rfl, nofun⟩
  | some text =>
    rw [typeOf?, Option.mapM_some, typeOf] at h
    cases parsed : parseType text with
    | error _ =>
      rw [parsed] at h
      cases h
    | ok τ =>
      rw [parsed] at h
      cases h
      have hint : hintOf text = τ := by rw [hintOf, parsed]; rfl
      refine ⟨congrArg some hint.symm, fun text' same => ?_⟩
      obtain rfl := Option.some.inj same
      rw [hint]
      exact parsed

section

variable {words : List String} {text? : Option String} (h : ∀ text ∈ text?, IsPrintedType words text)

include h

theorem map_text_hintOf : (text?.map hintOf).map TypeHint.text = text? := by
  cases text? with
  | none => rfl
  | some text => rw [Option.map_some, Option.map_some, (h text rfl).spec.text_eq]

/-- A type with a space behind it, if there is a type. -/
theorem Lexer.Spells.typeText {b : List Char} {fs : List Face} {rest : List Char} (tail : Spells b fs rest) :
    Spells ((Php.typeText (text?.map hintOf)).toList ++ b) ((text?.map hintOf).elim [] TypeHint.faces ++ fs) rest := by
  cases text? with
  | none => simpa [Php.typeText] using tail
  | some text =>
    have type : Spells (hintOf text).text.toList (hintOf text).faces (' ' :: b ++ rest) :=
      (h text rfl).spec.written.spells _ rfl
    simpa [Php.typeText] using type.append tail.space

end

/-! ## Initial values -/

/-- A value behind an equals sign, if there is one. -/
def initChars (unit : String) (n : Nat) : Option Json → List Char
  | none => []
  | some v => ' ' :: '=' :: ' ' :: Node.chars unit n (literalOf v)

/-- Its tokens. -/
def initFaces : Option Json → List Face
  | none => []
  | some v => (.assign, "=") :: literalFaces v

theorem chars_initDoc (unit : String) (n : Nat) (value? : Option Json) :
    Doc.chars unit (initDoc (Node.doc n (.ofOption (value?.map literalOf)))) = initChars unit n value? := by
  cases value? with
  | none => rfl
  | some v =>
    have printed : (initDoc (Node.doc n (.ofOption ((some v).map literalOf)))) =
      .text " = " :: (Node.doc n (literalOf v) : Doc) := rfl
    rw [printed]
    simp [initChars, Node.chars]

theorem spells_init (unit : String) (n : Nat) {value? : Option Json} (h : ∀ v ∈ value?, HasNumerals v) :
    Lexer.SpellsApart (initChars unit n value?) (initFaces value?) := by
  intro rest boundary
  cases value? with
  | none => exact .nil rest
  | some v => exact .space (.assign (spells_literal unit n (h v rfl) rest boundary))

theorem boundary_init (unit : String) (n : Nat) (value? : Option Json) {rest : List Char}
    (boundary : Lexer.Boundary rest) : Lexer.Boundary (initChars unit n value? ++ rest) := by
  cases value? with
  | none => exact boundary
  | some v => exact Lexer.boundary_cons (by decide) _

/-- What is read of an initial value prints the same text. -/
theorem map_print_literalTree {value? : Option Json} (h : ∀ v ∈ value?, HasNumerals v) :
    (value?.map literalTree).map Expr.print = value?.map fun v => Expr.print (literalOf v) := by
  cases value? with
  | none => rfl
  | some v => exact congrArg some (String.toList_inj.1 (chars_literalTree usualIndent 0 (h v rfl)))

/-- In front of the end of a value, an initial value is read. -/
theorem Reads.initialValue {value? : Option Json} (h : ∀ v ∈ value?, HasNumerals v) {n : Nat} {rest : List Face}
    (enough : 3 * (initFaces value?).length ≤ n) (ends : EndsValue rest) (no_assign : Begins (·.1 ≠ .assign) rest) :
    Reads (Grammar.upTo n).initialValue (initFaces value?) (value?.map literalTree) rest := by
  cases value? with
  | none =>
    obtain ⟨f, fs, rfl, no_assign⟩ := no_assign
    exact afterToken_none no_assign
  | some v =>
    rw [initFaces, List.length_cons] at enough
    exact afterToken_some (by decide) (reads_literal (h v rfl) (by omega) ends)

/-! ## Parameters -/

/-- The modifier that states a visibility. -/
def Visibility.word : Visibility → Modifier
  | .pub => .pub
  | .prot => .prot
  | .priv => .priv

/-- A mark, if it is wanted. -/
def markIf (wanted : Bool) (mark : Face) : List Face := if wanted then [mark] else []

theorem Reads.tryToken_markIf (wanted : Bool) {mark : Face} {rest : List Face} (more : mark.1 ≠ .eof)
    (other : Begins (·.1 ≠ mark.1) rest) :
    Reads (Parse.tryToken mark.1) (markIf wanted mark) wanted rest := by
  cases wanted with
  | true => exact tryToken_true more
  | false =>
    obtain ⟨f, fs, rfl, other⟩ := other
    exact tryToken_false other

namespace Descriptor.Parameter

/-- The modifiers that cannot stand in a type of a parameter. -/
def promotingWords : List String := ["public", "protected", "private", "readonly"]

/-- The types are canonical, and the numbers in the default value are numerals. -/
structure IsPlain (p : Parameter) : Prop where
  type : ∀ text ∈ p.type, IsTypeText (IsNameBut promotingWords) text
  default : ∀ v ∈ p.default, HasNumerals v

/-- The type is read back behind modifiers, and the numbers in the default value are numerals. -/
structure IsWritable (p : Parameter) : Prop where
  type : ∀ text ∈ p.type, IsPrintedType promotingWords text
  default : ∀ v ∈ p.default, HasNumerals v

/-- What is made of the parameter, given what becomes of a default value. -/
def node (value : Json → Expr) (p : Parameter) : Node .param :=
  .param
    { name := bareName p.name, type := p.type.map hintOf, byRef := p.byRef, variadic := p.variadic,
      promoted := p.promote.elim .none Visibility.modifiers, attributes := [] }
    (.ofOption (p.default.map value))

/-- The tokens of the parameter behind its modifiers and its type. -/
def bareFaces (p : Parameter) : List Face :=
  markIf p.byRef (.amp, "&") ++
    (markIf p.variadic (.ellipsis, "...") ++ (.variable, bareName p.name) :: initFaces p.default)

/-- The tokens of the type, if there is one, and of what is behind it. -/
def typedFaces (p : Parameter) : List Face := (p.type.map hintOf).elim [] TypeHint.faces ++ p.bareFaces

/-- The tokens of the parameter. -/
def faces (p : Parameter) : List Face := (p.promote.toList.map Visibility.word).map Modifier.face ++ p.typedFaces

variable {p : Parameter}

theorem IsPlain.isWritable (h : p.IsPlain) : p.IsWritable := ⟨fun text ht => (h.type text ht).isPrintedType, h.default⟩

theorem build_eq {made : Node .param} (built : p.build = .ok made) :
    isIdentifier (bareName p.name).toList = true ∧ (∀ text ∈ p.type, parseType text = .ok (hintOf text)) ∧
      made = p.node literalOf := by
  rw [build] at built
  simp only [checkName, refuseIf] at built
  split at built
  next is_identifier =>
    split at built
    · cases built
    · cases type : typeOf? p.type with
      | error _ =>
        rw [type] at built
        cases built
      | ok τ? =>
        rw [type] at built
        cases built
        obtain ⟨rfl, parsed⟩ := typeOf?_eq_ok type
        exact ⟨is_identifier, parsed, rfl⟩
  next => cases built

/-- The characters of the parameter behind its modifiers and its type. -/
def bareChars (unit : String) (n : Nat) (p : Parameter) : List Char :=
  (if p.byRef then ['&'] else []) ++ ((if p.variadic then ['.', '.', '.'] else []) ++
    '$' :: ((bareName p.name).toList ++ initChars unit n p.default))

theorem toList_promotedText (v? : Option Visibility) :
    (v?.elim Modifiers.none Visibility.modifiers).propertyText.toList = wordsChars (v?.toList.map Visibility.word) := by
  cases v? with
  | none => rfl
  | some v => cases v <;> rfl

theorem chars_node (unit : String) (n : Nat) (p : Parameter) :
    Doc.chars unit (Node.doc n (p.node literalOf)) = wordsChars (p.promote.toList.map Visibility.word) ++
      ((typeText (p.type.map hintOf)).toList ++ p.bareChars unit n) := by
  have printed : (Node.doc n (p.node literalOf) : Doc) =
      .text (String.join [] ++ (p.promote.elim Modifiers.none Visibility.modifiers).propertyText ++
        typeText (p.type.map hintOf) ++ (if p.byRef then "&" else "") ++ (if p.variadic then "..." else "") ++ "$" ++
        bareName p.name) :: initDoc (Node.doc n (.ofOption (p.default.map literalOf))) := rfl
  rw [printed, Doc.chars_text_cons, chars_initDoc, bareChars, ← toList_promotedText]
  cases p.byRef <;> cases p.variadic <;> simp

theorem spells_bare (h : p.IsWritable) (is_identifier : Lexer.IsIdentifier (bareName p.name)) (unit : String)
    (n : Nat) : Lexer.SpellsApart (p.bareChars unit n) p.bareFaces := by
  intro rest boundary
  have var := Lexer.Spells.var is_identifier (boundary_init unit n p.default boundary)
    (spells_init unit n h.default rest boundary)
  rw [bareChars, bareFaces]
  cases p.byRef <;> cases p.variadic
  · exact var
  · exact var.ellipsis
  · exact var.amp rfl
  · exact var.ellipsis.amp rfl

/-- The text of a parameter spells its tokens. -/
theorem spells (h : p.IsWritable) (is_identifier : Lexer.IsIdentifier (bareName p.name))
    (unit : String) (n : Nat) :
    Lexer.SpellsApart (Doc.chars unit (Node.doc n (p.node literalOf))) p.faces := by
  intro rest boundary
  rw [chars_node]
  exact .words _ (.typeText h.type (spells_bare h is_identifier unit n rest boundary))

/-- A parameter keeps the parenthesis in front of it from opening a cast. -/
theorem opensNoCast (h : p.IsWritable) (unit : String) (n : Nat) (rest : List Char) :
    Lexer.OpensNoCast (Doc.chars unit (Node.doc n (p.node literalOf)) ++ rest) := by
  have bare : Lexer.OpensNoCast (p.bareChars unit n ++ rest) := by
    rw [bareChars]
    cases p.byRef <;> cases p.variadic <;> exact .cons (by decide) (by decide) _
  have typed : Lexer.OpensNoCast ((typeText (p.type.map hintOf)).toList ++ (p.bareChars unit n ++ rest)) := by
    cases type : p.type with
    | none => simpa [typeText] using bare
    | some text =>
      have spaced : Lexer.OpensNoCast ([' '] ++ (p.bareChars unit n ++ rest)) := .append (by simp) bare
      simpa [typeText] using (h.type text (by simp [type])).spec.written.opensNoCast spaced
  rw [chars_node, List.append_assoc, List.append_assoc]
  refine .append ?_ typed
  cases p.promote with
  | none => simp [wordsChars]
  | some v => cases v <;> simp [wordsChars, Visibility.word, Modifier.keyword]

/-- Here a parameter is at its end. -/
def Ends (rest : List Face) : Prop := Begins (· ∈ [((.comma, ",") : Face), (.closeParen, ")")]) rest

theorem Ends.endsValue {rest : List Face} (ends : Ends rest) : EndsValue rest := by
  obtain ⟨f, fs, rfl, mem⟩ := ends
  simp only [List.mem_cons, List.not_mem_nil, or_false] at mem
  rcases mem with rfl | rfl
  · exact .ending (by decide) _ fs
  · exact .closeParen fs

/-- The kinds of the tokens with which a parameter begins behind its modifiers and its type. -/
def bareStarts : List TokenKind := [.amp, .ellipsis, .variable]

theorem begins_bareFaces (p : Parameter) : Begins (·.1 ∈ bareStarts) p.bareFaces := by
  rw [bareFaces]
  cases p.byRef <;> cases p.variadic <;> exact .cons (by simp [bareStarts]) _

theorem endsType_bareFaces (p : Parameter) (rest : List Face) : EndsType (p.bareFaces ++ rest) := by
  rw [bareFaces]
  cases p.byRef <;> cases p.variadic
  · exact .of_kind (by decide) _ _
  · exact .of_kind (by decide) _ _
  · exact ⟨_, _, rfl, by decide, fun _ => ⟨_, _, rfl, by simp⟩⟩
  · exact ⟨_, _, rfl, by decide, fun _ => ⟨_, _, rfl, by decide⟩⟩

theorem reads_bare (h : p.IsWritable) {n : Nat} (enough : 3 * p.bareFaces.length ≤ n)
    {rest : List Face} (ends : Ends rest) :
    Reads (do
      let byRef ← Parse.tryToken .amp
      let variadic ← Parse.tryToken .ellipsis
      let name ← Parse.expectVariable
      let default ← (Grammar.upTo n).initialValue
      return Node.param ⟨name, p.type.map hintOf, byRef, variadic, p.promote.elim .none Visibility.modifiers, []⟩
        (.ofOption default)) p.bareFaces (p.node literalTree) rest := by
  simp only [bareFaces, List.length_append, List.length_cons] at enough
  have init : Reads (Grammar.upTo n).initialValue (initFaces p.default) (p.default.map literalTree) rest := by
    refine Reads.initialValue h.default (by omega) ends.endsValue (Begins.mono ends ?_)
    decide
  have byRef : Reads (Parse.tryToken .amp) (markIf p.byRef (.amp, "&")) p.byRef
      (markIf p.variadic (.ellipsis, "...") ++ (.variable, bareName p.name) :: initFaces p.default ++ rest) := by
    refine .tryToken_markIf _ (by decide) ?_
    cases p.variadic <;> exact .cons (by simp) _
  refine byRef.bind (.bind (.tryToken_markIf p.variadic (by decide) (.cons (by simp) _)) ?_)
  exact Reads.expectVariable.cons_bind (init.map fun default => Node.param _ (.ofOption default))

theorem begins_typedFaces (h : p.IsWritable) :
    Begins (fun f => f.1 ∉ [TokenKind.attributeGroup, .closeParen] ∧
      ∀ word ∈ promotingWords, f.isKeyword word = false) p.typedFaces := by
  rw [typedFaces]
  cases type : p.type with
  | none =>
    refine (begins_bareFaces p).mono fun f start => ?_
    have kinds := (show ∀ k ∈ bareStarts, k ∉ [TokenKind.attributeGroup, .closeParen] ∧ k ≠ .ident by decide) f.1 start
    exact ⟨kinds.1, fun word _ => by simp [Face.isKeyword, kinds.2]⟩
  | some text =>
    have hint := (h.type text (by simp [type])).spec
    obtain ⟨f, fs, first, start⟩ := hint.written.exists_face
    refine Begins.append (show Begins _ (hintOf text).faces from ?_) _
    rw [first]
    refine .cons ?_ fs
    rcases start with mark | ⟨name, opens, rfl⟩
    · have kinds := (show ∀ k ∈ [TokenKind.question, .openParen],
        k ∉ [TokenKind.attributeGroup, .closeParen] ∧ k ≠ .ident by decide) f.1 mark
      exact ⟨kinds.1, fun word _ => by simp [Face.isKeyword, kinds.2]⟩
    · exact ⟨by simp, hint.apart name opens⟩

theorem begins_faces (h : p.IsWritable) : Begins (·.1 ∉ [TokenKind.attributeGroup, .closeParen]) p.faces := by
  rw [faces]
  cases p.promote with
  | none => exact (begins_typedFaces h).mono fun _ => And.left
  | some v => exact .cons (by simp [Modifier.face]) _

theorem reads_typed (h : p.IsWritable) {n : Nat} (enough : 3 * p.bareFaces.length ≤ n)
    {rest : List Face} (ends : Ends rest) :
    Reads (do
      let s ← get
      let type ←
        if s.at_ .variable || s.at_ .amp || s.at_ .ellipsis then pure none
        else some <$> Parse.typeHint
      let byRef ← Parse.tryToken .amp
      let variadic ← Parse.tryToken .ellipsis
      let name ← Parse.expectVariable
      let default ← (Grammar.upTo n).initialValue
      return Node.param ⟨name, type, byRef, variadic, p.promote.elim .none Visibility.modifiers, []⟩
        (.ofOption default)) p.typedFaces (p.node literalTree) rest := by
  have bare := reads_bare h enough ends
  refine Reads.get_bind fun s hs => ?_
  rw [typedFaces] at hs ⊢
  cases type : p.type with
  | none =>
    rw [type] at hs bare
    obtain ⟨f, fs, first, start⟩ := begins_bareFaces p
    have untyped : (s.at_ .variable || s.at_ .amp || s.at_ .ellipsis) = true := by
      rw [first] at hs
      rw [Stream.at_eq hs, Stream.at_eq hs, Stream.at_eq hs]
      exact (show ∀ k ∈ bareStarts, (k == .variable || k == .amp || k == .ellipsis) = true by decide) f.1 start
    rw [if_pos untyped]
    exact bare
  | some text =>
    rw [type] at hs bare
    have written := (h.type text (by simp [type])).spec.written
    have typed : (s.at_ .variable || s.at_ .amp || s.at_ .ellipsis) = false := by
      obtain ⟨f, fs, first, start⟩ := written.exists_face
      rw [Option.map_some, Option.elim_some, first] at hs
      rw [Stream.at_eq hs, Stream.at_eq hs, Stream.at_eq hs]
      rcases start with mark | ⟨name, -, rfl⟩
      · exact (show ∀ k ∈ [TokenKind.question, .openParen], (k == .variable || k == .amp || k == .ellipsis) = false by
          decide) f.1 mark
      · rfl
    rw [if_neg (by simp [typed])]
    exact Reads.bind (Reads.fmap (Reads.typeHint written (endsType_bareFaces p rest)) some) bare

/-- The word that promotes a parameter is read, up to its type or its name. -/
theorem reads_promotion (h : p.IsWritable) (rest : List Face) :
    Reads (Parse.refine (fun m => do
      match Parse.nextModifier? [.pub, .prot, .priv, .readonly] (← get) with
      | some flag => return some (← Parse.addModifier m flag)
      | none => return none) .none) ((p.promote.toList.map Visibility.word).map Modifier.face)
      (p.promote.elim .none Visibility.modifiers) (p.typedFaces ++ rest) := by
  refine .refine_words ?added ?round ?last
  case added =>
    cases p.promote with
    | none => rfl
    | some v => cases v <;> rfl
  case round =>
    intro m m' w member added r
    have known : w ∈ [Modifier.pub, .prot, .priv, .readonly] := by
      obtain ⟨v, -, rfl⟩ := List.mem_map.1 member
      cases v <;> decide
    refine Reads.get_bind fun s hs => ?_
    rw [Parse.nextModifier?_face known hs]
    exact (Reads.addModifier added).map some
  case last =>
    intro m
    obtain ⟨f, fs, first, -, no_word⟩ := begins_typedFaces h
    refine Reads.get_bind fun s hs => ?_
    rw [first] at hs
    rw [Parse.nextModifier?_none (fun w hw => no_word _ ?_) hs]
    · exact .pure _ _
    · exact (show ∀ w ∈ [Modifier.pub, .prot, .priv, .readonly], w.keyword ∈ promotingWords by decide) w hw

/-- In front of a comma or the parenthesis behind the parameters, a parameter is read. -/
theorem reads (h : p.IsWritable) {n : Nat} (enough : 3 * p.faces.length ≤ n) {rest : List Face} (ends : Ends rest) :
    Reads (Grammar.upTo n).param p.faces (p.node literalTree) rest := by
  have no_attributes : Begins (·.1 ≠ .attributeGroup) (p.faces ++ rest) :=
    ((begins_faces h).mono fun f start => by simp_all).append rest
  refine Reads.nil_bind (Reads.attributes_nil no_attributes) (Reads.bind (reads_promotion h rest) (reads_typed h ?_ ends))
  simp only [faces, typedFaces, List.length_append] at enough
  omega

/-! ### In parentheses -/

/-- The tokens of parameters in parentheses. -/
def listFaces (ps : List Parameter) : List Face :=
  (.openParen, "(") :: (commaFaces (ps.map faces) ++ [(.closeParen, ")")])

/-- The parameter can be printed. -/
def IsPrintable (p : Parameter) : Prop := p.IsWritable ∧ Lexer.IsIdentifier (bareName p.name)

variable {ps : List Parameter}

/-- Parameters in parentheses in front of a text that is spelled. -/
theorem spells_list (h : ∀ p ∈ ps, p.IsPrintable) (unit : String) (n : Nat) {b : List Char} {fs : List Face}
    {rest : List Char} (tail : Lexer.Spells b fs rest) :
    Lexer.Spells ('(' :: (Doc.chars unit (Doc.commas (ps.map fun p => Node.doc n (p.node literalOf))) ++ ')' :: b))
      (listFaces ps ++ fs) rest := by
  have items : Lexer.SpellsApart (Doc.commaChars (ps.map fun p => Doc.chars unit (Node.doc n (p.node literalOf))))
      (commaFaces (ps.map faces)) := by
    refine .commas (List.forall₂_map_left_iff.2 <| List.forall₂_map_right_iff.2 <| List.forall₂_same.2 fun p hp => ?_)
    exact spells (h p hp).1 (h p hp).2 unit n
  have inner := (items (')' :: b ++ rest) (Lexer.boundary_cons (by decide) _)).append tail.closeParen
  rw [Doc.chars_commas, List.map_map]
  rw [listFaces, List.cons_append, List.append_assoc]
  cases ps with
  | nil => exact tail.emptyParens
  | cons p ps =>
    refine .openParen ?_ inner
    have opens := opensNoCast (h p (by simp)).1 unit n
    cases ps with
    | nil => simpa [Doc.commaChars] using opens _
    | cons _ _ => simpa [Doc.commaChars] using opens _

/-- The parameters and their parentheses are read. -/
theorem reads_list (h : ∀ p ∈ ps, p.IsPrintable) {n : Nat} (enough : 3 * (listFaces ps).length ≤ n) (rest : List Face) :
    Reads (Grammar.upTo n).params (listFaces ps) (ps.map (node literalTree)) rest := by
  rw [listFaces, List.length_cons, List.length_append] at enough
  have items : List.Forall₂ (fun fs node => ∀ r, Ends r → Reads (Grammar.upTo n).param fs node r) (ps.map faces)
      (ps.map (node literalTree)) := by
    refine List.forall₂_map_left_iff.2 <| List.forall₂_map_right_iff.2 <| List.forall₂_same.2 fun p hp r ends => ?_
    have size := length_le_commaFaces (List.mem_map_of_mem (f := faces) hp)
    exact reads (h p hp).1 (by omega) ends
  refine Reads.enclosedBy (by decide) (by decide)
    (Reads.commaListUntil items ?begins (by decide) (fun r => .cons (by simp) r) (.cons (by simp) rest))
  rintro _ member
  obtain ⟨p, hp, rfl⟩ := List.mem_map.1 member
  exact (begins_faces (h p hp).1).mono fun f start => by simp_all

/-! ### In a summary -/

/-- What the summary of a file says of the parameter. -/
def summary (p : Parameter) : Summary.Parameter :=
  ⟨bareName p.name, p.type, p.default.map fun v => Expr.print (literalOf v), p.byRef, p.variadic⟩

theorem ofNode_node (h : p.IsWritable) : Summary.Parameter.ofNode (p.node literalTree) = p.summary := by
  rw [node, Summary.Parameter.ofNode, Node.toOption_ofOption, map_text_hintOf h.type, map_print_literalTree h.default]
  rfl

end Descriptor.Parameter

end Codewright.Php
