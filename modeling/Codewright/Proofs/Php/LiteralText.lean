import Codewright.Proofs.Php.Climbing
import Codewright.Proofs.Php.Numerals
import Codewright.Proofs.Php.ReadingRules

/-!
# JSON values in a source

A JSON value stands in a source as a literal: arrays and objects as lists, strings in single quotes, numerals as they
are written. What is read of it is the same but for the minus of a number, which is an operator there.

* `literalFaces`, `literalTree` – the tokens of a value in a source, and what is read of them;
* `chars_literalTree` – what is read prints the same text; `spells_literal` – the text spells the tokens;
* `reads_literal` – the tokens are read.
-/

namespace Codewright.Php

open Text Source

/-! ## Tokens and trees -/

/-- The literal of a numeral without its sign. -/
def magnitudeLiteral (cs : List Char) : Literal :=
  if (Lexer.numberShape cs).1 = .int then .int (String.ofList cs) else .float (String.ofList cs)

/-- The token of a numeral without its sign. -/
def magnitudeFace (cs : List Char) : Face := ((Lexer.numberShape cs).1, String.ofList cs)

/-- The token of a string in single quotes. -/
def quotedFace (s : String) : Face := (.string, (Literal.ofText s).text)

/-- The tokens of a numeral. -/
def numeralFaces : List Char → List Face
  | '-' :: cs => [(.minus, "-"), magnitudeFace cs]
  | cs => [magnitudeFace cs]

/-- What is read of a numeral. -/
def numeralTree : List Char → Expr
  | '-' :: cs => .unary .neg (.literal (magnitudeLiteral cs))
  | cs => .literal (magnitudeLiteral cs)

mutual

/-- The tokens of a JSON value in a source. -/
def literalFaces : Json → List Face
  | .null => [(.ident, "null")]
  | .bool true => [(.ident, "true")]
  | .bool false => [(.ident, "false")]
  | .number text => numeralFaces text.toList
  | .string s => [quotedFace s]
  | .array items => (.openBracket, "[") :: (commaFaces (itemFaces items) ++ [(.closeBracket, "]")])
  | .object es => (.openBracket, "[") :: (commaFaces (entryFaces es) ++ [(.closeBracket, "]")])

/-- The tokens of the items of an array. -/
def itemFaces : List Json → List (List Face)
  | [] => []
  | v :: vs => literalFaces v :: itemFaces vs

/-- The tokens of the entries of an object. -/
def entryFaces : List (String × Json) → List (List Face)
  | [] => []
  | (k, v) :: es => (quotedFace k :: (.fatArrow, "=>") :: literalFaces v) :: entryFaces es

end

mutual

/-- What is read of a JSON value in a source. -/
def literalTree : Json → Expr
  | .null => .literal .null
  | .bool b => .literal (.bool b)
  | .number text => numeralTree text.toList
  | .string s => .literal (.ofText s)
  | .array items => .array (.ofList (itemTrees items)) true
  | .object es => .array (.ofList (entryTrees es)) true

/-- What is read of the items of an array. -/
def itemTrees : List Json → List (Node .item)
  | [] => []
  | v :: vs => .item .absent (literalTree v) false false :: itemTrees vs

/-- What is read of the entries of an object. -/
def entryTrees : List (String × Json) → List (Node .item)
  | [] => []
  | (k, v) :: es => .item (.present (.literal (.ofText k))) (literalTree v) false false :: entryTrees es

end

mutual

/-- Every number in the value is a numeral. -/
def HasNumerals : Json → Prop
  | .number text => IsNumeral text
  | .array items => ItemsHaveNumerals items
  | .object es => EntriesHaveNumerals es
  | _ => True

/-- Every number in the items is a numeral. -/
def ItemsHaveNumerals : List Json → Prop
  | [] => True
  | v :: vs => HasNumerals v ∧ ItemsHaveNumerals vs

/-- Every number in the entries is a numeral. -/
def EntriesHaveNumerals : List (String × Json) → Prop
  | [] => True
  | (_, v) :: es => HasNumerals v ∧ EntriesHaveNumerals es

end

theorem itemsHaveNumerals_iff {items : List Json} : ItemsHaveNumerals items ↔ ∀ v ∈ items, HasNumerals v := by
  induction items with
  | nil => simp [ItemsHaveNumerals]
  | cons v vs ih => simp [ItemsHaveNumerals, ih]

theorem entriesHaveNumerals_iff {es : List (String × Json)} : EntriesHaveNumerals es ↔ ∀ e ∈ es, HasNumerals e.2 := by
  induction es with
  | nil => simp [EntriesHaveNumerals]
  | cons e es ih => simp [EntriesHaveNumerals, ih]

/-- What holds of a container if it holds of all that it contains holds of every value. -/
@[elab_as_elim]
theorem Json.nested_induction {P : Json → Prop} (null : P .null) (bool : ∀ b, P (.bool b))
    (number : ∀ text, P (.number text)) (string : ∀ s, P (.string s))
    (array : ∀ items, (∀ v ∈ items, P v) → P (.array items))
    (object : ∀ es, (∀ e ∈ es, P e.2) → P (.object es)) (v : Json) : P v :=
  match v with
  | .null => null
  | .bool b => bool b
  | .number text => number text
  | .string s => string s
  | .array items => array items fun v _ => nested_induction null bool number string array object v
  | .object es => object es fun e _ => nested_induction null bool number string array object e.2
termination_by sizeOf v
decreasing_by
  next member =>
    have := List.sizeOf_lt_of_mem member
    simp only [Json.array.sizeOf_spec]
    omega
  next member =>
    have := List.sizeOf_lt_of_mem member
    obtain ⟨key, value⟩ := e
    simp only [Json.object.sizeOf_spec, Prod.mk.sizeOf_spec] at this ⊢
    omega

/-! ## Printed text -/

namespace Node

variable (unit : String) (n : Nat)

theorem doc_ofList {c : Category} (xs : List (Node c)) :
    (Node.doc n (Node.ofList xs) : List (Printed c)) = xs.map (Node.doc n) := by
  induction xs with
  | nil => rfl
  | cons x xs ih =>
    rw [List.map_cons, ← ih]
    rfl

theorem chars_literal (value : Literal) : chars unit n (.literal value) = value.text.toList := by
  have printed : (Node.doc n (.literal value) : Doc) = [.text value.text] := rfl
  rw [chars, printed]
  simp

theorem chars_array (items : List (Node .item)) : chars unit n (.array (.ofList items) true) =
    '[' :: (Doc.commaChars (items.map fun item => Doc.chars unit (Node.doc n item)) ++ [']']) := by
  have printed : (Node.doc n (.array (.ofList items) true) : Doc) =
      .text "[" :: Doc.commas (items.map (Node.doc n)) ++ [.text "]"] := by
    rw [← doc_ofList]
    rfl
  rw [chars, printed]
  simp [Doc.chars_commas, Function.comp_def]

theorem chars_item (e : Expr) : Doc.chars unit (Node.doc n (.item .absent e false false)) = chars unit n e := by
  have printed : (Node.doc n (.item .absent e false false) : Doc) = .text "" :: (Node.doc n e : Doc) := rfl
  rw [chars, printed]
  simp

theorem chars_keyedItem (key value : Expr) : Doc.chars unit (Node.doc n (.item (.present key) value false false)) =
    chars unit n key ++ ' ' :: '=' :: '>' :: ' ' :: chars unit n value := by
  have printed : (Node.doc n (.item (.present key) value false false) : Doc) =
      (Node.doc n key : Doc) ++ [.text " => "] ++ .text "" :: (Node.doc n value : Doc) := rfl
  rw [chars, chars, printed]
  simp

end Node

theorem literalItems_eq (items : List Json) :
    literalItems items = .ofList (items.map fun v => .item .absent (literalOf v) false false) := by
  induction items with
  | nil => rfl
  | cons v vs ih => rw [literalItems, ih]; rfl

theorem literalEntries_eq (es : List (String × Json)) :
    literalEntries es =
      .ofList (es.map fun e => .item (.present (.literal (.ofText e.1))) (literalOf e.2) false false) := by
  induction es with
  | nil => rfl
  | cons e es ih => rw [literalEntries, ih]; rfl

theorem itemTrees_eq (items : List Json) :
    itemTrees items = items.map fun v => .item .absent (literalTree v) false false := by
  induction items with
  | nil => rfl
  | cons v vs ih => rw [itemTrees, ih]; rfl

theorem entryTrees_eq (es : List (String × Json)) :
    entryTrees es = es.map fun e => .item (.present (.literal (.ofText e.1))) (literalTree e.2) false false := by
  induction es with
  | nil => rfl
  | cons e es ih => rw [entryTrees, ih]; rfl

theorem itemFaces_eq (items : List Json) : itemFaces items = items.map literalFaces := by
  induction items with
  | nil => rfl
  | cons v vs ih => rw [itemFaces, ih]; rfl

theorem entryFaces_eq (es : List (String × Json)) :
    entryFaces es = es.map fun e => quotedFace e.1 :: (.fatArrow, "=>") :: literalFaces e.2 := by
  induction es with
  | nil => rfl
  | cons e es ih => rw [entryFaces, ih]; rfl

theorem IsMagnitude.numeralTree_eq {cs : List Char} (h : IsMagnitude cs) :
    numeralTree cs = .literal (magnitudeLiteral cs) := by
  obtain ⟨d, ds, rfl, digit⟩ := h.exists_digit
  unfold numeralTree
  split
  next same =>
    cases same
    cases digit
  next => rfl

theorem IsMagnitude.numeralFaces_eq {cs : List Char} (h : IsMagnitude cs) : numeralFaces cs = [magnitudeFace cs] := by
  obtain ⟨d, ds, rfl, digit⟩ := h.exists_digit
  unfold numeralFaces
  split
  next same =>
    cases same
    cases digit
  next => rfl

theorem chars_number (unit : String) (n : Nat) (text : String) :
    Node.chars unit n (literalOf (.number text)) = text.toList := by
  rw [literalOf, Node.chars_literal]
  split <;> rfl

theorem chars_numeralTree (unit : String) (n : Nat) {text : String} (h : IsNumeral text) :
    Node.chars unit n (numeralTree text.toList) = text.toList := by
  have magnitude (cs : List Char) (unit : String) : Node.chars unit n (.literal (magnitudeLiteral cs)) = cs := by
    rw [Node.chars_literal, magnitudeLiteral]
    split <;> simp [Literal.text]
  rcases h.magnitude with ⟨cs, chars, positive⟩ | positive
  · obtain ⟨d, ds, rfl, digit⟩ := positive.exists_digit
    have no_minus : '-' ≠ d := by
      rintro rfl
      cases digit
    rw [chars, numeralTree, Node.chars_unary, magnitude, magnitude]
    simp [UnaryOp.spelling, no_minus]
  · rw [positive.numeralTree_eq, magnitude]

/-- What is read of a value prints the same text. -/
theorem chars_literalTree (unit : String) (n : Nat) {v : Json} (h : HasNumerals v) :
    Node.chars unit n (literalTree v) = Node.chars unit n (literalOf v) := by
  induction v using Json.nested_induction with
  | null => rfl
  | bool b => rfl
  | string s => rfl
  | number text =>
    rw [literalTree, chars_numeralTree unit n h, chars_number]
  | array items ih =>
    rw [HasNumerals, itemsHaveNumerals_iff] at h
    rw [literalTree, literalOf, itemTrees_eq, literalItems_eq, Node.chars_array, Node.chars_array]
    have same : ∀ v ∈ items, Doc.chars unit (Node.doc n (.item .absent (literalTree v) false false)) =
        Doc.chars unit (Node.doc n (.item .absent (literalOf v) false false)) := fun v hv => by
      rw [Node.chars_item, Node.chars_item, ih v hv (h v hv)]
    rw [List.map_map, List.map_map]
    exact congrArg (fun css => '[' :: (Doc.commaChars css ++ [']'])) (List.map_congr_left same)
  | object es ih =>
    rw [HasNumerals, entriesHaveNumerals_iff] at h
    rw [literalTree, literalOf, entryTrees_eq, literalEntries_eq, Node.chars_array, Node.chars_array]
    have same : ∀ e ∈ es, Doc.chars unit (Node.doc n
        (.item (.present (.literal (.ofText e.1))) (literalTree e.2) false false)) = Doc.chars unit (Node.doc n
        (.item (.present (.literal (.ofText e.1))) (literalOf e.2) false false)) := fun e he => by
      rw [Node.chars_keyedItem, Node.chars_keyedItem, ih e he (h e he)]
    rw [List.map_map, List.map_map]
    exact congrArg (fun css => '[' :: (Doc.commaChars css ++ [']'])) (List.map_congr_left same)

/-! ## Spelled tokens -/

namespace Lexer

/-- In front of whatever goes on with no name and no number, the characters are the tokens. -/
def SpellsApart (cs : List Char) (fs : List Face) : Prop := ∀ rest, Boundary rest → Spells cs fs rest

/-- Texts with commas between them. -/
theorem SpellsApart.commas {css : List (List Char)} {fss : List (List Face)} (h : List.Forall₂ SpellsApart css fss) :
    SpellsApart (Doc.commaChars css) (commaFaces fss) := by
  induction h with
  | nil => exact fun rest _ => .nil rest
  | @cons cs fs css fss first others ih =>
    intro rest boundary
    cases others with
    | nil =>
      rw [commaFaces, behindFaces_nil, List.append_nil]
      exact first rest boundary
    | cons _ _ =>
      rw [commaFaces_cons_cons]
      exact (first _ (boundary_cons (by decide) _)).append (Spells.comma (ih rest boundary).space)

/-- The characters of a string as they stand between single quotes. -/
def escapedChars (cs : List Char) : List Char := cs.flatMap fun c => if c = '\\' ∨ c = '\'' then ['\\', c] else [c]

theorem toList_text_ofText (s : String) :
    (Literal.ofText s).text.toList = '\'' :: (escapedChars s.toList ++ ['\'']) := by
  have escaped (c : Char) : (if c = '\\' ∨ c = '\'' then "\\".push c else String.singleton c).toList =
      if c = '\\' ∨ c = '\'' then ['\\', c] else [c] := by
    split <;> simp
  simp [Literal.ofText, Literal.text, escapedChars, List.flatMap_map, escaped]

/-- Between single quotes a string goes up to the first quote that is not escaped. -/
theorem enclosedLength_escapedChars (cs rest : List Char) :
    enclosedLength [.quote '\''] (escapedChars cs ++ '\'' :: rest) = .ok ((escapedChars cs).length + 1) := by
  induction cs with
  | nil => simp [escapedChars, enclosedLength, Enclosure.step, Except.map]
  | cons c cs ih =>
    rw [escapedChars, List.flatMap_cons]
    change enclosedLength _ (_ ++ escapedChars cs ++ _) = .ok ((_ ++ escapedChars cs).length + 1)
    by_cases special : c = '\\' ∨ c = '\''
    · rw [if_pos special]
      simp only [List.cons_append, List.nil_append, enclosedLength, Enclosure.step, if_true, ih, Except.map]
      simp
    · rw [if_neg special]
      rw [not_or] at special
      simp only [List.cons_append, List.nil_append, enclosedLength, Enclosure.step, special.1, special.2,
        if_false, ne_eq,
        not_true_eq_false, false_and, ih, Except.map]
      simp

/-- A string in single quotes is one token. -/
theorem spells_quoted (s : String) (rest : List Char) : Spells (Literal.ofText s).text.toList [quotedFace s] rest := by
  have whole : String.ofList ('\'' :: (escapedChars s.toList ++ ['\''])) = (Literal.ofText s).text := by
    rw [← toList_text_ofText, String.ofList_toList]
  rw [toList_text_ofText, quotedFace]
  refine spells_lexeme ?_ (by simp)
  have length := enclosedLength_escapedChars s.toList rest
  have scanned : scan '\'' (escapedChars s.toList ++ '\'' :: rest) =
      .ok ⟨.string, (Literal.ofText s).text, (escapedChars s.toList).length + 1⟩ := by
    have string : scan '\'' (escapedChars s.toList ++ '\'' :: rest) =
      enclosed .string ['\''] (.quote '\'') (escapedChars s.toList ++ '\'' :: rest) := rfl
    rw [string, enclosed, length, ← whole]
    simp [List.take_append, List.take_of_length_le]
  rw [List.cons_append, List.append_assoc, lexemeAt?_cons _ (by decide) (by decide)]
  rw [List.singleton_append, scanned]
  simp [Except.toOption]

end Lexer

/-- The text of a value spells its tokens. -/
theorem spells_literal (unit : String) (n : Nat) {v : Json} (h : HasNumerals v) :
    Lexer.SpellsApart (Node.chars unit n (literalOf v)) (literalFaces v) := by
  have word (text : String) (is_name : IsName text) : Lexer.SpellsApart text.toList [(.ident, text)] :=
    fun _ boundary => Lexer.IsName.spells is_name (.of_boundary boundary)
  have list {css : List (List Char)} {fss : List (List Face)} (items : List.Forall₂ Lexer.SpellsApart css fss) :
      Lexer.SpellsApart ('[' :: (Doc.commaChars css ++ [']']))
        ((.openBracket, "[") :: (commaFaces fss ++ [(.closeBracket, "]")])) := fun rest _ =>
    .openBracket ((Lexer.SpellsApart.commas items _ (Lexer.boundary_cons (by decide) _)).append
      (.closeBracket (.nil rest)))
  induction v using Json.nested_induction with
  | null => exact word "null" (by decide)
  | bool b =>
    cases b with
    | true => exact word "true" (by decide)
    | false => exact word "false" (by decide)
  | string s =>
    intro rest _
    rw [literalOf, Node.chars_literal]
    exact Lexer.spells_quoted s rest
  | number text =>
    intro rest boundary
    rw [literalFaces, chars_number]
    rcases IsNumeral.magnitude h with ⟨cs, chars, positive⟩ | positive
    · have no_mark : headIs (Lexer.longerMarks '-').contains (cs ++ rest) = false := by
        obtain ⟨d, ds, rfl, digit⟩ := positive.exists_digit
        change (Lexer.longerMarks '-').contains d = false
        simpa using Lexer.forall_isDigit (p := fun d => !(Lexer.longerMarks '-').contains d) (by decide) d digit
      rw [chars]
      exact .minus no_mark (positive.spells boundary)
    · rw [positive.numeralFaces_eq]
      exact positive.spells boundary
  | array items ih =>
    rw [HasNumerals, itemsHaveNumerals_iff] at h
    rw [literalOf, literalItems_eq, Node.chars_array, literalFaces, itemFaces_eq, List.map_map]
    refine list (List.forall₂_map_left_iff.2 (List.forall₂_map_right_iff.2 (List.forall₂_same.2 fun v hv => ?_)))
    rw [Function.comp_apply, Node.chars_item]
    exact ih v hv (h v hv)
  | object es ih =>
    rw [HasNumerals, entriesHaveNumerals_iff] at h
    rw [literalOf, literalEntries_eq, Node.chars_array, literalFaces, entryFaces_eq, List.map_map]
    refine list (List.forall₂_map_left_iff.2 (List.forall₂_map_right_iff.2 (List.forall₂_same.2 fun e he => ?_)))
    rw [Function.comp_apply, Node.chars_keyedItem, Node.chars_literal]
    intro rest boundary
    exact (Lexer.spells_quoted e.1 _).append (.space (.fatArrow (ih e he (h e he) rest boundary)))

/-! ## Reading -/

/-- Here a value is at its end: nothing goes on with it. -/
def EndsValue (rest : List Face) : Prop := ∀ least, Stops least rest

theorem EndsValue.ending {k : TokenKind} (h : k ∈ endingKinds) (text : String) (rest : List Face) :
    EndsValue ((k, text) :: rest) :=
  fun _ => .ending h rest

theorem EndsValue.closeParen (rest : List Face) : EndsValue ((.closeParen, ")") :: rest) := fun _ => .closeParen rest

section Reading

variable {fs rest : List Face} {e : Expr} {least : Level} {j : Nat}

/-- A primary expression that ends is an expression, three levels of nesting further up. -/
theorem reads_expr_of_primary {k : TokenKind} {text : String}
    (closed : k ∈ [TokenKind.variable, .int, .float, .string, .openParen, .openBracket])
    (h : Reads (Grammar.upTo j).primaryExpr ((k, text) :: fs) e rest) (ends : EndsValue rest) :
    Reads ((Grammar.upTo (j + 3)).expr least) ((k, text) :: fs) e rest :=
  (ends least).reads_operatorExpr ((Grammar.upTo (j + 1)).reads_closed closed h (ends least))

/-- The words that are literals. -/
def literalWords : List (String × Literal) := [("null", .null), ("true", .bool true), ("false", .bool false)]

theorem reads_literalWord {w : String × Literal} (h : w ∈ literalWords) (ends : EndsValue rest) :
    Reads ((Grammar.upTo (j + 3)).expr least) [(.ident, w.1)] (.literal w.2) rest := by
  obtain ⟨f, fs, rfl, no_access⟩ := (ends least).exists_cons
  have no_paren : f.1 ≠ .openParen := fun same => no_access (by rw [same]; decide)
  have no_colons : f.1 ≠ .doubleColon := fun same => no_access (by rw [same]; decide)
  have primary : Reads (Grammar.upTo j).primaryExpr [(.ident, w.1)] (.literal w.2) (f :: fs) := by
    refine Reads.get_bind fun s hs => ?_
    rw [Stream.kind_eq hs]
    refine Reads.get_bind fun s hs => ?_
    have text : s.peek.text = w.1 := congrArg Prod.snd (Stream.face_peek hs)
    rw [Stream.hasAt_one_eq hs, Stream.hasAt_one_eq hs, text, beq_eq_false_iff_ne.2 no_paren,
      beq_eq_false_iff_ne.2 no_colons]
    simp only [literalWords, List.mem_cons, List.not_mem_nil, or_false] at h
    rcases h with rfl | rfl | rfl
    all_goals exact Reads.skip (by decide) (.pure _ _)
  obtain ⟨no_keyword, no_include⟩ := (show ∀ w ∈ literalWords,
    (∀ word ∈ ["new", "clone", "print", "throw", "yield"], Face.isKeyword (.ident, w.1) word = false) ∧
      IncludeKind.ofKeyword? w.1 = none by decide) w h
  have operand : Reads (Grammar.upTo (j + 1)).operandExpr [(.ident, w.1)] (.literal w.2) (f :: fs) := by
    refine Reads.get_bind fun s hs => ?_
    rw [Stream.kind_eq hs]
    refine Reads.get_bind fun s hs => ?_
    have text : s.peek.text = w.1 := congrArg Prod.snd (Stream.face_peek hs)
    rw [Stream.atKeyword_eq hs, Stream.atKeyword_eq hs, Stream.atKeyword_eq hs, Stream.atKeyword_eq hs,
      Stream.atKeyword_eq hs, text, no_include, no_keyword "new" (by simp), no_keyword "clone" (by simp),
      no_keyword "print" (by simp), no_keyword "throw" (by simp), no_keyword "yield" (by simp)]
    exact primary.bind_nil ((ends least).reads_accesses _ _)
  exact (ends least).reads_operatorExpr operand

theorem reads_magnitude {cs : List Char} (ends : EndsValue rest) :
    Reads ((Grammar.upTo (j + 3)).expr least) [magnitudeFace cs] (.literal (magnitudeLiteral cs)) rest := by
  have primary : Reads (Grammar.upTo j).primaryExpr [magnitudeFace cs] (.literal (magnitudeLiteral cs)) rest := by
    refine Reads.get_bind fun s hs => ?_
    rw [Stream.kind_eq hs, magnitudeFace, magnitudeLiteral]
    rcases Lexer.kind_numberShape cs with kind | kind
    all_goals
      rw [kind]
      exact Reads.advance (by decide) fun _ same => by rw [same]; rfl
  refine reads_expr_of_primary ?_ primary ends
  rcases Lexer.kind_numberShape cs with kind | kind
  all_goals
    rw [kind]
    decide

theorem reads_numeral {text : String} (h : IsNumeral text) (enough : 3 * (numeralFaces text.toList).length ≤ j)
    (ends : EndsValue rest) :
    Reads ((Grammar.upTo j).expr least) (numeralFaces text.toList) (numeralTree text.toList) rest := by
  rcases h.magnitude with ⟨cs, chars, -⟩ | positive
  · rw [chars] at enough ⊢
    simp only [numeralFaces, List.length_cons, List.length_nil] at enough
    obtain ⟨k, rfl⟩ : ∃ k, j = k + 5 := ⟨j - 5, by omega⟩
    exact (ends least).reads_operatorExpr ((Grammar.upTo (k + 3)).reads_unary .neg (reads_magnitude ends))
  · rw [positive.numeralFaces_eq, List.length_singleton] at enough
    obtain ⟨k, rfl⟩ : ∃ k, j = k + 3 := ⟨j - 3, by omega⟩
    rw [positive.numeralFaces_eq, positive.numeralTree_eq]
    exact reads_magnitude ends

theorem reads_quoted (s : String) (ends : EndsValue rest) :
    Reads ((Grammar.upTo (j + 3)).expr least) [quotedFace s] (.literal (.ofText s)) rest := by
  have primary : Reads (Grammar.upTo j).primaryExpr [quotedFace s] (.literal (.ofText s)) rest := by
    refine Reads.get_bind fun stream hs => ?_
    rw [Stream.kind_eq hs]
    exact Reads.advance (by decide) fun _ same => by rw [same]; rfl
  exact reads_expr_of_primary (by simp) primary ends

/-! ### Lists -/

/-- The kinds of the tokens with which a value begins. -/
def valueStarts : List TokenKind := [.ident, .int, .float, .minus, .string, .openBracket]

theorem begins_literalFaces (v : Json) : Begins (·.1 ∈ valueStarts) (literalFaces v) := by
  cases v with
  | null => exact ⟨_, _, rfl, by decide⟩
  | bool b => cases b <;> exact ⟨_, _, rfl, by decide⟩
  | string s => exact ⟨quotedFace s, [], rfl, show TokenKind.string ∈ valueStarts by decide⟩
  | array items => exact ⟨_, _, rfl, by decide⟩
  | object es => exact ⟨_, _, rfl, by decide⟩
  | number text =>
    rw [literalFaces]
    unfold numeralFaces
    split
    · exact ⟨_, _, rfl, by decide⟩
    · refine ⟨_, _, rfl, ?_⟩
      rcases Lexer.kind_numberShape text.toList with kind | kind
      all_goals
        rw [magnitudeFace, kind]
        decide

/-- Here an item of a list is at its end. -/
def EndsItem (rest : List Face) : Prop := Begins (·.1 ∈ [TokenKind.comma, .closeBracket]) rest

theorem EndsItem.endsValue (h : EndsItem rest) : EndsValue rest := by
  obtain ⟨f, fs, rfl, kind⟩ := h
  exact .ending ((show ∀ k ∈ [TokenKind.comma, .closeBracket], k ∈ endingKinds by decide) f.1 kind) f.2 fs

variable {g : Grammar}

theorem reads_item {f : Face} (start : f.1 ∈ valueStarts) (h : Reads g.anyExpr (f :: fs) e rest)
    (ends : EndsItem rest) :
    Reads g.arrayItem (f :: fs) (.item .absent e false false) rest := by
  obtain ⟨f', fs', rfl, kind⟩ := ends
  have not_start (k : TokenKind) (other : k ∉ valueStarts) : f.1 ≠ k := fun same => other (same ▸ start)
  have no_arrow : f'.1 ≠ .fatArrow := fun same => absurd (same ▸ kind) (by decide)
  refine Reads.get_bind fun s hs => ?_
  rw [Stream.at_eq hs, beq_eq_false_iff_ne.2 (not_start .comma (by decide))]
  refine Reads.nil_bind (Reads.tryToken_false (not_start .ellipsis (by decide))) ?_
  refine Reads.nil_bind (Reads.tryToken_false (not_start .amp (by decide))) ?_
  exact h.bind_nil ((Reads.tryToken_false no_arrow).bind_nil (.pure _ _))

theorem reads_keyedItem {key : Expr} {f f' : Face} {fs' : List Face} (start : f.1 ∈ valueStarts)
    (start' : f'.1 ∈ valueStarts) (hk : ∀ r, Reads g.anyExpr (f :: fs) key ((.fatArrow, "=>") :: r))
    (h : Reads g.anyExpr (f' :: fs') e rest) :
    Reads g.arrayItem ((f :: fs) ++ (.fatArrow, "=>") :: f' :: fs') (.item (.present key) e false false) rest := by
  have not_start {f : Face} (start : f.1 ∈ valueStarts) (k : TokenKind) (other : k ∉ valueStarts) : f.1 ≠ k :=
    fun same => other (same ▸ start)
  refine Reads.get_bind fun s hs => ?_
  rw [Stream.at_eq hs, beq_eq_false_iff_ne.2 (not_start start .comma (by decide))]
  refine Reads.nil_bind (Reads.tryToken_false (not_start start .ellipsis (by decide))) ?_
  refine Reads.nil_bind (Reads.tryToken_false (not_start start .amp (by decide))) ?_
  refine Reads.bind (hk _) (Reads.cons_bind (Reads.tryToken_true (by decide)) ?_)
  refine Reads.nil_bind (Reads.tryToken_false (not_start start' .amp (by decide))) ?_
  exact h.map fun e => Node.item (.present key) e false false

/-- Items in brackets. -/
theorem reads_list {j : Nat} {fss : List (List Face)} {xs : List (Node .item)}
    (items : List.Forall₂ (fun fs x => ∀ r, EndsItem r → Reads (Grammar.upTo j).arrayItem fs x r) fss xs)
    (begins : ∀ fs ∈ fss, Begins (·.1 ∈ valueStarts) fs) (ends : EndsValue rest) :
    Reads ((Grammar.upTo (j + 3)).expr least) ((.openBracket, "[") :: (commaFaces fss ++ [(.closeBracket, "]")]))
      (.array (.ofList xs) true) rest := by
  have begins' : ∀ fs ∈ fss, Begins (·.1 ≠ .closeBracket) fs := fun fs hfs =>
    (begins fs hfs).mono fun f start => (show ∀ k ∈ valueStarts, k ≠ .closeBracket by decide) f.1 start
  have inner : Reads ((Grammar.upTo j).arrayItems .closeBracket) (commaFaces fss ++ [(.closeBracket, "]")]) (.ofList xs)
      rest :=
    Reads.bind (Reads.commaListUntil items begins' (by decide) (fun r => ⟨_, r, rfl, by decide⟩) ⟨_, _, rfl, by decide⟩)
      (Reads.expect (by decide) (.pure _ _))
  have primary : Reads (Grammar.upTo j).primaryExpr ((.openBracket, "[") :: (commaFaces fss ++ [(.closeBracket, "]")]))
      (.array (.ofList xs) true) rest := by
    refine Reads.get_bind fun s hs => ?_
    rw [Stream.kind_eq hs]
    exact Reads.skip (by decide) (inner.map fun items => Node.array items true)
  exact reads_expr_of_primary (by decide) primary ends

end Reading

theorem exists_nesting {v : Json} {n : Nat} (enough : 3 * (literalFaces v).length ≤ n) : ∃ j, n = j + 3 := by
  obtain ⟨f, fs, faces, -⟩ := begins_literalFaces v
  rw [faces, List.length_cons] at enough
  exact ⟨n - 3, by omega⟩

/-- In front of something that does not go on with it, a value is read. -/
theorem reads_literal {v : Json} (h : HasNumerals v) {n : Nat} {least : Level} {rest : List Face}
    (enough : 3 * (literalFaces v).length ≤ n) (ends : EndsValue rest) :
    Reads ((Grammar.upTo n).expr least) (literalFaces v) (literalTree v) rest := by
  obtain ⟨j, rfl⟩ := exists_nesting enough
  induction v using Json.nested_induction generalizing j least rest with
  | null => exact reads_literalWord (w := ("null", .null)) (by decide) ends
  | bool b =>
    cases b with
    | true => exact reads_literalWord (w := ("true", .bool true)) (by decide) ends
    | false => exact reads_literalWord (w := ("false", .bool false)) (by decide) ends
  | string s => exact reads_quoted s ends
  | number text => exact reads_numeral h enough ends
  | array items ih =>
    rw [HasNumerals, itemsHaveNumerals_iff] at h
    rw [literalFaces, itemFaces_eq, List.length_cons, List.length_append, List.length_singleton] at enough
    rw [literalFaces, itemFaces_eq, literalTree, itemTrees_eq]
    refine reads_list ?items ?begins ends
    case items =>
      refine List.forall₂_map_left_iff.2 (List.forall₂_map_right_iff.2 (List.forall₂_same.2 fun v hv r ends => ?_))
      have size := length_le_commaFaces (List.mem_map_of_mem (f := literalFaces) hv)
      have value : Reads (Grammar.upTo j).anyExpr (literalFaces v) (literalTree v) r := by
        obtain ⟨k, rfl⟩ := exists_nesting (v := v) (n := j) (by omega)
        exact ih v hv (h v hv) ends.endsValue k (by omega)
      obtain ⟨f, fs, faces, start⟩ := begins_literalFaces v
      rw [faces] at value ⊢
      exact reads_item start value ends
    case begins =>
      rintro _ member
      obtain ⟨v, -, rfl⟩ := List.mem_map.1 member
      exact begins_literalFaces v
  | object es ih =>
    rw [HasNumerals, entriesHaveNumerals_iff] at h
    rw [literalFaces, entryFaces_eq, List.length_cons, List.length_append, List.length_singleton] at enough
    rw [literalFaces, entryFaces_eq, literalTree, entryTrees_eq]
    refine reads_list ?entries ?starts ends
    case entries =>
      refine List.forall₂_map_left_iff.2 (List.forall₂_map_right_iff.2 (List.forall₂_same.2 fun e he r ends => ?_))
      have size := length_le_commaFaces
        (List.mem_map_of_mem (f := fun e => quotedFace e.1 :: (.fatArrow, "=>") :: literalFaces e.2) he)
      rw [List.length_cons, List.length_cons] at size
      obtain ⟨k, rfl⟩ := exists_nesting (v := e.2) (n := j) (by omega)
      have value : Reads (Grammar.upTo (k + 3)).anyExpr (literalFaces e.2) (literalTree e.2) r :=
        ih e he (h e he) ends.endsValue k (by omega)
      obtain ⟨f, fs, faces, start⟩ := begins_literalFaces e.2
      rw [faces] at value ⊢
      have string : (quotedFace e.1).1 ∈ valueStarts := show TokenKind.string ∈ valueStarts by decide
      exact reads_keyedItem string start (fun r => reads_quoted e.1 (.ending (by decide) _ r)) value
    case starts =>
      rintro _ member
      obtain ⟨e, -, rfl⟩ := List.mem_map.1 member
      exact ⟨_, _, rfl, show TokenKind.string ∈ valueStarts by decide⟩

end Codewright.Php
