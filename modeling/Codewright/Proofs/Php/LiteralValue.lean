import Codewright.Proofs.Php.LiteralText

/-!
# The values of literals

What a literal in a source stands for can be told from its tree alone. A JSON value that is made a literal, printed and
read again stands for the same value; only an empty object cannot be told from an empty array.

* `unescaped`, `quotedText?` – what a text in single quotes stands for;
* `Node.decode?` – the value of a tree of literals and lists;
* `withoutEmptyObjects` – a value with empty arrays in the place of empty objects;
* `decode?_literalTree` – the value of what is read; `literalOf_faithful` – of what is made, printed and read.
-/

namespace Codewright.Php

open Text Source

/-! ## Strings -/

/-- The characters that stand between single quotes for others: a backslash in front of a backslash or a quote is left
out, and no other one is. -/
def unescaped : List Char → List Char
  | '\\' :: '\\' :: cs => '\\' :: unescaped cs
  | '\\' :: '\'' :: cs => '\'' :: unescaped cs
  | c :: cs => c :: unescaped cs
  | [] => []

/-- What a text in single quotes stands for. -/
def quotedText? (text : String) : Option String :=
  match text.toList with
  | '\'' :: cs => if cs.getLast? = some '\'' then some (String.ofList (unescaped cs.dropLast)) else none
  | _ => none

theorem unescaped_cons {c : Char} (plain : c ≠ '\\') (cs : List Char) : unescaped (c :: cs) = c :: unescaped cs := by
  rw [unescaped]
  · rintro _ rfl
    exact absurd rfl plain
  · rintro _ rfl
    exact absurd rfl plain

theorem unescaped_escapedChars (cs : List Char) : unescaped (Lexer.escapedChars cs) = cs := by
  induction cs with
  | nil => rfl
  | cons c cs ih =>
    rw [Lexer.escapedChars, List.flatMap_cons]
    change unescaped (_ ++ Lexer.escapedChars cs) = _
    by_cases special : c = '\\' ∨ c = '\''
    · rw [if_pos special]
      rcases special with rfl | rfl <;> simp [unescaped, ih]
    · rw [if_neg special, List.singleton_append, unescaped_cons (not_or.1 special).1, ih]

theorem quotedText?_ofText (s : String) : quotedText? (Literal.ofText s).text = some s := by
  rw [quotedText?, Lexer.toList_text_ofText]
  simp [unescaped_escapedChars]

/-! ## Values -/

/-- What a tree of a category stands for: an item may have a key. -/
@[reducible] def Decoded : Category → Type
  | .expr => Json
  | .item => Option Json × Json
  | .list c => List (Decoded c)
  | .opt c => Option (Decoded c)
  | _ => Unit

/-- What a literal stands for. A number is taken as it is written. -/
def Literal.decode? : Literal → Option Json
  | .null => some .null
  | .bool b => some (.bool b)
  | .int text | .float text => some (.number text)
  | .string text => (quotedText? text).map .string

/-- The entry of an item with a string as its key. -/
def keyedEntry? : Option Json × Json → Option (String × Json)
  | (some (.string key), value) => some (key, value)
  | _ => none

/-- The value of a list: an array if no item has a key, an object if each has a string as its key. -/
def listValue? (items : List (Option Json × Json)) : Option Json :=
  if items.all (·.1.isNone) then some (.array (items.map (·.2))) else (items.mapM keyedEntry?).map .object

/-- What a tree stands for, if it has nothing but literals and lists in it. A minus may stand in front of a number. -/
def Node.decode? : {c : Category} → Node c → Option (Decoded c)
  | _, .nil => some []
  | _, .cons head tail => do return (← decode? head) :: (← decode? tail)
  | _, .absent => some none
  | _, .present value => (decode? value).map some
  | _, .literal value => value.decode?
  | _, .unary .neg (.literal (.int text)) => some (.number ("-" ++ text))
  | _, .unary .neg (.literal (.float text)) => some (.number ("-" ++ text))
  | _, .array items _ => (decode? items).bind listValue?
  | _, .item key value false false => do return (← decode? key, ← decode? value)
  | _, _ => none

namespace Node

theorem decode?_cons {c : Category} (head : Node c) (tail : Node (.list c)) :
    (Node.cons head tail).decode? = do return (← decode? head) :: (← decode? tail) := rfl

theorem decode?_present {c : Category} (value : Node c) : (Node.present value).decode? = (decode? value).map some := rfl

theorem decode?_literal (l : Literal) : (Node.literal l).decode? = l.decode? := rfl

theorem decode?_array (items : Node (.list .item)) (short : Bool) :
    (Node.array items short).decode? = (decode? items).bind listValue? := rfl

theorem decode?_item (key : Node (.opt .expr)) (value : Expr) :
    (Node.item key value false false).decode? = do return (← decode? key, ← decode? value) := rfl

end Node

mutual

/-- The value with empty arrays in the place of empty objects. -/
def withoutEmptyObjects : Json → Json
  | .array items => .array (itemsWithoutEmptyObjects items)
  | .object [] => .array []
  | .object (e :: es) => .object (entriesWithoutEmptyObjects (e :: es))
  | v => v

/-- The items with empty arrays in the place of empty objects. -/
def itemsWithoutEmptyObjects : List Json → List Json
  | [] => []
  | v :: vs => withoutEmptyObjects v :: itemsWithoutEmptyObjects vs

/-- The entries with empty arrays in the place of empty objects. -/
def entriesWithoutEmptyObjects : List (String × Json) → List (String × Json)
  | [] => []
  | (k, v) :: es => (k, withoutEmptyObjects v) :: entriesWithoutEmptyObjects es

end

theorem itemsWithoutEmptyObjects_eq (items : List Json) :
    itemsWithoutEmptyObjects items = items.map withoutEmptyObjects := by
  induction items with
  | nil => rfl
  | cons v vs ih => rw [itemsWithoutEmptyObjects, ih]; rfl

theorem entriesWithoutEmptyObjects_eq (es : List (String × Json)) :
    entriesWithoutEmptyObjects es = es.map fun e => (e.1, withoutEmptyObjects e.2) := by
  induction es with
  | nil => rfl
  | cons e es ih => rw [entriesWithoutEmptyObjects, ih]; rfl

/-! ## What is read of a value -/

/-- Of trees made of values one by one, the values are told one by one. -/
theorem Node.decode?_ofList {ι : Type} {c : Category} {node : ι → Node c} {value : ι → Decoded c} {is : List ι}
    (h : ∀ i ∈ is, (node i).decode? = some (value i)) :
    (Node.ofList (is.map node)).decode? = some (is.map value) := by
  induction is with
  | nil => rfl
  | cons i is ih =>
    have tail := ih fun i hi => h i (by simp [hi])
    rw [List.map_cons, Node.ofList, Node.decode?_cons, h i (by simp), tail]
    rfl

theorem decode?_magnitudeLiteral (cs : List Char) :
    (magnitudeLiteral cs).decode? = some (.number (String.ofList cs)) := by
  rw [magnitudeLiteral]
  split <;> rfl

theorem decode?_numeralTree {text : String} (h : IsNumeral text) :
    (numeralTree text.toList).decode? = some (.number text) := by
  rcases h.magnitude with ⟨cs, chars, -⟩ | positive
  · have whole : "-" ++ String.ofList cs = text := by
      rw [← String.toList_inj, chars]
      simp
    rw [chars, numeralTree, magnitudeLiteral]
    split
    all_goals
      rw [← whole]
      rfl
  · rw [positive.numeralTree_eq, Node.decode?_literal, decode?_magnitudeLiteral, String.ofList_toList]

theorem listValue?_items (vs : List Json) : listValue? (vs.map fun v => (none, v)) = some (.array vs) := by
  simp [listValue?, Function.comp_def]

theorem listValue?_entries (e : String × Json) (es : List (String × Json)) :
    listValue? ((e :: es).map fun e => (some (.string e.1), e.2)) = some (.object (e :: es)) := by
  have entries (es : List (String × Json)) :
      (es.map fun e => (some (Json.string e.1), e.2)).mapM keyedEntry? = some es := by
    induction es with
    | nil => rfl
    | cons e es ih =>
      rw [List.map_cons, List.mapM_cons, ih]
      rfl
  rw [listValue?, entries]
  simp

theorem decode?_ofText (s : String) : Node.decode? (.literal (.ofText s)) = some (.string s) :=
  congrArg (Option.map Json.string) (quotedText?_ofText s)

theorem decode?_itemTrees {vs : List Json} (h : ∀ v ∈ vs, (literalTree v).decode? = some (withoutEmptyObjects v)) :
    (Node.ofList (itemTrees vs)).decode? = some (vs.map fun v => (none, withoutEmptyObjects v)) := by
  rw [itemTrees_eq]
  refine Node.decode?_ofList fun v hv => ?_
  rw [Node.decode?_item, h v hv]
  rfl

theorem decode?_entryTrees {es : List (String × Json)}
    (h : ∀ e ∈ es, (literalTree e.2).decode? = some (withoutEmptyObjects e.2)) :
    (Node.ofList (entryTrees es)).decode? = some (es.map fun e => (some (.string e.1), withoutEmptyObjects e.2)) := by
  rw [entryTrees_eq]
  refine Node.decode?_ofList fun e he => ?_
  have key : (Node.present (.literal (.ofText e.1))).decode? = some (some (Json.string e.1)) := by
    rw [Node.decode?_present, decode?_ofText]
    rfl
  rw [Node.decode?_item, h e he, key]
  rfl

/-- What is read of a value stands for it. -/
theorem decode?_literalTree {v : Json} (h : HasNumerals v) :
    (literalTree v).decode? = some (withoutEmptyObjects v) := by
  induction v using Json.nested_induction with
  | null => rfl
  | bool b => rfl
  | number text => exact decode?_numeralTree h
  | string s => exact decode?_ofText s
  | array items ih =>
    rw [HasNumerals, itemsHaveNumerals_iff] at h
    have list := listValue?_items (items.map withoutEmptyObjects)
    rw [List.map_map] at list
    rw [literalTree, Node.decode?_array, decode?_itemTrees fun v hv => ih v hv (h v hv), withoutEmptyObjects,
      itemsWithoutEmptyObjects_eq]
    exact list
  | object es ih =>
    rw [HasNumerals, entriesHaveNumerals_iff] at h
    rw [literalTree, Node.decode?_array, decode?_entryTrees fun e he => ih e he (h e he)]
    cases es with
    | nil => rfl
    | cons e es =>
      have list := listValue?_entries (e.1, withoutEmptyObjects e.2) (es.map fun e => (e.1, withoutEmptyObjects e.2))
      rw [withoutEmptyObjects, entriesWithoutEmptyObjects_eq]
      simpa [Function.comp_def] using list

/-! ## What is made, printed and read -/

/-- A value that is made a literal and printed is read, as what prints the same text again. -/
theorem parseExpr_print_literalOf {v : Json} (h : HasNumerals v) :
    parseExpr (Expr.print (literalOf v)) = .ok (literalTree v) := by
  obtain ⟨f, fs, first, start⟩ := begins_literalFaces v
  have code : f.1 ∉ [TokenKind.openTag, .closeTag] :=
    (show ∀ k ∈ valueStarts, k ∉ [TokenKind.openTag, .closeTag] by decide) f.1 start
  have spelled := spells_literal usualIndent 0 h [] Lexer.boundary_nil
  rw [first] at spelled
  refine parseExpr_eq_ok spelled code fun n enough => ?_
  rw [← first] at enough ⊢
  exact reads_literal h enough fun _ => .eof []

/-- **JSON values become faithful literals.** Whatever the value, its printed literal is read; what is read prints the
same text and stands for the value, an empty object being an empty array. A string is one token. -/
theorem literalOf_faithful {v : Json} (h : HasNumerals v) :
    (∃ e, parseExpr (Expr.print (literalOf v)) = .ok e ∧ Expr.print e = Expr.print (literalOf v) ∧
      e.decode? = some (withoutEmptyObjects v)) ∧
    ∀ s, ∃ ts, tokenize ("<?php " ++ (Literal.ofText s).text) = .ok ts ∧
      ts.map Token.face = [(.openTag, "<?php"), (.string, (Literal.ofText s).text), eofFace] := by
  refine ⟨⟨literalTree v, parseExpr_print_literalOf h, ?_, decode?_literalTree h⟩, fun s => ?_⟩
  · exact String.toList_inj.1 (chars_literalTree usualIndent 0 h)
  · exact Lexer.tokenize_openTag (Lexer.spells_quoted s [])

/-- A list with a key that ends in a backslash, a tag in a string, and numbers with signs and exponents. -/
theorem literalOf_faithful_nested :
    HasNumerals (.array [.object [("it's \\", .number "-2.50e+3"), ("", .object [])], .string "?> \\'", .number "1E5"]) ∧
      ∃ e, parseExpr (Expr.print (literalOf
          (.array [.object [("it's \\", .number "-2.50e+3"), ("", .object [])], .string "?> \\'", .number "1E5"]))) = .ok e ∧
        e.decode? = some
          (.array [.object [("it's \\", .number "-2.50e+3"), ("", .array [])], .string "?> \\'", .number "1E5"]) := by
  have numerals : HasNumerals
      (.array [.object [("it's \\", .number "-2.50e+3"), ("", .object [])], .string "?> \\'", .number "1E5"]) :=
    ⟨⟨show IsNumeral "-2.50e+3" by decide, trivial, trivial⟩, trivial, show IsNumeral "1E5" by decide, trivial⟩
  obtain ⟨⟨e, read, -, value⟩, -⟩ := literalOf_faithful numerals
  exact ⟨numerals, e, read, value⟩

end Codewright.Php
