import Codewright.Proofs.Php.CreatedClass
import Codewright.Proofs.Php.FunctionText
import Codewright.Proofs.Php.PrintedTypes

/-!
# Properties and parameters made, printed and read back

The type of a descriptor is any text that denotes a type. What is printed is not that text but the text of the type, so it
is read back if the text of the type is, and if it is not taken for something else that may stand in its place.

* `IsKeptType` – the type that a text denotes is printed so that it is read again, behind some words as well;
* `Descriptor.Property.asPrinted`, `Descriptor.Parameter.asPrinted` – the descriptors of what is read back;
* `Descriptor.Property.ReadsBack`, `Descriptor.Parameter.ReadsBack` – what is printed is read as the descriptor says;
* `members_readBack` – a property in a class of its own, and a parameter of a function of its own;
* `not_members_readBack` – types that are not read back.
-/

namespace Codewright.Php

open Text Source

/-- The type that the text denotes is read again from its own text, also where each of the words is read as itself. -/
def IsKeptType (words : List String) (text : String) : Prop :=
  (hintOf text).IsKept ∧ (hintOf text).OpensWithout words

instance (words : List String) (text : String) : Decidable (IsKeptType words text) := inferInstanceAs (Decidable (_ ∧ _))

/-- The text that is printed for the type that the text denotes. -/
def printedType (text : String) : String := (hintOf text).text

theorem IsKeptType.isPrintedType {words : List String} {text : String} (h : IsKeptType words text)
    (parsed : parseType text = .ok (hintOf text)) : IsPrintedType words (printedType text) := by
  have is_read := isRead_of_parseType parsed
  refine ⟨(hintOf text).readBack, is_read.isWritten_readBack h.1, ?_, is_read.text_readBack.symm⟩
  intro name opens
  rw [is_read.opening?_readBack] at opens
  exact h.2 name opens

theorem isPrintedType_of_mem {words : List String} {text? : Option String}
    (parsed : ∀ text ∈ text?, parseType text = .ok (hintOf text)) (kept : ∀ text ∈ text?, IsKeptType words text) :
    ∀ text ∈ text?.map printedType, IsPrintedType words text := by
  intro text ht
  obtain ⟨written, type, rfl⟩ := Option.map_eq_some_iff.1 ht
  exact (kept written type).isPrintedType (parsed written type)

theorem typeText_congr {τ? σ? : Option TypeHint} (h : τ?.map TypeHint.text = σ?.map TypeHint.text) :
    typeText τ? = typeText σ? := by
  cases τ? <;> cases σ? <;> simp_all [typeText]

/-- A type is printed as it would be if its descriptor had been written as it is printed. -/
theorem typeText_printedType {words : List String} {text? : Option String}
    (h : ∀ text ∈ text?.map printedType, IsPrintedType words text) :
    typeText ((text?.map printedType).map hintOf) = typeText (text?.map hintOf) := by
  refine typeText_congr ?_
  rw [map_text_hintOf h, Option.map_map]
  rfl

namespace Descriptor

/-- The property with its type as it is printed. -/
def Property.asPrinted (p : Property) : Property := { p with type := p.type.map printedType }

/-- The parameter with its type as it is printed. -/
def Parameter.asPrinted (p : Parameter) : Parameter := { p with type := p.type.map printedType }

/-- The file with a class that has a single member. -/
def memberFile (m : Member) : File :=
  ({} : Frame).file (.classLike ⟨.cls .none none [], "X", none, [], .nowhere⟩ (.ofList [m]))

/-! ## Properties -/

namespace Property

variable {p : Property}

theorem asPrinted_isWritable (parsed : ∀ text ∈ p.type, parseType text = .ok (hintOf text))
    (kept : ∀ text ∈ p.type, IsKeptType memberWords text) (numerals : ∀ v ∈ p.default, HasNumerals v) :
    p.asPrinted.IsWritable :=
  ⟨isPrintedType_of_mem parsed kept, numerals⟩

theorem print_asPrinted (h : p.asPrinted.IsWritable) :
    (memberFile (p.asPrinted.node literalOf)).print usualIndent = (memberFile (p.node literalOf)).print usualIndent := by
  have printed (p : Property) : (Node.doc 1 (p.node literalOf) : Doc) =
      Doc.line 1 (.text ((if p.modifiers.propertyText.isEmpty then "var " else p.modifiers.propertyText) ++
        typeText (p.type.map hintOf)) :: (.text ("$" ++ bareName p.name) ::
          initDoc (Node.doc 1 (.ofOption (p.default.map literalOf)))) ++ [.text ";"]) := rfl
  have file (p : Property) : (memberFile (p.node literalOf)).doc = .text "<?php\n" :: (Doc.blankLine ++
      ([] ++ (Doc.line 0 [.text "class X"] ++ bracedBelow 0 ([] ++ Node.doc 1 (p.node literalOf) ++ [])) ++ [])) := rfl
  rw [File.print, File.print, file, file, printed, printed, asPrinted, typeText_printedType h.type]
  rfl

/-- The printed class is read as a class with that property and nothing else in it. -/
theorem readBack (parsed : ∀ text ∈ p.type, parseType text = .ok (hintOf text))
    (kept : ∀ text ∈ p.type, IsKeptType memberWords text) (numerals : ∀ v ∈ p.default, HasNumerals v)
    (is_identifier : isIdentifier (bareName p.name).toList = true) : ∃ f,
      parse ((memberFile (p.node literalOf)).print usualIndent) = .ok f ∧
        f.summary = ⟨none, [], [⟨"X", none, [], .none, [], [], [], [p.asPrinted.summary]⟩], [], [], [], []⟩ := by
  have writable := asPrinted_isWritable parsed kept numerals
  let c : Class := { name := "X", properties := [p.asPrinted] }
  have named : isIdentifier "X".toList = true := by decide
  have printable : c.IsPrintable := ⟨named, rfl, nofun, nofun, List.forall_mem_singleton.2 ⟨writable, is_identifier⟩⟩
  obtain ⟨f, read, summary⟩ := Class.summary_print (c := c) ⟨nofun, nofun⟩ printable
  refine ⟨f, ?_, summary⟩
  rw [← print_asPrinted writable]
  exact read

end Property

/-! ## Parameters -/

namespace Parameter

variable {p : Parameter}

theorem asPrinted_isWritable (parsed : ∀ text ∈ p.type, parseType text = .ok (hintOf text))
    (kept : ∀ text ∈ p.type, IsKeptType promotingWords text) (numerals : ∀ v ∈ p.default, HasNumerals v) :
    p.asPrinted.IsWritable :=
  ⟨isPrintedType_of_mem parsed kept, numerals⟩

theorem print_asPrinted (h : p.asPrinted.IsWritable) (function : String) :
    (functionFile function [p.asPrinted.node literalOf]).print usualIndent =
      (functionFile function [p.node literalOf]).print usualIndent := by
  have printed (p : Parameter) : (Node.doc 0 (p.node literalOf) : Doc) =
      .text (String.join [] ++ (p.promote.elim Modifiers.none Visibility.modifiers).propertyText ++
        typeText (p.type.map hintOf) ++ (if p.byRef then "&" else "") ++ (if p.variadic then "..." else "") ++ "$" ++
        bareName p.name) :: initDoc (Node.doc 0 (.ofOption (p.default.map literalOf))) := rfl
  have file (p : Parameter) : (functionFile function [p.node literalOf]).doc = .text "<?php\n" :: (Doc.blankLine ++
      ([] ++ ([] ++ Doc.line 0 (.text ("function " ++ "" ++ function ++ "(") ::
        Doc.commas [Node.doc 0 (p.node literalOf)] ++ [.text (")" ++ "")]) ++ bracedBelow 0 []) ++ [])) := rfl
  rw [File.print, File.print, file, file, printed, printed, asPrinted, typeText_printedType h.type]

/-- The printed function is read as a function with that parameter and no other. -/
theorem readBack (parsed : ∀ text ∈ p.type, parseType text = .ok (hintOf text))
    (kept : ∀ text ∈ p.type, IsKeptType promotingWords text) (numerals : ∀ v ∈ p.default, HasNumerals v)
    (is_identifier : isIdentifier (bareName p.name).toList = true) {function : String} (named : IsName function) : ∃ f d,
      parse ((functionFile function [p.node literalOf]).print usualIndent) = .ok f ∧ f.declarations = [d] ∧
        d.IsFunction function [p.asPrinted.node literalTree] := by
  have writable := asPrinted_isWritable parsed kept numerals
  have printable : ∀ q ∈ [p.asPrinted], q.IsPrintable :=
    List.forall_mem_singleton.2 ⟨writable, Lexer.isIdentifier_spec is_identifier⟩
  obtain ⟨f, d, read, declared, is_function⟩ := exists_parse_functionFile named printable
  refine ⟨f, d, ?_, declared, is_function⟩
  rw [← print_asPrinted writable]
  exact read

end Parameter

/-! ## What is made of descriptors -/

/-- What is made of the property is printed, in a class of its own, as a text that is read as that property alone. -/
def Property.ReadsBack (p : Property) : Prop := ∀ made, p.build = .ok made → ∃ f,
  parse ((memberFile made.value).print usualIndent) = .ok f ∧
    f.summary = ⟨none, [], [⟨"X", none, [], .none, [], [], [],
      [⟨bareName p.name, p.modifiers, p.type.map printedType, p.default.map fun v => Expr.print (literalOf v)⟩]⟩],
      [], [], [], []⟩

/-- What is made of the parameter is printed, in a function of its own, as a text that is read as that parameter alone. -/
def Parameter.ReadsBack (p : Parameter) : Prop := ∀ made, p.build = .ok made → ∀ function, IsName function →
  ∃ f decl d value, parse ((functionFile function [made]).print usualIndent) = .ok f ∧
    f.declarations = [.function decl (.ofList [.param d value])] ∧ decl.name = function ∧
    d.name = bareName p.name ∧ d.type.map TypeHint.text = p.type.map printedType ∧ d.byRef = p.byRef ∧
    d.variadic = p.variadic ∧ d.promoted = p.promote.elim .none Visibility.modifiers ∧
    value = .ofOption (p.default.map literalTree)

/-- A property without a comment and a parameter are read as their descriptors say if their types are kept. -/
theorem members_readBack (p : Property) (q : Parameter) :
    (p.doc = none → (∀ v ∈ p.default, HasNumerals v) → (∀ text ∈ p.type, IsKeptType memberWords text) → p.ReadsBack) ∧
      ((∀ v ∈ q.default, HasNumerals v) → (∀ text ∈ q.type, IsKeptType Parameter.promotingWords text) → q.ReadsBack) := by
  constructor
  · intro doc numerals kept made built
    obtain ⟨is_identifier, parsed, rfl⟩ := Property.build_eq doc built
    exact Property.readBack parsed kept numerals is_identifier
  · intro numerals kept made built function named
    obtain ⟨is_identifier, parsed, rfl⟩ := Parameter.build_eq built
    obtain ⟨f, _, read, declared, decl, rfl, is_name⟩ := Parameter.readBack parsed kept numerals is_identifier named
    have type := map_text_hintOf (isPrintedType_of_mem parsed kept)
    exact ⟨f, decl, _, _, read, declared, is_name, rfl, type, rfl, rfl, rfl, rfl⟩

/-- A static property with a type that has more parentheses than its text. -/
def groupedProperty : Property :=
  { name := "$x", type := some "((A)&B)|null", isStatic := true, default := some .null }

/-- A promoted parameter whose type is also a modifier of methods. -/
def promotedParameter : Parameter :=
  { name := "$x", type := some "?static", promote := some .priv, byRef := true, default := some (.number "-1") }

theorem members_readBack_groups :
    (groupedProperty.build.isOk = true ∧ groupedProperty.ReadsBack) ∧
      promotedParameter.build.isOk = true ∧ promotedParameter.ReadsBack := by
  have no_value : HasNumerals .null := trivial
  have value : HasNumerals (.number "-1") := show IsNumeral "-1" by decide
  have union : IsKeptType memberWords "((A)&B)|null" := by decide +kernel
  have nullable : IsKeptType Parameter.promotingWords "?static" := by decide +kernel
  obtain ⟨property, parameter⟩ := members_readBack groupedProperty promotedParameter
  refine ⟨⟨by decide +kernel, property rfl ?_ ?_⟩, by decide +kernel, parameter ?_ ?_⟩
  all_goals
    rintro _ ⟨⟩
    assumption

/-- The types of the properties of all classes that are declared in a file that can be read. -/
def propertyTypes? (source : String) : Option (List (List (Option String))) :=
  (parse source).toOption.map fun f => f.summary.classes.map fun c => c.properties.map (·.type)

theorem Property.not_readsBack_of_any {p : Property} (h : (p.build.toOption.any fun made =>
    decide (propertyTypes? ((memberFile made.value).print usualIndent) ≠ some [[p.type.map printedType]])) = true) :
    ¬p.ReadsBack := by
  obtain ⟨made, built, lost⟩ := exists_of_any_toOption h
  intro reads
  obtain ⟨f, read, summary⟩ := reads made built
  refine of_decide_eq_true lost ?_
  rw [propertyTypes?, read]
  simp [Except.toOption, summary]

theorem Parameter.not_readsBack_of_any {p : Parameter} (h : (p.build.toOption.any fun made =>
    decide (parameterTypes? ((functionFile "f" [made]).print usualIndent) ≠ some [[p.type.map printedType]])) = true) :
    ¬p.ReadsBack := by
  obtain ⟨made, built, lost⟩ := exists_of_any_toOption h
  intro reads
  obtain ⟨f, decl, d, value, read, declared, -, -, type, -⟩ := reads made built "f" (by decide)
  refine of_decide_eq_true lost ?_
  rw [parameterTypes?_of_declarations read declared, type]

/-- Behind a question mark the parentheses of a type are not printed, and a modifier that is the type of a property is read
as a modifier. -/
theorem not_members_readBack :
    ¬Property.ReadsBack { name := "x", type := some "?(A&B)" } ∧ ¬Property.ReadsBack { name := "x", type := some "static" } ∧
      ¬Parameter.ReadsBack { name := "x", type := some "?(A&B)" } :=
  ⟨Property.not_readsBack_of_any (by decide +kernel), Property.not_readsBack_of_any (by decide +kernel),
    Parameter.not_readsBack_of_any (by decide +kernel)⟩

end Descriptor

end Codewright.Php
