import Codewright.Proofs.Php.ClassReading
import Codewright.Proofs.Php.Interleaving

/-!
# The summary of a revised file

A member that is added to a class shows up in the summary of the file as one more entry of the first class, with what the
descriptor says; the summary says the same of everything else.

* `Descriptor.Method.IsShown`, `Descriptor.Property.IsShown` – an entry says what a descriptor says;
* `SameButFirst` – declarations that are summed up alike but for the first class;
* `Rebodied.sameButFirst`, `Rebodied.firstNamespace?_eq` – another body for the first class, in a summary;
* `File.summary_revise` – the summary after an added method and after an added property.
-/

namespace Codewright.Php

open Summary (importsOf classesOf interfacesOf traitDeclsOf enumsOf functionsOf traitsOf constantsOf)

/-! ## What an entry says -/

namespace Descriptor

/-- A summary says of a parameter what its descriptor says. -/
structure Parameter.IsShown (p : Parameter) (shown : Summary.Parameter) : Prop where
  name : shown.name = bareName p.name
  type : ∃ type, typeOf? p.type = .ok type ∧ shown.type = type.map TypeHint.text
  default : shown.default = p.default.map fun v => Expr.print (literalOf v)
  byRef : shown.byRef = p.byRef
  variadic : shown.variadic = p.variadic

/-- A summary says of a method what its descriptor says. -/
structure Method.IsShown (m : Method) (shown : Summary.Method) : Prop where
  name : shown.name = m.name
  visibility : shown.modifiers.visibility = m.visibility
  isStatic : shown.modifiers.isStatic = m.isStatic
  isAbstract : shown.modifiers.isAbstract = m.isAbstract
  isFinal : shown.modifiers.isFinal = m.isFinal
  returnType : ∃ type, typeOf? m.returnType = .ok type ∧ shown.returnType = type.map TypeHint.text
  parameters : List.Forall₂ Parameter.IsShown m.parameters shown.parameters

/-- A summary says of a property what its descriptor says. -/
structure Property.IsShown (p : Property) (shown : Summary.Property) : Prop where
  name : shown.name = bareName p.name
  visibility : shown.modifiers.visibility = p.visibility
  isStatic : shown.modifiers.isStatic = p.isStatic
  isReadonly : shown.modifiers.isReadonly = p.isReadonly
  type : ∃ type, typeOf? p.type = .ok type ∧ shown.type = type.map TypeHint.text
  default : shown.default = p.default.map fun v => Expr.print (literalOf v)

theorem Parameter.isShown_of_build {p : Parameter} {made : Node .param} (built : p.build = .ok made) :
    p.IsShown (Summary.Parameter.ofNode made) := by
  obtain ⟨type, read, rfl⟩ := exists_of_build built
  rw [Summary.Parameter.ofNode, Node.toOption_ofOption, Option.map_map]
  exact ⟨rfl, ⟨type, read, rfl⟩, rfl, rfl, rfl⟩

/-- A method that was made is one entry among the methods, and nothing else. -/
theorem Method.exists_isShown {m : Method} {made : Built Member} (built : m.build = .ok made) :
    ∃ decl params shown, made.value.declarations = [.method decl params] ∧ m.IsShown shown ∧
      Summary.Method.ofMembers [.method decl params] = [shown] := by
  obtain ⟨decl, params, body, head, made_eq, -⟩ := exists_of_build built
  obtain ⟨-, type, nodes, read, parameters, both⟩ := exists_of_buildHead head
  cases both
  rw [made_eq]
  refine ⟨_, _, _, rfl, ?_, rfl⟩
  have visible : m.modifiers.visibility = m.visibility := by
    cases v : m.visibility <;> simp [modifiers, v, Modifiers.visibility, Visibility.modifiers, Modifiers.single,
      Modifiers.none]
  refine ⟨rfl, visible, rfl, rfl, rfl, ⟨type, read, rfl⟩, ?_⟩
  rw [Summary.Parameter.ofNodes, Node.toList_ofList, List.forall₂_map_right_iff]
  exact (forall₂_of_mapM_eq_ok parameters).imp fun _ _ => Parameter.isShown_of_build

/-- A property that was made is one entry among the properties, and nothing else. -/
theorem Property.exists_isShown {p : Property} {made : Built Member} (built : p.build = .ok made) :
    ∃ decl items shown, made.value.declarations = [.property decl items] ∧ p.IsShown shown ∧
      Summary.Property.ofMembers [.property decl items] = [shown] := by
  obtain ⟨type, read, rfl⟩ := exists_of_build built
  refine ⟨_, _, _, rfl, ?_, rfl⟩
  have visible : ({ p.visibility.modifiers with isStatic := p.isStatic, isReadonly := p.isReadonly } : Modifiers).visibility
      = p.visibility := by
    cases p.visibility <;> rfl
  refine ⟨rfl, visible, rfl, rfl, ⟨type, read, rfl⟩, ?_⟩
  show (Node.ofOption (p.default.map literalOf)).toOption.map Expr.print = _
  rw [Node.toOption_ofOption, Option.map_map]
  rfl

end Descriptor

/-! ## Another body, in a summary -/

/-- What a summary says of a class with these members. -/
def Summary.Class.ofMembers (modifiers : Modifiers) (parent : Option Name) (interfaces : List Name) (name : String)
    (members : Members) : Summary.Class :=
  ⟨name, parent, interfaces, modifiers, traitsOf members.declarations, constantsOf members.declarations,
    Method.ofMembers members.declarations, Property.ofMembers members.declarations⟩

/-- Two lists of declarations are summed up alike but for the first class, which is `a` here and `b` there. -/
structure SameButFirst (a b : Summary.Class) (ds es : List Declaration) : Prop where
  imports : importsOf es = importsOf ds
  classes : ∃ cs, classesOf ds = a :: cs ∧ classesOf es = b :: cs
  interfaces : interfacesOf es = interfacesOf ds
  traits : traitDeclsOf es = traitDeclsOf ds
  enums : enumsOf es = enumsOf ds
  functions : functionsOf es = functionsOf ds

theorem Node.declarations_toList {c : Category} (s : Node (.list c)) : s.declarations = s.toList.flatMap declarations := by
  rw [← declarations_ofList, ofList_toList]

theorem Node.classesOf_eq_nil {c : Category} {n : Node c} (h : n.classes = []) : classesOf n.declarations = [] := by
  rw [classes, List.filter_eq_nil_iff] at h
  rw [classesOf, List.filterMap_eq_nil_iff]
  intro d member
  have no_class := h d member
  cases d with
  | classLike decl members =>
    obtain ⟨kind, name, doc, attributes, span⟩ := decl
    cases kind with
    | cls _ _ _ => exact absurd (decide_eq_true rfl) no_class
    | _ => rfl
  | _ => rfl

namespace Rebodied

variable {modifiers : Modifiers} {parent : Option Name} {interfaces : List Name} {name : String} {doc : Option String}
  {attributes : List String} {span : Source.Span} {old new : Members} {c : Category} {s t : Node c}

theorem sameButFirst (h : Rebodied ⟨.cls modifiers parent interfaces, name, doc, attributes, span⟩ old new s t) :
    SameButFirst (.ofMembers modifiers parent interfaces name old) (.ofMembers modifiers parent interfaces name new)
      s.declarations t.declarations := by
  induction h with
  | here _ =>
    obtain ⟨i, c, f, u, e, g⟩ := Member.unlisted old.toList (Node.declarations_toList old)
    obtain ⟨i', c', f', u', e', g'⟩ := Member.unlisted new.toList (Node.declarations_toList new)
    exact ⟨i'.trans i.symm, ⟨[], congrArg _ c, congrArg _ c'⟩, f'.trans f.symm, u'.trans u.symm, e'.trans e.symm,
      g'.trans g.symm⟩
  | inside _ ih => exact ⟨ih.imports, ih.classes, ih.interfaces, ih.traits, ih.enums, ih.functions⟩
  | @head _ x x' xs _ ih =>
    obtain ⟨imports, ⟨cs, before, after⟩, interfaces, traits, enums, functions⟩ := ih
    constructor
    case classes =>
      refine ⟨cs ++ classesOf xs.declarations, ?_, ?_⟩
      · rw [Node.declarations_cons, classesOf, List.filterMap_append, ← classesOf, ← classesOf, before, List.cons_append]
      · rw [Node.declarations_cons, classesOf, List.filterMap_append, ← classesOf, ← classesOf, after, List.cons_append]
    all_goals
      simp only [Node.declarations_cons, importsOf, interfacesOf, traitDeclsOf, enumsOf, functionsOf, List.flatMap_append,
        List.filterMap_append] at *
      simp only [*]
  | @tail _ x xs xs' none_before _ ih =>
    obtain ⟨imports, ⟨cs, before, after⟩, interfaces, traits, enums, functions⟩ := ih
    constructor
    case classes =>
      refine ⟨cs, ?_, ?_⟩
      · rw [Node.declarations_cons, classesOf, List.filterMap_append, ← classesOf, ← classesOf, Node.classesOf_eq_nil none_before,
          before, List.nil_append]
      · rw [Node.declarations_cons, classesOf, List.filterMap_append, ← classesOf, ← classesOf, Node.classesOf_eq_nil none_before,
          after, List.nil_append]
    all_goals
      simp only [Node.declarations_cons, importsOf, interfacesOf, traitDeclsOf, enumsOf, functionsOf, List.flatMap_append,
        List.filterMap_append] at *
      simp only [*]

end Rebodied

/-- The name of a namespace. -/
def Node.spaceName? : {c : Category} → Node c → Option (Option Name)
  | _, .namespaceDecl name _ _ _ => some name
  | _, _ => none

theorem File.firstNamespace?_eq (f : File) : f.firstNamespace? = f.stmts.toList.findSome? Node.spaceName? := by
  rw [firstNamespace?]
  congr
  funext x
  cases x <;> rfl

theorem Rebodied.spaceName?_eq {decl : ClassDecl} {old new : Members} {c : Category} {s t : Node c}
    (h : Rebodied decl old new s t) :
    t.spaceName? = s.spaceName? ∧ t.entries.findSome? Node.spaceName? = s.entries.findSome? Node.spaceName? := by
  induction h with
  | here _ => exact ⟨rfl, rfl⟩
  | inside _ _ => exact ⟨rfl, rfl⟩
  | head _ ih =>
    refine ⟨rfl, ?_⟩
    simp only [Node.entries, List.findSome?_cons]
    rw [ih.1]
  | tail _ _ ih =>
    refine ⟨rfl, ?_⟩
    simp only [Node.entries, List.findSome?_cons]
    rw [ih.2]

theorem Rebodied.isClass {decl : ClassDecl} {old new : Members} {c : Category} {s t : Node c}
    (h : Rebodied decl old new s t) : decl.kind.kind = .cls := by
  induction h with
  | here isClass => exact isClass
  | inside _ ih => exact ih
  | head _ ih => exact ih
  | tail _ _ ih => exact ih

/-! ## One more entry -/

namespace Summary.Class

variable (modifiers : Modifiers) (parent : Option Name) (interfaces : List Name) (name : String)

/-- The properties that a summary lists of some members. -/
def propertiesOf (members : List Member) : List Summary.Property :=
  Property.ofMembers (members.flatMap Node.declarations)

theorem ofMembers_method {members : List Member} {x : Member} {decl : MethodDecl} {params : Node (.list .param)}
    (declares : x.declarations = [.method decl params]) {shown : Summary.Method}
    (shows : Method.ofMembers [.method decl params] = [shown]) :
    ofMembers modifiers parent interfaces name (.ofList (members ++ [x])) =
      { ofMembers modifiers parent interfaces name (.ofList members) with
        methods := (ofMembers modifiers parent interfaces name (.ofList members)).methods ++ [shown] } := by
  simp only [ofMembers, Node.declarations_ofList, List.flatMap_append, List.flatMap_singleton, declares]
  simp only [traitsOf, constantsOf, Method.ofMembers, Property.ofMembers, List.flatMap_append, List.filterMap_append] at *
  rw [shows]
  simp

theorem ofMembers_property {front back : List Member} {x : Member} {decl : PropertyDecl} {items : Node (.list .varItem)}
    (declares : x.declarations = [.property decl items]) {shown : Summary.Property}
    (shows : Property.ofMembers [.property decl items] = [shown]) :
    ofMembers modifiers parent interfaces name (.ofList (front ++ [x] ++ back)) =
      { ofMembers modifiers parent interfaces name (.ofList (front ++ back)) with
        properties := propertiesOf front ++ shown :: propertiesOf back } := by
  simp only [ofMembers, propertiesOf, Node.declarations_ofList, List.flatMap_append, List.flatMap_singleton, declares]
  simp only [traitsOf, constantsOf, Method.ofMembers, Property.ofMembers, List.flatMap_append, List.filterMap_append] at *
  rw [shows]
  simp

end Summary.Class

namespace File

variable {f : File}

theorem exists_firstClass_of_revise {r : Revision} {g : Built File} (revised : f.revise r = .ok g) :
    ∃ decl members, f.firstClass? = some (decl, members) := by
  rw [revise] at revised
  cases first : f.firstClass? with
  | none =>
    rw [first] at revised
    cases revised
  | some cls => exact ⟨cls.1, cls.2, rfl⟩

/-- Another body for the first class changes the first class in the summary, and nothing else. -/
theorem summary_withFirstClass {decl : ClassDecl} {old : Members} (first : f.firstClass? = some (decl, old))
    (new : Members) :
    ∃ modifiers parent interfaces cs,
      f.summary.classes = .ofMembers modifiers parent interfaces decl.name old :: cs ∧
      (f.withFirstClass new).summary =
        { f.summary with classes := .ofMembers modifiers parent interfaces decl.name new :: cs } := by
  obtain ⟨t, put, rebodied⟩ := Node.exists_rebodied first new
  have isClass := rebodied.isClass
  obtain ⟨kind, name, doc, attributes, span⟩ := decl
  cases kind with
  | cls modifiers parent interfaces =>
    obtain ⟨imports, ⟨cs, before, after⟩, ifaces, traits, enums, functions⟩ := rebodied.sameButFirst
    refine ⟨modifiers, parent, interfaces, cs, before, ?_⟩
    have space : (f.withFirstClass new).firstNamespace? = f.firstNamespace? := by
      rw [firstNamespace?_eq, firstNamespace?_eq, withFirstClass, put]
      exact rebodied.spaceName?_eq.2
    have declared : (f.withFirstClass new).declarations = t.declarations := by
      rw [declarations, withFirstClass, put, Option.getD_some]
    rw [summary, space, declared, imports, after, ifaces, traits, enums, functions]
    rfl
  | _ => cases isClass

/-- **Added members in the summary.** After an added method the first class has one more method, the last one; after an
added property it has one more property, behind those declared before its place. The new entry says what the descriptor
says, and the rest of the summary is the same. -/
theorem summary_revise (f : File) :
    (∀ (m : Descriptor.Method) (g : Built File), f.revise (.addMethod m) = .ok g →
      ∃ cls cs shown, f.summary.classes = cls :: cs ∧ m.IsShown shown ∧
        g.value.summary = { f.summary with classes := { cls with methods := cls.methods ++ [shown] } :: cs }) ∧
    ∀ (p : Descriptor.Property) (g : Built File), f.revise (.addProperty p) = .ok g →
      ∃ cls cs shown, f.summary.classes = cls :: cs ∧ p.IsShown shown ∧
        ∃ decl members front back, f.firstClass? = some (decl, members) ∧ members.toList = front ++ back ∧
          PropertyPlace front back ∧
          cls.properties = Summary.Class.propertiesOf front ++ Summary.Class.propertiesOf back ∧
          g.value.summary = { f.summary with
            classes := { cls with properties := Summary.Class.propertiesOf front ++ shown ::
              Summary.Class.propertiesOf back } :: cs } := by
  constructor
  · intro m g revised
    obtain ⟨decl, members, first⟩ := exists_firstClass_of_revise revised
    have listed := first
    rw [← Node.ofList_toList members, ← List.nil_append members.toList] at listed
    obtain ⟨made, built, rfl⟩ := (revise_addMethod_iff listed).1 revised
    obtain ⟨head, params, shown, declares, isShown, shows⟩ := Descriptor.Method.exists_isShown built
    obtain ⟨modifiers, parent, interfaces, cs, before, after⟩ :=
      summary_withFirstClass first (.ofList (members.toList ++ [made.value]))
    refine ⟨_, cs, shown, before, isShown, ?_⟩
    rw [Summary.Class.ofMembers_method _ _ _ _ declares shows, Node.ofList_toList] at after
    exact after
  · intro p g revised
    obtain ⟨decl, members, first⟩ := exists_firstClass_of_revise revised
    obtain ⟨front, back, split, place⟩ := exists_propertyPlace members.toList
    have listed := first
    rw [← Node.ofList_toList members, split] at listed
    obtain ⟨made, built, rfl⟩ := (revise_addProperty_iff listed place).1 revised
    obtain ⟨head, items, shown, declares, isShown, shows⟩ := Descriptor.Property.exists_isShown built
    obtain ⟨modifiers, parent, interfaces, cs, before, after⟩ :=
      summary_withFirstClass listed (.ofList (front ++ [made] ++ back))
    refine ⟨_, cs, shown, before, isShown, decl, members, front, back, first, split, place, ?_, ?_⟩
    · simp only [Summary.Class.ofMembers, Node.declarations_ofList, List.flatMap_append]
      exact List.flatMap_append
    · rw [Summary.Class.ofMembers_property _ _ _ _ declares shows] at after
      exact after

/-- A method and a property, each added to a class with one commented method. -/
theorem summary_revise_commented :
    (∃ g cls cs shown, commented.revise (.addMethod { name := "f", isStatic := true }) = .ok g ∧
      commented.summary.classes = cls :: cs ∧ Descriptor.Method.IsShown { name := "f", isStatic := true } shown ∧
      g.value.summary = { commented.summary with classes := { cls with methods := cls.methods ++ [shown] } :: cs }) ∧
    ∃ g cls cs shown, commented.revise (.addProperty { name := "$p" }) = .ok g ∧
      commented.summary.classes = cls :: cs ∧ Descriptor.Property.IsShown { name := "$p" } shown ∧
      g.value.summary = { commented.summary with classes := { cls with properties := [shown] } :: cs } := by
  constructor
  · have revised : commented.revise (.addMethod { name := "f", isStatic := true }) = .ok _ := rfl
    obtain ⟨cls, cs, shown, rest⟩ := (summary_revise commented).1 _ _ revised
    exact ⟨_, cls, cs, shown, revised, rest⟩
  · have revised : commented.revise (.addProperty { name := "$p" }) = .ok _ := rfl
    obtain ⟨cls, cs, shown, before, isShown, decl, members, front, back, first, split, place, properties, after⟩ :=
      (summary_revise commented).2 _ _ revised
    cases before
    obtain ⟨none_front, none_back⟩ := List.append_eq_nil_iff.1 properties.symm
    rw [none_front, none_back] at after
    exact ⟨_, _, _, shown, revised, rfl, isShown, after⟩

end File

end Codewright.Php
