import Codewright.Proofs.Php.Revision
import Codewright.Proofs.Php.Synthesis

/-!
# Members added in any order

A new method goes to the end of a class and a new property above the first method and its comments, a place that is
looked for anew with every revision. However additions of the two kinds are mixed, the class is the same in the end.

* `PropertyPlace front back` – where in a class body a new property goes;
* `IsSettled` – the bodies for which the order does not matter: no comment waits at the end for a first method;
* `PropertyPlace.property`, `PropertyPlace.method` – what one addition does to the place of the next property;
* `applyAll_additions_iff` – the class that a list of additions leaves, by induction on the list;
* `additions_commute` – any mixture of the same additions leaves the same file.
-/

namespace Codewright.Php

/-! ## Two bodies for one class -/

namespace Rebodied

variable {decl : ClassDecl} {old new other : Members} {c : Category} {s t u : Node c}

theorem symm (h : Rebodied decl old new s t) : Rebodied decl new old t s := by
  induction h with
  | here isClass => exact .here isClass
  | inside _ ih => exact .inside ih
  | head _ ih => exact .head ih
  | tail none_before _ ih => exact .tail none_before ih

theorem eq (h : Rebodied decl old old s t) : s = t := by
  induction h with
  | here _ => rfl
  | inside _ ih => rw [ih]
  | head _ ih => rw [ih]
  | tail _ _ ih => rw [ih]

theorem trans (h : Rebodied decl old new s t) (h' : Rebodied decl new other t u) : Rebodied decl old other s u := by
  induction h with
  | here isClass =>
    cases h'
    exact .here isClass
  | inside _ ih =>
    cases h' with
    | inside h' => exact .inside (ih h')
  | head below ih =>
    cases h' with
    | head h' => exact .head (ih h')
    | tail none_before _ =>
      have found := (rebodied_iff.1 below.symm).1
      rw [(Node.classes_eq_nil_iff _).1 none_before] at found
      cases found
  | tail none_before _ ih =>
    cases h' with
    | head h' =>
      have found := (rebodied_iff.1 h').1
      rw [(Node.classes_eq_nil_iff _).1 none_before] at found
      cases found
    | tail _ h' => exact .tail none_before (ih h')

end Rebodied

namespace File

variable {f : File} {decl : ClassDecl} {old : Members}

theorem firstClass?_withFirstClass (h : f.firstClass? = some (decl, old)) (new : Members) :
    (f.withFirstClass new).firstClass? = some (decl, new) := by
  obtain ⟨t, put, rebodied⟩ := Node.exists_rebodied h new
  rw [withFirstClass, put, firstClass?, Option.getD_some]
  exact (rebodied_iff.1 rebodied.symm).1

theorem withFirstClass_self (h : f.firstClass? = some (decl, old)) : f.withFirstClass old = f := by
  obtain ⟨t, put, rebodied⟩ := Node.exists_rebodied h old
  rw [withFirstClass, put, Option.getD_some, ← rebodied.eq]

theorem withFirstClass_withFirstClass (h : f.firstClass? = some (decl, old)) (new other : Members) :
    (f.withFirstClass new).withFirstClass other = f.withFirstClass other := by
  obtain ⟨t, put, rebodied⟩ := Node.exists_rebodied h new
  obtain ⟨u, put', rebodied'⟩ := Node.exists_rebodied (rebodied_iff.1 rebodied.symm).1 other
  have direct := (rebodied_iff.1 (rebodied.trans rebodied')).2
  simp only [withFirstClass, put, Option.getD_some, put', direct]

end File

/-! ## The place of a new property -/

/-- Where in a class body a new property goes: above the comments of the first method, or to the end. -/
def propertyIndex (members : List Member) : Nat := (firstMethodBlock? members).getD members.length

/-- In the class body `front ++ back` a new property goes between the two: above the first method and its comments, or
to the end if there is no method. -/
inductive PropertyPlace (front : List Member) : List Member → Prop where
  | above {comments after : List Member} {method : Member}
      (first : FirstMethod (front ++ comments ++ method :: after) front comments method after) :
      PropertyPlace front (comments ++ method :: after)
  | atEnd (no_method : ∀ m ∈ front, m.isMethod = false) : PropertyPlace front []

/-- The order of additions does not matter for the body: there is a method, or no comment at the end that would become
the comment of the first one. -/
def IsSettled (members : List Member) : Prop :=
  (∃ m ∈ members, m.isMethod = true) ∨ ∀ m, members.getLast? = some m → m.isComment = false

theorem exists_propertyPlace (members : List Member) :
    ∃ front back, members = front ++ back ∧ PropertyPlace front back := by
  cases block : firstMethodBlock? members with
  | none => exact ⟨members, [], (List.append_nil _).symm, .atEnd (firstMethodBlock?_eq_none block)⟩
  | some i =>
    obtain ⟨front, comments, method, after, first, -⟩ := exists_firstMethod block
    have split := first.split
    rw [split] at first
    exact ⟨front, comments ++ method :: after, by rw [split, List.append_assoc], .above first⟩

namespace PropertyPlace

variable {front back : List Member}

/-- The search for the place finds it. -/
theorem index_eq (h : PropertyPlace front back) : propertyIndex (front ++ back) = front.length := by
  cases h with
  | above first =>
    rw [propertyIndex, ← List.append_assoc, first.block_eq]
    rfl
  | atEnd no_method =>
    have none_found : firstMethodBlock? front = none := by
      simpa [firstMethodBlock?, firstMethodIndex?] using no_method
    rw [List.append_nil, propertyIndex, none_found]
    rfl

/-- The next property goes behind one that was added. -/
theorem property (h : PropertyPlace front back) {p : Member} (not_method : p.isMethod = false)
    (not_comment : p.isComment = false) : PropertyPlace (front ++ [p]) back := by
  cases h with
  | @above comments after method first =>
    obtain ⟨-, isMethod, is_first, areComments, -⟩ := first
    refine .above ⟨rfl, isMethod, ?_, areComments, ?_⟩
    · intro m member
      simp only [List.mem_append, List.mem_singleton] at member is_first
      rcases member with (member | rfl) | member
      · exact is_first m (.inl member)
      · exact not_method
      · exact is_first m (.inr member)
    · intro m last
      rw [List.getLast?_concat, Option.some_inj] at last
      rw [← last]
      exact not_comment
  | atEnd no_method =>
    refine .atEnd fun m member => ?_
    rcases List.mem_append.1 member with member | member
    · exact no_method m member
    · rw [List.mem_singleton.1 member]
      exact not_method

/-- A method that was added stays below the place, also if it is the first, when no comment stands above it. -/
theorem method (h : PropertyPlace front back) {m : Member} (isMethod : m.isMethod = true)
    (settled : back = [] → ∀ x, front.getLast? = some x → x.isComment = false) :
    PropertyPlace front (back ++ [m]) := by
  cases h with
  | @above comments after old first =>
    rw [List.append_assoc, List.cons_append]
    exact .above ⟨rfl, first.isMethod, first.is_first, first.areComments, first.allComments⟩
  | atEnd no_method =>
    have first : FirstMethod (front ++ [] ++ [m]) front [] m [] :=
      ⟨rfl, isMethod, by simpa using no_method, by simp, settled rfl⟩
    exact .above first

theorem settled_of_isSettled (h : PropertyPlace front back) (settled : IsSettled (front ++ back)) :
    back = [] → ∀ x, front.getLast? = some x → x.isComment = false := by
  cases h with
  | above _ =>
    intro empty
    simp at empty
  | atEnd no_method =>
    intro _ x last
    rcases settled with ⟨m, member, isMethod⟩ | settled
    · rw [List.append_nil] at member
      rw [no_method m member] at isMethod
      cases isMethod
    · exact settled x (by rwa [List.append_nil])

end PropertyPlace

/-! ## Additions -/

namespace Revision

/-- The revision adds a member. -/
def isAddition : Revision → Bool
  | addMethod _ | addProperty _ => true
  | replaceMethod _ _ => false

/-- The method that the revision adds. -/
def addedMethod? : Revision → Option Descriptor.Method
  | addMethod method => some method
  | _ => none

/-- The property that the revision adds. -/
def addedProperty? : Revision → Option Descriptor.Property
  | addProperty property => some property
  | _ => none

/-- The methods and the properties that revisions add are made, one for one and in the order of the revisions. -/
structure Makes (rs : List Revision) (properties : List Member) (methods : List (Built Member)) : Prop where
  properties : List.Forall₂ (fun p made => p.build = .ok ⟨made, []⟩) (rs.filterMap addedProperty?) properties
  methods : List.Forall₂ (fun m made => m.build = .ok made) (rs.filterMap addedMethod?) methods

namespace Makes

variable {rs : List Revision} {properties : List Member} {methods : List (Built Member)}

theorem nil_iff : Makes [] properties methods ↔ properties = [] ∧ methods = [] := by
  constructor
  · rintro ⟨ps, ms⟩
    cases ps
    cases ms
    exact ⟨rfl, rfl⟩
  · rintro ⟨rfl, rfl⟩
    exact ⟨.nil, .nil⟩

theorem addMethod_iff {m : Descriptor.Method} :
    Makes (.addMethod m :: rs) properties methods ↔
      ∃ made rest, m.build = .ok made ∧ Makes rs properties rest ∧ methods = made :: rest := by
  constructor
  · rintro ⟨ps, ms⟩
    obtain ⟨made, rest, built, later, rfl⟩ := List.forall₂_cons_left_iff.1 ms
    exact ⟨made, rest, built, ⟨ps, later⟩, rfl⟩
  · rintro ⟨made, rest, built, ⟨ps, ms⟩, rfl⟩
    exact ⟨ps, .cons built ms⟩

theorem addProperty_iff {p : Descriptor.Property} :
    Makes (.addProperty p :: rs) properties methods ↔
      ∃ made rest, p.build = .ok ⟨made, []⟩ ∧ Makes rs rest methods ∧ properties = made :: rest := by
  constructor
  · rintro ⟨ps, ms⟩
    obtain ⟨made, rest, built, later, rfl⟩ := List.forall₂_cons_left_iff.1 ps
    exact ⟨made, rest, built, ⟨later, ms⟩, rfl⟩
  · rintro ⟨made, rest, built, ⟨ps, ms⟩, rfl⟩
    exact ⟨.cons built ps, ms⟩

end Makes

end Revision

namespace File

variable {f last : File} {decl : ClassDecl} {front back : List Member} {warnings : List Source.Diagnostic}

/-- One more method stands at the end. -/
theorem revise_addMethod_iff (first : f.firstClass? = some (decl, .ofList (front ++ back))) {m : Descriptor.Method}
    {g : Built File} :
    f.revise (.addMethod m) = .ok g ↔ ∃ made, m.build = .ok made ∧
      g = ⟨f.withFirstClass (.ofList (front ++ (back ++ [made.value]))), made.warnings⟩ := by
  rw [revise, first]
  simp only [Revision.onMembers, Node.toList_ofList, List.append_assoc]
  cases m.build with
  | error e => simp [bind, Except.bind]
  | ok made => simp [bind, Except.bind, pure, Except.pure, eq_comm]

/-- One more property stands at its place. -/
theorem revise_addProperty_iff (first : f.firstClass? = some (decl, .ofList (front ++ back)))
    (place : PropertyPlace front back) {p : Descriptor.Property} {g : Built File} :
    f.revise (.addProperty p) = .ok g ↔ ∃ made, p.build = .ok ⟨made, []⟩ ∧
      g = ⟨f.withFirstClass (.ofList (front ++ [made] ++ back)), []⟩ := by
  have inserted (x : Member) : (front ++ back).insertIdx ((firstMethodBlock? (front ++ back)).getD (front ++ back).length) x =
      front ++ [x] ++ back := by
    rw [← propertyIndex, place.index_eq, insertIdx_length_append, List.append_assoc, List.singleton_append]
  rw [revise, first]
  simp only [Revision.onMembers, Node.toList_ofList, inserted]
  cases built : p.build with
  | error e => simp [bind, Except.bind]
  | ok made =>
    obtain ⟨value, rfl⟩ : ∃ value, made = ⟨value, []⟩ := by
      obtain ⟨type, -, rfl⟩ := Descriptor.Property.exists_of_build built
      exact ⟨_, rfl⟩
    simp [bind, Except.bind, pure, Except.pure, eq_comm]

theorem applyAll_cons_eq_ok {r : Revision} {rs : List Revision} :
    f.applyAll (r :: rs) = (last, .ok warnings) ↔
      ∃ made rest, f.revise r = .ok made ∧ made.value.applyAll rs = (last, .ok rest) ∧ warnings = made.warnings ++ rest := by
  rw [applyAll]
  cases f.revise r with
  | error e => simp
  | ok made =>
    rcases ended : made.value.applyAll rs with ⟨g, e | rest⟩
    · simp [ended, Except.map]
    · simp [ended, Except.map, and_comm, eq_comm]

/-- The file that a list of additions leaves: each kind stands in the order of the list. -/
theorem applyAll_additions_iff (first : f.firstClass? = some (decl, .ofList (front ++ back)))
    (place : PropertyPlace front back) (settled : back = [] → ∀ x, front.getLast? = some x → x.isComment = false)
    {rs : List Revision} (additions : ∀ r ∈ rs, r.isAddition = true) :
    f.applyAll rs = (last, .ok warnings) ↔ ∃ properties methods, Revision.Makes rs properties methods ∧
      last = f.withFirstClass (.ofList (front ++ properties ++ (back ++ methods.map (·.value)))) ∧
      warnings = methods.flatMap (·.warnings) := by
  induction rs generalizing f front back warnings with
  | nil =>
    simp only [Revision.Makes.nil_iff, and_assoc, exists_and_left, exists_eq_left, applyAll, Prod.mk.injEq, Except.ok.injEq,
      List.map_nil, List.append_nil, List.flatMap_nil, withFirstClass_self first, eq_comm]
  | cons r rs ih =>
    rw [applyAll_cons_eq_ok]
    have later : ∀ r ∈ rs, r.isAddition = true := fun r member => additions r (List.mem_cons_of_mem _ member)
    cases r with
    | addMethod m =>
      have rest {made : Built Member} (built : m.build = .ok made) (warnings : List Source.Diagnostic) :=
        @ih _ _ _ warnings (firstClass?_withFirstClass first _)
          (place.method (Descriptor.Method.isMethod_of_build built) settled) (by simp) later
      constructor
      · rintro ⟨g, ws, step, run, rfl⟩
        obtain ⟨made, built, rfl⟩ := (revise_addMethod_iff first).1 step
        obtain ⟨properties, methods, makes, rfl, rfl⟩ := (rest built ws).1 run
        refine ⟨properties, made :: methods, Revision.Makes.addMethod_iff.2 ⟨made, methods, built, makes, rfl⟩, ?_, rfl⟩
        simp only [withFirstClass_withFirstClass first, List.map_cons, List.append_assoc, List.singleton_append]
      · rintro ⟨properties, methods, makes, rfl, rfl⟩
        obtain ⟨made, methods, built, others, rfl⟩ := Revision.Makes.addMethod_iff.1 makes
        refine ⟨_, _, (revise_addMethod_iff first).2 ⟨made, built, rfl⟩,
          (rest built _).2 ⟨properties, methods, others, ?_, rfl⟩, rfl⟩
        simp only [withFirstClass_withFirstClass first, List.map_cons, List.append_assoc, List.singleton_append]
    | addProperty p =>
      have rest {made : Member} (built : p.build = .ok ⟨made, []⟩) (warnings : List Source.Diagnostic) :=
        @ih _ _ _ warnings (firstClass?_withFirstClass first _)
          (place.property (Descriptor.Property.not_isMethod_of_build built)
            (Descriptor.Property.not_isComment_of_build built))
          (by simp [Descriptor.Property.not_isComment_of_build built]) later
      constructor
      · rintro ⟨g, ws, step, run, rfl⟩
        obtain ⟨made, built, rfl⟩ := (revise_addProperty_iff first place).1 step
        obtain ⟨properties, methods, makes, rfl, rfl⟩ := (rest built ws).1 run
        refine ⟨made :: properties, methods, Revision.Makes.addProperty_iff.2 ⟨made, properties, built, makes, rfl⟩, ?_,
          rfl⟩
        simp only [withFirstClass_withFirstClass first, List.append_assoc, List.cons_append, List.nil_append]
      · rintro ⟨properties, methods, makes, rfl, rfl⟩
        obtain ⟨made, properties, built, others, rfl⟩ := Revision.Makes.addProperty_iff.1 makes
        refine ⟨_, _, (revise_addProperty_iff first place).2 ⟨made, built, rfl⟩,
          (rest built _).2 ⟨properties, methods, others, ?_, rfl⟩, rfl⟩
        simp only [withFirstClass_withFirstClass first, List.append_assoc, List.cons_append, List.nil_append]
    | replaceMethod name m =>
      have not_addition := additions _ (List.mem_cons_self ..)
      cases not_addition

/-- **Additions commute.** To a class with a method, or without a comment at its end, properties and methods are added:
the properties stand together where the first one went, the methods at the end, each kind in its order. Any list with the
same properties and the same methods in the same order leaves the same file, with the same warnings. -/
theorem additions_commute {members : Members} (first : f.firstClass? = some (decl, members))
    (settled : IsSettled members.toList) {rs : List Revision} (additions : ∀ r ∈ rs, r.isAddition = true)
    (run : f.applyAll rs = (last, .ok warnings)) :
    (∃ properties methods final, Revision.Makes rs properties methods ∧
      final = members.toList.take (propertyIndex members.toList) ++ properties ++
        members.toList.drop (propertyIndex members.toList) ++ methods.map (·.value) ∧
      last.firstClass? = some (decl, .ofList final) ∧ last = f.withFirstClass (.ofList final)) ∧
    ∀ rs' : List Revision, (∀ r ∈ rs', r.isAddition = true) →
      rs'.filterMap Revision.addedProperty? = rs.filterMap Revision.addedProperty? →
      rs'.filterMap Revision.addedMethod? = rs.filterMap Revision.addedMethod? →
      f.applyAll rs' = (last, .ok warnings) := by
  obtain ⟨front, back, split, place⟩ := exists_propertyPlace members.toList
  rw [split] at settled
  rw [← Node.ofList_toList members, split] at first
  have settled' := place.settled_of_isSettled settled
  obtain ⟨properties, methods, makes, rfl, rfl⟩ := (applyAll_additions_iff first place settled' additions).1 run
  constructor
  · refine ⟨properties, methods, _, makes, ?_, firstClass?_withFirstClass first _, rfl⟩
    rw [split, place.index_eq, List.take_left' rfl, List.drop_left' rfl, List.append_assoc _ back]
  · intro rs' additions' same_properties same_methods
    refine (applyAll_additions_iff first place settled' additions').2 ⟨properties, methods, ⟨?_, ?_⟩, rfl, rfl⟩
    · rw [same_properties]
      exact makes.properties
    · rw [same_methods]
      exact makes.methods

/-- A class with one method and a comment above it. -/
def commented : File :=
  ⟨.cons (.classLike ⟨.cls .none none [], "A", none, [], .nowhere⟩
    (.ofList [.memberComment "// m", .method ⟨"m", .none, false, none, none, [], .nowhere⟩ .nil (.present .nil)])) .nil,
    .nowhere⟩

/-- A method first and then a property, or the other way round. -/
theorem additions_commute_commented : ∃ last : File,
    commented.applyAll [.addMethod { name := "f" }, .addProperty { name := "p" }] = (last, .ok []) ∧
      commented.applyAll [.addProperty { name := "p" }, .addMethod { name := "f" }] = (last, .ok []) := by
  have run : commented.applyAll [.addMethod { name := "f" }, .addProperty { name := "p" }] = (_, .ok []) := rfl
  refine ⟨_, run, ?_⟩
  exact (additions_commute rfl (.inl ⟨_, .tail _ (.head _), rfl⟩) (by decide) run).2 _ (by decide) rfl rfl

end File

end Codewright.Php
