import Codewright.Php.Declaration
import Codewright.Php.Revision
import Mathlib.Data.List.TakeWhile

/-!
# What revisions do to a file

Revisions look for the class they work on with `Node.firstClass?` and put it back with `Node.withFirstClass`; queries
list the declarations of a tree. Here the two agree.

* `Node.classes` – the classes that a query lists; `head?_classes`: the first of them is the first class;
* `Rebodied decl old new s t` – `t` is `s` with another body for its first class, and the same in every other place;
* `rebodied_iff`: this is what `Node.withFirstClass` does.

The rules of revisions, said without the searches and indices that carry them out, and that `File.applyAll` follows
them.

* `Revision.Effect` – what a revision makes of the entries of a class body, or its error;
* `File.Step` – what it makes of a file: the first class gets another body and nothing else changes, and a revision
  that fails leaves the file alone;
* `File.Run` – what a list of revisions makes of a file, from left to right;
* `applyAll_exact`: `File.applyAll` is this run, and a left fold of single revisions.
-/

namespace Codewright.Php

namespace Node

/-- Induction on a tree that is a list. -/
theorem list_induction {c : Category} {P : Node (.list c) → Prop} (nil : P .nil)
    (cons : ∀ x xs, P xs → P (.cons x xs)) : ∀ s : Node (.list c), P s
  | .nil => nil
  | .cons x xs => cons x xs (list_induction nil cons xs)

/-- A tree that is a list is the list of its entries. -/
theorem ofList_toList {c : Category} (s : Node (.list c)) : ofList s.toList = s := by
  induction s using list_induction with
  | nil => rfl
  | cons x xs ih => rw [toList_cons, ofList, ih]

/-! ## Searches -/

/-- The classes among the declarations of a tree. -/
def classes {c : Category} (n : Node c) : List Declaration := n.declarations.filter fun d => d.kind = .cls

/-- A class as a declaration. -/
def asDeclaration (cls : ClassDecl × Members) : Declaration := .classLike cls.1 cls.2

theorem classes_cons {c : Category} (x : Node c) (xs : Node (.list c)) :
    (Node.cons x xs).classes = x.classes ++ xs.classes := by
  simp [classes, declarations_cons]

theorem classes_namespaceDecl (name : Option Name) (body : Block) (braced : Bool) (span : Source.Span) :
    (Node.namespaceDecl name body braced span).classes = body.classes := by
  simp [classes, declarations_namespaceDecl, Declaration.kind]

theorem classes_member (m : Member) : m.classes = [] := by
  cases m <;> rfl

theorem classes_members (ms : Members) : ms.classes = [] := by
  induction ms using list_induction with
  | nil => rfl
  | cons m ms ih => rw [classes_cons, classes_member, ih, List.append_nil]

theorem classes_classLike (decl : ClassDecl) (members : Members) :
    (Node.classLike decl members).classes = if decl.kind.kind = .cls then [.classLike decl members] else [] := by
  have none_below : members.declarations.filter (fun d => d.kind = .cls) = [] := classes_members members
  rw [classes, declarations_classLike, List.filter_cons, none_below]
  by_cases isClass : decl.kind.kind = .cls <;> simp [Declaration.kind, isClass]

/-- The first class that a query lists is the one that revisions find, however namespaces are nested. -/
theorem head?_classes {c : Category} (n : Node c) : n.classes.head? = n.firstClass?.map asDeclaration := by
  induction n with
  | cons x xs ihx ihxs =>
    rw [classes_cons, List.head?_append, ihx, ihxs, firstClass?_cons]
    cases x.firstClass? <;> simp
  | namespaceDecl name body braced span ih => rw [classes_namespaceDecl, ih, firstClass?_namespaceDecl]
  | classLike decl members _ =>
    rw [classes_classLike, firstClass?_classLike]
    split <;> rfl
  | _ => rfl

theorem classes_eq_nil_iff {c : Category} (n : Node c) : n.classes = [] ↔ n.firstClass? = none := by
  rw [← List.head?_eq_none_iff, head?_classes, Option.map_eq_none_iff]

end Node

/-! ## Another body for the first class -/

/-- `Rebodied decl old new s t`: the first class of `s` has the head `decl` and the body `old`; in `t` its body is `new`,
and nothing else is different. -/
inductive Rebodied (decl : ClassDecl) (old new : Members) : {c : Category} → Node c → Node c → Prop where
  | here (isClass : decl.kind.kind = .cls) : Rebodied decl old new (.classLike decl old) (.classLike decl new)
  | inside {name : Option Name} {body body' : Block} {braced : Bool} {span : Source.Span}
      (h : Rebodied decl old new body body') :
      Rebodied decl old new (.namespaceDecl name body braced span) (.namespaceDecl name body' braced span)
  | head {c : Category} {x x' : Node c} {xs : Node (.list c)} (h : Rebodied decl old new x x') :
      Rebodied decl old new (.cons x xs) (.cons x' xs)
  | tail {c : Category} {x : Node c} {xs xs' : Node (.list c)} (none_before : x.classes = [])
      (h : Rebodied decl old new xs xs') : Rebodied decl old new (.cons x xs) (.cons x xs')

namespace Node

theorem withFirstClass_eq_none {c : Category} {n : Node c} (h : n.firstClass? = none) (new : Members) :
    Node.withFirstClass new n = none := by
  induction n with
  | cons x xs ihx ihxs =>
    rw [firstClass?_cons, Option.or_eq_none_iff] at h
    rw [withFirstClass_cons, ihx h.1, ihxs h.2, Option.map_none]
  | namespaceDecl name body braced span ih =>
    rw [firstClass?_namespaceDecl] at h
    rw [withFirstClass_namespaceDecl, ih h, Option.map_none]
  | classLike decl members _ =>
    rw [firstClass?_classLike] at h
    rw [withFirstClass_classLike]
    split at h
    · cases h
    · rw [if_neg ‹_›]
  | _ => rfl

/-- A tree with a class takes another body for it. -/
theorem exists_rebodied {c : Category} {n : Node c} {decl : ClassDecl} {old : Members}
    (h : n.firstClass? = some (decl, old)) (new : Members) :
    ∃ t, Node.withFirstClass new n = some t ∧ Rebodied decl old new n t := by
  induction n with
  | cons x xs ihx ihxs =>
    rw [firstClass?_cons, Option.or_eq_some_iff] at h
    rcases h with hx | ⟨hx, hxs⟩
    · obtain ⟨t, ht, rebodied⟩ := ihx hx
      exact ⟨.cons t xs, by rw [withFirstClass_cons, ht], .head rebodied⟩
    · obtain ⟨t, ht, rebodied⟩ := ihxs hxs
      refine ⟨.cons x t, ?_, .tail ((classes_eq_nil_iff x).2 hx) rebodied⟩
      rw [withFirstClass_cons, withFirstClass_eq_none hx, ht, Option.map_some]
  | namespaceDecl name body braced span ih =>
    rw [firstClass?_namespaceDecl] at h
    obtain ⟨t, ht, rebodied⟩ := ih h
    exact ⟨.namespaceDecl name t braced span, by rw [withFirstClass_namespaceDecl, ht, Option.map_some], .inside rebodied⟩
  | classLike d members _ =>
    rw [firstClass?_classLike] at h
    split at h
    next isClass =>
      cases h
      exact ⟨.classLike decl new, by rw [withFirstClass_classLike, if_pos isClass], .here isClass⟩
    next => cases h
  | _ => cases h

end Node

/-- Giving the first class another body changes that body and nothing else. -/
theorem rebodied_iff {c : Category} {n t : Node c} {decl : ClassDecl} {old new : Members} :
    Rebodied decl old new n t ↔ n.firstClass? = some (decl, old) ∧ Node.withFirstClass new n = some t := by
  constructor
  · intro h
    induction h with
    | here isClass => simp [Node.firstClass?_classLike, Node.withFirstClass_classLike, isClass]
    | inside _ ih =>
      obtain ⟨found, put⟩ := ih
      exact ⟨by rw [Node.firstClass?_namespaceDecl, found], by rw [Node.withFirstClass_namespaceDecl, put, Option.map_some]⟩
    | head _ ih =>
      obtain ⟨found, put⟩ := ih
      exact ⟨by rw [Node.firstClass?_cons, found, Option.some_or], by rw [Node.withFirstClass_cons, put]⟩
    | tail none_before _ ih =>
      obtain ⟨found, put⟩ := ih
      have hx := (Node.classes_eq_nil_iff _).1 none_before
      refine ⟨by rw [Node.firstClass?_cons, hx, found, Option.none_or], ?_⟩
      rw [Node.withFirstClass_cons, Node.withFirstClass_eq_none hx, put, Option.map_some]
  · rintro ⟨found, put⟩
    obtain ⟨t', put', rebodied⟩ := Node.exists_rebodied found new
    rw [put] at put'
    cases put'
    exact rebodied

end Codewright.Php

/-! ## What revisions do -/

namespace Codewright.Php

/-! ## Places in a class body -/

/-- The entries up to the first one that satisfies `p`. -/
theorem exists_split_of_findIdx? {α : Type} {p : α → Bool} {xs : List α} {i : Nat} (h : xs.findIdx? p = some i) :
    ∃ before x after, xs = before ++ x :: after ∧ before.length = i ∧ p x = true ∧ ∀ y ∈ before, p y = false := by
  obtain ⟨hi, hp, before⟩ := List.findIdx?_eq_some_iff_getElem.1 h
  refine ⟨xs.take i, xs[i], xs.drop (i + 1), ?_, by simp; omega, hp, ?_⟩
  · rw [← List.drop_eq_getElem_cons hi, List.take_append_drop]
  · intro y hy
    obtain ⟨j, hj, rfl⟩ := List.mem_take_iff_getElem.1 hy
    simpa using before j (by omega)

/-- A list ends in the entries that satisfy `p`, and an entry before these does not satisfy it. -/
theorem exists_split_takeWhile_reverse {α : Type} (p : α → Bool) (xs : List α) :
    ∃ front back, xs = front ++ back ∧ (∀ y ∈ back, p y = true) ∧ (∀ y, front.getLast? = some y → p y = false) ∧
      back.length = (xs.reverse.takeWhile p).length := by
  refine ⟨(xs.reverse.dropWhile p).reverse, (xs.reverse.takeWhile p).reverse, ?_, ?_, ?_, by simp⟩
  · rw [← List.reverse_append, List.takeWhile_append_dropWhile, List.reverse_reverse]
  · intro y hy
    exact List.mem_takeWhile_imp (List.mem_reverse.1 hy)
  · intro y hy
    rw [List.getLast?_reverse] at hy
    have := List.head?_dropWhile_not p xs.reverse
    rw [hy] at this
    simpa using this

theorem findIdx?_append_cons {α : Type} {p : α → Bool} {before : List α} {x : α} (after : List α)
    (is_first : ∀ y ∈ before, p y = false) (hx : p x = true) :
    (before ++ x :: after).findIdx? p = some before.length := by
  rw [List.findIdx?_append, List.findIdx?_eq_none_iff.2 is_first, List.findIdx?_cons, if_pos hx]
  simp

theorem takeWhile_reverse_append {α : Type} {p : α → Bool} {front back : List α} (hback : ∀ y ∈ back, p y = true)
    (hfront : ∀ y, front.getLast? = some y → p y = false) : (front ++ back).reverse.takeWhile p = back.reverse := by
  rw [List.reverse_append, List.takeWhile_append_of_pos (by simpa using hback)]
  have stop : front.reverse.takeWhile p = [] := by
    rw [List.takeWhile_eq_nil_iff]
    intro hl
    have last := hfront (front.reverse.get ⟨0, hl⟩)
      (by rw [← List.head?_reverse, List.head?_eq_getElem?, List.getElem?_eq_getElem hl, List.get_eq_getElem])
    rw [last]
    decide
  rw [stop, List.append_nil]

theorem insertIdx_length_append {α : Type} (before after : List α) (x : α) :
    (before ++ after).insertIdx before.length x = before ++ x :: after := by
  induction before with
  | nil => rfl
  | cons y ys ih => rw [List.cons_append, List.length_cons, List.insertIdx_succ_cons, ih, List.cons_append]

/-- The first method of a class body with the comments directly above it. -/
structure FirstMethod (members before comments : List Member) (method : Member) (after : List Member) : Prop where
  split : members = before ++ comments ++ method :: after
  isMethod : method.isMethod = true
  is_first : ∀ m ∈ before ++ comments, m.isMethod = false
  areComments : ∀ m ∈ comments, m.isComment = true
  allComments : ∀ m, before.getLast? = some m → m.isComment = false

theorem firstMethodBlock?_eq_none {members : List Member} (h : firstMethodBlock? members = none) :
    ∀ m ∈ members, m.isMethod = false := by
  simpa [firstMethodBlock?, firstMethodIndex?] using h

theorem exists_firstMethod {members : List Member} {i : Nat} (h : firstMethodBlock? members = some i) :
    ∃ before comments method after, FirstMethod members before comments method after ∧ before.length = i := by
  obtain ⟨k, hk, rfl⟩ := Option.map_eq_some_iff.1 h
  obtain ⟨above, method, after, rfl, rfl, isMethod, is_first⟩ := exists_split_of_findIdx? hk
  obtain ⟨before, comments, rfl, areComments, allComments, length_eq⟩ :=
    exists_split_takeWhile_reverse Node.isComment above
  refine ⟨before, comments, method, after, ⟨rfl, isMethod, is_first, areComments, allComments⟩, ?_⟩
  rw [List.take_left' rfl, ← length_eq]
  simp

/-- The comments of the first method begin where the search says. -/
theorem FirstMethod.block_eq {members before comments after : List Member} {method : Member}
    (h : FirstMethod members before comments method after) : firstMethodBlock? members = some before.length := by
  obtain ⟨rfl, isMethod, is_first, areComments, allComments⟩ := h
  rw [firstMethodBlock?, firstMethodIndex?, findIdx?_append_cons after is_first isMethod, Option.map_some,
    List.take_left' rfl, takeWhile_reverse_append areComments allComments]
  simp

theorem exists_split_of_methodIndex? {name : String} {members : List Member} {i : Nat}
    (h : methodIndex? name members = some i) :
    ∃ before m after, members = before ++ m :: after ∧ before.length = i ∧ m.isMethodNamed name = true ∧
      ∀ y ∈ before, y.isMethodNamed name = false :=
  exists_split_of_findIdx? h

/-! ## The rules -/

/-- What a revision makes of the entries of a class body, with the warnings, or the error with which it fails. -/
inductive Revision.Effect (cls : String) (members : List Member) :
    Revision → Except EditError (List Member × List Source.Diagnostic) → Prop where
  /-- A new method stands at the end. -/
  | methodAdded {method : Descriptor.Method} {built : Built Member} (build : method.build = .ok built) :
      Effect cls members (.addMethod method) (.ok (members ++ [built.value], built.warnings))
  | methodInvalid {method : Descriptor.Method} {e : EditError} (build : method.build = .error e) :
      Effect cls members (.addMethod method) (.error e)
  /-- A new property stands above the comments of the first method. -/
  | propertyAbove {property : Descriptor.Property} {built : Built Member} {before comments after : List Member}
      {method : Member} (build : property.build = .ok built)
      (place : FirstMethod members before comments method after) :
      Effect cls members (.addProperty property)
        (.ok (before ++ built.value :: (comments ++ method :: after), built.warnings))
  /-- Without a method it stands at the end. -/
  | propertyAtEnd {property : Descriptor.Property} {built : Built Member} (build : property.build = .ok built)
      (no_method : ∀ m ∈ members, m.isMethod = false) :
      Effect cls members (.addProperty property) (.ok (members ++ [built.value], built.warnings))
  | propertyInvalid {property : Descriptor.Property} {e : EditError} (build : property.build = .error e) :
      Effect cls members (.addProperty property) (.error e)
  /-- The first method with the name makes room for another. -/
  | methodReplaced {name : String} {method : Descriptor.Method} {built : Built Member} {before after : List Member}
      {old : Member} (split : members = before ++ old :: after) (named : old.isMethodNamed name = true)
      (is_first : ∀ m ∈ before, m.isMethodNamed name = false) (build : method.build = .ok built) :
      Effect cls members (.replaceMethod name method) (.ok (before ++ built.value :: after, built.warnings))
  | methodMissing {name : String} {method : Descriptor.Method} (missing : ∀ m ∈ members, m.isMethodNamed name = false) :
      Effect cls members (.replaceMethod name method) (.error (.methodNotFound cls name))
  | replacementInvalid {name : String} {method : Descriptor.Method} {e : EditError} {old : Member} (found : old ∈ members)
      (named : old.isMethodNamed name = true) (build : method.build = .error e) :
      Effect cls members (.replaceMethod name method) (.error e)

namespace File

/-- The classes of a file, in the order of a search. -/
def classes (f : File) : List Declaration := f.declarationsOf .cls

/-- What a revision makes of a file, with the warnings or the error. -/
inductive Step (f : File) (r : Revision) : File × Except EditError (List Source.Diagnostic) → Prop where
  /-- There is nothing to revise. -/
  | noClass (no_class : f.classes = []) : Step f r (f, .error .noClass)
  /-- A revision that fails leaves the file as it is. -/
  | fails {decl : ClassDecl} {members : Members} {e : EditError}
      (first : f.classes.head? = some (.classLike decl members))
      (effect : r.Effect decl.name members.toList (.error e)) : Step f r (f, .error e)
  /-- The first class gets another body, and nothing else changes. -/
  | revised {decl : ClassDecl} {members : Members} {new : List Member} {warnings : List Source.Diagnostic} {stmts : Block}
      (first : f.classes.head? = some (.classLike decl members))
      (effect : r.Effect decl.name members.toList (.ok (new, warnings)))
      (rebodied : Rebodied decl members (.ofList new) f.stmts stmts) : Step f r (⟨stmts, f.span⟩, .ok warnings)

/-- What a list of revisions makes of a file, with the warnings of all or the error of the first that fails. -/
inductive Run : File → List Revision → File × Except EditError (List Source.Diagnostic) → Prop where
  | done (f : File) : Run f [] (f, .ok [])
  | stopped {f g : File} {r : Revision} {rs : List Revision} {e : EditError} (step : Step f r (g, .error e)) :
      Run f (r :: rs) (g, .error e)
  | continued {f g last : File} {r : Revision} {rs : List Revision} {warnings : List Source.Diagnostic}
      {outcome : Except EditError (List Source.Diagnostic)} (step : Step f r (g, .ok warnings))
      (rest : Run g rs (last, outcome)) : Run f (r :: rs) (last, outcome.map (warnings ++ ·))

/-- One more revision, unless one before has failed. -/
def continueWith (state : File × Except EditError (List Source.Diagnostic)) (r : Revision) :
    File × Except EditError (List Source.Diagnostic) :=
  match state with
  | (f, .error e) => (f, .error e)
  | (f, .ok warnings) =>
    match f.revise r with
    | .error e => (f, .error e)
    | .ok built => (built.value, .ok (warnings ++ built.warnings))

end File

/-! ## The definitions follow the rules -/

open File

namespace Revision

variable {cls : String} {members : List Member} {r : Revision}

/-- A body and its warnings as a pair. -/
def asPair (built : Built (List Member)) : List Member × List Source.Diagnostic := (built.value, built.warnings)

theorem onMembers_of_effect {outcome : Except EditError (List Member × List Source.Diagnostic)}
    (h : r.Effect cls members outcome) : (r.onMembers cls members).map asPair = outcome := by
  cases h with
  | methodAdded build => rw [onMembers, build]; rfl
  | methodInvalid build => rw [onMembers, build]; rfl
  | propertyAbove build place =>
    have block := place.block_eq
    obtain ⟨rfl, -, -, -, -⟩ := place
    rw [onMembers, build, List.append_assoc] at *
    simp only [block, Option.getD_some, insertIdx_length_append, bind, Except.bind, pure, Except.pure, Except.map, asPair]
  | propertyAtEnd build no_method =>
    have block : firstMethodBlock? members = none := by
      simpa [firstMethodBlock?, firstMethodIndex?] using no_method
    simp only [onMembers, build, block, Option.getD_none, List.insertIdx_length_self, bind, Except.bind, pure, Except.pure,
      Except.map, asPair]
  | propertyInvalid build => rw [onMembers, build]; rfl
  | @methodReplaced name method built before after old split named is_first build =>
    have place : methodIndex? name members = some before.length := by
      rw [split]
      exact findIdx?_append_cons after is_first named
    simp only [onMembers, place, build, bind, Except.bind, pure, Except.pure, Except.map, asPair]
    simp [split]
  | @methodMissing name method missing =>
    have place : methodIndex? name members = none := List.findIdx?_eq_none_iff.2 missing
    rw [onMembers, place]
    rfl
  | @replacementInvalid name method e old found named build =>
    have place : methodIndex? name members ≠ none := by
      intro none
      rw [List.findIdx?_eq_none_iff.1 none old found] at named
      cases named
    obtain ⟨i, hi⟩ := Option.ne_none_iff_exists'.1 place
    rw [onMembers, hi, build]
    rfl

/-- The rules leave no revision of a body open. -/
theorem exists_effect (cls : String) (members : List Member) (r : Revision) :
    ∃ outcome, r.Effect cls members outcome := by
  cases r with
  | addMethod method =>
    cases build : method.build with
    | error e => exact ⟨_, .methodInvalid build⟩
    | ok built => exact ⟨_, .methodAdded build⟩
  | addProperty property =>
    cases build : property.build with
    | error e => exact ⟨_, .propertyInvalid build⟩
    | ok built =>
      cases block : firstMethodBlock? members with
      | none => exact ⟨_, .propertyAtEnd build (firstMethodBlock?_eq_none block)⟩
      | some i =>
        obtain ⟨before, comments, method, after, place, -⟩ := exists_firstMethod block
        exact ⟨_, .propertyAbove build place⟩
  | replaceMethod name method =>
    cases place : methodIndex? name members with
    | none => exact ⟨_, .methodMissing (List.findIdx?_eq_none_iff.1 place)⟩
    | some i =>
      obtain ⟨before, old, after, split, -, named, is_first⟩ := exists_split_of_methodIndex? place
      cases build : method.build with
      | error e => exact ⟨_, .replacementInvalid (by simp [split]) named build⟩
      | ok built => exact ⟨_, .methodReplaced split named is_first build⟩

/-- A revision makes of a body what the rules say, and the rules say one thing. -/
theorem effect_iff {outcome : Except EditError (List Member × List Source.Diagnostic)} :
    r.Effect cls members outcome ↔ (r.onMembers cls members).map asPair = outcome := by
  constructor
  · exact onMembers_of_effect
  · rintro rfl
    obtain ⟨outcome, effect⟩ := exists_effect cls members r
    rwa [onMembers_of_effect effect]

end Revision

namespace File

variable {f g : File} {r : Revision}

theorem classes_eq (f : File) : f.classes = f.stmts.classes := rfl

theorem head?_classes_eq_some_iff {decl : ClassDecl} {members : Members} :
    f.classes.head? = some (.classLike decl members) ↔ f.firstClass? = some (decl, members) := by
  rw [classes_eq, Node.head?_classes, firstClass?, Option.map_eq_some_iff]
  constructor
  · rintro ⟨⟨d, ms⟩, h, e⟩
    cases e
    exact h
  · intro h
    exact ⟨_, h, rfl⟩

/-- One revision of a file as a state and an outcome. -/
theorem continueWith_of_step {last : File × Except EditError (List Source.Diagnostic)} (h : Step f r last) :
    continueWith (f, .ok []) r = last := by
  cases h with
  | noClass no_class =>
    have none_found : f.firstClass? = none := (Node.classes_eq_nil_iff f.stmts).1 no_class
    rw [continueWith, revise, none_found]
  | @fails decl members e first effect =>
    have failed : r.onMembers decl.name members.toList = .error e := by
      have outcome := Revision.effect_iff.1 effect
      cases h : r.onMembers decl.name members.toList <;> simp_all [Except.map]
    rw [continueWith, revise, head?_classes_eq_some_iff.1 first]
    simp [failed, bind, Except.bind]
  | @revised decl members new warnings stmts first effect rebodied =>
    obtain ⟨built, hb, pair⟩ : ∃ built, r.onMembers decl.name members.toList = .ok built ∧
        Revision.asPair built = (new, warnings) := by
      have outcome := Revision.effect_iff.1 effect
      cases h : r.onMembers decl.name members.toList <;> simp_all [Except.map]
    cases pair
    have put := (rebodied_iff.1 rebodied).2
    rw [continueWith, revise, head?_classes_eq_some_iff.1 first]
    simp [hb, bind, Except.bind, pure, Except.pure, withFirstClass, put]

theorem exists_step (f : File) (r : Revision) : ∃ last, Step f r last := by
  cases found : f.firstClass? with
  | none => exact ⟨_, .noClass ((Node.classes_eq_nil_iff f.stmts).2 found)⟩
  | some cls =>
    obtain ⟨decl, members⟩ := cls
    have first := head?_classes_eq_some_iff.2 found
    obtain ⟨outcome, effect⟩ := Revision.exists_effect decl.name members.toList r
    cases outcome with
    | error e => exact ⟨_, .fails first effect⟩
    | ok done =>
      obtain ⟨stmts, -, rebodied⟩ := Node.exists_rebodied found (.ofList done.1)
      exact ⟨_, .revised first effect rebodied⟩

/-- A single revision does what the rules say, and the rules say one thing. -/
theorem step_iff {last : File × Except EditError (List Source.Diagnostic)} :
    Step f r last ↔ continueWith (f, .ok []) r = last := by
  constructor
  · exact continueWith_of_step
  · rintro rfl
    obtain ⟨last, step⟩ := exists_step f r
    rwa [continueWith_of_step step]

theorem applyAll_cons_of_error {e : EditError} (rs : List Revision) (h : continueWith (f, .ok []) r = (g, .error e)) :
    f.applyAll (r :: rs) = (g, .error e) := by
  rw [continueWith] at h
  rw [applyAll]
  cases done : f.revise r <;> simp_all

theorem applyAll_cons_of_ok {warnings : List Source.Diagnostic} (rs : List Revision)
    (h : continueWith (f, .ok []) r = (g, .ok warnings)) :
    f.applyAll (r :: rs) = ((g.applyAll rs).1, (g.applyAll rs).2.map (warnings ++ ·)) := by
  rw [continueWith] at h
  rw [applyAll]
  cases done : f.revise r <;> simp_all

/-- A list of revisions is a run by the rules. -/
theorem run_iff {rs : List Revision} {last : File × Except EditError (List Source.Diagnostic)} :
    Run f rs last ↔ f.applyAll rs = last := by
  constructor
  · intro run
    induction run with
    | done f => rfl
    | stopped step => exact applyAll_cons_of_error _ (step_iff.1 step)
    | continued step _ ih => rw [applyAll_cons_of_ok _ (step_iff.1 step), ih]
  · rintro rfl
    induction rs generalizing f with
    | nil => exact .done f
    | cons r rs ih =>
      obtain ⟨⟨g, outcome⟩, step⟩ := exists_step f r
      cases outcome with
      | error e =>
        rw [applyAll_cons_of_error rs (step_iff.1 step)]
        exact .stopped step
      | ok warnings =>
        rw [applyAll_cons_of_ok rs (step_iff.1 step)]
        exact .continued step ih

theorem foldl_continueWith_error (f : File) (e : EditError) (rs : List Revision) :
    rs.foldl continueWith (f, .error e) = (f, .error e) := by
  induction rs with
  | nil => rfl
  | cons r rs ih => exact ih

/-- A list of revisions is a left fold, with the warnings from before in front. -/
theorem foldl_continueWith (f : File) (warnings : List Source.Diagnostic) (rs : List Revision) :
    rs.foldl continueWith (f, .ok warnings) = ((f.applyAll rs).1, (f.applyAll rs).2.map (warnings ++ ·)) := by
  induction rs generalizing f warnings with
  | nil => simp [applyAll, Except.map]
  | cons r rs ih =>
    rw [List.foldl_cons, continueWith, applyAll]
    cases f.revise r with
    | error e => exact foldl_continueWith_error f e rs
    | ok built =>
      simp only [ih]
      cases (built.value.applyAll rs).2 <;> simp [Except.map]

/-- **Revisions of a file.** The class they work on is the first that a search lists; a list of revisions is the left
fold of single ones; and it takes a file to what the rules of `Run` say, the file as it was left included when one
fails. -/
theorem applyAll_exact (f : File) :
    f.classes.head? = f.firstClass?.map Node.asDeclaration ∧
    (∀ rs, f.applyAll rs = rs.foldl continueWith (f, .ok [])) ∧
    ∀ rs last, f.applyAll rs = last ↔ Run f rs last := by
  refine ⟨Node.head?_classes f.stmts, ?_, fun rs last => run_iff.symm⟩
  intro rs
  rw [foldl_continueWith]
  cases h : f.applyAll rs with
  | mk last outcome => cases outcome <;> simp [Except.map]

end File

end Codewright.Php
