import Mathlib.Algebra.BigOperators.Group.Multiset.Basic
import Mathlib.Tactic.Abel
import Codewright.Php.Tree
import Codewright.Proofs.Php.Reading

/-!
# Where comments are

Comments stand in front of tokens and, once these are read, among the pending comments of a stream, until a list of
statements or members takes them, or a declaration its doc comment.

* `Node.comments` – the comments of a tree, at any depth; `Stream.comments` – those that have not been taken yet;
* `Conserves held p given` – a reader that starts with the comments `held` in its hands neither loses a comment nor
  makes one: what it gives has the comments `given`. It also reads tokens from the front of the stream only;
* `Conserves.bind`, `Conserves.collect`, … – a rule for every way to build readers.
-/

namespace Codewright.Php

open Source

/-! ## Trees -/

/-- A doc comment, if there is one. -/
def docComments (doc : Option String) : Multiset String := doc.toList

@[simp] theorem docComments_none : docComments none = 0 := rfl

namespace Node

/-- The comments of a tree: comments among statements and members, and the doc comments of declarations. -/
@[simp] def comments : {c : Category} → Node c → Multiset String
  | _, .nil => 0
  | _, .cons head tail => comments head + comments tail
  | _, .absent => 0
  | _, .present value => comments value
  -- Expressions
  | _, .variable _ => 0
  | _, .variableVariable name => comments name
  | _, .literal _ => 0
  | _, .array items _ => comments items
  | _, .nameRef _ => 0
  | _, .constantRef _ => 0
  | _, .classConstant cls _ => comments cls
  | _, .staticProperty cls _ => comments cls
  | _, .propertyFetch object name _ => comments object + comments name
  | _, .methodCall object name args _ => comments object + comments name + comments args
  | _, .staticCall cls name args => comments cls + comments name + comments args
  | _, .call callee args => comments callee + comments args
  | _, .new cls args => comments cls + comments args
  | _, .anonymousClass args decl members => comments args + docComments decl.doc + comments members
  | _, .subscript value index => comments value + comments index
  | _, .assign target _ value => comments target + comments value
  | _, .assignRef target value => comments target + comments value
  | _, .binary _ left right => comments left + comments right
  | _, .unary _ operand => comments operand
  | _, .incDec _ operand => comments operand
  | _, .cast _ operand => comments operand
  | _, .ternary cond yes no => comments cond + comments yes + comments no
  | _, .instanceOf operand cls => comments operand + comments cls
  | _, .isset operands => comments operands
  | _, .emptyCheck operand => comments operand
  | _, .closure _ params body => comments params + comments body
  | _, .arrowFn _ params body => comments params + comments body
  | _, .matchExpr subject arms => comments subject + comments arms
  | _, .clone operand => comments operand
  | _, .print operand => comments operand
  | _, .throwExpr operand => comments operand
  | _, .yield key value => comments key + comments value
  | _, .yieldFrom operand => comments operand
  | _, .callablePlaceholder => 0
  | _, .includeExpr _ operand => comments operand
  | _, .suppress operand => comments operand
  | _, .paren inner => comments inner
  -- Parts of expressions
  | _, .ident _ => 0
  | _, .computed name => comments name
  | _, .item key value _ _ => comments key + comments value
  | _, .arg _ value _ => comments value
  | _, .arm conditions body => comments conditions + comments body
  | _, .param _ default => comments default
  -- Statements
  | _, .namespaceDecl _ body _ _ => comments body
  | _, .useDecl _ _ => 0
  | _, .declare directives => comments directives
  | _, .declareBlock directives body => comments directives + comments body
  | _, .constDecl items => comments items
  | _, .classLike decl members => docComments decl.doc + comments members
  | _, .function decl params body => docComments decl.doc + comments params + comments body
  | _, .exprStmt value => comments value
  | _, .echo values => comments values
  | _, .returnStmt value => comments value
  | _, .ifStmt cond yes elseIfs no => comments cond + comments yes + comments elseIfs + comments no
  | _, .whileStmt cond body => comments cond + comments body
  | _, .doWhile body cond => comments body + comments cond
  | _, .forStmt init cond step body => comments init + comments cond + comments step + comments body
  | _, .foreach subject key value _ body => comments subject + comments key + comments value + comments body
  | _, .switchStmt subject cases => comments subject + comments cases
  | _, .breakStmt level => comments level
  | _, .continueStmt level => comments level
  | _, .throwStmt value => comments value
  | _, .tryStmt body catches last => comments body + comments catches + comments last
  | _, .block body => comments body
  | _, .global _ => 0
  | _, .staticVars vars => comments vars
  | _, .unset values => comments values
  | _, .goto _ => 0
  | _, .label _ => 0
  | _, .inlineHtml _ => 0
  | _, .comment text => {text}
  | _, .nop => 0
  -- Parts of statements
  | _, .directive _ value => comments value
  | _, .definition _ value => comments value
  | _, .varItem _ default => comments default
  | _, .elseIf cond body => comments cond + comments body
  | _, .switchCase test body => comments test + comments body
  | _, .catchClause _ _ body => comments body
  -- Members
  | _, .traitUse _ _ => 0
  | _, .classConst decl items => docComments decl.doc + comments items
  | _, .property decl items => docComments decl.doc + comments items
  | _, .method decl params body => docComments decl.doc + comments params + comments body
  | _, .enumCase decl value => docComments decl.doc + comments value
  | _, .memberComment text => {text}

end Node

/-- The comments of several things together, given those of each. -/
def total {α : Type} (given : α → Multiset String) (xs : List α) : Multiset String := (xs.map given).sum

/-- The comments of a thing that may be there. -/
def perhaps {α : Type} (given : α → Multiset String) (x : Option α) : Multiset String := x.elim 0 given

section

variable {α β : Type} (given : α → Multiset String)

@[simp] theorem total_nil : total given [] = 0 := rfl

@[simp] theorem total_cons (x : α) (xs : List α) : total given (x :: xs) = given x + total given xs := by
  simp [total]

@[simp] theorem total_append (xs ys : List α) : total given (xs ++ ys) = total given xs + total given ys := by
  simp [total]

@[simp] theorem total_zero (xs : List α) : total (fun _ => 0) xs = 0 := by
  simp [total]

theorem total_map (f : β → α) (xs : List β) : total given (xs.map f) = total (fun x => given (f x)) xs := by
  rw [total, List.map_map]
  rfl

@[simp] theorem perhaps_none : perhaps given none = 0 := rfl

@[simp] theorem perhaps_some (x : α) : perhaps given (some x) = given x := rfl

@[simp] theorem perhaps_zero (x : Option α) : perhaps (fun _ => 0) x = 0 := by
  cases x <;> rfl

@[simp] theorem perhaps_map (f : β → α) (x : Option β) :
    perhaps given (x.map f) = perhaps (fun x => given (f x)) x := by
  cases x <;> rfl

end

namespace Node

variable {c : Category}

@[simp] theorem comments_ofList (xs : List (Node c)) : comments (ofList xs) = total comments xs := by
  induction xs with
  | nil => rfl
  | cons x xs ih => rw [ofList, comments, ih, total_cons]

@[simp] theorem comments_ofOption (x : Option (Node c)) : comments (ofOption x) = perhaps comments x := by
  cases x <;> rfl

/-- Comments as statements. -/
@[simp] theorem total_map_comment (texts : List String) : total comments (texts.map Node.comment) = texts := by
  induction texts with
  | nil => rfl
  | cons t ts ih => rw [List.map_cons, total_cons, ih]; rfl

/-- Comments as members. -/
@[simp] theorem total_map_memberComment (texts : List String) :
    total comments (texts.map Node.memberComment) = texts := by
  induction texts with
  | nil => rfl
  | cons t ts ih => rw [List.map_cons, total_cons, ih]; rfl

end Node

/-! ## Streams -/

/-- The comments of the tokens, each in front of its token. -/
def tokenComments (tokens : List Token) : Multiset String := tokens.flatMap Token.allComments

@[simp] theorem tokenComments_nil : tokenComments [] = 0 := rfl

@[simp] theorem tokenComments_cons (t : Token) (ts : List Token) :
    tokenComments (t :: ts) = t.comments + docComments t.doc + tokenComments ts := by
  simp [tokenComments, Token.allComments, docComments, add_assoc, ← Multiset.coe_add]

namespace Stream

/-- The comments that belong to no tree yet. -/
def comments (s : Stream) : Multiset String := s.pending + tokenComments s.tokens

theorem comments_ofTokens (tokens : List Token) : (Stream.ofTokens tokens).comments = tokenComments tokens := by
  simp [comments, ofTokens]

end Stream

/-! ## Readers -/

variable {α β : Type}

/-- Holding the comments `held`, the reader gives what has the comments `given`, and no comment is lost or made on the
way; what it leaves is an end of the tokens it was given. -/
def Conserves (held : Multiset String) (p : Parse α) (given : α → Multiset String) : Prop :=
  ∀ s, Yields s p fun x s' => given x + s'.comments = held + s.comments ∧ s'.faces <:+ s.faces

namespace Conserves

variable {held : Multiset String} {p : Parse α} {f : α → Parse β} {given : α → Multiset String}
  {given' : β → Multiset String}

theorem pure {x : α} (h : given x = held) : Conserves held (pure x) given :=
  fun _ => .pure ⟨by rw [h], List.suffix_refl _⟩

theorem bind (hp : Conserves 0 p given) (hf : ∀ x, Conserves (held + given x) (f x) given') :
    Conserves held (p >>= f) given' := by
  intro s
  refine .bind ((hp s).mono fun x s₁ ⟨same, back⟩ => (hf x s₁).mono fun y s' ⟨same', back'⟩ => ?_)
  refine ⟨?_, back'.trans back⟩
  rw [same', add_assoc, same, zero_add]

/-- The second reader goes on with all that the first one gives. -/
theorem andThen (hp : Conserves held p given) (hf : ∀ x, Conserves (given x) (f x) given') :
    Conserves held (p >>= f) given' := by
  intro s
  refine .bind ((hp s).mono fun x s₁ ⟨same, back⟩ => (hf x s₁).mono fun y s' ⟨same', back'⟩ => ?_)
  exact ⟨same'.trans same, back'.trans back⟩

theorem pure_bind {x : α} (h : Conserves held (f x) given') : Conserves held (Pure.pure x >>= f) given' := h

theorem map {F : α → β} (hp : Conserves held p fun x => given' (F x)) : Conserves held (F <$> p) given' := by
  intro s y s' read
  change (p s).bind (fun r => .ok (F r.1, r.2)) = _ at read
  cases result : p s with
  | error _ =>
    rw [result] at read
    cases read
  | ok r =>
    rw [result] at read
    cases read
    exact hp s r.1 r.2 result

theorem map_some (hp : Conserves held p given) : Conserves held (some <$> p) (perhaps given) := .map hp

theorem get_bind {f : Stream → Parse β} (h : ∀ s, Conserves held (f s) given') :
    Conserves held (get >>= f) given' :=
  fun s => .get_bind (h s s)

theorem failWith (cause : SyntaxError.Cause) : Conserves held (Parse.failWith cause) given := fun _ => .failWith cause

theorem failExpected (expected : String) : Conserves held (Parse.failExpected expected) given :=
  fun _ => .failExpected expected

theorem ite {c : Prop} [Decidable c] {q : Parse α} (h : Conserves held p given) (h' : Conserves held q given) :
    Conserves held (if c then p else q) given := by
  split
  · exact h
  · exact h'

theorem congr {given₁ : α → Multiset String} (hp : Conserves held p given) (h : ∀ x, given₁ x = given x) :
    Conserves held p given₁ := by
  rw [funext h]
  exact hp

/-- What the reader holds beside, it still holds at the end. -/
theorem frame (hp : Conserves 0 p given) : Conserves held p fun x => held + given x := by
  intro s
  refine (hp s).mono fun x s' ⟨same, back⟩ => ⟨?_, back⟩
  rw [add_assoc, same, zero_add]

end Conserves

/-- The reader gives nothing that has comments. -/
abbrev Silent (p : Parse α) : Prop := Conserves 0 p fun _ => 0

theorem Silent.bind {held : Multiset String} {p : Parse α} {f : α → Parse β} {given : β → Multiset String}
    (hp : Silent p) (hf : ∀ x, Conserves held (f x) given) : Conserves held (p >>= f) given :=
  Conserves.bind hp fun x => by
    rw [add_zero]
    exact hf x

/-! ### Single tokens -/

namespace Conserves

/-- The comments in front of the token become pending. -/
theorem advance : Silent Parse.advance := by
  intro s t s' read
  obtain ⟨tokens, eof, lastEnd, pending, unread, unread_eq⟩ := s
  cases tokens with
  | nil =>
    cases read
    exact ⟨rfl, List.suffix_refl _⟩
  | cons u rest =>
    rw [Parse.advance] at read
    dsimp only at read
    split at read
    · cases read
      refine ⟨?_, List.suffix_refl _⟩
      simp [Stream.comments, Token.bare, Token.allComments, docComments, add_assoc, ← Multiset.coe_add]
    · cases read
      refine ⟨?_, List.suffix_cons _ _⟩
      simp [Stream.comments, Token.allComments, docComments, add_assoc, ← Multiset.coe_add]

theorem takeDoc : Conserves 0 Parse.takeDoc docComments := by
  intro s d s' read
  obtain ⟨tokens, eof, lastEnd, pending, unread, unread_eq⟩ := s
  cases tokens with
  | nil =>
    cases read
    exact ⟨rfl, List.suffix_refl _⟩
  | cons u rest =>
    cases read
    refine ⟨?_, List.suffix_refl _⟩
    simp only [Stream.comments, tokenComments_cons, docComments_none]
    abel

theorem takeComments : Conserves 0 Parse.takeComments fun texts => texts := by
  intro s d s' read
  obtain ⟨tokens, eof, lastEnd, pending, unread, unread_eq⟩ := s
  cases tokens with
  | nil =>
    cases read
    exact ⟨by simp [Stream.comments], List.suffix_refl _⟩
  | cons u rest =>
    cases read
    refine ⟨?_, List.suffix_refl _⟩
    simp only [Stream.comments, tokenComments_cons, ← Multiset.coe_add, Multiset.coe_nil]
    abel

theorem expect (k : TokenKind) : Silent (Parse.expect k) :=
  .get_bind fun _ => .ite advance (.failExpected _)

theorem expectKeyword (word : String) : Silent (Parse.expectKeyword word) :=
  .get_bind fun _ => .ite advance (.failExpected _)

theorem expectIdent (what : String) : Silent (Parse.expectIdent what) :=
  .get_bind fun _ => .ite (advance.bind fun _ => .pure rfl) (.failExpected _)

theorem expectVariable : Silent Parse.expectVariable :=
  .get_bind fun _ => .ite (advance.bind fun _ => .pure rfl) (.failExpected _)

theorem tryToken (k : TokenKind) : Silent (Parse.tryToken k) :=
  .get_bind fun _ => .ite (advance.bind fun _ => .pure rfl) (.pure rfl)

theorem tryKeyword (word : String) : Silent (Parse.tryKeyword word) :=
  .get_bind fun _ => .ite (advance.bind fun _ => .pure rfl) (.pure rfl)

theorem expectSemicolon : Silent Parse.expectSemicolon :=
  (tryToken _).bind fun _ => .ite (.pure rfl) (.get_bind fun _ => .ite (.pure rfl) (.failExpected _))

/-! ### Loops -/

variable {α : Type} {given : α → Multiset String}

theorem collectUpTo {step : Parse (List α × Bool)} (h : Conserves 0 step fun r => total given r.1) (n : Nat) :
    Conserves 0 (Parse.collectUpTo step n) (total given) := by
  induction n with
  | zero => exact .failWith _
  | succ n ih =>
    refine .bind h fun r => .ite ?more (.pure (zero_add _).symm)
    exact .bind ih fun ys => .pure (by simp)

theorem collect {step : Parse (List α × Bool)} (h : Conserves 0 step fun r => total given r.1) :
    Conserves 0 (Parse.collect step) (total given) :=
  .get_bind fun s => collectUpTo h (s.unread + 1)

/-- Each round makes its new value of the old one and of what it reads. -/
theorem refineUpTo {step : α → Parse (Option α)} (h : ∀ x, Conserves (given x) (step x) fun r => given (r.getD x))
    (n : Nat) (x : α) : Conserves (given x) (Parse.refineUpTo step n x) given := by
  induction n generalizing x with
  | zero => exact .failWith _
  | succ n ih =>
    intro s
    refine .bind ((h x s).mono fun r s₁ ⟨same, back⟩ => ?_)
    cases r with
    | none => exact .pure ⟨same, back⟩
    | some y => exact (ih y s₁).mono fun z s' ⟨same', back'⟩ => ⟨same'.trans same, back'.trans back⟩

theorem refine {step : α → Parse (Option α)} (h : ∀ x, Conserves (given x) (step x) fun r => given (r.getD x))
    (x : α) : Conserves (given x) (Parse.refine step x) given :=
  .get_bind fun s => refineUpTo h (s.unread + 1) x

theorem skipAll (kinds : List TokenKind) : Silent (Parse.skipAll kinds) := by
  have round : Conserves 0 (do
      if kinds.contains (← get).kind then
        let _ ← Parse.advance
        return ([], true)
      else return ([], false)) fun r : List Unit × Bool => total (fun _ => 0) r.1 :=
    .get_bind fun _ => .ite (advance.bind fun _ => .pure rfl) (.pure rfl)
  exact Conserves.bind (collect round) fun _ => .pure (by simp)

section

variable {p : Parse α} (hp : Conserves 0 p given)

include hp

theorem behind {separator : Parse Bool} (hs : Silent separator) :
    Conserves 0 (Parse.behind separator p) (total given) :=
  .collect <| hs.bind fun _ => .ite (hp.bind fun x => .pure (by simp)) (.pure rfl)

theorem commaList : Conserves 0 (Parse.commaList p) (total given) :=
  hp.bind fun x => (hp.behind (tryToken _)).bind fun xs => .pure (by simp)

theorem commaListUntil (close : TokenKind) : Conserves 0 (Parse.commaListUntil close p) (total given) :=
  .collect <| .get_bind fun _ => .ite (.pure rfl) <| hp.bind fun x => (tryToken _).bind fun _ => .pure (by simp)

theorem afterKeyword (word : String) : Conserves 0 (Parse.afterKeyword word p) (perhaps given) :=
  (tryKeyword word).bind fun _ => .ite (hp.bind fun x => .pure (by simp)) (.pure rfl)

theorem afterToken (k : TokenKind) : Conserves 0 (Parse.afterToken k p) (perhaps given) :=
  (tryToken k).bind fun _ => .ite (hp.bind fun x => .pure (by simp)) (.pure rfl)

theorem enclosedBy (opening closing : TokenKind) : Conserves 0 (Parse.enclosedBy opening closing p) given :=
  (expect opening).bind fun _ => hp.bind fun x => (expect closing).bind fun _ => .pure (by simp)

end

end Conserves

end Codewright.Php
