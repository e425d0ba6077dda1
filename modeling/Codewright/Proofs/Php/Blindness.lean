import Codewright.Php.Grammar.Statements
import Codewright.Proofs.Php.Reading

/-!
# Reading without comments

What a reader makes of tokens without their comments, compared with what it makes of the tokens as they are: two runs of
the grammar, side by side.

* `Node.bare`, `Stream.bare` – trees and streams without comments; every test on a stream comes out the same without them;
* `Blind p p' erase` – on a stream without comments, `p'` does what `p` does on the stream itself: it fails alike, or
  gives what `p` gives with `erase` applied, and leaves the same rest without comments;
* `Plain p` – what the reader gives holds no comments at all;
* `Blind.bind`, `Blind.collect`, … – a rule for every way to build readers.
-/

namespace Codewright.Php

open Source

/-! ## Trees -/

namespace Node

/-- The tree is a comment among statements or members. -/
def isCommentEntry : {c : Category} → Node c → Bool
  | _, .comment _ => true
  | _, .memberComment _ => true
  | _, _ => false

/-- The tree without comments: none among statements and members, and no doc comment at a declaration. -/
@[simp] def bare : {c : Category} → Node c → Node c
  | _, .nil => .nil
  | _, .cons head tail => if head.isCommentEntry then bare tail else .cons (bare head) (bare tail)
  | _, .absent => .absent
  | _, .present value => .present (bare value)
  -- Expressions
  | _, .variable name => .variable name
  | _, .variableVariable name => .variableVariable (bare name)
  | _, .literal value => .literal value
  | _, .array items short => .array (bare items) short
  | _, .nameRef name => .nameRef name
  | _, .constantRef name => .constantRef name
  | _, .classConstant cls name => .classConstant (bare cls) name
  | _, .staticProperty cls name => .staticProperty (bare cls) name
  | _, .propertyFetch object name nullsafe => .propertyFetch (bare object) (bare name) nullsafe
  | _, .methodCall object name args nullsafe => .methodCall (bare object) (bare name) (bare args) nullsafe
  | _, .staticCall cls name args => .staticCall (bare cls) (bare name) (bare args)
  | _, .call callee args => .call (bare callee) (bare args)
  | _, .new cls args => .new (bare cls) (bare args)
  | _, .anonymousClass args decl members => .anonymousClass (bare args) { decl with doc := none } (bare members)
  | _, .subscript value index => .subscript (bare value) (bare index)
  | _, .assign target op value => .assign (bare target) op (bare value)
  | _, .assignRef target value => .assignRef (bare target) (bare value)
  | _, .binary op left right => .binary op (bare left) (bare right)
  | _, .unary op operand => .unary op (bare operand)
  | _, .incDec op operand => .incDec op (bare operand)
  | _, .cast type operand => .cast type (bare operand)
  | _, .ternary cond yes no => .ternary (bare cond) (bare yes) (bare no)
  | _, .instanceOf operand cls => .instanceOf (bare operand) (bare cls)
  | _, .isset operands => .isset (bare operands)
  | _, .emptyCheck operand => .emptyCheck (bare operand)
  | _, .closure decl params body => .closure decl (bare params) (bare body)
  | _, .arrowFn decl params body => .arrowFn decl (bare params) (bare body)
  | _, .matchExpr subject arms => .matchExpr (bare subject) (bare arms)
  | _, .clone operand => .clone (bare operand)
  | _, .print operand => .print (bare operand)
  | _, .throwExpr operand => .throwExpr (bare operand)
  | _, .yield key value => .yield (bare key) (bare value)
  | _, .yieldFrom operand => .yieldFrom (bare operand)
  | _, .callablePlaceholder => .callablePlaceholder
  | _, .includeExpr kind operand => .includeExpr kind (bare operand)
  | _, .suppress operand => .suppress (bare operand)
  | _, .paren inner => .paren (bare inner)
  -- Parts of expressions
  | _, .ident name => .ident name
  | _, .computed name => .computed (bare name)
  | _, .item key value byRef spread => .item (bare key) (bare value) byRef spread
  | _, .arg name value spread => .arg name (bare value) spread
  | _, .arm conditions body => .arm (bare conditions) (bare body)
  | _, .param decl default => .param decl (bare default)
  -- Statements
  | _, .namespaceDecl name body braced span => .namespaceDecl name (bare body) braced span
  | _, .useDecl kind items => .useDecl kind items
  | _, .declare directives => .declare (bare directives)
  | _, .declareBlock directives body => .declareBlock (bare directives) (bare body)
  | _, .constDecl items => .constDecl (bare items)
  | _, .classLike decl members => .classLike { decl with doc := none } (bare members)
  | _, .function decl params body => .function { decl with doc := none } (bare params) (bare body)
  | _, .exprStmt value => .exprStmt (bare value)
  | _, .echo values => .echo (bare values)
  | _, .returnStmt value => .returnStmt (bare value)
  | _, .ifStmt cond yes elseIfs no => .ifStmt (bare cond) (bare yes) (bare elseIfs) (bare no)
  | _, .whileStmt cond body => .whileStmt (bare cond) (bare body)
  | _, .doWhile body cond => .doWhile (bare body) (bare cond)
  | _, .forStmt init cond step body => .forStmt (bare init) (bare cond) (bare step) (bare body)
  | _, .foreach subject key value byRef body => .foreach (bare subject) (bare key) (bare value) byRef (bare body)
  | _, .switchStmt subject cases => .switchStmt (bare subject) (bare cases)
  | _, .breakStmt level => .breakStmt (bare level)
  | _, .continueStmt level => .continueStmt (bare level)
  | _, .throwStmt value => .throwStmt (bare value)
  | _, .tryStmt body catches last => .tryStmt (bare body) (bare catches) (bare last)
  | _, .block body => .block (bare body)
  | _, .global names => .global names
  | _, .staticVars vars => .staticVars (bare vars)
  | _, .unset values => .unset (bare values)
  | _, .goto target => .goto target
  | _, .label name => .label name
  | _, .inlineHtml text => .inlineHtml text
  | _, .comment text => .comment text
  | _, .nop => .nop
  -- Parts of statements
  | _, .directive name value => .directive name (bare value)
  | _, .definition name value => .definition name (bare value)
  | _, .varItem name default => .varItem name (bare default)
  | _, .elseIf cond body => .elseIf (bare cond) (bare body)
  | _, .switchCase test body => .switchCase (bare test) (bare body)
  | _, .catchClause types var body => .catchClause types var (bare body)
  -- Members
  | _, .traitUse traits adaptations => .traitUse traits adaptations
  | _, .classConst decl items => .classConst { decl with doc := none } (bare items)
  | _, .property decl items => .property { decl with doc := none } (bare items)
  | _, .method decl params body => .method { decl with doc := none } (bare params) (bare body)
  | _, .enumCase decl value => .enumCase { decl with doc := none } (bare value)
  | _, .memberComment text => .memberComment text

/-- The trees of a list that are no comments, without the comments in them. -/
def bares {c : Category} (xs : List (Node c)) : List (Node c) := (xs.filter fun x => !x.isCommentEntry).map bare

section

variable {c : Category}

@[simp] theorem bares_nil : bares ([] : List (Node c)) = [] := rfl

@[simp] theorem bares_append (xs ys : List (Node c)) : bares (xs ++ ys) = bares xs ++ bares ys := by
  simp [bares]

theorem bares_singleton {x : Node c} (h : x.isCommentEntry = false) : bares [x] = [bare x] := by
  simp [bares, h]

@[simp] theorem isCommentEntry_comment (text : String) : (comment text).isCommentEntry = true := rfl

@[simp] theorem isCommentEntry_memberComment (text : String) : (memberComment text).isCommentEntry = true := rfl

@[simp] theorem bares_map_comment (texts : List String) : bares (texts.map Node.comment) = [] := by
  simp [bares]

@[simp] theorem bares_map_memberComment (texts : List String) : bares (texts.map Node.memberComment) = [] := by
  simp [bares]

@[simp] theorem bare_ofList (xs : List (Node c)) : bare (ofList xs) = ofList (bares xs) := by
  induction xs with
  | nil => rfl
  | cons x xs ih =>
    rw [ofList, bare, ih, bares, bares, List.filter_cons]
    cases x.isCommentEntry <;> rfl

@[simp] theorem bare_comp_ofList : (bare ∘ ofList : List (Node c) → _) = ofList ∘ bares := funext bare_ofList

/-- Only statements and members are comments. -/
@[simp] theorem bares_eq_map (no_stmt : c ≠ .stmt) (no_member : c ≠ .member) (xs : List (Node c)) :
    bares xs = xs.map bare := by
  have none_comment (x : Node c) : x.isCommentEntry = false := by
    cases x <;> first | rfl | contradiction
  rw [bares, List.filter_eq_self.2 fun x _ => by rw [none_comment]; rfl]

@[simp] theorem bare_ofOption (x : Option (Node c)) : bare (ofOption x) = ofOption (x.map bare) := by
  cases x <;> rfl

theorem isAssignable_bare (e : Expr) : e.bare.isAssignable = e.isAssignable := by
  cases e with
  | call callee args => cases callee <;> rfl
  | _ => rfl

theorem bare_asClass (e : Expr) : e.asClass.bare = e.bare.asClass := by
  cases e <;> rfl

theorem bare_argValue (a : Node .arg) : a.argValue.bare = a.bare.argValue := by
  cases a
  rfl

end

end Node

/-- The file without comments. -/
def File.bare (f : File) : File := { f with stmts := f.stmts.bare }

/-! ## Streams -/

namespace Token

variable (t : Token)

@[simp] theorem kind_bare : t.bare.kind = t.kind := rfl
@[simp] theorem text_bare : t.bare.text = t.text := rfl
@[simp] theorem span_bare : t.bare.span = t.span := rfl
@[simp] theorem pos_bare : t.bare.pos = t.pos := rfl
@[simp] theorem isEof_bare : t.bare.isEof = t.isEof := rfl
@[simp] theorem isKeyword_bare (word : String) : t.bare.isKeyword word = t.isKeyword word := rfl
@[simp] theorem shown_bare : t.bare.shown = t.shown := rfl
@[simp] theorem bare_bare : t.bare.bare = t.bare := rfl
@[simp] theorem allComments_bare : t.bare.allComments = [] := rfl

end Token

theorem BinaryOp.ofToken?_bare (t : Token) : BinaryOp.ofToken? t.bare = BinaryOp.ofToken? t := rfl

namespace Stream

/-- The stream without its comments. -/
def bare (s : Stream) : Stream :=
  { s with
    tokens := s.tokens.map Token.bare
    eof := s.eof.bare
    pending := []
    unread_eq := by simp [s.unread_eq] }

variable (s : Stream)

@[simp] theorem unread_bare : s.bare.unread = s.unread := rfl

@[simp] theorem spanFrom_bare (start : Nat) : s.bare.spanFrom start = s.spanFrom start := rfl

@[simp] theorem peekAt_bare (n : Nat) : s.bare.peekAt n = (s.peekAt n).bare := by
  simp only [peekAt, bare, List.getElem?_map]
  cases s.tokens[n]? <;> rfl

@[simp] theorem peek_bare : s.bare.peek = s.peek.bare := s.peekAt_bare 0

@[simp] theorem kind_bare : s.bare.kind = s.kind := by simp [kind]

@[simp] theorem at_bare (k : TokenKind) : s.bare.at_ k = s.at_ k := by simp [at_]

@[simp] theorem hasAt_bare (n : Nat) (k : TokenKind) : s.bare.hasAt n k = s.hasAt n k := by simp [hasAt]

@[simp] theorem atKeyword_bare (word : String) : s.bare.atKeyword word = s.atKeyword word := by simp [atKeyword]

@[simp] theorem atAnyKeyword_bare (words : List String) : s.bare.atAnyKeyword words = s.atAnyKeyword words := by
  simp [atAnyKeyword, funext s.atKeyword_bare]

@[simp] theorem keywordAt_bare (n : Nat) (word : String) : s.bare.keywordAt n word = s.keywordAt n word := by
  simp [keywordAt]

@[simp] theorem atEnd_bare : s.bare.atEnd = s.atEnd := by simp [atEnd]

@[simp] theorem atClass_bare : s.bare.atClass = s.atClass := by
  have same : isClassModifier ∘ Token.bare = isClassModifier := rfl
  simp only [atClass, bare, List.dropWhile_map, same]
  rcases s.tokens.dropWhile isClassModifier with _ | ⟨t, _ | ⟨u, rest⟩⟩ <;> rfl

@[simp] theorem atFunction_bare : s.bare.atFunction = s.atFunction := by simp [atFunction]

@[simp] theorem atDeclaration_bare : s.bare.atDeclaration = s.atDeclaration := by simp [atDeclaration]

@[simp] theorem atNamespace_bare : s.bare.atNamespace = s.atNamespace := by simp [atNamespace]

@[simp] theorem atLabel_bare : Grammar.atLabel s.bare = Grammar.atLabel s := by simp [Grammar.atLabel]

@[simp] theorem nextModifier?_bare (flags : List Modifier) :
    Parse.nextModifier? flags s.bare = Parse.nextModifier? flags s := by
  simp [Parse.nextModifier?]

theorem unexpected_bare (expected : String) : s.bare.unexpected expected = s.unexpected expected := by
  simp [unexpected]

theorem errorHere_bare (cause : SyntaxError.Cause) : s.bare.errorHere cause = s.errorHere cause := by
  simp [errorHere]

theorem bare_ofTokens (tokens : List Token) : (ofTokens tokens).bare = ofTokens (tokens.map Token.bare) := by
  have same : (endOf tokens).bare = endOf (tokens.map Token.bare) := by
    simp only [endOf, List.getLast?_map]
    cases tokens.getLast? with
    | none => rfl
    | some t =>
      cases last : t.isEof with
      | true => simp [last]
      | false =>
        simp only [Option.map_some, Token.isEof_bare, last]
        rfl
  simp [bare, ofTokens, same]

end Stream

/-! ## Readers -/

variable {α β : Type}

/-- On a stream without comments, `p'` does what `p` does on the stream itself, up to comments. -/
def Blind (p p' : Parse α) (erase : α → α) : Prop :=
  ∀ s, p' s.bare = (p s).map fun r => (erase r.1, r.2.bare)

/-- The reader does not see comments, and what it gives has none. -/
abbrev Plain (p : Parse α) : Prop := Blind p p id

namespace Blind

variable {p p' : Parse α} {f f' : α → Parse β} {erase : α → α} {erase' : β → β}

theorem pure {x y : α} (h : erase x = y) : Blind (pure x) (Pure.pure y) erase := by
  intro s
  rw [← h]
  rfl

/-- The second readers may rely on a property of all that the first one gives. -/
theorem bind_of {Q : α → Prop} (hp : Blind p p' erase) (hq : Gives p Q)
    (hf : ∀ x, Q x → Blind (f x) (f' (erase x)) erase') : Blind (p >>= f) (p' >>= f') erase' := by
  intro s
  change (p' s.bare).bind (fun r => f' r.1 r.2) = ((p s).bind fun r => f r.1 r.2).map _
  rw [hp s]
  cases result : p s with
  | error e => rfl
  | ok r => exact hf r.1 (hq s r.1 r.2 result) r.2

theorem bind (hp : Blind p p' erase) (hf : ∀ x, Blind (f x) (f' (erase x)) erase') :
    Blind (p >>= f) (p' >>= f') erase' :=
  hp.bind_of (Q := fun _ => True) (fun _ _ _ _ => trivial) fun x _ => hf x

theorem pure_bind {x y : α} (h : Blind (f x) (f' y) erase') :
    Blind (Pure.pure x >>= f) (Pure.pure y >>= f') erase' := h

theorem get_bind {f f' : Stream → Parse β} (h : ∀ s, Blind (f s) (f' s.bare) erase') :
    Blind (get >>= f) (get >>= f') erase' :=
  fun s => h s s

theorem map {g g' : α → β} (hp : Blind p p' erase) (h : ∀ x, erase' (g x) = g' (erase x)) :
    Blind (g <$> p) (g' <$> p') erase' := by
  intro s
  change (p' s.bare).bind (fun r => .ok (g' r.1, r.2)) = ((p s).bind fun r => .ok (g r.1, r.2)).map _
  rw [hp s]
  cases p s with
  | error e => rfl
  | ok r => exact congrArg (fun y => Except.ok (y, r.2.bare)) (h r.1).symm

theorem map_some (hp : Blind p p' erase) : Blind (some <$> p) (some <$> p') (Option.map erase) :=
  hp.map fun _ => rfl

theorem ite {c c' : Prop} [Decidable c] [Decidable c'] {q q' : Parse α} (same : c' ↔ c) (h : Blind p p' erase)
    (h' : Blind q q' erase) : Blind (if c then p else q) (if c' then p' else q') erase := by
  by_cases holds : c
  · rwa [if_pos holds, if_pos (same.2 holds)]
  · rwa [if_neg holds, if_neg (mt same.1 holds)]

theorem failExpected (expected : String) : Blind (Parse.failExpected expected) (Parse.failExpected expected) erase :=
  fun s => congrArg Except.error (s.unexpected_bare expected)

theorem failWith (cause : SyntaxError.Cause) : Blind (Parse.failWith cause) (Parse.failWith cause) erase :=
  fun s => congrArg Except.error (s.errorHere_bare cause)

theorem failModifier (reason : String) : Blind (Parse.failModifier reason) (Parse.failModifier reason) erase :=
  .get_bind fun s => by
    rw [s.peek_bare]
    exact .failWith _

theorem congr {erase₁ : α → α} (hp : Blind p p' erase) (h : ∀ x, erase₁ x = erase x) : Blind p p' erase₁ := by
  rw [funext h]
  exact hp

end Blind

theorem Plain.bind {p : Parse α} {f f' : α → Parse β} {erase : β → β} (hp : Plain p)
    (hf : ∀ x, Blind (f x) (f' x) erase) : Blind (p >>= f) (p >>= f') erase :=
  Blind.bind hp hf

/-! ### Single tokens -/

namespace Blind

theorem advance : Blind Parse.advance Parse.advance Token.bare := by
  intro s
  obtain ⟨tokens, eof, lastEnd, pending, unread, unread_eq⟩ := s
  cases tokens with
  | nil => rfl
  | cons t rest =>
    simp only [Parse.advance]
    by_cases last : t.isEof = true
    · rw [if_pos last]
      exact if_pos last
    · rw [if_neg last]
      exact if_neg last

/-- No doc comment is left to take. -/
theorem takeDoc : Blind Parse.takeDoc Parse.takeDoc fun _ => none := by
  intro s
  obtain ⟨tokens, eof, lastEnd, pending, unread, unread_eq⟩ := s
  cases tokens <;> rfl

/-- Where a doc comment was taken before, a look for one finds none. -/
theorem doc_bind {doc : String} {f f' : Option String → Parse α} {erase : α → α}
    (h : Blind (f (some doc)) (f' none) erase) :
    Blind (Pure.pure (some doc) >>= f) (Parse.takeDoc >>= f') erase := by
  intro s
  obtain ⟨tokens, eof, lastEnd, pending, unread, unread_eq⟩ := s
  cases tokens with
  | nil => exact h _
  | cons t rest => exact h ⟨t :: rest, eof, lastEnd, pending, unread, unread_eq⟩

/-- No comment is left to take. -/
theorem takeComments : Blind Parse.takeComments Parse.takeComments fun _ => [] := by
  intro s
  obtain ⟨tokens, eof, lastEnd, pending, unread, unread_eq⟩ := s
  cases tokens <;> rfl

theorem expect (k : TokenKind) : Blind (Parse.expect k) (Parse.expect k) Token.bare :=
  .get_bind fun _ => .ite (by simp) advance (.failExpected _)

theorem expectKeyword (word : String) : Blind (Parse.expectKeyword word) (Parse.expectKeyword word) Token.bare :=
  .get_bind fun _ => .ite (by simp) advance (.failExpected _)

theorem expectIdent (what : String) : Plain (Parse.expectIdent what) :=
  .get_bind fun _ => .ite (by simp) (advance.bind fun _ => .pure rfl) (.failExpected _)

theorem expectVariable : Plain Parse.expectVariable :=
  .get_bind fun _ => .ite (by simp) (advance.bind fun _ => .pure rfl) (.failExpected _)

theorem tryToken (k : TokenKind) : Plain (Parse.tryToken k) :=
  .get_bind fun _ => .ite (by simp) (advance.bind fun _ => .pure rfl) (.pure rfl)

theorem tryKeyword (word : String) : Plain (Parse.tryKeyword word) :=
  .get_bind fun _ => .ite (by simp) (advance.bind fun _ => .pure rfl) (.pure rfl)

theorem expectSemicolon : Plain Parse.expectSemicolon :=
  (tryToken _).bind fun _ => .ite Iff.rfl (.pure rfl) <|
    .get_bind fun _ => .ite (by simp) (.pure rfl) (.failExpected _)

end Blind

/-! ### Loops -/

namespace Blind

section

variable {step step' : Parse (List α × Bool)} {erase : List α → List α}

theorem collectUpTo (append : ∀ xs ys, erase (xs ++ ys) = erase xs ++ erase ys)
    (h : Blind step step' fun r => (erase r.1, r.2)) (n : Nat) :
    Blind (Parse.collectUpTo step n) (Parse.collectUpTo step' n) erase := by
  induction n with
  | zero => exact .failWith _
  | succ n ih =>
    refine .bind h fun r => .ite Iff.rfl ?_ (.pure rfl)
    exact .bind ih fun ys => .pure (append r.1 ys)

/-- The loop goes round equally often on both streams. -/
theorem collect (append : ∀ xs ys, erase (xs ++ ys) = erase xs ++ erase ys)
    (h : Blind step step' fun r => (erase r.1, r.2)) : Blind (Parse.collect step) (Parse.collect step') erase :=
  .get_bind fun s => collectUpTo append h (s.unread + 1)

end

section

variable {step step' : α → Parse (Option α)} {erase : α → α}

theorem refineUpTo (h : ∀ x, Blind (step x) (step' (erase x)) (Option.map erase)) (n : Nat) (x : α) :
    Blind (Parse.refineUpTo step n x) (Parse.refineUpTo step' n (erase x)) erase := by
  induction n generalizing x with
  | zero => exact .failWith _
  | succ n ih =>
    refine .bind (h x) fun r => ?_
    cases r with
    | none => exact .pure rfl
    | some y => exact ih y

theorem refine (h : ∀ x, Blind (step x) (step' (erase x)) (Option.map erase)) (x : α) :
    Blind (Parse.refine step x) (Parse.refine step' (erase x)) erase :=
  .get_bind fun s => refineUpTo h (s.unread + 1) x

end

section

variable {p p' : Parse α} {erase : α → α} (hp : Blind p p' erase)

include hp

theorem behind {separator : Parse Bool} (hs : Plain separator) :
    Blind (Parse.behind separator p) (Parse.behind separator p') (List.map erase) :=
  .collect (fun _ _ => List.map_append) <| hs.bind fun _ => .ite Iff.rfl (hp.bind fun _ => .pure rfl) (.pure rfl)

theorem commaList : Blind (Parse.commaList p) (Parse.commaList p') (List.map erase) :=
  hp.bind fun _ => (hp.behind (tryToken _)).bind fun _ => .pure rfl

theorem commaListUntil (close : TokenKind) :
    Blind (Parse.commaListUntil close p) (Parse.commaListUntil close p') (List.map erase) :=
  .collect (fun _ _ => List.map_append) <| .get_bind fun _ => .ite (by simp) (.pure rfl) <|
    hp.bind fun _ => (tryToken _).bind fun _ => .pure rfl

theorem afterKeyword (word : String) :
    Blind (Parse.afterKeyword word p) (Parse.afterKeyword word p') (Option.map erase) :=
  (tryKeyword word).bind fun _ => .ite Iff.rfl (hp.bind fun _ => .pure rfl) (.pure rfl)

theorem afterToken (k : TokenKind) : Blind (Parse.afterToken k p) (Parse.afterToken k p') (Option.map erase) :=
  (tryToken k).bind fun _ => .ite Iff.rfl (hp.bind fun _ => .pure rfl) (.pure rfl)

theorem enclosedBy (opening closing : TokenKind) :
    Blind (Parse.enclosedBy opening closing p) (Parse.enclosedBy opening closing p') erase :=
  (expect opening).bind fun _ => hp.bind fun _ => (expect closing).bind fun _ => .pure rfl

end

end Blind

/-! ### Things without comments -/

namespace Plain

variable {p : Parse α}

theorem map (hp : Plain p) (F : α → β) : Plain (F <$> p) := Blind.map hp fun _ => rfl

theorem behind {separator : Parse Bool} (hp : Plain p) (hs : Plain separator) : Plain (Parse.behind separator p) :=
  (Blind.behind hp hs).congr fun xs => (List.map_id xs).symm

theorem commaList (hp : Plain p) : Plain (Parse.commaList p) :=
  (Blind.commaList hp).congr fun xs => (List.map_id xs).symm

theorem commaListUntil (hp : Plain p) (close : TokenKind) : Plain (Parse.commaListUntil close p) :=
  (Blind.commaListUntil hp close).congr fun xs => (List.map_id xs).symm

theorem afterKeyword (hp : Plain p) (word : String) : Plain (Parse.afterKeyword word p) :=
  (Blind.afterKeyword hp word).congr fun x => (congrFun Option.map_id x).symm

theorem afterToken (hp : Plain p) (k : TokenKind) : Plain (Parse.afterToken k p) :=
  (Blind.afterToken hp k).congr fun x => (congrFun Option.map_id x).symm

theorem collect {step : Parse (List α × Bool)} (h : Plain step) : Plain (Parse.collect step) :=
  Blind.collect (fun _ _ => rfl) h

theorem skipAll (kinds : List TokenKind) : Plain (Parse.skipAll kinds) :=
  .bind (.collect <| .get_bind fun _ => .ite (by simp) (Blind.advance.bind fun _ => .pure rfl) (.pure rfl))
    fun _ => .pure rfl

/-- A value that is replaced as long as there is something to replace it by. -/
theorem refine {step : α → Parse (Option α)} (h : ∀ x, Plain (step x)) (x : α) : Plain (Parse.refine step x) :=
  Blind.refine (fun x => (h x).congr fun r => congrFun Option.map_id r) x

end Plain

end Codewright.Php
