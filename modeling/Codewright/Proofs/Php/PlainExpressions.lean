import Codewright.Proofs.Php.PlainReading

/-!
# Expressions and members are plain

* `Grammar.MakesPlain` – the readers of the grammar make plain trees of sound tokens;
* `Grammar.MakesPlain.block`, … – one lemma for each production of expressions and members.
-/

namespace Codewright.Php

open Source Text Lexer

/-- The readers of the grammar make plain trees. -/
structure Grammar.MakesPlain (g : Grammar) : Prop where
  expr (least : Level) {s : Stream} : Makes s (g.expr least) Node.IsPlain
  operand {s : Stream} : Makes s g.operand Node.IsPlain
  primary {s : Stream} : Makes s g.primary Node.IsPlain
  stmt {s : Stream} : Makes s g.stmt Node.IsPlain

theorem Node.isPlain_asClass {e : Expr} (h : e.IsPlain) : e.asClass.IsPlain := by
  cases e <;> exact h

theorem Node.isPlain_argValue {a : Node .arg} (h : a.IsPlain) : a.argValue.IsPlain := by
  cases a
  exact h.2

/-- Lists of trees that are plain. -/
abbrev AllPlain {c : Category} (xs : List (Node c)) : Prop := ∀ x ∈ xs, x.IsPlain

theorem AllPlain.ofList {c : Category} {xs : List (Node c)} (h : AllPlain xs) : (Node.ofList xs).IsPlain :=
  Node.isPlain_ofList.2 h

theorem isPlain_ofOption_ofList {c : Category} {x : Option (List (Node c))} (h : ∀ xs ∈ x, AllPlain xs) :
    (Node.ofOption (x.map .ofList)).IsPlain := by
  cases x with
  | none => exact trivial
  | some xs => exact (h xs rfl).ofList

namespace Grammar.MakesPlain

open Parse

variable {g : Grammar} {s : Stream} (h : g.MakesPlain)

theorem leadingComments : Makes s Parse.leadingComments AllPlain := by
  have comments {texts : List String} (hc : ∀ t ∈ texts, IsComment t.toList) {doc : Option String}
      (hd : ∀ t ∈ doc, IsComment t.toList) : AllPlain ((texts ++ doc.toList).map Node.comment) := by
    refine List.forall_mem_map.2 (List.forall_mem_append.2 ⟨hc, fun t member => hd t ?_⟩)
    simpa using member
  refine Makes.takeComments.bind fun texts hc => .get_bind (.ite (.pure_bind (.pure (comments hc nofun))) ?_)
  exact Makes.takeDoc.bind fun doc hd => .pure (comments hc hd)

include h

/-! ### Parts -/

theorem anyExpr : Makes s g.anyExpr Node.IsPlain := h.expr _

theorem assignmentExpr : Makes s g.assignmentExpr Node.IsPlain := h.expr _

theorem exprList : Makes s g.exprList AllPlain := .commaList h.anyExpr

theorem initialValue : Makes s g.initialValue fun x => ∀ y ∈ x, y.IsPlain := .afterToken h.anyExpr _

theorem statementsUntil (stops : List String) : Makes s (g.statementsUntil stops) AllPlain := by
  refine .collect <| (Makes.skipAll _).bind fun _ _ => leadingComments.bind fun comments hc => .get_bind ?_
  refine .ite (.pure hc) <| .ite (.failExpected _) <| h.stmt.bind fun stmt hs => .pure ?_
  exact List.forall_mem_append.2 ⟨hc, List.forall_mem_singleton.2 hs⟩

theorem block : Makes s g.block AllPlain := .enclosedBy (h.statementsUntil _) _ _

theorem arg : Makes s g.arg Node.IsPlain := by
  refine .get_bind <| .ite (Makes.skip.bind fun _ _ => .pure ⟨nofun, trivial⟩) <| (Makes.tryToken _).bind fun _ _ => .get_bind ?_
  split
  · next named =>
    have kind := by simpa [Stream.at_] using (Bool.and_eq_true_iff.1 (Bool.and_eq_true_iff.1 named).1).2
    refine (Makes.advance_of kind).bind fun _ text => Makes.skip.bind fun _ _ => h.anyExpr.bind fun _ hx => .pure ⟨?_, hx⟩
    simpa using (text.name rfl).code
  · exact h.anyExpr.bind fun _ hx => .pure ⟨nofun, hx⟩

theorem args : Makes s g.args AllPlain := .enclosedBy (.commaListUntil h.arg _) _ _

theorem optionalArgs : Makes s g.optionalArgs AllPlain := .get_bind (.ite h.args (.pure nofun))

theorem param : Makes s g.param Node.IsPlain := by
  refine Makes.attributes.bind fun groups hg => (Makes.keeps_refine fun m => .get_bind ?promotion).bind fun m _ => .get_bind ?_
  case promotion =>
    split
    · exact (Makes.addModifier _ _).bind fun _ _ => .pure trivial
    · exact .pure trivial
  have afterType (type : Option TypeHint) (ht : ∀ t ∈ type, t.IsPlain) {s : Stream} : Makes s (do
      let byRef ← tryToken .amp
      let variadic ← tryToken .ellipsis
      let name ← expectVariable
      let default ← g.initialValue
      return Node.param ⟨name, type, byRef, variadic, m, groups⟩ (.ofOption default)) Node.IsPlain :=
    (Makes.tryToken _).bind fun _ _ => (Makes.tryToken _).bind fun _ _ => Makes.expectVariable.bind fun _ hn =>
      h.initialValue.bind fun _ hd => .pure ⟨⟨hn, ht, hg⟩, Node.isPlain_ofOption.2 hd⟩
  exact .ite (.pure_bind (afterType none nofun)) (Makes.typeHint.map_some.bind fun type ht => afterType type ht)

theorem params : Makes s g.params AllPlain := .enclosedBy (.commaListUntil h.param _) _ _

theorem definitions : Makes s g.definitions AllPlain :=
  .commaList <| (Makes.name _).bind fun _ hn => (Makes.expect _).bind fun _ _ => h.anyExpr.bind fun _ hx => .pure ⟨hn, hx⟩

theorem varItems : Makes s g.varItems AllPlain :=
  .commaList <| Makes.expectVariable.bind fun _ hn => h.initialValue.bind fun _ hd => .pure ⟨hn, Node.isPlain_ofOption.2 hd⟩

/-! ### Bodies of class-like declarations -/

omit h in
theorem traitUse : Makes s Parse.traitUse Node.IsPlain := by
  refine (Makes.expectKeyword _).bind fun _ _ => (Makes.nameList _).bind fun _ ht => (Makes.tryToken _).bind fun _ _ =>
    .ite ?rules (Makes.expectSemicolon.bind fun _ _ => .pure ⟨ht, nofun⟩)
  refine Makes.bind (.collect (P := Adaptation.IsPlain) ((Makes.tryToken _).bind fun _ _ => .ite (.pure nofun) ?rule)) fun _ ha =>
    .pure ⟨ht, ha⟩
  exact .get_bind <| .ite (.failExpected _) (Makes.adaptation.bind fun _ ha => .pure (List.forall_mem_singleton.2 ha))

section

variable {doc : Option String} {groups : List String} (lead : IsPlainLead doc groups)

include lead

theorem enumCase : Makes s (g.enumCase doc groups) Node.IsPlain :=
  (Makes.name _).bind fun _ hn => h.initialValue.bind fun _ hd => Makes.expectSemicolon.bind fun _ _ =>
    .pure ⟨⟨hn, lead⟩, Node.isPlain_ofOption.2 hd⟩

theorem classConst (m : Modifiers) : Makes s (g.classConst m doc groups) Node.IsPlain :=
  h.definitions.bind fun _ hi => Makes.expectSemicolon.bind fun _ _ => .pure ⟨lead, hi.ofList⟩

theorem method (start : Nat) (m : Modifiers) : Makes s (g.method start m doc groups) Node.IsPlain := by
  refine (Makes.tryToken _).bind fun _ _ => (Makes.name _).bind fun _ hn => h.params.bind fun params hp =>
    Makes.returnType.bind fun _ ht => .get_bind <| .ite (h.block.map_some.bind fun body hb => ?_) ?_
  · exact .get_bind <| .pure ⟨⟨hn, ht, lead⟩, hp.ofList, isPlain_ofOption_ofList hb⟩
  · exact Makes.expectSemicolon.bind fun _ _ => .pure_bind <| .get_bind <| .pure ⟨⟨hn, ht, lead⟩, hp.ofList, trivial⟩

theorem property (start : Nat) (m : Modifiers) : Makes s (g.property start m doc groups) Node.IsPlain := by
  have afterType (type : Option TypeHint) (ht : ∀ t ∈ type, t.IsPlain) {s : Stream} : Makes s (do
      let items ← g.varItems
      if (← get).at_ .openBrace then failUnsupported "property hooks"
      else
        expectSemicolon
        let span := (← get).spanFrom start
        return Node.property ⟨m, type, doc, groups, span⟩ (.ofList items)) Node.IsPlain :=
    h.varItems.bind fun _ hi => .get_bind <| .ite (.failWith _) <| Makes.expectSemicolon.bind fun _ _ =>
      .get_bind <| .pure ⟨⟨ht, lead⟩, hi.ofList⟩
  exact .get_bind <| .ite (.pure_bind (afterType none nofun)) (Makes.typeHint.map_some.bind fun type ht => afterType type ht)

end

theorem member : Makes s g.member Node.IsPlain := by
  refine .get_bind <| .ite traitUse <| .get_bind <| Makes.takeDoc.bind fun before hb => Makes.attributes.bind fun groups hg => ?_
  have afterDoc {doc : Option String} (hd : ∀ t ∈ doc, IsComment t.toList) (start : Nat) {s : Stream} : Makes s (do
      if ← tryKeyword "case" then g.enumCase doc groups
      else
        let modifiers ← Parse.memberModifiers
        if ← tryKeyword "const" then g.classConst modifiers doc groups
        else if ← tryKeyword "function" then g.method start modifiers doc groups
        else g.property start modifiers doc groups) Node.IsPlain :=
    (Makes.tryKeyword _).bind fun _ _ => .ite (h.enumCase ⟨hd, hg⟩) <| Makes.memberModifiers.bind fun _ _ =>
      (Makes.tryKeyword _).bind fun _ _ => .ite (h.classConst ⟨hd, hg⟩ _) <| (Makes.tryKeyword _).bind fun _ _ =>
        .ite (h.method ⟨hd, hg⟩ _ _) (h.property ⟨hd, hg⟩ _ _)
  cases before with
  | some doc => exact .pure_bind (afterDoc hb _)
  | none => exact Makes.takeDoc.bind fun doc hd => afterDoc hd _

theorem members : Makes s g.members AllPlain := by
  have entries {texts : List String} (hc : ∀ t ∈ texts, IsComment t.toList) {doc : Option String}
      (hd : ∀ t ∈ doc, IsComment t.toList) : AllPlain ((texts ++ doc.toList).map Node.memberComment) := by
    refine List.forall_mem_map.2 (List.forall_mem_append.2 ⟨hc, fun t member => hd t ?_⟩)
    simpa using member
  have rest {texts : List String} (hc : ∀ t ∈ texts, IsComment t.toList) {doc : Option String}
      (hd : ∀ t ∈ doc, IsComment t.toList) (s₀ : Stream) {s : Stream} : Makes s (do
        let entries : List Member := (texts ++ doc.toList).map .memberComment
        if s₀.at_ .closeBrace then return (entries, false)
        else if s₀.atEnd then failExpected "'\x7d'"
        else return (entries ++ [← g.member], true)) fun r => AllPlain r.1 :=
    .ite (.pure (entries hc hd)) <| .ite (.failExpected _) <| h.member.bind fun _ hm =>
      .pure (List.forall_mem_append.2 ⟨entries hc hd, List.forall_mem_singleton.2 hm⟩)
  refine .enclosedBy (.collect (Makes.takeComments.bind fun texts hc => .get_bind <| .ite (Makes.takeDoc.bind fun doc hd => ?_) ?_)) _ _
  · exact rest hc hd _
  · have no_doc : ∀ t ∈ (none : Option String), IsComment t.toList := nofun
    exact .pure_bind (rest hc no_doc _)

/-! ### Operands -/

theorem parenthesized : Makes s g.parenthesized Node.IsPlain := .enclosedBy h.anyExpr _ _

theorem inBraces : Makes s g.inBraces Node.IsPlain := .enclosedBy h.anyExpr _ _

theorem arrayItem : Makes s g.arrayItem Node.IsPlain := by
  refine .get_bind <| .ite (.failWith _) <| (Makes.tryToken _).bind fun _ _ =>
    .ite (h.anyExpr.bind fun _ hx => .pure ⟨trivial, hx⟩) <| (Makes.tryToken _).bind fun _ _ =>
    .ite (h.anyExpr.bind fun _ hx => .pure ⟨trivial, hx⟩) <| h.anyExpr.bind fun first hf => (Makes.tryToken _).bind fun _ _ =>
    .ite ?_ (.pure ⟨trivial, hf⟩)
  exact (Makes.tryToken _).bind fun _ _ => h.anyExpr.bind fun _ hx => .pure ⟨hf, hx⟩

theorem arrayItems (close : TokenKind) : Makes s (g.arrayItems close) Node.IsPlain :=
  (Makes.commaListUntil h.arrayItem _).bind fun _ hi => (Makes.expect _).bind fun _ _ => .pure (Node.isPlain_ofList.2 hi)

theorem closure (isStatic : Bool) : Makes s (g.closure isStatic) Node.IsPlain :=
  (Makes.expectKeyword _).bind fun _ _ => (Makes.tryToken _).bind fun _ _ => h.params.bind fun _ hp =>
    Makes.captures.bind fun _ hc => Makes.returnType.bind fun _ ht => h.block.bind fun _ hb =>
    .pure ⟨⟨hc, ht⟩, hp.ofList, hb.ofList⟩

theorem arrowFn (isStatic : Bool) : Makes s (g.arrowFn isStatic) Node.IsPlain :=
  (Makes.expectKeyword _).bind fun _ _ => (Makes.tryToken _).bind fun _ _ => h.params.bind fun _ hp =>
    Makes.returnType.bind fun _ ht => (Makes.expect _).bind fun _ _ => h.assignmentExpr.bind fun _ hb =>
    .pure ⟨⟨nofun, ht⟩, hp.ofList, hb⟩

theorem matchArm : Makes s g.matchArm Node.IsPlain := by
  refine .get_bind <| .ite ?default ?conditions
  case default =>
    exact Makes.skip.bind fun _ _ => (Makes.tryToken _).bind fun _ _ => .pure_bind <| (Makes.expect _).bind fun _ _ =>
      h.anyExpr.bind fun _ hb => .pure ⟨trivial, hb⟩
  case conditions =>
    exact (Makes.commaListUntil h.anyExpr _).map_some.bind fun _ hc => (Makes.expect _).bind fun _ _ =>
      h.anyExpr.bind fun _ hb => .pure ⟨isPlain_ofOption_ofList hc, hb⟩

theorem matchExpr : Makes s g.matchExpr Node.IsPlain :=
  (Makes.expectKeyword _).bind fun _ _ => h.parenthesized.bind fun _ hs =>
    (Makes.enclosedBy (.commaListUntil h.matchArm _) _ _).bind fun _ ha => .pure ⟨hs, Node.isPlain_ofList.2 ha⟩

omit h in
theorem plainName (here : s.kind = .ident) : Makes s Grammar.plainName Node.IsPlain :=
  .get_bind <| (Makes.advance_of here).bind fun _ text => .ite (.pure (text.name rfl).code) (.pure (text.name rfl).code)

theorem identPrimary (here : s.kind = .ident) : Makes s g.identPrimary Node.IsPlain := by
  refine .get_bind <| .ite ?literal <| .ite ?array <| .ite ?isset <| .ite ?empty <| .ite ?exit <|
    .ite (h.closure false) <| .ite (h.arrowFn false) <| .ite ?closure <| .ite ?arrowFn <| .ite h.matchExpr <|
    .ite (.failExpected _) (plainName here)
  case literal =>
    refine Makes.skip.bind fun _ _ => .pure ?_
    show Literal.IsPlain _
    split_ifs <;> trivial
  case array => exact Makes.skip.bind fun _ _ => Makes.skip.bind fun _ _ => (h.arrayItems _).bind fun _ hi => .pure hi
  case isset =>
    refine Makes.skip.bind fun _ _ => h.args.bind fun args ha => .pure ?_
    exact AllPlain.ofList (List.forall_mem_map.2 fun a member => Node.isPlain_argValue (ha a member))
  case empty => exact Makes.skip.bind fun _ _ => h.parenthesized.bind fun _ hx => .pure hx
  case exit =>
    exact .peek fun text => Makes.skip.bind fun _ _ => h.optionalArgs.bind fun _ ha =>
      .pure ⟨(text.name here).code, ha.ofList⟩
  case closure => exact Makes.skip.bind fun _ _ => h.closure true
  case arrowFn => exact Makes.skip.bind fun _ _ => h.arrowFn true

theorem primaryExpr : Makes s g.primaryExpr Node.IsPlain := by
  refine .get_bind ?_
  split
  · next here => exact (Makes.advance_of here).bind fun _ text => .pure (text.word (.inl rfl))
  · next here => exact (Makes.advance_of here).bind fun _ text => .pure (text.word (.inr (.inl rfl)))
  · next here => exact (Makes.advance_of here).bind fun _ text => .pure (text.word (.inr (.inr rfl)))
  · next here => exact (Makes.advance_of here).bind fun _ text => .pure (text.raw (.inl rfl))
  · exact Makes.skip.bind fun _ _ => (h.arrayItems _).bind fun _ hi => .pure hi
  · exact h.parenthesized.bind fun _ hx => .pure hx
  · refine Makes.skip.bind fun _ _ => .get_bind ?_
    split
    · exact h.inBraces.bind fun _ hx => .pure hx
    · exact h.primary.bind fun _ hx => .pure hx
    · exact h.primary.bind fun _ hx => .pure hx
    · exact .failExpected _
  · next here => exact h.identPrimary here
  · exact .failExpected _

theorem anonymousClass : Makes s g.anonymousClass Node.IsPlain :=
  .get_bind <| (Makes.tryKeyword _).bind fun _ _ => (Makes.expectKeyword _).bind fun _ _ =>
    h.optionalArgs.bind fun _ ha => Makes.parent.bind fun _ hp => (Makes.interfaces _).bind fun _ hi =>
    h.members.bind fun _ hm => .get_bind <| .pure ⟨ha.ofList, ⟨hp, hi⟩, hm.ofList⟩

theorem classAccess {cls : Expr} (hc : cls.IsPlain) : Makes s (g.classAccess cls) fun r => ∀ e ∈ r, e.IsPlain := by
  have made {e : Expr} (he : e.IsPlain) : ∀ e' ∈ some e, e'.IsPlain := by simpa using he
  refine .get_bind ?_
  split
  · next arrow =>
    rw [Bool.and_eq_true, Bool.or_eq_true] at arrow
    have fetch {t : Token} (ht : IsCodeText t.text) (nullsafe : Bool) :
        (Node.propertyFetch cls (.ident t.text) nullsafe).IsPlain :=
      ⟨hc, ht⟩
    have read {k : TokenKind} (here : s.kind = k) (not_last : k ≠ .eof) : Makes s (do
        let _ ← advance
        return some (Node.propertyFetch cls (.ident (← advance).text) (s.at_ .nullsafeArrow))) fun r =>
          ∀ e ∈ r, Node.IsPlain e :=
      .advance_advance here not_last arrow.2 fun t text => .pure (made (fetch (text.name rfl).code _))
    rcases arrow.1 with plain | nullsafe
    · exact read (k := .arrow) (by simpa [Stream.at_] using plain) (by decide)
    · exact read (k := .nullsafeArrow) (by simpa [Stream.at_] using nullsafe) (by decide)
  split
  · next colon =>
    rw [Bool.and_eq_true] at colon
    exact .advance_advance (k := .doubleColon) (by simpa [Stream.at_] using colon.1) (by decide) colon.2 fun t text =>
      .pure (made ⟨hc, text.word (.inl rfl)⟩)
  · exact .ite ((Makes.enclosedBy h.anyExpr _ _).bind fun _ hi => .pure (made ⟨hc, hi⟩)) (.pure fun _ held => absurd held (Option.not_mem_none _))

theorem classExpr : Makes s g.classExpr Node.IsPlain := by
  refine .get_bind ?_
  split
  · next here => exact (Makes.advance_of here).bind fun _ text => .pure (text.name rfl).code
  · next here =>
    exact (Makes.advance_of here).bind fun t text => .refine (fun _ he => h.classAccess he) (text.word (.inl rfl))
  · exact h.parenthesized.bind fun _ hx => .pure hx
  · exact .failExpected _

theorem newExpr : Makes s g.newExpr Node.IsPlain :=
  (Makes.expectKeyword _).bind fun _ _ => .get_bind <| .ite h.anonymousClass <| h.classExpr.bind fun _ hc =>
    h.optionalArgs.bind fun _ ha => .pure ⟨hc, ha.ofList⟩

theorem memberName : Makes s g.memberName Node.IsPlain := by
  refine .get_bind ?_
  split
  · next here => exact (Makes.advance_of here).bind fun _ text => .pure (text.name rfl).code
  · next here => exact (Makes.advance_of here).bind fun _ text => .pure (text.word (.inl rfl))
  · exact h.inBraces.bind fun _ hx => .pure hx
  · exact .failExpected _

theorem staticMember {cls : Expr} (hc : cls.IsPlain) : Makes s (g.staticMember cls) Node.IsPlain := by
  refine .get_bind ?_
  split
  · next here =>
    refine (Makes.advance_of here).bind fun _ text => .get_bind ?_
    have hn := text.word (.inl rfl)
    exact .ite (h.args.bind fun _ ha => .pure ⟨hc, hn, ha.ofList⟩) (.pure ⟨hc, hn⟩)
  · next here =>
    refine (Makes.advance_of here).bind fun _ text => .get_bind ?_
    have hn := (text.name rfl).code
    exact .ite (h.args.bind fun _ ha => .pure ⟨hc, hn, ha.ofList⟩) (.pure ⟨hc, hn⟩)
  · exact h.inBraces.bind fun _ hn => h.args.bind fun _ ha => .pure ⟨hc, hn, ha.ofList⟩
  · exact .failExpected _

theorem arrowMember {object : Expr} (ho : object.IsPlain) (nullsafe : Bool) :
    Makes s (g.arrowMember object nullsafe) Node.IsPlain :=
  h.memberName.bind fun _ hn => .get_bind <|
    .ite (h.args.bind fun _ ha => .pure ⟨ho, hn, ha.ofList⟩) (.pure ⟨ho, hn⟩)

theorem access {e : Expr} (he : e.IsPlain) : Makes s (g.access e) fun r => ∀ e' ∈ r, e'.IsPlain := by
  have made {e : Expr} (he : e.IsPlain) : ∀ e' ∈ some e, e'.IsPlain := by simpa using he
  refine .get_bind ?_
  split
  · refine Makes.skip.bind fun _ _ => .get_bind <| .ite (.pure_bind ?_) (h.anyExpr.map_some.bind fun _ hi => ?_)
    · exact (Makes.expect _).bind fun _ _ => .pure (made ⟨he, trivial⟩)
    · exact (Makes.expect _).bind fun _ _ => .pure (made ⟨he, Node.isPlain_ofOption.2 hi⟩)
  · exact Makes.skip.bind fun _ _ => (h.arrowMember he _).bind fun _ hx => .pure (made hx)
  · exact Makes.skip.bind fun _ _ => (h.arrowMember he _).bind fun _ hx => .pure (made hx)
  · exact Makes.skip.bind fun _ _ => (h.staticMember he).bind fun _ hx => .pure (made hx)
  · exact h.args.bind fun _ ha => .pure (made ⟨he, ha.ofList⟩)
  · exact Makes.skip.bind fun _ _ => .pure (made he)
  · exact Makes.skip.bind fun _ _ => .pure (made he)
  · exact .pure nofun

theorem accesses {e : Expr} (he : e.IsPlain) : Makes s (g.accesses e) Node.IsPlain := .refine (fun _ hx => h.access hx) he

/-! ### Operators -/

theorem yieldExpr : Makes s g.yieldExpr Node.IsPlain := by
  refine (Makes.expectKeyword _).bind fun _ _ => (Makes.tryKeyword _).bind fun _ _ =>
    .ite (h.assignmentExpr.bind fun _ hx => .pure hx) <| .get_bind <| .ite (.pure ⟨trivial, trivial⟩) <|
    h.assignmentExpr.bind fun _ hx => (Makes.tryToken _).bind fun _ _ => .ite ?keyed (.pure ⟨trivial, hx⟩)
  exact h.assignmentExpr.bind fun _ hy => .pure ⟨hx, hy⟩

theorem wordOperand : Makes s g.wordOperand Node.IsPlain := by
  refine .get_bind <| .ite h.newExpr <| .ite ?clone <| .ite ?print <| .ite ?throw <| .ite h.yieldExpr ?_
  case clone => exact Makes.skip.bind fun _ _ => h.operand.bind fun _ hx => .pure hx
  case print => exact Makes.skip.bind fun _ _ => h.assignmentExpr.bind fun _ hx => .pure hx
  case throw => exact Makes.skip.bind fun _ _ => h.assignmentExpr.bind fun _ hx => .pure hx
  split
  · exact Makes.skip.bind fun _ _ => h.assignmentExpr.bind fun _ hx => .pure hx
  · exact h.primary.bind fun _ he => h.accesses he

theorem operandExpr : Makes s g.operandExpr Node.IsPlain := by
  refine .get_bind ?_
  split
  all_goals try exact Makes.skip.bind fun _ _ => (h.expr _).bind fun _ hx => .pure hx
  case h_7 => exact Makes.skip.bind fun _ _ => h.operand.bind fun _ hx => .pure hx
  case h_8 => exact Makes.skip.bind fun _ _ => h.operand.bind fun _ hx => .pure hx
  case h_9 => exact h.wordOperand
  case h_10 => exact h.primary.bind fun _ he => h.accesses he

theorem assignmentTo {target : Expr} (ht : target.IsPlain) : Makes s (g.assignmentTo target) Node.IsPlain := by
  refine .get_bind ?_
  generalize (if target.isAssignable then AssignOp.ofKind? s.kind else none) = op
  cases op with
  | none => exact .pure ht
  | some op =>
    have assigned {s : Stream} : Makes s (do return .assign target op (← g.assignmentExpr)) Node.IsPlain :=
      h.assignmentExpr.bind fun _ hx => .pure ⟨ht, hx⟩
    refine Makes.skip.bind fun _ _ => .ite ((Makes.tryToken _).bind fun _ _ => .ite ?_ assigned) assigned
    exact h.assignmentExpr.bind fun _ hx => .pure ⟨ht, hx⟩

theorem branches {cond : Expr} (hc : cond.IsPlain) : Makes s (g.branches cond) Node.IsPlain := by
  have afterYes (yes : Option Expr) (hy : ∀ e ∈ yes, e.IsPlain) {s : Stream} : Makes s (do
      let _ ← expect .colon
      return .ternary cond (.ofOption yes) (← g.expr .coalesce)) Node.IsPlain :=
    (Makes.expect _).bind fun _ _ => (h.expr _).bind fun _ hn => .pure ⟨hc, Node.isPlain_ofOption.2 hy, hn⟩
  exact (Makes.expect _).bind fun _ _ => .get_bind <| .ite (.pure_bind (afterYes none nofun))
    (h.assignmentExpr.map_some.bind fun yes hy => afterYes yes hy)

theorem operator (least : Level) {left : Expr} (hl : left.IsPlain) :
    Makes s (g.operator least left) fun r => ∀ e ∈ r, e.IsPlain := by
  have made {e : Expr} (he : e.IsPlain) : ∀ e' ∈ some e, e'.IsPlain := by simpa using he
  refine .get_bind <| .ite (.ite (.pure nofun) ((h.branches hl).bind fun _ hx => .pure (made hx))) <|
    .ite (.ite (.pure nofun) ?instanceOf) ?_
  case instanceOf =>
    exact Makes.skip.bind fun _ _ => h.operand.bind fun _ hx => .pure (made ⟨hl, Node.isPlain_asClass hx⟩)
  split
  · exact .pure nofun
  · exact .ite (.pure nofun) <| Makes.skip.bind fun _ _ => (h.expr _).bind fun _ hr => .pure (made ⟨hl, hr⟩)

theorem operatorExpr (least : Level) : Makes s (g.operatorExpr least) Node.IsPlain :=
  h.operand.bind fun _ hf => (h.assignmentTo hf).bind fun _ hl => .refine (fun _ hx => h.operator least hx) hl

end Grammar.MakesPlain

end Codewright.Php
