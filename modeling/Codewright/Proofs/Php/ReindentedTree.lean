import Codewright.Proofs.Php.PlainTree

/-!
# Printed trees with two units of indentation

* `Prints u v c` – what it means for the printed form of a tree of each category to be the same code in two indentations;
* `Node.prints` – a plain tree prints so, at every level.
-/

namespace Codewright.Php

open Text Lexer

/-- The printed form of a tree of the category is the same code in two indentations: on a line, or on lines of its own. -/
def Prints (u v : String) : (c : Category) → Printed c → Prop
  | .list c, ds => ∀ d ∈ ds, Prints u v c d
  | .opt c, d => ∀ e ∈ d, Prints u v c e
  | .stmt, d | .member, d | .elseIf, d | .switchCase, d | .catchClause, d => OnLines u v d
  | .expr, d | .memberName, d | .item, d | .arg, d | .arm, d | .param, d | .directive, d | .definition, d | .varItem, d =>
    Inline u v d

section

variable {u v : String} {d e : Doc} {ds : List Doc}

/-! ## Operators -/

theorem BinaryOp.isCodeText (op : BinaryOp) : IsCodeText (" " ++ op.spelling ++ " ") := by
  cases op <;> exact .of_isCodeWord rfl

theorem AssignOp.isCodeText (op : AssignOp) : IsCodeText (" " ++ op.spelling ++ " ") := by
  cases op <;> exact .of_isCodeWord rfl

/-- An operator in front of its operand. -/
theorem UnaryOp.isCodeText (op : UnaryOp) (b : Bool) : IsCodeText (op.spelling ++ if b then " " else "") := by
  cases op <;> cases b <;> exact .of_isCodeWord rfl

theorem arrow_isCodeText (nullsafe : Bool) : IsCodeText (arrow nullsafe) ∧ EndsName (arrow nullsafe) := by
  cases nullsafe <;> exact ⟨.of_isCodeWord rfl, fun _ => rfl⟩

theorem CastType.isCodeText (type : CastType) : IsCodeText ("(" ++ type.word ++ ") ") := by
  cases type <;> exact .of_isCodeWord rfl

theorem IncludeKind.isCodeText (kind : IncludeKind) : IsCodeText (kind.keyword ++ " ") := by
  cases kind <;> exact .of_isCodeWord rfl

/-! ## Shapes that several productions share -/

namespace Inline

/-- A document between two texts. -/
theorem between {w w' : String} (h : IsCodeText w) (hd : Inline u v d) (h' : IsCodeText w') (ends : EndsName w') :
    Inline u v (.text w :: (d ++ [.text w'])) :=
  .text h (hd.before h' ends .nil)

/-- A document with arguments behind it. -/
theorem called (hd : Inline u v d) (hs : ∀ d ∈ ds, Inline u v d) :
    Inline u v (d ++ .text "(" :: (Doc.commas ds ++ [.text ")"])) :=
  hd.before (.of_isCodeWord rfl) (fun _ => rfl) ((commas hs).before (.of_isCodeWord rfl) (fun _ => rfl) .nil)

theorem getD {value : Option Doc} (h : ∀ d ∈ value, Inline u v d) : Inline u v (value.getD []) := by
  cases value with
  | none => exact .nil
  | some d => exact h d rfl

/-- A key with an arrow behind it, if there is one. -/
theorem keyed {w : String} {key : Option Doc} : (∀ d ∈ key, Inline u v d) → Inline u v (.text w :: d) →
    Inline u v ((match key with
      | some k => k ++ [.text " => "]
      | none => []) ++ .text w :: d) := by
  intro hk hd
  cases key with
  | none => exact hd
  | some k =>
    simp only [List.append_assoc, List.cons_append, List.nil_append]
    exact (hk k rfl).before (.of_isCodeWord rfl) (fun _ => rfl) hd

end Inline

end

section

variable {u v : String} {n : Nat} (hu : ∀ c ∈ u.toList, c = ' ') (hv : ∀ c ∈ v.toList, c = ' ')

/-! ## Single productions -/

namespace Prints

open Node

theorem ternary {cond no : Expr} {yes : Node (.opt .expr)} (hc : Prints u v .expr (cond.doc n))
    (hy : Prints u v (.opt .expr) (yes.doc n)) (hn : Prints u v .expr (no.doc n)) :
    Prints u v .expr ((Node.ternary cond yes no).doc n) := by
  have last : Inline u v _ := hn
  cases yes with
  | present yes =>
    exact Inline.before hc (.of_isCodeWord rfl) (fun _ => rfl) ((hy _ rfl).before (.of_isCodeWord rfl) (fun _ => rfl) last)
  | absent => exact Inline.before hc (.of_isCodeWord rfl) (fun _ => rfl) last

theorem yield {key value : Node (.opt .expr)} (hk : Prints u v (.opt .expr) (key.doc n))
    (hd : Prints u v (.opt .expr) (value.doc n)) : Prints u v .expr ((Node.yield key value).doc n) := by
  cases key with
  | present key =>
    cases value with
    | present value =>
      exact .text (.of_isCodeWord rfl) ((hk _ rfl).before (.of_isCodeWord rfl) (fun _ => rfl) (hd _ rfl))
    | absent => exact .text (.of_isCodeWord rfl) (hk _ rfl)
  | absent =>
    cases value with
    | present value => exact .text (.of_isCodeWord rfl) (hd _ rfl)
    | absent => exact .text (.of_isCodeWord rfl) .nil

theorem arrowFn {decl : ClosureDecl} {params : Node (.list .param)} {body : Expr} (h : decl.IsPlain)
    (hp : Prints u v (.list .param) (params.doc n)) (hb : Prints u v .expr (body.doc n)) :
    Prints u v .expr ((Node.arrowFn decl params body).doc n) := by
  refine .text (.append (.append (.wordIf (.of_isCodeWord rfl) _) (.of_isCodeWord rfl)) ?_) (.before (.commas hp) ?_ ?_ hb)
  · exact .ite (.of_isCodeWord rfl) (.of_isCodeWord rfl) _
  · exact .append (.append (.of_isCodeWord rfl) (.returnTypeText h.returnType)) (.of_isCodeWord rfl)
  · exact .append (.append (fun _ => rfl) _) _

/-- A value with its key, if it has one. -/
theorem item {key : Node (.opt .expr)} {value : Expr} (byRef spread : Bool) (hk : Prints u v (.opt .expr) (key.doc n))
    (hd : Prints u v .expr (value.doc n)) : Prints u v .item ((Node.item key value byRef spread).doc n) := by
  refine .keyed hk (.text ?_ hd)
  exact .append (.ite (.of_isCodeWord rfl) .empty _) (.ite (.of_isCodeWord rfl) .empty _)

theorem arm {conditions : Node (.opt (.list .expr))} {body : Expr}
    (hc : Prints u v (.opt (.list .expr)) (conditions.doc n)) (hb : Prints u v .expr (body.doc n)) :
    Prints u v .arm ((Node.arm conditions body).doc n) := by
  refine .before ?_ (.of_isCodeWord rfl) (fun _ => rfl) hb
  split
  · next ds same => exact .commas (hc ds same)
  · exact .text (.of_isCodeWord rfl) .nil

include hu hv

theorem anonymousClass {args : Node (.list .arg)} {decl : ClassDecl} {members : Members}
    (ha : Prints u v (.list .arg) (args.doc n)) (hd : decl.kind.IsPlain)
    (hm : Prints u v (.list .member) (members.doc (n + 1))) :
    Prints u v .expr ((Node.anonymousClass args decl members).doc n) := by
  show Inline u v (.text ("new " ++ decl.anonymousText.1) ::
    (if (args.doc n).isEmpty then [] else .text "(" :: Doc.commas (args.doc n) ++ [.text ")"]) ++
    .text (decl.anonymousText.2 ++ " \x7b\n") :: printedMembers members.toList (members.doc (n + 1)) ++
    [.indent n, .text "\x7d"])
  simp only [List.cons_append, List.append_assoc]
  obtain ⟨words, clauses⟩ := ClassKind.IsPlain.isCodeText hd
  have block := Inline.inBraces hu hv clauses rfl (.printedMembers hm members.toList) n
  refine .text (.append (.of_isCodeWord rfl) words) ?_
  split
  · exact block
  · simp only [List.cons_append, List.append_assoc, List.nil_append]
    exact .text (.of_isCodeWord rfl) ((Inline.commas ha).before (.of_isCodeWord rfl) (fun _ => rfl) block)

theorem closure {decl : ClosureDecl} {params : Node (.list .param)} {body : Block} (h : decl.IsPlain)
    (hp : Prints u v (.list .param) (params.doc n)) (hb : Prints u v (.list .stmt) (body.doc (n + 1))) :
    Prints u v .expr ((Node.closure decl params body).doc n) := by
  show Inline u v ((.text _ :: Doc.commas (params.doc n) ++ .text _ :: (body.doc (n + 1)).flatten) ++
    [.indent n, .text "\x7d"])
  simp only [List.cons_append, List.append_assoc]
  refine .text (.append (.append (.wordIf (.of_isCodeWord rfl) _) (.of_isCodeWord rfl)) ?_)
    (.append (.commas hp) (.inBraces hu hv ?_ rfl (.flatten hb) n) ?_)
  · exact .ite (.of_isCodeWord rfl) (.of_isCodeWord rfl) _
  · exact .append (.append (.of_isCodeWord rfl) h.isCodeText) (.returnTypeText h.returnType)
  · exact EndsName.chars (.append (.append (.append (fun _ => rfl) _) _) _) u _

theorem matchExpr {subject : Expr} {arms : Node (.list .arm)} (hs : Prints u v .expr (subject.doc n))
    (ha : Prints u v (.list .arm) (arms.doc (n + 1))) : Prints u v .expr ((Node.matchExpr subject arms).doc n) := by
  show Inline u v ((.text "match (" :: subject.doc n ++ .text ") \x7b\n" ::
    ((arms.doc (n + 1)).map fun d => .indent (n + 1) :: d ++ [.text ",\n"]).flatten) ++ [.indent n, .text "\x7d"])
  simp only [List.cons_append, List.append_assoc]
  have entries := OnLines.flatten (List.forall_mem_map.2 fun d member => .entry hu hv (ha d member) (n + 1))
  have block := Inline.inBraces hu hv (w := ")") (.of_isCodeWord rfl) rfl entries n
  exact .text (.of_isCodeWord rfl) (Inline.append hs block (EndsName.chars (fun _ => rfl) u _))

theorem namespaceDecl {name : Option Name} {body : Block} {braces : Bool} {span : Source.Span} (h : ∀ n ∈ name, IsCodeText n)
    (hb : ∀ m, Prints u v (.list .stmt) (body.doc m)) :
    Prints u v .stmt ((Node.namespaceDecl name body braces span).doc n) := by
  have head := IsCodeText.namespaceHead h
  show OnLines u v (if braces then braced n [.text _] (printedTopLevel body.toList (body.doc (n + 1)))
    else Doc.line n [.text _] ++
      if body.toList.all Stmt.isNop then [] else Doc.blankLine ++ printedTopLevel body.toList (body.doc n))
  split
  · exact .braced hu hv (.text head .nil) (.printedTopLevel (hb (n + 1)) _) n
  · refine .append (.line hu hv (.text (head.append (.of_isCodeWord rfl)) .nil) n) ?_
    split
    · exact .nil
    · exact .append .blankLine (.printedTopLevel (hb n) _)

theorem function {decl : FunctionDecl} {params : Node (.list .param)} {body : Block} (h : decl.IsPlain)
    (hp : Prints u v (.list .param) (params.doc n)) (hb : Prints u v (.list .stmt) (body.doc (n + 1))) :
    Prints u v .stmt ((Node.function decl params body).doc n) := by
  refine .append (.append (.leadDoc hu hv h.lead n) (.line hu hv (.between ?_ (.commas hp) ?_ ?_) n))
    (.bracedBelow hu hv (.flatten hb) n)
  · exact .append (.append (.append (.of_isCodeWord rfl) (.ite (.of_isCodeWord rfl) .empty _)) h.name) (.of_isCodeWord rfl)
  · exact .append (.of_isCodeWord rfl) (.returnTypeText h.returnType)
  · exact .append (fun _ => rfl) _

theorem ifStmt {cond : Expr} {yes : Block} {elseIfs : Node (.list .elseIf)} {no : Node (.opt (.list .stmt))}
    (hc : Prints u v .expr (cond.doc n)) (hy : Prints u v (.list .stmt) (yes.doc (n + 1)))
    (he : Prints u v (.list .elseIf) (elseIfs.doc n)) (hn : Prints u v (.opt (.list .stmt)) (no.doc (n + 1))) :
    Prints u v .stmt ((Node.ifStmt cond yes elseIfs no).doc n) := by
  refine .append (.append (.append (.append (.line hu hv (.between ?_ hc ?_ fun _ => rfl) n) (.flatten hy)) (.flatten he)) ?_)
    (.line hu hv (.text (.of_isCodeWord rfl) .nil) n)
  · exact .of_isCodeWord rfl
  · exact .of_isCodeWord rfl
  · split
    · next ds same => exact .append (.line hu hv (.text (.of_isCodeWord rfl) .nil) n) (.flatten (hn ds same))
    · exact .nil

theorem forStmt {init cond step : Node (.list .expr)} {body : Block} (hi : Prints u v (.list .expr) (init.doc n))
    (hc : Prints u v (.list .expr) (cond.doc n)) (hs : Prints u v (.list .expr) (step.doc n))
    (hb : Prints u v (.list .stmt) (body.doc (n + 1))) : Prints u v .stmt ((Node.forStmt init cond step body).doc n) := by
  refine .braced hu hv ?_ (.flatten hb) n
  simp only [List.cons_append, List.append_assoc]
  split
  · exact .text (.of_isCodeWord rfl) .nil
  · exact .text (.of_isCodeWord rfl) ((Inline.commas hi).before (.of_isCodeWord rfl) (fun _ => rfl)
      ((Inline.commas hc).before (.of_isCodeWord rfl) (fun _ => rfl)
        ((Inline.commas hs).before (.of_isCodeWord rfl) (fun _ => rfl) .nil)))

theorem foreach {subject value : Expr} {key : Node (.opt .expr)} {byRef : Bool} {body : Block}
    (hs : Prints u v .expr (subject.doc n)) (hk : Prints u v (.opt .expr) (key.doc n))
    (hd : Prints u v .expr (value.doc n)) (hb : Prints u v (.list .stmt) (body.doc (n + 1))) :
    Prints u v .stmt ((Node.foreach subject key value byRef body).doc n) := by
  refine .braced hu hv ?_ (.flatten hb) n
  simp only [List.cons_append, List.append_assoc]
  refine .text (.of_isCodeWord rfl) (Inline.before hs (.of_isCodeWord rfl) (fun _ => rfl) (.keyed hk (.text ?_ ?_)))
  · exact .ite (.of_isCodeWord rfl) .empty _
  · exact Inline.before hd (.of_isCodeWord rfl) (fun _ => rfl) .nil

theorem tryStmt {body : Block} {catches : Node (.list .catchClause)} {last : Node (.opt (.list .stmt))}
    (hb : Prints u v (.list .stmt) (body.doc (n + 1))) (hc : Prints u v (.list .catchClause) (catches.doc n))
    (hl : Prints u v (.opt (.list .stmt)) (last.doc (n + 1))) : Prints u v .stmt ((Node.tryStmt body catches last).doc n) := by
  refine .append (.append (.append (.append (.line hu hv (.text ?_ .nil) n) (.flatten hb)) (.flatten hc)) ?_)
    (.line hu hv (.text (.of_isCodeWord rfl) .nil) n)
  · exact .of_isCodeWord rfl
  · split
    · next ds same => exact .append (.line hu hv (.text (.of_isCodeWord rfl) .nil) n) (.flatten (hl ds same))
    · exact .nil

theorem switchCase {test : Node (.opt .expr)} {body : Block} (ht : Prints u v (.opt .expr) (test.doc n))
    (hb : Prints u v (.list .stmt) (body.doc (n + 1))) : Prints u v .switchCase ((Node.switchCase test body).doc n) := by
  refine .append ?_ (.flatten hb)
  split
  · next d same => exact .line hu hv (.between (.of_isCodeWord rfl) (ht d same) (.of_isCodeWord rfl) fun _ => rfl) n
  · exact .line hu hv (.text (.of_isCodeWord rfl) .nil) n

theorem catchClause {types : List Name} {var : Option String} {body : Block} (ht : ∀ t ∈ types, IsCodeText t)
    (hx : ∀ x ∈ var, IsCodeText x) (hb : Prints u v (.list .stmt) (body.doc (n + 1))) :
    Prints u v .catchClause ((Node.catchClause types var body).doc n) := by
  refine .append (.line hu hv (.text (.append (.append (.append (.of_isCodeWord rfl) ?_) ?_) (.of_isCodeWord rfl)) .nil) n)
    (.flatten hb)
  · exact .intercalate (.of_isCodeWord rfl) ht
  · exact .caughtVariable hx

theorem traitUse {traits : List Name} {adaptations : List Adaptation} (ht : ∀ t ∈ traits, IsName t)
    (ha : ∀ a ∈ adaptations, a.IsPlain) : Prints u v .member ((Node.traitUse traits adaptations).doc n) := by
  show OnLines u v (if adaptations.isEmpty then Doc.line n [.text ("use " ++ namesText traits ++ ";")]
    else braced n [.text ("use " ++ namesText traits)]
      (adaptations.map fun a => Doc.line (n + 1) [.text a.text]).flatten)
  have head : IsCodeText ("use " ++ namesText traits) :=
    .append (.of_isCodeWord rfl) (.namesText fun t member => (ht t member).isCodeText)
  split
  · exact .line hu hv (.text (head.append (.of_isCodeWord rfl)) .nil) n
  · refine .braced hu hv (.text head .nil) (.flatten (List.forall_mem_map.2 fun a member => ?_)) n
    exact .line hu hv (.text (ha a member).isCodeText .nil) (n + 1)

theorem classConst {decl : ConstDecl} {items : Node (.list .definition)} (h : IsPlainLead decl.doc decl.attributes)
    (hi : Prints u v (.list .definition) (items.doc n)) : Prints u v .member ((Node.classConst decl items).doc n) := by
  refine .append (.leadDoc hu hv h n) (.line hu hv (.between ?_ (.commas hi) (.of_isCodeWord rfl) fun _ => rfl) n)
  exact .append (.append (.wordIf (.of_isCodeWord rfl) _) (.visibilityText _)) (.of_isCodeWord rfl)

theorem property {decl : PropertyDecl} {items : Node (.list .varItem)} (h : decl.IsPlain)
    (hi : Prints u v (.list .varItem) (items.doc n)) : Prints u v .member ((Node.property decl items).doc n) := by
  refine .append (.leadDoc hu hv h.lead n) (.line hu hv (.between ?_ (.commas hi) (.of_isCodeWord rfl) fun _ => rfl) n)
  exact .append (.ite (.of_isCodeWord rfl) (.propertyText _) _) (.typeText h.type)

theorem method {decl : MethodDecl} {params : Node (.list .param)} {body : Node (.opt (.list .stmt))} (h : decl.IsPlain)
    (hp : Prints u v (.list .param) (params.doc n)) (hb : Prints u v (.opt (.list .stmt)) (body.doc (n + 1))) :
    Prints u v .member ((Node.method decl params body).doc n) := by
  refine .append (.leadDoc hu hv h.lead n) ?_
  have modifiers : IsCodeText (wordIf decl.modifiers.isAbstract "abstract" ++ wordIf decl.modifiers.isFinal "final" ++
      decl.modifiers.visibilityText ++ wordIf decl.modifiers.isStatic "static") :=
    .append (.append (.append (.wordIf (.of_isCodeWord rfl) _) (.wordIf (.of_isCodeWord rfl) _)) (.visibilityText _))
      (.wordIf (.of_isCodeWord rfl) _)
  have front := (((modifiers.append (w := "function ") (.of_isCodeWord rfl)).append
    (.ite (v := "&") (.of_isCodeWord rfl) .empty (decl.byRef = true))).append h.name).append (w := "(") (.of_isCodeWord rfl)
  have head := Inline.between front (.commas hp)
    (IsCodeText.append (v := ")") (.of_isCodeWord rfl) (.returnTypeText h.returnType)) (.append (fun _ => rfl) _)
  split
  · next ds same => exact .append (.line hu hv head n) (.bracedBelow hu hv (.flatten (hb ds same)) n)
  · exact .line hu hv (head.before (.of_isCodeWord rfl) (fun _ => rfl) .nil) n

end Prints

/-! ## All trees -/

include hu hv

/-- **Any indentation.** A plain tree prints as the same code with either unit, at every level. -/
theorem Node.prints : ∀ {c : Category} (x : Node c), x.IsPlain → ∀ n, Prints u v c (x.doc n)
  | _, .nil, _, _ => List.forall_mem_nil _
  | _, .cons head tail, h, n => List.forall_mem_cons.2 ⟨prints head h.1 n, prints tail h.2 n⟩
  | _, .absent, _, _ => nofun
  | _, .present value, h, n => by
    rintro _ ⟨⟩
    exact prints value h n
  -- Expressions
  | _, .variable name, h, _ => .text (.append (.of_isCodeWord rfl) h) .nil
  | _, .variableVariable name, h, n => by
    show Inline u v (if name.isVariableLike then .text "$" :: name.doc n
      else .text "$\x7b" :: name.doc n ++ [.text "\x7d"])
    split
    · exact .text (.of_isCodeWord rfl) (prints name h n)
    · exact .between (.of_isCodeWord rfl) (prints name h n) (.of_isCodeWord rfl) fun _ => rfl
  | _, .literal value, h, _ =>
    match value, h with
    | .null, _ => .text (.of_isCodeWord rfl) .nil
    | .bool true, _ => .text (.of_isCodeWord rfl) .nil
    | .bool false, _ => .text (.of_isCodeWord rfl) .nil
    | .int _, h => .text h .nil
    | .float _, h => .text h .nil
    | .string _, h => .raw h
  | _, .array items short, h, n => by
    show Inline u v (if short then .text "[" :: Doc.commas (items.doc n) ++ [.text "]"]
      else .text "array(" :: Doc.commas (items.doc n) ++ [.text ")"])
    split
    · exact .between (.of_isCodeWord rfl) (.commas (prints items h n)) (.of_isCodeWord rfl) fun _ => rfl
    · exact .between (.of_isCodeWord rfl) (.commas (prints items h n)) (.of_isCodeWord rfl) fun _ => rfl
  | _, .nameRef _, h, _ => .text h .nil
  | _, .constantRef _, h, _ => .text h .nil
  | _, .classConstant cls name, h, n =>
    (prints cls h.1 n).before (.append (.of_isCodeWord rfl) h.2) (.append (fun _ => rfl) _) .nil
  | _, .staticProperty cls name, h, n =>
    (prints cls h.1 n).before (.append (.of_isCodeWord rfl) h.2) (.append (fun _ => rfl) _) .nil
  | _, .propertyFetch object name nullsafe, h, n =>
    (prints object h.1 n).before (arrow_isCodeText nullsafe).1 (arrow_isCodeText nullsafe).2 (prints name h.2 n)
  | _, .call callee args, h, n => (prints callee h.1 n).called (prints args h.2 n)
  | _, .methodCall object name args nullsafe, h, n => by
    refine (prints object h.1 n).before (arrow_isCodeText nullsafe).1 (arrow_isCodeText nullsafe).2 ?_
    simpa using (prints name h.2.1 n).called (prints args h.2.2 n)
  | _, .staticCall cls name args, h, n => by
    refine (prints cls h.1 n).before (.of_isCodeWord rfl) (fun _ => rfl) ?_
    simpa using (prints name h.2.1 n).called (prints args h.2.2 n)
  | _, .new cls args, h, n => by
    refine .text (.of_isCodeWord rfl) ?_
    simpa using (prints cls h.1 n).called (prints args h.2 n)
  | _, .anonymousClass args decl members, h, n =>
    .anonymousClass hu hv (prints args h.1 n) h.2.1 (prints members h.2.2 (n + 1))
  | _, .subscript value index, h, n =>
    (prints value h.1 n).before (.of_isCodeWord rfl) (fun _ => rfl)
      ((Inline.getD (prints index h.2 n)).before (.of_isCodeWord rfl) (fun _ => rfl) .nil)
  | _, .assign target op value, h, n =>
    (prints target h.1 n).before op.isCodeText (.append (.append (fun _ => rfl) _) _) (prints value h.2 n)
  | _, .assignRef target value, h, n =>
    (prints target h.1 n).before (.of_isCodeWord rfl) (fun _ => rfl) (prints value h.2 n)
  | _, .binary op left right, h, n =>
    (prints left h.1 n).before op.isCodeText (.append (.append (fun _ => rfl) _) _) (prints right h.2 n)
  | _, .unary op operand, h, n => .text (op.isCodeText _) (prints operand h n)
  | _, .incDec op operand, h, n =>
    match op with
    | .preInc => .text (.of_isCodeWord rfl) (prints operand h n)
    | .preDec => .text (.of_isCodeWord rfl) (prints operand h n)
    | .postInc => (prints operand h n).before (.of_isCodeWord rfl) (fun _ => rfl) .nil
    | .postDec => (prints operand h n).before (.of_isCodeWord rfl) (fun _ => rfl) .nil
  | _, .cast type operand, h, n => .text type.isCodeText (prints operand h n)
  | _, .ternary cond yes no, h, n => .ternary (prints cond h.1 n) (prints yes h.2.1 n) (prints no h.2.2 n)
  | _, .instanceOf operand cls, h, n => (prints operand h.1 n).before (.of_isCodeWord rfl) (fun _ => rfl) (prints cls h.2 n)
  | _, .isset operands, h, n => .between (.of_isCodeWord rfl) (.commas (prints operands h n)) (.of_isCodeWord rfl) fun _ => rfl
  | _, .emptyCheck operand, h, n => .between (.of_isCodeWord rfl) (prints operand h n) (.of_isCodeWord rfl) fun _ => rfl
  | _, .closure decl params body, h, n => .closure hu hv h.1 (prints params h.2.1 n) (prints body h.2.2 (n + 1))
  | _, .arrowFn decl params body, h, n => .arrowFn h.1 (prints params h.2.1 n) (prints body h.2.2 n)
  | _, .matchExpr subject arms, h, n => .matchExpr hu hv (prints subject h.1 n) (prints arms h.2 (n + 1))
  | _, .clone operand, h, n => .text (.of_isCodeWord rfl) (prints operand h n)
  | _, .print operand, h, n => .text (.of_isCodeWord rfl) (prints operand h n)
  | _, .throwExpr operand, h, n => .text (.of_isCodeWord rfl) (prints operand h n)
  | _, .yield key value, h, n => .yield (prints key h.1 n) (prints value h.2 n)
  | _, .yieldFrom operand, h, n => .text (.of_isCodeWord rfl) (prints operand h n)
  | _, .callablePlaceholder, _, _ => .text (.of_isCodeWord rfl) .nil
  | _, .includeExpr kind operand, h, n => .text kind.isCodeText (prints operand h n)
  | _, .suppress operand, h, n => .text (.of_isCodeWord rfl) (prints operand h n)
  | _, .paren inner, h, n => .between (.of_isCodeWord rfl) (prints inner h n) (.of_isCodeWord rfl) fun _ => rfl
  -- Parts of expressions
  | _, .ident _, h, _ => .text h .nil
  | _, .computed name, h, n => by
    show Inline u v (if name.isVariable then name.doc n else .text "\x7b" :: name.doc n ++ [.text "\x7d"])
    split
    · exact prints name h n
    · exact .between (.of_isCodeWord rfl) (prints name h n) (.of_isCodeWord rfl) fun _ => rfl
  | _, .item key value byRef spread, h, n => .item byRef spread (prints key h.1 n) (prints value h.2 n)
  | _, .arg name value spread, h, n =>
    match name, spread, h with
    | some _, true, h => .text (.of_isCodeWord rfl) (prints value h.2 n)
    | none, true, h => .text (.of_isCodeWord rfl) (prints value h.2 n)
    | some _, false, h => .text (.append (h.1 _ rfl) (.of_isCodeWord rfl)) (prints value h.2 n)
    | none, false, h => prints value h.2 n
  | _, .arm conditions body, h, n => .arm (prints conditions h.1 n) (prints body h.2 n)
  | _, .param decl default, h, n => .text h.1.isCodeText (.initDoc (prints default h.2 n))
  -- Statements
  | _, .namespaceDecl name body braces span, h, n => .namespaceDecl hu hv h.1 (prints body h.2)
  | _, .useDecl kind items, h, n => by
    refine .line hu hv (.text (.append (.append (.append (.of_isCodeWord rfl) ?_) ?_) (.of_isCodeWord rfl)) .nil) n
    · cases kind <;> exact .of_isCodeWord rfl
    · exact .intercalate (.of_isCodeWord rfl) (List.forall_mem_map.2 fun i member => (h i member).isCodeText)
  | _, .declare directives, h, n =>
    .line hu hv (.between (.of_isCodeWord rfl) (.commas (prints directives h n)) (.of_isCodeWord rfl) fun _ => rfl) n
  | _, .declareBlock directives body, h, n =>
    .braced hu hv (.between (.of_isCodeWord rfl) (.commas (prints directives h.1 n)) (.of_isCodeWord rfl) fun _ => rfl)
      (.flatten (prints body h.2 (n + 1))) n
  | _, .constDecl items, h, n =>
    .line hu hv (.between (.of_isCodeWord rfl) (.commas (prints items h n)) (.of_isCodeWord rfl) fun _ => rfl) n
  | _, .classLike decl members, h, n =>
    .append (.append (.leadDoc hu hv h.1.lead n) (.line hu hv (.text h.1.isCodeText .nil) n))
      (.bracedBelow hu hv (.printedMembers (prints members h.2 (n + 1)) _) n)
  | _, .function decl params body, h, n => .function hu hv h.1 (prints params h.2.1 n) (prints body h.2.2 (n + 1))
  | _, .exprStmt value, h, n => .line hu hv ((prints value h n).before (.of_isCodeWord rfl) (fun _ => rfl) .nil) n
  | _, .echo values, h, n =>
    .line hu hv (.between (.of_isCodeWord rfl) (.commas (prints values h n)) (.of_isCodeWord rfl) fun _ => rfl) n
  | _, .returnStmt value, h, n => .jumpDoc hu hv (.of_isCodeWord rfl) (prints value h n) n
  | _, .breakStmt level, h, n => .jumpDoc hu hv (.of_isCodeWord rfl) (prints level h n) n
  | _, .continueStmt level, h, n => .jumpDoc hu hv (.of_isCodeWord rfl) (prints level h n) n
  | _, .throwStmt value, h, n =>
    .line hu hv (.between (.of_isCodeWord rfl) (prints value h n) (.of_isCodeWord rfl) fun _ => rfl) n
  | _, .ifStmt cond yes elseIfs no, h, n =>
    .ifStmt hu hv (prints cond h.1 n) (prints yes h.2.1 (n + 1)) (prints elseIfs h.2.2.1 n) (prints no h.2.2.2 (n + 1))
  | _, .whileStmt cond body, h, n =>
    .braced hu hv (.between (.of_isCodeWord rfl) (prints cond h.1 n) (.of_isCodeWord rfl) fun _ => rfl)
      (.flatten (prints body h.2 (n + 1))) n
  | _, .doWhile body cond, h, n =>
    .append (.append (.line hu hv (.text (.of_isCodeWord rfl) .nil) n) (.flatten (prints body h.1 (n + 1))))
      (.line hu hv (.between (.of_isCodeWord rfl) (prints cond h.2 n) (.of_isCodeWord rfl) fun _ => rfl) n)
  | _, .forStmt init cond step body, h, n =>
    .forStmt hu hv (prints init h.1 n) (prints cond h.2.1 n) (prints step h.2.2.1 n) (prints body h.2.2.2 (n + 1))
  | _, .foreach subject key value byRef body, h, n =>
    .foreach hu hv (prints subject h.1 n) (prints key h.2.1 n) (prints value h.2.2.1 n) (prints body h.2.2.2 (n + 1))
  | _, .switchStmt subject cases, h, n =>
    .braced hu hv (.between (.of_isCodeWord rfl) (prints subject h.1 n) (.of_isCodeWord rfl) fun _ => rfl)
      (.flatten (prints cases h.2 (n + 1))) n
  | _, .tryStmt body catches last, h, n =>
    .tryStmt hu hv (prints body h.1 (n + 1)) (prints catches h.2.1 n) (prints last h.2.2 (n + 1))
  | _, .block body, h, n => .bracedBelow hu hv (.flatten (prints body h (n + 1))) n
  | _, .global names, h, n => by
    refine .line hu hv (.text (.append (.append (.of_isCodeWord rfl) (.intercalate (.of_isCodeWord rfl) ?_))
      (.of_isCodeWord rfl)) .nil) n
    exact List.forall_mem_map.2 fun name member => .append (.of_isCodeWord rfl) (h name member)
  | _, .staticVars vars, h, n =>
    .line hu hv (.between (.of_isCodeWord rfl) (.commas (prints vars h n)) (.of_isCodeWord rfl) fun _ => rfl) n
  | _, .unset values, h, n =>
    .line hu hv (.between (.of_isCodeWord rfl) (.commas (prints values h n)) (.of_isCodeWord rfl) fun _ => rfl) n
  | _, .goto _, h, n => .line hu hv (.text (.append (.append (.of_isCodeWord rfl) h) (.of_isCodeWord rfl)) .nil) n
  | _, .label _, h, n => .line hu hv (.text (.append h (.of_isCodeWord rfl)) .nil) n
  | _, .inlineHtml _, h, _ => .inlineHtml h
  | _, .comment _, h, n => .comment hu hv h n
  | _, .nop, _, _ => .nil
  -- Parts of statements
  | _, .directive _ value, h, n => .text (.append h.1 (.of_isCodeWord rfl)) (prints value h.2 n)
  | _, .definition _ value, h, n => .text (.append h.1 (.of_isCodeWord rfl)) (prints value h.2 n)
  | _, .varItem _ default, h, n => .text (.append (.of_isCodeWord rfl) h.1) (.initDoc (prints default h.2 n))
  | _, .elseIf cond body, h, n =>
    .append (.line hu hv (.between (.of_isCodeWord rfl) (prints cond h.1 n) (.of_isCodeWord rfl) fun _ => rfl) n)
      (.flatten (prints body h.2 (n + 1)))
  | _, .switchCase test body, h, n => .switchCase hu hv (prints test h.1 n) (prints body h.2 (n + 1))
  | _, .catchClause types var body, h, n => .catchClause hu hv h.1 h.2.1 (prints body h.2.2 (n + 1))
  -- Members
  | _, .traitUse traits adaptations, h, _ => .traitUse hu hv h.1 h.2
  | _, .classConst decl items, h, n => .classConst hu hv h.1 (prints items h.2 n)
  | _, .property decl items, h, n => .property hu hv h.1 (prints items h.2 n)
  | _, .method decl params body, h, n => .method hu hv h.1 (prints params h.2.1 n) (prints body h.2.2 (n + 1))
  | _, .enumCase decl value, h, n =>
    .append (.leadDoc hu hv h.1.lead n) (.line hu hv (.text (.append (.of_isCodeWord rfl) h.1.name)
      ((Inline.initDoc (prints value h.2 n)).before (.of_isCodeWord rfl) (fun _ => rfl) .nil)) n)
  | _, .memberComment _, h, n => .comment hu hv h n

end

end Codewright.Php
