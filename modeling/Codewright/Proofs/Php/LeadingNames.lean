import Codewright.Php.Parser
import Codewright.Proofs.Php.Fork
import Codewright.Proofs.Php.Reading

/-!
# Statements that begin with an end keyword

An end keyword is reserved, but it may stand as a name in front of a double colon, and as a label. A statement that begins with one
is such a label, or an expression that begins with such a name.

* `Node.leadingName?` – the name with which an expression begins;
* `Node.opensWith` – a statement begins with the word;
* `Grammar.Leading.statement` – what is read where an end keyword stands, from what its expressions begin with;
  `Grammar.leading_upTo` – they do.
-/

namespace Codewright.Php

open Text Source

/-- The keywords that end a loop or a `declare` in its alternative form. -/
def endWords : List String := ["endwhile", "endfor", "endforeach", "enddeclare"]

namespace Node

/-- The name with which the expression begins, if it begins with one that is asked for a member or called. -/
def leadingName? : {c : Category} → Node c → Option Name
  | _, .nameRef name => some name
  | _, .classConstant e _ | _, .staticProperty e _ | _, .propertyFetch e _ _ | _, .methodCall e _ _ _ | _, .staticCall e _ _
  | _, .call e _ | _, .subscript e _ | _, .assign e _ _ | _, .assignRef e _ | _, .binary _ e _ | _, .incDec .postInc e
  | _, .incDec .postDec e | _, .ternary e _ _ | _, .instanceOf e _ => leadingName? e
  | _, _ => none

/-- The statement is a label spelled like the word. -/
def labels (word : String) : Stmt → Bool
  | .label name => asciiLower name == word
  | _ => false

/-- The statement is a label spelled like the word, or an expression that begins with it. -/
def opensWith (word : String) : Stmt → Bool
  | .label name => asciiLower name == word
  | .exprStmt e => e.leadingName?.any fun name => asciiLower name == word
  | _ => false

end Node

/-- Where the keyword stands, the reader gives an expression that begins with it. -/
def Leads (word : String) (p : Parse Expr) : Prop :=
  ∀ s, s.atKeyword word = true → Yields s p fun e _ => e.leadingName? = some s.peek.text

/-- So do the readers of the grammar. -/
structure Grammar.Leading (word : String) (g : Grammar) : Prop where
  expr (least : Level) : Leads word (g.expr least)
  operand : Leads word g.operand
  primary : Leads word g.primary

namespace Stream

variable {s : Stream} {word : String}

theorem kind_and_text_of_atKeyword (h : s.atKeyword word = true) : s.kind = .ident ∧ asciiLower s.peek.text = word := by
  simpa [Stream.atKeyword, Token.isKeyword, Stream.kind] using h

/-- A token is one keyword only. -/
theorem atKeyword_eq_false {other : String} (h : s.atKeyword word = true) (ne : word ≠ other) : s.atKeyword other = false := by
  obtain ⟨-, text⟩ := kind_and_text_of_atKeyword h
  simp [Stream.atKeyword, Token.isKeyword, text, ne]

end Stream

/-- Where an end keyword stands, a statement has come to its end. -/
theorem Token.IsMark.of_endWord {t : Token} {word : String} (h : word ∈ endWords) (here : t.isKeyword word = true) : t.IsMark := by
  have other : ∀ word ∈ endWords, word ∉ clauseWords ∧ word ∉ declarationWords := by decide
  exact .of_keyword (other word h).1 (other word h).2 here

namespace Grammar

variable {g : Grammar} {s : Stream} {word : String} {e : Expr} {name : Option Name}

/-! ### Behind the name -/

theorem staticMember_leading (h : e.leadingName? = name) : Yields s (g.staticMember e) fun e' _ => e'.leadingName? = name := by
  refine .get_bind ?_
  split
  case h_1 => exact .bind_any fun _ _ => .get_bind <| .ite (fun _ => .bind_any fun _ _ => .pure h) fun _ => .pure h
  case h_2 => exact .bind_any fun _ _ => .get_bind <| .ite (fun _ => .bind_any fun _ _ => .pure h) fun _ => .pure h
  case h_3 => exact .bind_any fun _ _ => .bind_any fun _ _ => .pure h
  case h_4 => exact .failExpected _

theorem arrowMember_leading {nullsafe : Bool} (h : e.leadingName? = name) :
    Yields s (g.arrowMember e nullsafe) fun e' _ => e'.leadingName? = name :=
  .bind_any fun _ _ => .get_bind <| .ite (fun _ => .bind_any fun _ _ => .pure h) fun _ => .pure h

theorem accesses_leading (h : e.leadingName? = name) : Yields s (g.accesses e) fun e' _ => e'.leadingName? = name := by
  refine .refine (I := fun e _ => e.leadingName? = name) h fun e s h => .get_bind ?_
  have member {p : Parse Expr} (hp : ∀ s, Yields s p fun e' _ => e'.leadingName? = name) (s : Stream) :
      Yields s (do return some (← p)) (AfterRound (fun e _ => e.leadingName? = name) (fun e _ => e.leadingName? = name) e) :=
    .bind ((hp s).mono fun _ _ h => .pure h)
  split
  case h_1 =>
    exact .bind_any fun _ _ => .get_bind <| .ite (fun _ => .bind_any fun _ _ => .bind_any fun _ _ => .pure h) fun _ =>
      .bind_any fun _ _ => .bind_any fun _ _ => .pure h
  case h_2 => exact .bind_any fun _ _ => member (fun _ => arrowMember_leading h) _
  case h_3 => exact .bind_any fun _ _ => member (fun _ => arrowMember_leading h) _
  case h_4 => exact .bind_any fun _ _ => member (fun _ => staticMember_leading h) _
  case h_5 => exact .bind_any fun _ _ => .pure h
  case h_6 => exact .bind_any fun _ _ => .pure h
  case h_7 => exact .bind_any fun _ _ => .pure h
  case h_8 => exact .pure h

theorem assignmentTo_leading (h : e.leadingName? = name) : Yields s (g.assignmentTo e) fun e' _ => e'.leadingName? = name := by
  refine .get_bind ?_
  split
  · exact .pure h
  · refine .bind_any fun _ _ => .ite (fun _ => .bind_any fun _ _ => .ite (fun _ => ?_) fun _ => ?_) fun _ => ?_
    all_goals exact .bind_any fun _ _ => .pure h

theorem operators_leading {least : Level} (h : e.leadingName? = name) :
    Yields s (Parse.refine (g.operator least) e) fun e' _ => e'.leadingName? = name := by
  refine .refine (I := fun e _ => e.leadingName? = name) h fun e s h => .get_bind <| .ite (fun _ => ?ternary) fun _ =>
    .ite (fun _ => ?instanceOf) fun _ => ?binary
  case ternary =>
    refine .ite (fun _ => .pure h) fun _ => .bind ?_
    exact .bind_any fun _ _ => .get_bind <| .ite
      (fun _ => .bind_any fun _ _ => .bind_any fun _ _ => .bind_any fun _ _ => .pure (.pure h))
      fun _ => .bind_any fun _ _ => .bind_any fun _ _ => .bind_any fun _ _ => .pure (.pure h)
  case instanceOf =>
    exact .ite (fun _ => .pure h) fun _ => .bind_any fun _ _ => .bind_any fun _ _ => .pure h
  case binary =>
    split
    · exact .pure h
    · exact .ite (fun _ => .pure h) fun _ => .bind_any fun _ _ => .bind_any fun _ _ => .pure h

/-! ### The name -/

/-- The token that is read is the next one. -/
theorem advance_text : Yields s Parse.advance fun t _ => t.text = s.peek.text := by
  obtain ⟨tokens, eof, lastEnd, pending, unread, unread_eq⟩ := s
  intro t s' read
  cases tokens with
  | nil =>
    cases read
    rfl
  | cons u rest =>
    simp only [Parse.advance] at read
    split at read <;> cases read <;> rfl

/-- The word is reserved, so it is read as a name only in front of a double colon. -/
theorem identPrimary_leading (h : word ∈ endWords) (here : s.atKeyword word = true) :
    Yields s g.identPrimary fun e _ => e.leadingName? = some s.peek.text := by
  obtain ⟨-, text⟩ := Stream.kind_and_text_of_atKeyword here
  have plain : Yields s (if !s.hasAt 1 .doubleColon then Parse.failExpected "expression" else Grammar.plainName)
      fun e _ => e.leadingName? = some s.peek.text := by
    refine .ite (fun _ => .failExpected _) fun qualifies => .get_bind <| .bind <| advance_text.mono fun t _ same => ?_
    have called : (s.hasAt 1 .openParen || s.hasAt 1 .doubleColon) = true := by
      rw [Bool.not_eq_true', Bool.not_eq_false] at qualifies
      rw [qualifies, Bool.or_true]
    rw [if_pos called]
    exact .pure (congrArg some same)
  refine .get_bind ?_
  dsimp only
  rw [text]
  simp only [endWords, List.mem_cons, List.not_mem_nil, or_false] at h
  rcases h with rfl | rfl | rfl | rfl
  all_goals simpa [reservedWords] using plain

theorem wordOperand_leading (h : word ∈ endWords) (hp : Leads word g.primary) : Leads word g.wordOperand := by
  intro s here
  have operand : Yields s (do g.accesses (← g.primary)) fun e _ => e.leadingName? = some s.peek.text :=
    .bind ((hp s here).mono fun _ _ leads => accesses_leading leads)
  obtain ⟨-, text⟩ := Stream.kind_and_text_of_atKeyword here
  have other {word' : String} (ne : word ≠ word') : s.atKeyword word' = false := Stream.atKeyword_eq_false here ne
  refine .get_bind ?_
  simp only [endWords, List.mem_cons, List.not_mem_nil, or_false] at h
  rcases h with rfl | rfl | rfl | rfl
  all_goals
    have none : IncludeKind.ofKeyword? s.peek.text = none := by
      rw [IncludeKind.ofKeyword?, text]
      decide
    simpa [other, none] using operand

theorem operandExpr_leading (h : word ∈ endWords) (hp : Leads word g.primary) : Leads word g.operandExpr := by
  intro s here
  obtain ⟨ident, -⟩ := Stream.kind_and_text_of_atKeyword here
  refine .get_bind ?_
  rw [ident]
  exact wordOperand_leading h hp s here

theorem primaryExpr_leading (h : word ∈ endWords) : Leads word g.primaryExpr := by
  intro s here
  obtain ⟨ident, -⟩ := Stream.kind_and_text_of_atKeyword here
  refine .get_bind ?_
  rw [ident]
  exact identPrimary_leading h here

namespace Leading

theorem operatorExpr (h : g.Leading word) (least : Level) : Leads word (g.operatorExpr least) := by
  intro s here
  exact .bind <| (h.operand s here).mono fun _ _ leads => .bind <| (assignmentTo_leading leads).mono fun _ _ leads =>
    operators_leading leads

/-- No other statement begins with the word. -/
theorem statement (h : g.Leading word) (ends : word ∈ endWords) {s : Stream} (here : s.atKeyword word = true) :
    Yields s g.statement fun x _ => x.opensWith word = true := by
  obtain ⟨ident, text⟩ := Stream.kind_and_text_of_atKeyword here
  have expression : Yields s g.exprStmt fun x _ => x.opensWith word = true :=
    .bind <| (h.expr _ s here).mono fun e _ leads => .bind_any fun _ _ => .pure (by simp [Node.opensWith, leads, text])
  have label : Yields s (do
      let name := (← Parse.advance).text
      let _ ← Parse.advance
      return Node.label name) fun x _ => x.opensWith word = true :=
    .bind <| advance_text.mono fun t _ same => .bind_any fun _ _ => .pure (by simp [Node.opensWith, same, text])
  have wordStmt : g.wordStmt word = g.exprStmt := by
    simp only [endWords, List.mem_cons, List.not_mem_nil, or_false] at ends
    rcases ends with rfl | rfl | rfl | rfl <;> rfl
  have undeclared : s.atDeclaration = false := Stream.atDeclaration_eq_false (.of_endWord ends here)
  refine .get_bind ?_
  rw [undeclared, if_neg Bool.false_ne_true, ident, text, wordStmt]
  exact .ite (fun _ => label) fun _ => expression

end Leading

/-- What the parser reads where an end keyword stands begins with it, however deep its readers are unrolled. -/
theorem leading_upTo (h : word ∈ endWords) (n : Nat) : (Grammar.upTo n).Leading word := by
  induction n with
  | zero => exact ⟨fun _ _ _ => .failWith _, fun _ _ => .failWith _, fun _ _ => .failWith _⟩
  | succ n ih => exact ⟨ih.operatorExpr, operandExpr_leading h ih.primary, primaryExpr_leading h⟩

/-- Where an end keyword stands, the parser reads a label spelled like it, or an expression that begins with it. -/
theorem stmt_upTo_opensWith (h : word ∈ endWords) (n : Nat) {s : Stream} (here : s.atKeyword word = true) :
    Yields s (Grammar.upTo n).stmt fun x _ => x.opensWith word = true := by
  cases n with
  | zero => exact .failWith _
  | succ n => exact (leading_upTo h n).statement h here

end Grammar

end Codewright.Php
