import Codewright.Php.Parser
import Codewright.Proofs.Php.OperatorText
import Codewright.Proofs.Php.ReadingRules

/-!
# Precedence climbing

The tokens of a well grouped operator tree are read back as that tree.

* `Stops` – what may stand behind an expression;
* `Climbs` – reading an operand and rounds of operators come to an expression;
* `WellGrouped.climbs`, `WellGrouped.reads` – they do for every well grouped tree.
-/

namespace Codewright.Php

open Source

/-! ## What stands behind an expression -/

namespace BinaryOp

/-- The operator that a token with this face stands for. -/
def ofFace? (f : Face) : Option BinaryOp :=
  all.find? fun op => f.1 == op.kind && (f.1 != .ident || f.isKeyword op.spelling)

theorem ofToken?_eq (t : Token) : ofToken? t = ofFace? t.face := rfl

/-- The token of an operator. -/
def face (op : BinaryOp) : Face := (op.kind, op.spelling)

theorem ofFace?_face (op : BinaryOp) : ofFace? op.face = some op := by
  cases op <;> decide

theorem face_ne_ternary (op : BinaryOp) : op.face.1 ≠ .question := by
  cases op <;> decide

theorem face_ne_instanceof (op : BinaryOp) : op.face.isKeyword "instanceof" = false := by
  cases op <;> decide

end BinaryOp

/-- The kinds of the tokens that end the value of an item, a parameter or a declaration. -/
def endingKinds : List TokenKind := [.comma, .closeBracket, .semicolon, .fatArrow]

/-- What may stand behind an expression whose operators are of at least the level `least`. -/
inductive Stops (least : Level) : List Face → Prop where
  | eof (rest : List Face) : Stops least (eofFace :: rest)
  | closeParen (rest : List Face) : Stops least ((.closeParen, ")") :: rest)
  | ending {f : Face} (h : f.1 ∈ endingKinds) (rest : List Face) : Stops least (f :: rest)
  | operator {op : BinaryOp} (h : op.level < least) (rest : List Face) : Stops least (op.face :: rest)

namespace Stops

variable {least : Level} {s : Stream}

theorem mono {least' : Level} {rest : List Face} (h : Stops least rest) (le : least ≤ least') : Stops least' rest := by
  cases h with
  | eof rest => exact .eof rest
  | closeParen rest => exact .closeParen rest
  | ending h rest => exact .ending h rest
  | operator h rest => exact .operator (Nat.lt_of_lt_of_le h le) rest

theorem isKeyword_of_ending {f : Face} (h : f.1 ∈ endingKinds) (word : String) : f.isKeyword word = false := by
  have no_ident : f.1 ≠ .ident := (show ∀ k ∈ endingKinds, k ≠ .ident by decide) f.1 h
  simp [Face.isKeyword, no_ident]

theorem ofFace?_of_ending {f : Face} (h : f.1 ∈ endingKinds) : BinaryOp.ofFace? f = none := by
  have no_operator : ∀ op ∈ BinaryOp.all, f.1 ≠ op.kind :=
    (show ∀ k ∈ endingKinds, ∀ op ∈ BinaryOp.all, k ≠ op.kind by decide) f.1 h
  refine List.find?_eq_none.2 fun op hop => ?_
  simp [no_operator op hop]

/-- The kinds of the tokens with which an access begins. -/
def accessKinds : List TokenKind := [.openBracket, .arrow, .nullsafeArrow, .doubleColon, .openParen,
  .increment, .decrement]

theorem exists_cons {rest : List Face} (h : Stops least rest) : ∃ f fs, rest = f :: fs ∧ f.1 ∉ accessKinds := by
  cases h with
  | eof rest => exact ⟨_, rest, rfl, by decide⟩
  | closeParen rest => exact ⟨_, rest, rfl, by decide⟩
  | @ending f h rest => exact ⟨f, rest, rfl, (show ∀ k ∈ endingKinds, k ∉ accessKinds by decide) f.1 h⟩
  | @operator op h rest => exact ⟨op.face, rest, rfl, by cases op <;> decide⟩

theorem kind_not_mem (h : Stops least s.faces) : s.kind ∉ accessKinds := by
  obtain ⟨f, fs, faces, other⟩ := h.exists_cons
  rwa [Stream.kind_eq faces]

theorem assignOp_eq_none (h : Stops least s.faces) : AssignOp.ofKind? s.kind = none := by
  generalize faces : s.faces = fs at h
  cases h with
  | eof rest =>
    rw [Stream.kind_eq faces]
    rfl
  | closeParen rest =>
    rw [Stream.kind_eq faces]
    rfl
  | @ending f h rest =>
    rw [Stream.kind_eq faces]
    exact (show ∀ k ∈ endingKinds, AssignOp.ofKind? k = none by decide) f.1 h
  | @operator op h rest =>
    rw [Stream.kind_eq faces]
    cases op <;> rfl

theorem access_eq_none (h : Stops least s.faces) (g : Grammar) (e : Expr) : g.access e s = .ok (none, s) := by
  have other := h.kind_not_mem
  rw [Grammar.access, Parse.get_bind_apply]
  generalize s.kind = k at other
  cases k <;> first | rfl | exact absurd (by decide) other

theorem accesses_eq (h : Stops least s.faces) (g : Grammar) (e : Expr) : g.accesses e s = .ok (e, s) :=
  Parse.refine_of_rounds .refl (h.access_eq_none g e)

theorem reads_accesses {rest : List Face} (h : Stops least rest) (g : Grammar) (e : Expr) :
    Reads (g.accesses e) [] e rest := by
  intro s hs
  have stops : Stops least s.faces := by rwa [hs]
  exact ⟨s, stops.accesses_eq g e, hs⟩

theorem assignmentTo_eq (h : Stops least s.faces) (g : Grammar) (e : Expr) : g.assignmentTo e s = .ok (e, s) := by
  rw [Grammar.assignmentTo, Parse.get_bind_apply, h.assignOp_eq_none, ite_self]
  rfl

/-- Where no operator of the level stands, none is read. -/
theorem operator_eq_none (h : Stops least s.faces) (g : Grammar) (e : Expr) :
    g.operator least e s = .ok (none, s) := by
  generalize faces : s.faces = fs at h
  obtain ⟨f, fs, rfl⟩ : ∃ f rest, fs = f :: rest := by cases h <;> exact ⟨_, _, rfl⟩
  have no_question : s.at_ .question = false := by
    rw [Stream.at_eq faces, beq_eq_false_iff_ne]
    cases h with
    | @operator op => exact op.face_ne_ternary
    | ending h => exact (show ∀ k ∈ endingKinds, k ≠ .question by decide) _ h
    | _ => decide
  have no_keyword : s.atKeyword "instanceof" = false := by
    rw [Stream.atKeyword_eq faces]
    cases h with
    | @operator op => exact op.face_ne_instanceof
    | ending h => exact isKeyword_of_ending h _
    | _ => decide
  rw [Grammar.operator, Parse.get_bind_apply, no_question, no_keyword, BinaryOp.ofToken?_eq, Stream.face_peek faces]
  cases h with
  | eof rest => rfl
  | closeParen rest => rfl
  | @ending f h rest =>
    rw [ofFace?_of_ending h]
    rfl
  | @operator op lt rest =>
    rw [BinaryOp.ofFace?_face]
    change (if op.level < least then Pure.pure none else _ : Parse (Option Expr)) s = _
    rw [if_pos lt]
    rfl

/-- Where no operator of the level stands, the operand is all that is read. -/
theorem reads_operatorExpr {g : Grammar} {e : Expr} {fs rest : List Face} (h : Stops least rest)
    (operand : Reads g.operand fs e rest) : Reads (g.operatorExpr least) fs e rest := by
  have assignment : Reads (g.assignmentTo e) [] e rest := by
    intro s hs
    have stops : Stops least s.faces := by rwa [hs]
    exact ⟨s, stops.assignmentTo_eq g e, hs⟩
  have rounds : Reads (Parse.refine (g.operator least) e) [] e rest := by
    intro s hs
    have stops : Stops least s.faces := by rwa [hs]
    exact ⟨s, Parse.refine_of_rounds .refl (stops.operator_eq_none g e), hs⟩
  exact operand.bind_nil (assignment.bind_nil rounds)

end Stops

/-! ## Reading operators and operands -/

namespace Grammar

variable (g : Grammar) {e left right : Expr} {fs rest : List Face}

theorem reads_operator {least : Level} {op : BinaryOp} (le : least ≤ op.level)
    (h : Reads (g.expr op.rightLevel) fs right rest) :
    Reads (g.operator least left) (op.face :: fs) (some (.binary op left right)) rest := by
  refine Reads.get_bind fun s hs => ?_
  have no_question : s.at_ .question = false := by
    rw [Stream.at_eq hs, beq_eq_false_iff_ne]
    exact op.face_ne_ternary
  have no_keyword : s.atKeyword "instanceof" = false := by
    rw [Stream.atKeyword_eq hs]
    exact op.face_ne_instanceof
  have found : BinaryOp.ofToken? s.peek = some op := by
    rw [BinaryOp.ofToken?_eq, Stream.face_peek hs, BinaryOp.ofFace?_face]
  rw [no_question, no_keyword, found]
  change Reads (if op.level < least then _ else _) _ _ _
  rw [if_neg (Nat.not_lt.2 le)]
  have more : op.kind ≠ .eof := by cases op <;> decide
  exact Reads.advance_bind more fun _ _ => h.map fun e => some (Node.binary op left e)

theorem reads_unary (op : UnaryOp) (h : Reads (g.expr op.level) fs e rest) :
    Reads g.operandExpr ((op.kind, op.spelling) :: fs) (.unary op e) rest := by
  refine Reads.get_bind fun s hs => ?_
  rw [Stream.kind_eq hs]
  cases op with
  | not => exact Reads.advance_bind (by decide) fun _ _ => h.map (Node.unary .not)
  | neg => exact Reads.advance_bind (by decide) fun _ _ => h.map (Node.unary .neg)
  | pos => exact Reads.advance_bind (by decide) fun _ _ => h.map (Node.unary .pos)
  | bitNot => exact Reads.advance_bind (by decide) fun _ _ => h.map (Node.unary .bitNot)

theorem reads_suppress (h : Reads (g.expr .unary) fs e rest) :
    Reads g.operandExpr ((.at, "@") :: fs) (.suppress e) rest := by
  refine Reads.get_bind fun s hs => ?_
  rw [Stream.kind_eq hs]
  exact Reads.advance_bind (by decide) fun _ _ => h.map Node.suppress

theorem reads_cast (type : CastType) (h : Reads (g.expr .unary) fs e rest) :
    Reads g.operandExpr ((.cast, type.word) :: fs) (.cast type e) rest := by
  refine Reads.get_bind fun s hs => ?_
  rw [Stream.kind_eq hs]
  refine Reads.advance_bind (by decide) fun t text => ?_
  have word : CastType.ofWord t.text = type := by rw [text]; cases type <;> decide
  rw [word]
  exact h.map (Node.cast type)

/-- An operand without prefix operators and accesses. -/
theorem reads_closed {k : TokenKind} {text : String}
    (closed : k ∈ [TokenKind.variable, .int, .float, .string, .openParen, .openBracket])
    (h : Reads g.primary ((k, text) :: fs) e rest) {least : Level} (stops : Stops least rest) :
    Reads g.operandExpr ((k, text) :: fs) e rest := by
  have read : Reads (do g.accesses (← g.primary)) ((k, text) :: fs) e rest := h.bind_nil (stops.reads_accesses g e)
  refine Reads.get_bind fun s hs => ?_
  rw [Stream.kind_eq hs]
  simp only [List.mem_cons, List.not_mem_nil, or_false] at closed
  rcases closed with rfl | rfl | rfl | rfl | rfl | rfl <;> exact read

theorem reads_variable (name : String) : Reads g.primaryExpr [(.variable, name)] (.variable name) rest := by
  refine Reads.get_bind fun s hs => ?_
  rw [Stream.kind_eq hs]
  refine Reads.advance_bind (by decide) fun t text => ?_
  rw [text]
  exact Reads.pure _ rest

theorem reads_int (text : String) : Reads g.primaryExpr [(.int, text)] (.literal (.int text)) rest := by
  refine Reads.get_bind fun s hs => ?_
  rw [Stream.kind_eq hs]
  refine Reads.advance_bind (by decide) fun t text => ?_
  rw [text]
  exact Reads.pure _ rest

theorem reads_paren (h : Reads (g.expr .wordOr) fs e ((.closeParen, ")") :: rest)) :
    Reads g.primaryExpr ((.openParen, "(") :: (fs ++ [(.closeParen, ")")])) (.paren e) rest := by
  refine Reads.get_bind fun s hs => ?_
  rw [Stream.kind_eq hs]
  have inside : Reads g.parenthesized ((.openParen, "(") :: (fs ++ [(.closeParen, ")")])) e rest :=
    Reads.expect_bind (by decide) fun _ _ => Reads.bind h
      (Reads.expect_bind (by decide) fun _ _ => Reads.pure e rest)
  exact inside.map Node.paren

end Grammar

/-! ## Climbing -/

/-- Reading an operand, and then operators of at least the level `least` round by round, comes to `e` in front of
`rest`. -/
def Climbs (g : Grammar) (least : Level) (e : Expr) (rest : List Face) : Prop :=
  ∀ s, s.faces = e.operatorFaces ++ rest → ∃ first s₁ s',
    g.operand s = .ok (first, s₁) ∧ g.assignmentTo first s₁ = .ok (first, s₁) ∧
      Relation.ReflTransGen (Parse.ReadingRound (g.operator least)) (first, s₁) (e, s') ∧ s'.faces = rest

namespace Climbs

variable {g : Grammar} {least level : Level} {e left right : Expr} {rest : List Face}

theorem of_operand (h : Reads g.operand e.operatorFaces e rest) (stops : Stops level rest) : Climbs g least e rest := by
  intro s hs
  obtain ⟨s', read, left⟩ := h s hs
  have stops : Stops level s'.faces := by rwa [left]
  exact ⟨e, s', s', read, stops.assignmentTo_eq g e, .refl, left⟩

/-- One more round. -/
theorem binary {op : BinaryOp} (hl : Climbs g least left (op.face :: (right.operatorFaces ++ rest)))
    (hr : Reads (g.expr op.rightLevel) right.operatorFaces right rest) (le : least ≤ op.level) :
    Climbs g least (.binary op left right) rest := by
  intro s hs
  obtain ⟨first, s₁, s₂, operand, assignment, rounds, left_over⟩ :=
    hl s (by rw [hs]; simp [Node.operatorFaces, BinaryOp.face])
  have round : Reads (g.operator least left) (op.face :: right.operatorFaces) (some (.binary op left right)) rest :=
    g.reads_operator le hr
  obtain ⟨s', read, faces⟩ := round s₂ left_over
  have shorter : s'.unread < s₂.unread := by
    rw [← Stream.length_faces, ← Stream.length_faces, left_over, faces, List.length_cons, List.length_append]
    omega
  exact ⟨first, s₁, s', operand, assignment, rounds.tail ⟨read, shorter⟩, faces⟩

/-- Where nothing more is to be read, the expression has been read. -/
theorem reads (h : Climbs g least e rest) (stops : Stops least rest) :
    Reads (g.operatorExpr least) e.operatorFaces e rest := by
  intro s hs
  obtain ⟨first, s₁, s', operand, assignment, rounds, faces⟩ := h s hs
  have stops : Stops least s'.faces := by rwa [faces]
  have refined := Parse.refine_of_rounds rounds (stops.operator_eq_none g e)
  refine ⟨s', ?_, faces⟩
  change (g.operand s).bind (fun r => (g.assignmentTo r.1 r.2).bind
    fun r => Parse.refine (g.operator least) r.1 r.2) = _
  rw [operand]
  change (g.assignmentTo first s₁).bind _ = _
  rw [assignment]
  exact refined

end Climbs

namespace WellGrouped

theorem operatorFaces_length_pos {e : Expr} (h : WellGrouped e) : 0 < e.operatorFaces.length := by
  cases h with
  | binary _ _ _ _ _ => exact List.length_pos_iff.2 (by simp [Node.operatorFaces])
  | _ => exact Nat.succ_pos _

/-- What is climbed to is read one level of nesting further up. -/
theorem reads_of_climbs {e : Expr} (h : WellGrouped e) {n : Nat} {least : Level} {rest : List Face}
    (enough : 3 * e.operatorFaces.length ≤ n)
    (climbs : ∀ {m}, 3 * e.operatorFaces.length ≤ m + 1 → Climbs (Grammar.upTo m) least e rest)
    (stops : Stops least rest) : Reads ((Grammar.upTo n).expr least) e.operatorFaces e rest := by
  have := h.operatorFaces_length_pos
  obtain ⟨m, rfl⟩ : ∃ m, n = m + 1 := ⟨n - 1, by omega⟩
  exact (climbs enough).reads stops

/-- The bound on the nesting counts three levels for each token. -/
theorem climbs {e : Expr} (h : WellGrouped e) {n : Nat} {least : Level} {rest : List Face}
    (enough : 3 * e.operatorFaces.length ≤ n + 1) (fits : e.Fits least) (stops : Stops e.openLevel rest) :
    Climbs (Grammar.upTo n) least e rest := by
  induction h generalizing n least rest with
  | @var name _ =>
    obtain ⟨m, rfl⟩ : ∃ m, n = m + 2 := ⟨n - 2, by simp [Node.operatorFaces] at enough; omega⟩
    exact .of_operand ((Grammar.upTo (m + 1)).reads_closed (by decide)
      (Grammar.reads_variable (Grammar.upTo m) name) stops) stops
  | @number text _ =>
    obtain ⟨m, rfl⟩ : ∃ m, n = m + 2 := ⟨n - 2, by simp [Node.operatorFaces] at enough; omega⟩
    exact .of_operand ((Grammar.upTo (m + 1)).reads_closed (by decide)
      (Grammar.reads_int (Grammar.upTo m) text) stops) stops
  | @paren e h ih =>
    simp only [Node.operatorFaces, List.length_cons, List.length_append, List.length_nil] at enough
    obtain ⟨m, rfl⟩ : ∃ m, n = m + 2 := ⟨n - 2, by omega⟩
    have inner : Reads ((Grammar.upTo m).expr .wordOr) e.operatorFaces e ((.closeParen, ")") :: rest) :=
      h.reads_of_climbs (by omega) (fun le => ih le h.fits_wordOr (.closeParen rest)) (.closeParen rest)
    have primary := (Grammar.upTo m).reads_paren inner
    exact .of_operand ((Grammar.upTo (m + 1)).reads_closed (by decide) primary stops) stops
  | @unary op e h operand ih =>
    simp only [Node.operatorFaces, List.length_cons] at enough
    obtain ⟨m, rfl⟩ : ∃ m, n = m + 1 := ⟨n - 1, by omega⟩
    have fits := (Node.fits_of_isPrefixOperand operand).mono op.not_le_level.2
    have inner : Reads ((Grammar.upTo m).expr op.level) e.operatorFaces e rest :=
      h.reads_of_climbs (by omega) (fun le => ih le fits (stops.mono (Nat.min_le_right _ _)))
        (stops.mono (Nat.min_le_left _ _))
    exact .of_operand ((Grammar.upTo m).reads_unary op inner) stops
  | @suppress e h operand ih =>
    simp only [Node.operatorFaces, List.length_cons] at enough
    obtain ⟨m, rfl⟩ : ∃ m, n = m + 1 := ⟨n - 1, by omega⟩
    have inner : Reads ((Grammar.upTo m).expr .unary) e.operatorFaces e rest :=
      h.reads_of_climbs (by omega)
        (fun le => ih le (Node.fits_of_isPrefixOperand operand) (stops.mono (Nat.min_le_right _ _)))
        (stops.mono (Nat.min_le_left _ _))
    exact .of_operand ((Grammar.upTo m).reads_suppress inner) stops
  | @cast type e h operand ih =>
    simp only [Node.operatorFaces, List.length_cons] at enough
    obtain ⟨m, rfl⟩ : ∃ m, n = m + 1 := ⟨n - 1, by omega⟩
    have inner : Reads ((Grammar.upTo m).expr .unary) e.operatorFaces e rest :=
      h.reads_of_climbs (by omega)
        (fun le => ih le (Node.fits_of_isPrefixOperand operand) (stops.mono (Nat.min_le_right _ _)))
        (stops.mono (Nat.min_le_left _ _))
    exact .of_operand ((Grammar.upTo m).reads_cast type inner) stops
  | @binary op l r hl hr left right ihl ihr =>
    simp only [Node.operatorFaces, List.length_cons, List.length_append] at enough
    have le : least ≤ op.level := fits.resolve_left (by simp [Node.isPrefix])
    have inner : Reads ((Grammar.upTo n).expr op.rightLevel) r.operatorFaces r rest :=
      hr.reads_of_climbs (by omega)
        (fun bound => ihr bound ((Node.isRightOperandOf_iff op r).1 right) (stops.mono (Nat.min_le_right _ _)))
        (stops.mono (Nat.min_le_left _ _))
    have front : Climbs (Grammar.upTo n) least l (op.face :: (r.operatorFaces ++ rest)) :=
      ihl (by omega) (fits_left le left) (.operator (hl.level_lt_openLevel left) _)
    exact front.binary inner le

/-- A well grouped tree is read from its tokens. -/
theorem reads {e : Expr} (h : WellGrouped e) {n : Nat} {least : Level} {rest : List Face}
    (enough : 3 * e.operatorFaces.length ≤ n) (fits : e.Fits least) (stops : Stops least rest)
    (open_stops : Stops e.openLevel rest) : Reads ((Grammar.upTo n).expr least) e.operatorFaces e rest :=
  h.reads_of_climbs enough (fun bound => h.climbs bound fits open_stops) stops

end WellGrouped

/-! ## Whole texts -/

namespace Lexer

/-- The characters of an opening tag with the blank that it takes along. -/
def openingTag (blank : Char) : List Char := ['<', '?', 'p', 'h', 'p', blank]

variable {blank : Char}

theorem readText_openingTag (h : blank ∈ [' ', '\n']) (cs : List Char) :
    readText .origin (openingTag blank ++ cs) =
      .code [token .openTag "<?php" .origin (Position.origin.after (openingTag blank)) .empty] 6 := by
  have lower : ['p', 'h', 'p'].map Char.toLower = ['p', 'h', 'p'] := by decide
  have space : Text.isSpace blank = true :=
    List.all_eq_true.1 (show [' ', '\n'].all Text.isSpace = true by decide) blank h
  have tag : openTagAt? ('<' :: '?' :: 'p' :: 'h' :: 'p' :: blank :: cs) = some .openTag := by
    simp [openTagAt?, lower, space]
  have found : findOpenTag? (openingTag blank ++ cs) = some (0, .openTag) := by
    simp only [openingTag, List.cons_append, List.nil_append, findOpenTag?, tag]
  rw [readText, found]
  simp only [List.mem_cons, List.not_mem_nil, or_false] at h
  rcases h with rfl | rfl <;> rfl

/-- A source that begins with an opening tag is code behind it. -/
theorem tokenize_eq_readCode (h : blank ∈ [' ', '\n']) {source : String} {cs : List Char}
    (chars : source.toList = openingTag blank ++ cs) :
    tokenize source = (readCode (Position.origin.after (openingTag blank)) cs).map
      (token .openTag "<?php" .origin (Position.origin.after (openingTag blank)) .empty :: ·) := by
  rw [tokenize, chars, readText_openingTag h]
  rfl

/-- The tokens of a source that begins with an opening tag. -/
theorem tokenize_openingTag (h : blank ∈ [' ', '\n']) {source : String} {cs : List Char} {fs : List Face}
    (chars : source.toList = openingTag blank ++ cs) (spelled : Spells cs fs []) :
    ∃ ts, tokenize source = .ok ts ∧ ts.map Token.face = (.openTag, "<?php") :: (fs ++ [eofFace]) := by
  obtain ⟨ts, code, faces⟩ : ∃ ts, readCode (Position.origin.after (openingTag blank)) cs = .ok ts ∧
      ts.map Token.face = fs ++ [eofFace] := by
    have spelled := spelled.codeFaces_eq (Position.origin.after (openingTag blank))
    rw [codeFaces] at spelled
    cases code : readCode (Position.origin.after (openingTag blank)) cs with
    | error e => rw [code] at spelled; cases spelled
    | ok ts =>
      rw [code] at spelled
      exact ⟨ts, rfl, Except.ok.inj spelled⟩
  refine ⟨_, by rw [tokenize_eq_readCode h chars, code]; rfl, ?_⟩
  rw [List.map_cons, faces]
  rfl

/-- The tokens of a text behind an opening tag. -/
theorem tokenize_openTag {text : String} {fs : List Face} (h : Spells text.toList fs []) :
    ∃ ts, tokenize ("<?php " ++ text) = .ok ts ∧ ts.map Token.face = (.openTag, "<?php") :: (fs ++ [eofFace]) :=
  tokenize_openingTag (show ' ' ∈ [' ', '\n'] by decide) (by simp [openingTag]) h

end Lexer

/-- A file whose statements are found among its tokens is read, and they are the statements that are found. -/
theorem exists_parse_eq_ok {source : String} {cs : List Char} {fs : List Face} {P : List Stmt → Prop}
    (chars : source.toList = Lexer.openingTag '\n' ++ cs) (spelled : Lexer.Spells cs fs [])
    (body : ∀ n, 3 * fs.length ≤ n → Finds (Grammar.upTo (n + 1)).fileBody ((.openTag, "<?php") :: fs) P [eofFace]) :
    ∃ xs span, parse source = .ok ⟨.ofList xs, span⟩ ∧ P xs := by
  obtain ⟨ts, tokens, faces⟩ := Lexer.tokenize_openingTag (show '\n' ∈ [' ', '\n'] by decide) chars spelled
  have size : ts.length = fs.length + 2 := by
    simpa using congrArg List.length faces
  obtain ⟨n, bound⟩ : ∃ n, nestingBound ts.length = n + 1 := ⟨nestingBound ts.length - 1, by rw [nestingBound]; omega⟩
  have enough : 3 * fs.length ≤ n := by
    rw [nestingBound, size] at bound
    omega
  have file : Finds (Parse.file (Grammar.upTo (n + 1))) ((.openTag, "<?php") :: fs)
      (fun f => ∃ xs span, f = ⟨.ofList xs, span⟩ ∧ P xs) [eofFace] := by
    refine Finds.get_bind fun s _ => Finds.bind_nil (body n enough) fun xs holds => Finds.get_bind fun s' _ => ?_
    exact (Reads.pure _ _).finds ⟨xs, _, rfl, holds⟩
  obtain ⟨_, s', read, ⟨xs, span, rfl, holds⟩, -⟩ := file (Stream.ofTokens ts) (by rw [Stream.faces]; exact faces)
  refine ⟨xs, span, ?_, holds⟩
  rw [parse, tokens]
  change ((Parse.file (Grammar.upTo (nestingBound ts.length))) (Stream.ofTokens ts)).map (·.1) = .ok _
  rw [bound, read]
  rfl

/-- What stands alone behind an opening tag. -/
theorem Reads.standalone {α : Type} {p : Parse α} {x : α} {f : Face} {fs : List Face}
    (code : f.1 ∉ [TokenKind.openTag, .closeTag]) (h : Reads p (f :: fs) x [eofFace]) :
    Reads (Parse.standalone p) ((.openTag, "<?php") :: f :: fs) x [eofFace] := by
  have before : Reads (Parse.skipAll [.openTag, .closeTag]) [(.openTag, "<?php")] () (f :: fs ++ [eofFace]) :=
    Reads.skipAll (by decide) code
  have behind : Reads (do
      Parse.skipAll [.openTag, .closeTag]
      let _ ← Parse.expect .eof
      return x) [] x [eofFace] :=
    Reads.bind_nil (Reads.skipAll (by decide) (by decide)) (Reads.expect_eof_bind fun _ => Reads.pure x [eofFace])
  exact Reads.bind before (Reads.bind_nil h behind)

/-- Where the reader fails, or stops in front of something else than the end, nothing stands alone. -/
theorem Fails.standalone {α : Type} {p : Parse α} {f : Face} {fs : List Face}
    (code : f.1 ∉ [TokenKind.openTag, .closeTag])
    (h : Fails p (f :: fs) ∨ ∃ gs x g rest, f :: fs = gs ++ g :: rest ∧ Reads p gs x (g :: rest) ∧
      g.1 ∉ [TokenKind.openTag, .closeTag] ∧ g.1 ≠ .eof) :
    Fails (Parse.standalone p) ((.openTag, "<?php") :: f :: fs) := by
  have before : Reads (Parse.skipAll [.openTag, .closeTag]) [(.openTag, "<?php")] () (f :: fs) :=
    Reads.skipAll (by decide) code
  refine Fails.bind_of_reads before ?_
  rcases h with fails | ⟨gs, x, g, rest, faces, reads, more, not_end⟩
  · exact fails.bind
  · rw [faces]
    refine Fails.bind_of_reads reads (Fails.nil_bind (Reads.skipAll (by simp) more) ?_)
    exact (Fails.expect not_end).bind

/-- A text whose tokens do not stand alone is not read. -/
theorem runOn_ne_ok {α : Type} {p : Grammar → Parse α} {text : String} {fs : List Face}
    (spelled : Lexer.Spells text.toList fs [])
    (h : ∀ n, Fails (Parse.standalone (p (Grammar.upTo n))) ((.openTag, "<?php") :: (fs ++ [eofFace]))) (x : α) :
    ((tokenize ("<?php " ++ text)).bind fun tokens => runOn tokens fun g => Parse.standalone (p g)) ≠ .ok x := by
  obtain ⟨ts, tokens, faces⟩ := Lexer.tokenize_openTag spelled
  obtain ⟨error, failed⟩ := h (nestingBound ts.length) (Stream.ofTokens ts) (by rw [Stream.faces]; exact faces)
  intro read
  rw [tokens] at read
  change (Parse.standalone (p _) (Stream.ofTokens ts)).map (·.1) = .ok x at read
  rw [failed] at read
  cases read

/-- An expression that stands alone behind an opening tag. -/
theorem Grammar.reads_exprAlone (g : Grammar) {e : Expr} {f : Face} {fs : List Face}
    (code : f.1 ∉ [TokenKind.openTag, .closeTag]) (h : Reads (g.expr .wordOr) (f :: fs) e [eofFace]) :
    Reads (Parse.standalone (Parse.exprAlone g)) ((.openTag, "<?php") :: f :: fs) e [eofFace] :=
  Reads.standalone code (Reads.bind_nil h (Reads.tryToken_bind_of_ne (by decide) (Reads.pure e [eofFace])))

theorem WellGrouped.exists_operatorFaces {e : Expr} (h : WellGrouped e) :
    ∃ f fs, e.operatorFaces = f :: fs ∧ f.1 ∉ [TokenKind.openTag, .closeTag] := by
  induction h with
  | @unary op _ _ _ _ => exact ⟨_, _, rfl, by cases op <;> decide⟩
  | @binary op _ _ _ _ _ _ ihl _ =>
    obtain ⟨f, fs, faces, code⟩ := ihl
    exact ⟨f, fs ++ _, by rw [Node.operatorFaces, faces]; rfl, code⟩
  | _ => exact ⟨_, _, rfl, by simp⟩

/-- The text of an expression that is read from its tokens. -/
theorem parseExpr_eq_ok {text : String} {f : Face} {fs : List Face} {e : Expr}
    (spelled : Lexer.Spells text.toList (f :: fs) []) (code : f.1 ∉ [TokenKind.openTag, .closeTag])
    (h : ∀ n, 3 * (f :: fs).length ≤ n → Reads ((Grammar.upTo n).expr .wordOr) (f :: fs) e [eofFace]) :
    parseExpr text = .ok e := by
  obtain ⟨ts, tokens, faces⟩ := Lexer.tokenize_openTag spelled
  have size : ts.length = (f :: fs).length + 2 := by
    simpa using congrArg List.length faces
  have read := h (nestingBound ts.length) (by rw [nestingBound, size]; omega)
  obtain ⟨s', result, -⟩ := Grammar.reads_exprAlone _ code read (Stream.ofTokens ts) (by rw [Stream.faces]; exact faces)
  rw [parseExpr, tokens]
  change ((Parse.standalone (Parse.exprAlone _)) (Stream.ofTokens ts)).map (·.1) = .ok e
  rw [result]
  rfl

/-- The text of a well grouped tree is read back as that tree. -/
theorem WellGrouped.parseExpr_print {e : Expr} (h : WellGrouped e) : parseExpr (Expr.print e) = .ok e := by
  obtain ⟨f, fs, first, code⟩ := h.exists_operatorFaces
  have spelled := h.operatorTree.spells usualIndent 0 Lexer.boundary_nil
  rw [first] at spelled
  refine parseExpr_eq_ok spelled code fun n enough => ?_
  rw [← first] at enough ⊢
  exact h.reads enough h.fits_wordOr (.eof []) (.eof [])

end Codewright.Php
