import Codewright.Proofs.Php.CommentCount
import Codewright.Proofs.Php.PrintedComment
import Codewright.Proofs.Source.Place

/-!
# What the lexer reads

* `HasComments behind gap comments` – the text `gap` in front of `behind` is whitespace and these comments, in the order of the
  source; `HasComments.unique`: a text has the comments of one list only;
* `isDocText` – which of them are doc comments; `Gap.addText` – how the reader of gaps takes up one more;
* `readGap_of_hasComments`, `hasComments_of_readGap` – the reader of gaps reads just such texts and takes up their comments one
  after the other;
* `Lexed before rest tokens` – behind the text `before`, the text `rest` is gaps and tokens by turns, each token made of the gap in
  front of it and of its own text;
* `Runs`, `runs_readCode` – the lexer gives such tokens, or an error whose place is right; `runs_tokenize`: so does a whole source.
-/

namespace Codewright.Php

open Text Source

/-- Whitespace and complete comments in front of `behind`, with the comments in the order of the source. Line comments count
without whitespace at their end. -/
inductive HasComments (behind : List Char) : List Char → List String → Prop where
  | nil : HasComments behind [] []
  | space {c : Char} {gap : List Char} {comments : List String} :
      isSpace c = true → HasComments behind gap comments → HasComments behind (c :: gap) comments
  | line {text gap : List Char} {comments : List String} :
      IsLineComment text (gap ++ behind) → HasComments behind gap comments →
      HasComments behind (text ++ gap) (String.ofList (trimEnd text) :: comments)
  | block {text gap : List Char} {comments : List String} :
      IsBlockComment text → HasComments behind gap comments →
      HasComments behind (text ++ gap) (String.ofList text :: comments)

/-- The comment is a doc comment: it begins with `/**`, and is more than `/**/`. -/
def isDocText (text : String) : Bool := startsWith "/**" text && !startsWith "/**/" text

theorem isDocText_ofList (cs : List Char) : isDocText (String.ofList cs) =
    (['/', '*', '*'].isPrefixOf cs && !(['/', '*', '*', '/'].isPrefixOf cs)) := by
  simp only [isDocText, startsWith, String.toList_ofList]
  rfl

theorem isDocText_iff {text : String} :
    isDocText text = true ↔ ['/', '*', '*'] <+: text.toList ∧ ¬['/', '*', '*', '/'] <+: text.toList := by
  have doc : "/**".toList = ['/', '*', '*'] := rfl
  have empty : "/**/".toList = ['/', '*', '*', '/'] := rfl
  rw [isDocText, startsWith, startsWith, doc, empty, Bool.and_eq_true, Bool.not_eq_true', ← Bool.not_eq_true,
    List.isPrefixOf_iff_prefix, List.isPrefixOf_iff_prefix]

namespace Lexer

/-- The gap with one more comment. -/
def Gap.addText (g : Gap) (text : String) : Gap := if isDocText text then g.addDoc text else g.addPlain text

variable {behind text : List Char}

/-! ## One comment -/

/-- A line comment is read as such, and is no doc comment. -/
theorem exists_gapPiece?_line (h : IsLineComment text behind) :
    ∃ c body, text = c :: body ∧ gapPiece? c (body ++ behind) = .ok (some (.lineComment, body.length)) ∧
      isDocText (String.ofList (trimEnd text)) = false := by
  have no_slash : isSpace '/' = false := rfl
  have no_hash : isSpace '#' = false := rfl
  obtain ⟨body, rfl | ⟨rfl, other⟩⟩ := h.opens
  · have one : '\n' ∉ '/' :: body := fun feed => h.one_line (List.mem_cons_of_mem _ feed)
    have no_tag : ¬['?', '>'] <:+: '/' :: body := fun tag => h.no_tag (List.infix_cons_iff.2 (.inr tag))
    have length := lineCommentLength_append_behind one no_tag h.ends
    have trimmed : trimEnd ('/' :: '/' :: body) = '/' :: '/' :: trimEnd body := dropWhileEnd_append_cons (a := ['/']) no_slash
    refine ⟨'/', '/' :: body, rfl, ?_, ?_⟩
    · rw [← length]
      rfl
    · rw [trimmed, isDocText_ofList]
      rfl
  · have one : '\n' ∉ body := fun feed => h.one_line (List.mem_cons_of_mem _ feed)
    have no_tag : ¬['?', '>'] <:+: body := fun tag => h.no_tag (List.infix_cons_iff.2 (.inr tag))
    have length := lineCommentLength_append_behind one no_tag h.ends
    have trimmed : trimEnd ('#' :: body) = '#' :: trimEnd body := dropWhileEnd_append_cons (a := []) no_hash
    have no_group : headIs (· == '[') (body ++ behind) = false := by
      rw [← Bool.not_eq_true, headIs_iff]
      exact other
    refine ⟨'#', body, rfl, ?_, ?_⟩
    · rw [← length, gapPiece?, no_group]
      rfl
    · rw [trimmed, isDocText_ofList]
      rfl

/-- Whether a block comment is a doc comment is told by its text. -/
theorem isDocMark_append {cs : List Char} (h : EndsBlock cs) (rest : List Char) :
    isDocMark (cs ++ rest) = isDocText (String.ofList ('/' :: '*' :: cs)) := by
  obtain ⟨body, rfl, first⟩ := h
  rw [isDocText_ofList]
  match body with
  | [] => rfl
  | [c] => simp [isDocMark, headIs, List.isPrefixOf, Bool.beq_comm (a := c)]
  | c :: d :: body =>
    simp only [isDocMark, headIs, List.isPrefixOf, List.cons_append, List.drop_succ_cons, List.drop_zero, beq_self_eq_true,
      Bool.true_and, Bool.and_true, Bool.beq_comm (a := c), Bool.beq_comm (a := d)]
    cases '*' == c <;> rfl

/-- A block comment is read as such. -/
theorem exists_gapPiece?_block (h : IsBlockComment text) (rest : List Char) :
    ∃ c body, text = c :: body ∧ gapPiece? c (body ++ rest) =
      .ok (some (if isDocText (String.ofList text) then .docComment else .blockComment, body.length)) := by
  obtain ⟨body, rfl, first⟩ := h
  have ends : EndsBlock (body ++ ['*', '/']) := ⟨body, rfl, first⟩
  refine ⟨'/', '*' :: (body ++ ['*', '/']), rfl, ?_⟩
  rw [← isDocMark_append ends rest]
  exact ends.gapPiece?_eq rest

/-! ## The comments of a gap -/

/-- The comments of a piece of a gap: one, or none. -/
def GapPiece.comments (text : List Char) : GapPiece → List String
  | .blank => []
  | .lineComment => [String.ofList (trimEnd text)]
  | .blockComment | .docComment => [String.ofList text]

/-- A piece of a gap is taken up by its comments. -/
theorem Gap.add_eq {c : Char} {cs : List Char} {piece : GapPiece} {n : Nat} (h : gapPiece? c cs = .ok (some (piece, n)))
    (g : Gap) : g.add (c :: cs.take n) piece = (piece.comments (c :: cs.take n)).foldl Gap.addText g := by
  rcases gapPiece?_eq_some h with ⟨rfl, -, -⟩ | ⟨rfl, line⟩ | ⟨-, block⟩
  · rfl
  · obtain ⟨-, -, -, -, no_doc⟩ := exists_gapPiece?_line line
    simp [Gap.add, GapPiece.comments, Gap.addText, no_doc]
  · obtain ⟨c', body, same, read⟩ := exists_gapPiece?_block block (cs.drop n)
    obtain ⟨rfl, rfl⟩ := List.cons.inj same
    rw [List.take_append_drop, h] at read
    obtain ⟨rfl, -⟩ := Prod.mk.inj (Option.some.inj (Except.ok.inj read))
    split
    · next doc => exact (if_pos doc).symm
    · next no_doc => exact (if_neg no_doc).symm

/-- A piece in front of a gap. -/
theorem hasComments_piece {c : Char} {cs gap behind : List Char} {piece : GapPiece} {n : Nat} {comments : List String}
    (h : gapPiece? c cs = .ok (some (piece, n))) (left : cs.drop n = gap ++ behind) (gaps : HasComments behind gap comments) :
    HasComments behind ((c :: cs.take n) ++ gap) (piece.comments (c :: cs.take n) ++ comments) := by
  rcases gapPiece?_eq_some h with ⟨rfl, rfl, blank⟩ | ⟨rfl, line⟩ | ⟨kind, block⟩
  · exact .space blank gaps
  · exact .line (left ▸ line) gaps
  · rcases kind with rfl | rfl <;> exact .block block gaps

/-- The first piece of a gap, and its comments. -/
theorem exists_piece_of_hasComments {c : Char} {cs : List Char} {comments : List String}
    (h : HasComments behind (c :: cs) comments) :
    ∃ piece n later, n ≤ cs.length ∧ gapPiece? c (cs ++ behind) = .ok (some (piece, n)) ∧
      comments = piece.comments (c :: cs.take n) ++ later ∧ HasComments behind (cs.drop n) later := by
  generalize whole : c :: cs = front at h
  cases h with
  | nil => cases whole
  | @space d gap comments blank gaps =>
    cases whole
    exact ⟨.blank, 0, comments, Nat.zero_le _, by rw [gapPiece?, if_pos blank], rfl, gaps⟩
  | @line text gap comments is_line gaps =>
    obtain ⟨d, body, rfl, piece, -⟩ := exists_gapPiece?_line is_line
    obtain ⟨rfl, tail⟩ : c = d ∧ cs = body ++ gap := List.cons.inj whole
    subst tail
    refine ⟨.lineComment, body.length, comments, by simp, ?_, ?_, ?_⟩
    · rw [List.append_assoc]
      exact piece
    · rw [List.take_left]
      rfl
    · rw [List.drop_left]
      exact gaps
  | @block text gap comments is_block gaps =>
    obtain ⟨d, body, rfl, piece⟩ := exists_gapPiece?_block is_block (gap ++ behind)
    obtain ⟨rfl, tail⟩ : c = d ∧ cs = body ++ gap := List.cons.inj whole
    subst tail
    rw [← List.append_assoc] at piece
    refine ⟨_, body.length, comments, by simp, piece, ?_, ?_⟩
    · rw [List.take_left]
      split <;> rfl
    · rw [List.drop_left]
      exact gaps

end Lexer

/-- The comments of a gap, without their order. -/
theorem HasComments.isGap {behind gap : List Char} {comments : List String} (h : HasComments behind gap comments) :
    IsGap behind gap comments := by
  induction h with
  | nil => exact .nil
  | space blank _ ih => exact .space blank ih
  | line is_line _ ih => exact .line is_line ih
  | block is_block _ ih => exact .block is_block ih

theorem HasComments.of_nil {behind : List Char} {comments : List String} (h : HasComments behind [] comments) :
    comments = [] := by
  generalize empty : ([] : List Char) = gap at h
  cases h with
  | nil => rfl
  | space _ _ => cases empty
  | line is_line _ =>
    obtain ⟨c, body, rfl, -⟩ := Lexer.exists_gapPiece?_line is_line
    cases empty
  | block is_block _ =>
    obtain ⟨body, rfl, -⟩ := is_block
    cases empty

/-- In front of a text, a gap has the comments of one list only. -/
theorem HasComments.unique {behind gap : List Char} {left right : List String} (h : HasComments behind gap left)
    (h' : HasComments behind gap right) : left = right := by
  induction length : gap.length using Nat.strong_induction_on generalizing gap left right with
  | _ size ih =>
    cases gap with
    | nil => rw [h.of_nil, h'.of_nil]
    | cons c cs =>
      obtain ⟨piece, n, later, -, read, rfl, gaps⟩ := Lexer.exists_piece_of_hasComments h
      obtain ⟨piece', n', later', -, read', rfl, gaps'⟩ := Lexer.exists_piece_of_hasComments h'
      obtain ⟨rfl, rfl⟩ := Prod.mk.inj (Option.some.inj (Except.ok.inj (read.symm.trans read')))
      refine congrArg _ (ih _ ?_ gaps gaps' rfl)
      rw [← length, List.length_drop, List.length_cons]
      omega

namespace Lexer

variable {behind gap : List Char} {comments : List String}

/-- The reader of gaps reads whitespace and complete comments, and takes up the comments one after the other. -/
theorem readGap_of_hasComments (h : HasComments behind gap comments) (g : Gap) (p : Position) :
    readGap g p (gap ++ behind) = readGap (comments.foldl Gap.addText g) (p.after gap) behind := by
  induction length : gap.length using Nat.strong_induction_on generalizing gap comments g p with
  | _ size ih =>
    cases gap with
    | nil =>
      rw [h.of_nil]
      rfl
    | cons c cs =>
      obtain ⟨piece, n, later, inside, read, rfl, gaps⟩ := exists_piece_of_hasComments h
      have shorter : (cs.drop n).length < size := by
        rw [← length, List.length_drop, List.length_cons]
        omega
      have added := Gap.add_eq read g
      rw [List.take_append_of_le_length inside] at added
      rw [List.cons_append, readGap_cons, read]
      dsimp only
      rw [List.take_append_of_le_length inside, List.drop_append_of_le_length inside, ih _ shorter gaps _ _ rfl, added,
        List.foldl_append, ← Position.after_append, List.cons_append, List.take_append_drop]

/-- What the reader of gaps takes up is the comments of the text that it reads. -/
theorem hasComments_of_readGap {g g' : Gap} {p q : Position} {cs rest : List Char} (h : readGap g p cs = .ok (g', q, rest)) :
    ∃ gap comments, cs = gap ++ rest ∧ q = p.after gap ∧ HasComments rest gap comments ∧
      g' = comments.foldl Gap.addText g := by
  fun_induction readGap g p cs with
  | case1 g p =>
    cases h
    exact ⟨[], [], rfl, rfl, .nil, rfl⟩
  | case2 g p c cs u unterminated => cases h
  | case3 g p c cs lexeme =>
    cases h
    exact ⟨[], [], rfl, rfl, .nil, rfl⟩
  | case4 g p c cs piece n found ih =>
    obtain ⟨gap, comments, left, behind, gaps, added⟩ := ih h
    refine ⟨_, _, ?_, ?_, hasComments_piece found left gaps, ?_⟩
    · rw [List.append_assoc, ← left, List.cons_append, List.take_append_drop]
    · rw [behind, Position.after_append]
    · rw [added, List.foldl_append, Gap.add_eq found]

end Lexer

/-! ## Tokens -/

namespace Lexer

/-- What a gap with these comments leaves for the token behind it. -/
def Gap.ofTexts (comments : List String) : Gap := comments.foldl Gap.addText .empty

/-- The kinds of the tokens around text sections. -/
def sectionKinds : List TokenKind := [.openTag, .openTagEcho, .closeTag, .inlineHtml]

/-- Behind the text `before`, the text `rest` is gaps and tokens by turns up to the mark of the end. A token belongs to a text section,
or the scanner finds it there. -/
inductive Lexed : List Char → List Char → List Token → Prop where
  | eof {before gap : List Char} {comments : List String} :
      HasComments [] gap comments → Lexed before gap [eofToken (.ofText (before ++ gap)) (.ofTexts comments)]
  | token {before gap text rest : List Char} {comments : List String} {kind : TokenKind} {s : String} {ts : List Token} :
      HasComments (text ++ rest) gap comments → text ≠ [] →
      (kind ∈ sectionKinds ∨ ∃ more, lexemeAt? (text ++ rest) = some ⟨kind, s, more⟩ ∧ (text ++ rest).take (more + 1) = text) →
      Lexed (before ++ gap ++ text) rest ts →
      Lexed before (gap ++ (text ++ rest))
        (token kind s (.ofText (before ++ gap)) (.ofText (before ++ gap ++ text)) (.ofTexts comments) :: ts)

/-- What is left for the token behind a gap is all its comments. -/
theorem all_ofTexts (comments : List String) : ((Gap.ofTexts comments).all : Multiset String) = comments := by
  induction comments using List.reverseRecOn with
  | nil => rfl
  | append_singleton comments text ih =>
    rw [Gap.ofTexts, List.foldl_concat, ← Gap.ofTexts, ← Multiset.coe_add, ← ih, Multiset.coe_singleton, Gap.addText]
    split
    · exact all_addDoc _ _
    · exact all_addPlain _ _

/-! ## Lexemes -/

/-- A lexeme is what the scanner finds. -/
theorem exists_scan_of_lexemeAt? {cs : List Char} {lexeme : Lexeme} (h : lexemeAt? cs = some lexeme) :
    ∃ c rest, cs = c :: rest ∧ gapPiece? c rest = .ok none ∧ scan c rest = .ok lexeme := by
  cases cs with
  | nil => cases h
  | cons c rest =>
    rw [lexemeAt?] at h
    split at h
    · cases h
    split at h
    · next no_gap =>
      refine ⟨c, rest, rfl, no_gap, ?_⟩
      cases read : scan c rest with
      | error _ =>
        rw [read] at h
        cases h
      | ok found =>
        rw [read] at h
        cases h
        rfl
    · cases h

/-- Neither the tokens of text sections nor lexemes mark the end. -/
theorem ne_eof_of_told {cs : List Char} {kind : TokenKind} {s : String} {P : Nat → Prop}
    (h : kind ∈ sectionKinds ∨ ∃ more, lexemeAt? cs = some ⟨kind, s, more⟩ ∧ P more) : kind ≠ .eof := by
  rcases h with is_section | ⟨more, found, -⟩
  · rintro rfl
    exact absurd is_section (by decide)
  · obtain ⟨c, cs, -, -, read⟩ := exists_scan_of_lexemeAt? found
    exact kind_scan_ne_eof read

/-- No gap begins where the reader of gaps stops. -/
theorem gapPiece?_of_readGap {g g' : Gap} {p q : Position} {c : Char} {cs rest : List Char}
    (h : readGap g p cs = .ok (g', q, c :: rest)) : gapPiece? c rest = .ok none := by
  fun_induction readGap g p cs with
  | case1 => cases h
  | case2 => cases h
  | case3 g p d cs no_gap =>
    cases h
    exact no_gap
  | case4 g p d cs piece n found ih => exact ih h

/-- What the scanner finds where the reader of gaps stops is a lexeme. -/
theorem lexemeAt?_of_readGap {g g' : Gap} {p q : Position} {c : Char} {s rest : List Char} {lexeme : Lexeme}
    (h : readGap g p s = .ok (g', q, c :: rest)) (other : ¬(c = '?' ∧ headIs (· == '>') rest = true))
    (scanned : scan c rest = .ok lexeme) : lexemeAt? (c :: rest) = some lexeme := by
  rw [lexemeAt?, if_neg other, gapPiece?_of_readGap h, scanned]
  rfl

/-- What stands in front of a token when the lexer is there. -/
theorem readGap_empty_eq_ok {before cs rest : List Char} {g : Gap} {q : Position}
    (h : readGap .empty (.ofText before) cs = .ok (g, q, rest)) :
    ∃ gap comments, cs = gap ++ rest ∧ q = .ofText (before ++ gap) ∧ HasComments rest gap comments ∧ g = .ofTexts comments := by
  obtain ⟨gap, comments, whole, place, gaps, same⟩ := hasComments_of_readGap h
  exact ⟨gap, comments, whole, by rw [place, Position.after_ofText], gaps, same⟩

/-! ## Tokens -/

section

variable {before gap rest : List Char} {kind : TokenKind} {comments : List String} {ts : List Token}

/-- A token of at least one character behind a gap. -/
theorem Lexed.cons {c : Char} {n : Nat} {s : String} (gaps : HasComments (c :: rest) gap comments)
    (told : kind ∈ sectionKinds ∨ lexemeAt? (c :: rest) = some ⟨kind, s, n⟩)
    (lexed : Lexed (before ++ gap ++ c :: rest.take n) (rest.drop n) ts) :
    Lexed before (gap ++ c :: rest)
      (Lexer.token kind s (.ofText (before ++ gap)) (.ofText (before ++ gap ++ c :: rest.take n)) (.ofTexts comments) :: ts) := by
  have whole : c :: rest = (c :: rest.take n) ++ rest.drop n := by rw [List.cons_append, List.take_append_drop]
  have found : kind ∈ sectionKinds ∨
      ∃ more, lexemeAt? (c :: rest) = some ⟨kind, s, more⟩ ∧ (c :: rest).take (more + 1) = c :: rest.take n :=
    told.imp_right fun found => ⟨n, found, List.take_succ_cons⟩
  rw [whole] at gaps found ⊢
  exact .token gaps (List.cons_ne_nil _ _) found lexed

/-- A token of a text section, where no gap is. -/
theorem Lexed.mark {text : List Char} {s : String} (is_section : kind ∈ sectionKinds) (some_text : text ≠ [])
    (lexed : Lexed (before ++ text) rest ts) :
    Lexed before (text ++ rest) (Lexer.token kind s (.ofText before) ((Position.ofText before).after text) .empty :: ts) := by
  have lexed : Lexed (before ++ [] ++ text) rest ts := by simpa using lexed
  have whole := Lexed.token (s := s) .nil some_text (.inl is_section) lexed
  rw [List.append_nil, List.nil_append, ← Position.after_ofText] at whole
  exact whole

/-- A text section without its opening tag. -/
theorem lexed_textToken {html : List Char} (lexed : Lexed (before ++ html) rest ts) :
    Lexed before (html ++ rest) (textToken html (.ofText before) ++ ts) := by
  unfold textToken
  by_cases empty : html = []
  · subst empty
    simpa using lexed
  · have some_text : html.isEmpty = false := by simpa using empty
    rw [some_text]
    exact lexed.mark (by decide) empty

/-- A text section up to the end of the source. -/
theorem lexed_readText_source {cs : List Char} {html : List Token} (h : readText (.ofText before) cs = .source html) :
    Lexed before cs (html ++ [eofToken ((Position.ofText before).after cs) .empty]) := by
  unfold readText at h
  split at h
  · cases h
    have last : Lexed (before ++ cs) [] [eofToken (.ofText (before ++ cs ++ [])) (.ofTexts [])] := .eof .nil
    rw [List.append_nil, ← Position.after_ofText] at last
    have lexed := lexed_textToken last
    rw [List.append_nil] at lexed
    exact lexed
  · cases h

/-- A tag that is found stands in the text. -/
theorem lt_length_of_findOpenTag? {cs : List Char} {n : Nat} (h : findOpenTag? cs = some (n, kind)) : n < cs.length := by
  induction cs generalizing n with
  | nil => cases h
  | cons c cs ih =>
    rw [findOpenTag?] at h
    split at h
    · cases h
      exact Nat.succ_pos _
    · obtain ⟨r, found, same⟩ := Option.map_eq_some_iff.1 h
      cases same
      exact Nat.succ_lt_succ (ih found)

/-- A text section with its opening tag, in front of code. -/
theorem lexed_readText_code {cs : List Char} {tokens : List Token} {read : Nat}
    (h : readText (.ofText before) cs = .code tokens read) (lexed : Lexed (before ++ cs.take read) (cs.drop read) ts) :
    Lexed before cs (tokens ++ ts) := by
  unfold readText at h
  split at h
  · cases h
  · next n kind found =>
    cases h
    have inside := lt_length_of_findOpenTag? found
    have is_section : kind ∈ sectionKinds := by rcases kind_findOpenTag? found with rfl | rfl <;> decide
    generalize length : openTagLength kind = k at lexed ⊢
    have positive : 0 < k := by
      rw [← length]
      unfold openTagLength
      split <;> decide
    generalize swallowedAfterOpen kind (cs.drop (n + k)) = more at lexed ⊢
    -- The text in front of the tag, the tag with what it takes along, and the code behind it.
    have some_tag : (cs.drop n).take k ++ (cs.drop (n + k)).take more ≠ [] := by
      intro empty
      have none := congrArg List.length empty
      simp only [List.length_append, List.length_take, List.length_drop, List.length_nil] at none
      omega
    have whole : cs = cs.take n ++ (((cs.drop n).take k ++ (cs.drop (n + k)).take more) ++ cs.drop (n + k + more)) := by
      rw [List.append_assoc, ← List.drop_drop (i := more), List.take_append_drop, ← List.drop_drop (i := k),
        List.take_append_drop, List.take_append_drop]
    have front : cs.take (n + k + more) = cs.take n ++ ((cs.drop n).take k ++ (cs.drop (n + k)).take more) := by
      rw [List.take_add, List.take_add, List.append_assoc]
    rw [front, ← List.append_assoc] at lexed
    have tagged := lexed_textToken (lexed.mark (s := String.ofList ((cs.drop n).take k)) is_section some_tag)
    rw [← whole] at tagged
    simpa [Position.after_ofText] using tagged

end

/-! ## The lexer -/

/-- A result that is right behind the text `before`, in front of `cs`. -/
def Runs (before cs : List Char) : Except SyntaxError (List Token) → Prop
  | .ok tokens => Lexed before cs tokens
  | .error e => IsPlace (before ++ cs) e.span e.pos

theorem Runs.map {before before' cs cs' : List Char} {F : List Token → List Token} {r : Except SyntaxError (List Token)}
    (h : Runs before' cs' r) (same : before' ++ cs' = before ++ cs)
    (hF : ∀ ts, Lexed before' cs' ts → Lexed before cs (F ts)) : Runs before cs (r.map F) := by
  cases r with
  | ok ts => exact hF ts h
  | error e =>
    show IsPlace (before ++ cs) e.span e.pos
    rw [← same]
    exact h

/-- The lexer gives gaps and tokens by turns, or an error in its place. -/
theorem runs_readCode {p : Position} {before cs : List Char} (h : p = .ofText before) : Runs before cs (readCode p cs) := by
  fun_induction readCode p cs generalizing before with
  | case1 p cs e failed =>
    obtain ⟨gap, rest, rfl, pos, span⟩ := readGap_eq_error failed
    subst h
    simp only [Position.after_ofText] at pos span
    exact ⟨before ++ gap, rest, [], by simp, span, pos⟩
  | case2 p cs g q read =>
    subst h
    obtain ⟨gap, comments, rfl, rfl, gaps, rfl⟩ := readGap_empty_eq_ok read
    rw [List.append_nil]
    exact .eof gaps
  | case3 p cs g q c rest read tag n q' close html =>
    rename_i text
    subst h
    obtain ⟨gap, comments, rfl, rfl, gaps, rfl⟩ := readGap_empty_eq_ok read
    have q'_eq : q' = .ofText (before ++ gap ++ c :: rest.take n) := Position.after_ofText _ _
    simp only [close, q'_eq] at text ⊢
    exact .cons gaps (.inl (by decide)) (lexed_readText_source text)
  | case4 p cs g q c rest read tag n q' close ts len text =>
    rename_i ih
    subst h
    obtain ⟨gap, comments, rfl, rfl, gaps, rfl⟩ := readGap_empty_eq_ok read
    have q'_eq : q' = .ofText (before ++ gap ++ c :: rest.take n) := Position.after_ofText _ _
    simp only [close, q'_eq] at text ih ⊢
    refine (ih (Position.after_ofText _ _)).map (by simp) fun us lexed => ?_
    exact .cons gaps (.inl (by decide)) (lexed_readText_code text lexed)
  | case5 p cs g q c rest read other fault =>
    subst h
    obtain ⟨gap, comments, rfl, rfl, gaps, rfl⟩ := readGap_empty_eq_ok read
    refine ⟨before ++ gap, (c :: rest).take fault.read, (c :: rest).drop fault.read, ?_, ?_, rfl⟩
    · simp
    · rw [Position.after_ofText]
      rfl
  | case6 p cs g q c rest read other lexeme scanned q' =>
    rename_i ih
    subst h
    have found := lexemeAt?_of_readGap read other scanned
    obtain ⟨gap, comments, rfl, rfl, gaps, rfl⟩ := readGap_empty_eq_ok read
    have q'_eq : q' = .ofText (before ++ gap ++ c :: rest.take lexeme.more) := Position.after_ofText _ _
    simp only [q'_eq] at ih ⊢
    refine (ih rfl).map (by simp) fun us lexed => ?_
    exact .cons gaps (.inr found) lexed

theorem runs_tokenize (source : String) : Runs [] source.toList (tokenize source) := by
  unfold tokenize
  split
  · exact ⟨[], [], source.toList, rfl, rfl, rfl⟩
  · next tokens read text =>
    have start : Position.origin.after (source.toList.take read) = .ofText (source.toList.take read) :=
      Position.after_ofText [] _
    refine (runs_readCode start).map (by simp) fun ts lexed => ?_
    exact lexed_readText_code text lexed

end Lexer

end Codewright.Php
