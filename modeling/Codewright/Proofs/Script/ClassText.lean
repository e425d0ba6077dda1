import Codewright.Proofs.Script.ClassShape
import Codewright.Proofs.Script.MemberSearch

/-!
# The text of a class

* `IsPlainBody body` – a body that is a valid script on its own, and whose white space at its start and on blank lines is that of
  ASCII;
* `exists_bodyCells` – between braces and indented, such a body is code again, with brackets that nest;
* `WritesMembers text names` – the text is code in which a search for methods finds the names: a field, a method;
* `Class.IsPlain` – a class with identifiers for its names and plain bodies;
* `Class.toList_print` – the text of a class is a head, and between braces its sections, each with line feeds around it;
* `Class.IsPlain.writesMembers` – between the braces, a search for methods finds the constructor and the methods.
-/

namespace Codewright.Script

open Text Json

variable {s t indent H : List Char} {cells block : List Cell} {unit body : String} {names names' : List String} {c : Class}

/-! ## Bodies -/

/-- A body that is a valid script on its own. The white space at its start and on its blank lines, which go, is that of ASCII. -/
structure IsPlainBody (body : String) : Prop where
  valid : isValid body = true
  start : (body.toList.takeWhile isSpace).all isAsciiSpace = true
  blank : ∀ l ∈ lines body.toList, isBlankList l = true → l.all isAsciiSpace = true

instance (body : String) : Decidable (IsPlainBody body) :=
  decidable_of_iff (isValid body = true ∧ (body.toList.takeWhile isSpace).all isAsciiSpace = true ∧
      ∀ l ∈ lines body.toList, isBlankList l = true → l.all isAsciiSpace = true)
    ⟨fun ⟨valid, start, blank⟩ => ⟨valid, start, blank⟩, fun plain => ⟨plain.valid, plain.start, plain.blank⟩⟩

theorem isPlainBody_empty : IsPlainBody "" := ⟨rfl, rfl, nofun⟩

/-- What a body is between its braces, as a part of a method that is indented by one level. -/
def blockText (unit body : List Char) : List Char :=
  if trim body = [] then [] else '\n' :: (indentLines (indentLines (trim body) unit) unit ++ '\n' :: unit)

theorem getLast?_trim (some_char : trim s ≠ []) : ∃ c ∈ (trim s).getLast?, isSpace c = false := by
  rcases exists_trimmed isSpace s with blank | ⟨lead, core, tail, rfl, trimmed⟩
  · exact absurd (trim_of_space blank) some_char
  · rw [trimmed.trim]
    exact trimmed.last

/-- A head with a body, indented. -/
theorem indentLines_bodyText (one : '\n' ∉ H) (letter : ∃ c ∈ H, isSpace c = false) (unit body : String) :
    indentLines (H ++ (bodyText unit (some body)).toList) unit.toList =
      unit.toList ++ H ++ '\x7b' :: (blockText unit.toList body.toList ++ ['\x7d']) := by
  obtain ⟨c, hc, letter⟩ := letter
  have one' {w : List Char} (no_feed : '\n' ∉ w) : '\n' ∉ H ++ w := fun feed => (List.mem_append.1 feed).elim one no_feed
  have letter' {w : List Char} : ∃ c ∈ H ++ w, isSpace c = false := ⟨c, List.mem_append_left _ hc, letter⟩
  unfold blockText
  split_ifs with empty
  · rw [toList_bodyText_of_blank empty, indentLines_line (one' (by decide)) letter', List.append_assoc]
    rfl
  · have cut : H ++ (bodyText unit (some body)).toList = (H ++ ['\x7b']) ++ '\n' ::
        (indentLines (trim body.toList) unit.toList ++ '\n' :: ['\x7d']) := by simp [toList_bodyText empty]
    have closing : indentLines ['\x7d'] unit.toList = unit.toList ++ ['\x7d'] := indentLines_line (by decide) ⟨'\x7d', by simp, rfl⟩
    rw [cut, indentLines_append ⟨'\x7b', by simp, rfl⟩ (by simp), indentLines_line (one' (by decide)) letter',
      indentLines_append (getLast?_indentLines (getLast?_trim empty) _) (by simp), closing]
    simp

/-- Behind an opening brace, a script on lines of its own is code. -/
theorem readsAsCode_lines (masked : mask .script s = .ok cells) :
    ReadsAsCode (code '\x7b' :: code '\n' :: (cells ++ [code '\n'])) := by
  intro follow v is_code
  obtain ⟨w, read, closed⟩ := maskFrom_eq_ok_iff.1 masked
  obtain ⟨v₁, opened, is_code₁, -, alike⟩ := exists_quotes_open is_code ((s ++ ['\n']).head?.or follow)
  obtain ⟨_, opened_read⟩ := opened.scans
  obtain ⟨v₂, opened', -⟩ := readsAsCode_code (w := ['\x7b', '\n']) (List.all_eq_true.1 rfl) ((s ++ ['\n']).head?.or follow) v is_code
  obtain ⟨rfl, rfl⟩ := opened_read.unique opened'
  obtain ⟨v₃, inside, alike'⟩ := alike.scans (read.dull isDull_none (isDull_of_isSpace (c := '\n') rfl))
  have reached := (scans_reached inside (reached_of_isCode is_code₁) fun h => absurd h (not_opened_of_isCode is_code₁)).1
  obtain ⟨v₄, feed, is_code₄, -⟩ := scans_feed_of_closed reached (alike'.unterminated? closed) follow
  have text : chars (code '\x7b' :: code '\n' :: (cells ++ [code '\n'])) = ['\x7b', '\n'] ++ (s ++ ['\n']) := by
    simp [read.chars]
  rw [text]
  exact ⟨v₄, opened'.append (inside.append (b := ['\n']) feed), is_code₄⟩

/-- Between braces and indented, a plain body is code, with brackets that nest. -/
theorem exists_bodyCells (plain : IsPlainBody body) (is_indent : IsIndent unit.toList) :
    ∃ block, chars block = blockText unit.toList body.toList ∧ ReadsAsCode (code '\x7b' :: block) ∧
      bracketsBalanced (brackets block) = true := by
  have valid := plain.valid
  rw [← String.ofList_toList (s := body)] at valid
  obtain ⟨cells, masked, balanced⟩ := exists_of_isValid valid
  obtain ⟨cells₁, masked₁, same₁, -⟩ := exists_mask_trim masked (List.all_eq_true.1 plain.start)
  unfold blockText
  split_ifs with empty
  · exact ⟨[], rfl, readsAsCode_code (w := ['\x7b']) (List.all_eq_true.1 rfl), rfl⟩
  · have ends := getLast?_indentLines (getLast?_trim empty) unit.toList
    have some_char : indentLines (trim body.toList) unit.toList ≠ [] := by
      intro none
      rw [none] at ends
      simp at ends
    have no_blanks : ∀ l ∈ lines (indentLines (trim body.toList) unit.toList), isBlankList l = true → ∀ c ∈ l, isAsciiSpace c = true := by
      intro l hl blank
      have hl' : l ∈ lines (indentLines (trim body.toList) unit.toList ++ ['\n']) := mem_lines_append_right ends hl blank
      rcases eq_nil_of_mem_lines_indentLines (fun feed => (is_indent.ascii _ feed).2 rfl) hl' blank with rfl | none
      · exact nofun
      · cases none
    -- The body is indented by one level in the method, and by another one in the class.
    obtain ⟨cells₂, masked₂, same₂⟩ := mask_indentLines is_indent.ascii empty
      (fun l hl blank => List.all_eq_true.1 (plain.blank l (mem_lines_of_mem_lines_trim hl blank) blank)) masked₁
    obtain ⟨cells₃, masked₃, same₃⟩ := mask_indentLines is_indent.ascii some_char no_blanks masked₂
    refine ⟨code '\n' :: (cells₃ ++ code '\n' :: unit.toList.map code), ?_, ?_, ?_⟩
    · obtain ⟨w, read, -⟩ := maskFrom_eq_ok_iff.1 masked₃
      simp [read.chars, Function.comp_def]
    · have indented : ReadsAsCode (unit.toList.map code) := readsAsCode_code fun c hc => by
        rcases is_indent c hc with rfl | rfl <;> rfl
      have whole := (readsAsCode_lines masked₃).append indented
      simpa using whole
    · have feed : brackets (code '\n' :: unit.toList.map code) = [] :=
        brackets_code (w := '\n' :: unit.toList) (List.forall_mem_cons.2 ⟨rfl, is_indent.isBlank⟩)
      have same : brackets (code '\n' :: (cells₃ ++ code '\n' :: unit.toList.map code)) = brackets cells := by
        rw [← List.singleton_append, brackets_append, brackets_append, feed, same₃, same₂, same₁, List.append_nil]
        rfl
      rw [same, balanced]

/-! ## Inline texts -/

/-- The text is inline code. -/
def IsInlineText (text : List Char) : Prop := ∃ cells, chars cells = text ∧ IsInline cells

theorem IsInlineText.append (hs : IsInlineText s) (ht : IsInlineText t) : IsInlineText (s ++ t) := by
  obtain ⟨a, rfl, ha⟩ := hs
  obtain ⟨b, rfl, hb⟩ := ht
  exact ⟨a ++ b, by rw [chars, List.map_append], ha.append hb⟩

theorem isInlineText_of_plain (plain : ∀ c ∈ s, isInlineChar c = true) : IsInlineText s :=
  ⟨s.map code, by simp [Function.comp_def], isInline_code plain⟩

theorem isInlineText_compact {v : Json} (numerals : Php.HasNumerals v) : IsInlineText v.compact.toList := by
  obtain ⟨cells, same, inline⟩ := writesInline_compactChars v numerals []
  rw [Json.compact, String.toList_ofList, same, List.append_nil]
  exact ⟨cells, rfl, inline⟩

theorem isInlineText_intercalate {sep : List Char} {ts : List (List Char)} (plain : ∀ c ∈ sep, isInlineChar c = true)
    (each : ∀ t ∈ ts, IsInlineText t) : IsInlineText (sep.intercalate ts) := by
  induction ts with
  | nil => exact isInlineText_of_plain nofun
  | cons t ts ih =>
    obtain ⟨here, more⟩ := List.forall_mem_cons.1 each
    cases ts with
    | nil => simpa [List.intercalate] using here
    | cons t' ts =>
      rw [List.intercalate_cons_cons, List.append_assoc]
      exact here.append ((isInlineText_of_plain plain).append (ih more))

theorem isInlineChar_of_isPlainWord {c : Char} (h : isPlainWord c = true) : isInlineChar c = true :=
  isInlineChar_of isPlainWord rfl h

/-- A parameter with an identifier for a name and a value for a default. -/
structure Parameter.IsPlain (p : Parameter) : Prop where
  named : isIdentifier p.name = true
  numerals : ∀ v ∈ p.default, Php.HasNumerals v

/-- What says a value is inline code, which begins with an equals sign. -/
theorem exists_valueCells {v : Option Json} (numerals : ∀ j ∈ v, Php.HasNumerals j) :
    ∃ cells, chars cells = (textOf v fun j => " = " ++ j.compact).toList ∧ IsInline cells ∧
      (cells = [] ∨ ∃ more, cells = code ' ' :: code '=' :: more) := by
  cases v with
  | none => exact ⟨[], rfl, .nil, .inl rfl⟩
  | some j =>
    obtain ⟨cells, same, inline⟩ := isInlineText_compact (numerals j rfl)
    have equals : IsInline (" = ".toList.map code) := isInline_code (List.all_eq_true.1 rfl)
    have text : (textOf (some j) fun j => " = " ++ j.compact).toList = " = ".toList ++ j.compact.toList := String.toList_append
    refine ⟨" = ".toList.map code ++ cells, ?_, equals.append inline, .inr ⟨code ' ' :: cells, rfl⟩⟩
    rw [text, ← same]
    rfl

theorem Parameter.IsPlain.isInlineText {p : Parameter} (plain : p.IsPlain) : IsInlineText (p.print .javascript).toList := by
  have text : (p.print .javascript).toList =
      (textIf p.rest "...").toList ++ (p.name.toList ++ (textOf p.default fun v => " = " ++ v.compact).toList) := by
    simp [Parameter.print, textIf, Dialect.isTyped]
  have dots : IsInlineText (textIf p.rest "...").toList := by
    cases p.rest
    · exact isInlineText_of_plain nofun
    · exact isInlineText_of_plain (List.all_eq_true.1 rfl)
  obtain ⟨value, same, inline, -⟩ := exists_valueCells plain.numerals
  rw [text]
  refine dots.append (.append (isInlineText_of_plain fun c hc => ?_) ⟨value, same, inline⟩)
  exact isInlineChar_of_isPlainWord (isPlainWord_of_isIdentifier plain.named c hc)

/-- The parameters of a method and a space are inline code behind a bracket. -/
theorem exists_paramCells {params : List Parameter} (plain : ∀ p ∈ params, p.IsPlain) :
    ∃ ps, chars (code '(' :: ps) = (paramsText .javascript params).toList ++ [' '] ∧ IsInline (code '(' :: ps) := by
  have each : ∀ t ∈ (params.map (Parameter.print .javascript)).map String.toList, IsInlineText t := by
    rw [List.forall_mem_map, List.forall_mem_map]
    exact fun p hp => (plain p hp).isInlineText
  have comma : ∀ c ∈ ", ".toList, isInlineChar c = true := List.all_eq_true.1 rfl
  obtain ⟨cells, same, inline⟩ := isInlineText_intercalate comma each
  have space : IsInline [code ' '] := isInline_code (w := [' ']) (List.all_eq_true.1 rfl)
  have round : openerOf? ')' = some '(' := rfl
  have whole := (inline.enclosed round).append space
  have text : (paramsText .javascript params).toList = '(' :: (chars cells ++ [')']) := by
    rw [paramsText, String.toList_append, String.toList_append, String.toList_intercalate, same]
    simp
  refine ⟨_, ?_, whole⟩
  rw [text]
  simp

/-! ## Members -/

/-- The text is code in which a search for methods finds some names. -/
def WritesMembers (text : List Char) (names : List String) : Prop :=
  ∃ cells, chars cells = text ∧ ReadsAsCode cells ∧ bracketsBalanced (brackets cells) = true ∧ Lists cells names

theorem WritesMembers.nil : WritesMembers [] [] := ⟨[], rfl, .nil, rfl, .nil⟩

theorem WritesMembers.append (hs : WritesMembers s names) (ht : WritesMembers t names') :
    WritesMembers (s ++ t) (names ++ names') := by
  obtain ⟨a, rfl, reads, balanced, lists⟩ := hs
  obtain ⟨b, rfl, reads', balanced', lists'⟩ := ht
  exact ⟨a ++ b, by rw [chars, List.map_append], reads.append reads', balanced_append balanced balanced', lists.append lists'⟩

/-- Text without names adds none. -/
theorem WritesMembers.behind (hs : WritesMembers s []) (ht : WritesMembers t names) : WritesMembers (s ++ t) names := hs.append ht

theorem WritesMembers.flatMap {α : Type} {xs : List α} {f : α → List Char} {g : α → List String}
    (each : ∀ x ∈ xs, WritesMembers (f x) (g x)) : WritesMembers (xs.flatMap f) (xs.flatMap g) := by
  induction xs with
  | nil => exact .nil
  | cons x xs ih =>
    obtain ⟨here, more⟩ := List.forall_mem_cons.1 each
    exact here.append (ih more)

theorem writesMembers_feed : WritesMembers ['\n'] [] :=
  ⟨[code '\n'], rfl, readsAsCode_code (w := ['\n']) (List.all_eq_true.1 rfl), rfl, lists_feed⟩

/-- The words in front of the name of a member. -/
def memberWords (isStatic isAsync : Bool) : List String :=
  (if isStatic then ["static"] else []) ++ if isAsync then ["async"] else []

theorem mem_memberWords (isStatic isAsync : Bool) : ∀ s ∈ memberWords isStatic isAsync, s = "static" ∨ s = "async" := by
  cases isStatic <;> cases isAsync <;> simp [memberWords]

theorem spaced_memberWords (isStatic isAsync : Bool) :
    spaced (memberWords isStatic isAsync) = (textIf isStatic "static ").toList ++ (textIf isAsync "async ").toList := by
  cases isStatic <;> cases isAsync <;> rfl

/-- A field with an identifier for a name and a value. -/
structure ClassField.IsPlain (f : ClassField) : Prop where
  named : isIdentifier f.name = true
  numerals : ∀ v ∈ f.value, Php.HasNumerals v

theorem ClassField.toList_print (f : ClassField) : (f.print .javascript).toList =
    spaced (memberWords f.isStatic false) ++ (f.name.toList ++ ((textOf f.value fun v => " = " ++ v.compact).toList ++ [';'])) := by
  rw [spaced_memberWords]
  simp [ClassField.print, accessText, textIf, Dialect.isTyped]

theorem isInlineChar_of_isHeadChar {c : Char} (h : isHeadChar c = true) : isInlineChar c = true :=
  isInlineChar_of isHeadChar rfl h

theorem ClassField.IsPlain.isInlineText {f : ClassField} (plain : f.IsPlain) : IsInlineText (f.print .javascript).toList := by
  obtain ⟨c, cs, name, starts, more⟩ := exists_of_isIdentifier plain.named
  have no_indent : IsIndent [] := nofun
  have heads := isHeadChar_front no_indent (mem_memberWords f.isStatic false) starts more
  obtain ⟨value, value_text, value_inline, -⟩ := exists_valueCells plain.numerals
  have front := isInlineText_of_plain fun d hd => isInlineChar_of_isHeadChar (heads d hd)
  have whole := front.append (.append ⟨value, value_text, value_inline⟩ (isInlineText_of_plain (s := [';']) (List.all_eq_true.1 rfl)))
  rw [f.toList_print, name]
  simpa using whole

/-- A field is a line without a method. -/
theorem ClassField.IsPlain.writesMembers {f : ClassField} (plain : f.IsPlain) (is_indent : IsIndent indent) :
    WritesMembers (indent ++ (f.print .javascript).toList ++ ['\n']) [] := by
  obtain ⟨c, cs, name, starts, more⟩ := exists_of_isIdentifier plain.named
  have heads := isHeadChar_front is_indent (mem_memberWords f.isStatic false) starts more
  obtain ⟨value, value_text, value_inline, begins⟩ := exists_valueCells plain.numerals
  have semicolon : IsInline [code ';'] := isInline_code (w := [';']) (List.all_eq_true.1 rfl)
  generalize front_eq : indent ++ (spaced (memberWords f.isStatic false) ++ c :: cs) = front at heads
  have inline := (isInline_code fun d hd => isInlineChar_of_isHeadChar (heads d hd)).append (value_inline.append semicolon)
  refine ⟨front.map code ++ (value ++ [code ';']) ++ [code '\n'], ?_, ?_, balanced_append inline.balanced rfl,
    lists_line inline.oneLine inline.noAngle (bracesBehind_of_balanced inline.balanced) fun size before place t => ?_⟩
  · rw [f.toList_print, name, ← value_text, ← front_eq]
    simp [Function.comp_def]
  · exact inline.reads.append (readsAsCode_code (w := ['\n']) (List.all_eq_true.1 rfl))
  · -- Behind the name come a space and an equals sign, or a semicolon.
    have plain_front : ∀ d ∈ front, (isHeadChar d || isSpace d) = true := fun d hd => by rw [heads d hd, Bool.true_or]
    rcases begins with rfl | ⟨more, rfl⟩
    · have line : faces (front.map code ++ ([] ++ [code ';'])) ++ '\n' :: t = front ++ ';' :: '\n' :: t := by
        rw [faces_append, faces_code]
        simp [Cell.face]
      rw [line]
      exact matchAt?_method_eq_none plain_front (by decide) (by decide) size before place _
    · have line : faces (front.map code ++ (code ' ' :: code '=' :: more ++ [code ';'])) ++ '\n' :: t =
          (front ++ [' ']) ++ '=' :: (faces more ++ ';' :: '\n' :: t) := by
        rw [faces_append, faces_code]
        simp [Cell.face]
      rw [line]
      exact matchAt?_method_eq_none (List.forall_mem_append.2 ⟨plain_front, List.all_eq_true.1 rfl⟩) (by decide) (by decide) size before place _

theorem feed_mem_faces (h : '\n' ∈ chars cells) : '\n' ∈ faces cells := by
  obtain ⟨⟨c, shown⟩, hc, rfl⟩ := List.mem_map.1 h
  refine List.mem_map.2 ⟨_, hc, ?_⟩
  cases shown <;> rfl

theorem IsInlineText.oneLine (inline : IsInlineText s) : '\n' ∉ s := by
  obtain ⟨cells, rfl, inline⟩ := inline
  exact fun feed => inline.oneLine (feed_mem_faces feed)

/-- A method with an identifier for a name, with plain parameters and a plain body. -/
structure Method.IsPlainMember (m : Method) : Prop where
  named : isIdentifier m.name = true
  params : ∀ p ∈ m.params, p.IsPlain
  body : ∀ b ∈ m.body, IsPlainBody b

theorem Method.toList_head (m : Method) : (m.head .javascript).toList =
    spaced (memberWords m.isStatic m.isAsync) ++ (m.name.toList ++ ((paramsText .javascript m.params).toList ++ [' '])) := by
  rw [spaced_memberWords]
  simp [Method.head, accessText, returnText, textIf, Dialect.isTyped]

/-- A search for methods finds the name of a method. -/
theorem Method.IsPlainMember.writesMembers {m : Method} (plain : m.IsPlainMember) (is_indent : IsIndent unit.toList) :
    WritesMembers (indentLines (m.print ⟨.javascript, unit⟩).toList unit.toList ++ ['\n']) [m.name] := by
  obtain ⟨c, cs, name, starts, more⟩ := exists_of_isIdentifier plain.named
  obtain ⟨ps, params_text, params⟩ := exists_paramCells plain.params
  have body : IsPlainBody (m.body.getD "") := by
    cases has : m.body with
    | none => exact isPlainBody_empty
    | some b => exact plain.body b has
  obtain ⟨block, block_text, reads, balanced⟩ := exists_bodyCells body is_indent
  have words := mem_memberWords m.isStatic m.isAsync
  have lists := lists_method is_indent words starts more params (bracesBehind_of_balanced balanced)
  have heads := isHeadChar_front is_indent words starts more
  have head : IsInline (methodHead unit.toList (memberWords m.isStatic m.isAsync) (c :: cs) ps) :=
    (isInline_code fun d hd => isInlineChar_of_isHeadChar (heads d hd)).append params
  have head_text : chars (methodHead unit.toList (memberWords m.isStatic m.isAsync) (c :: cs) ps) =
      unit.toList ++ (m.head .javascript).toList := by
    rw [m.toList_head, name, ← params_text, methodHead]
    simp [Function.comp_def]
  have one : '\n' ∉ (m.head .javascript).toList := fun feed =>
    head.oneLine (feed_mem_faces (head_text ▸ List.mem_append_right _ feed))
  have letter : ∃ d ∈ (m.head .javascript).toList, isSpace d = false := by
    refine ⟨c, ?_, isSpace_of_isPlainWord (isPlainWord_of_isNameStart starts)⟩
    rw [m.toList_head, name]
    simp
  rw [← name, String.ofList_toList, name] at lists
  refine ⟨_, ?_, head.reads.blockCells reads, balanced_blockCells head.balanced balanced, lists⟩
  have same : bodyText unit m.body = bodyText unit (some (m.body.getD "")) := rfl
  rw [Method.print_eq, String.toList_append, same, indentLines_bodyText one letter, ← head_text, ← block_text, blockCells]
  simp

/-! ## Generated bodies -/

/-- A line of generated code, from one letter to another. -/
structure IsCodeLine (text : List Char) : Prop where
  inline : IsInlineText text
  first : ∃ c ∈ text.head?, isSpace c = false
  last : ∃ c ∈ text.getLast?, isSpace c = false

/-- Lines of generated code are code, with brackets that nest. -/
theorem exists_linesCells {ts : List (List Char)} (each : ∀ t ∈ ts, IsCodeLine t) :
    ∃ cells, chars cells = ['\n'].intercalate ts ∧ ReadsAsCode cells ∧ bracketsBalanced (brackets cells) = true := by
  induction ts with
  | nil => exact ⟨[], rfl, .nil, rfl⟩
  | cons t ts ih =>
    obtain ⟨here, more⟩ := List.forall_mem_cons.1 each
    obtain ⟨a, rfl, inline⟩ := here.inline
    cases ts with
    | nil => exact ⟨a, by simp [List.intercalate], inline.reads, inline.balanced⟩
    | cons t' ts =>
      obtain ⟨b, same, reads, balanced⟩ := ih more
      have feed : ReadsAsCode [code '\n'] := readsAsCode_code (w := ['\n']) (List.all_eq_true.1 rfl)
      refine ⟨a ++ ([code '\n'] ++ b), ?_, inline.reads.append (feed.append reads),
        balanced_append inline.balanced (balanced_append rfl balanced)⟩
      rw [List.intercalate_cons_cons, ← same]
      simp

/-- Code that stands by itself is a script, and valid if its brackets nest. -/
theorem ReadsAsCode.mask (reads : ReadsAsCode cells) : mask .script (chars cells) = .ok cells := by
  obtain ⟨v, read, is_code⟩ := reads none {} isCode_start
  exact maskFrom_eq_ok_iff.2 ⟨v, read, is_code.closed⟩

theorem ReadsAsCode.isValid {text : String} (reads : ReadsAsCode cells) (balanced : bracketsBalanced (brackets cells) = true)
    (same : text.toList = chars cells) : isValid text = true := by
  rw [Script.isValid, same, reads.mask]
  exact (bracketsBalanced_faces cells).trans balanced

/-- Lines of generated code are a plain body. -/
theorem isPlainBody_of_lines {ts : List String} (each : ∀ t ∈ ts.map String.toList, IsCodeLine t) :
    IsPlainBody (String.intercalate "\n" ts) := by
  have text : (String.intercalate "\n" ts).toList = ['\n'].intercalate (ts.map String.toList) := by
    rw [String.toList_intercalate]
    rfl
  obtain ⟨cells, same, reads, balanced⟩ := exists_linesCells each
  refine ⟨reads.isValid balanced (text.trans same.symm), ?_, fun l hl blank => ?_⟩
  · rw [text]
    cases ts with
    | nil => rfl
    | cons t ts =>
      obtain ⟨c, first, letter⟩ := (each t.toList List.mem_cons_self).first
      obtain ⟨more, first⟩ := List.head?_eq_some_iff.1 first
      have begins : ∃ r, ['\n'].intercalate ((t :: ts).map String.toList) = c :: r := by
        cases ts <;> simp [List.intercalate, first]
      obtain ⟨r, begins⟩ := begins
      rw [begins, List.takeWhile_cons_of_neg (by simp [letter])]
      rfl
  · rw [text, lines_intercalate fun t ht => ⟨(each t ht).inline.oneLine, (each t ht).last⟩] at hl
    obtain ⟨c, last, letter⟩ := (each l hl).last
    rw [not_isBlankList (List.mem_of_getLast? last) letter] at blank
    cases blank

/-! ## Sections -/

/-- The lines of a constructor that stores its parameters. -/
def Class.constructorLines (c : Class) (params : List Parameter) : List String :=
  (if c.parent.isSome then ["super();"] else []) ++ params.map fun p => "this." ++ p.name ++ " = " ++ p.name ++ ";"

/-- The constructor as a method. -/
def Class.constructorMethod (c : Class) (params : List Parameter) : Method :=
  { name := "constructor", params := params, body := some (String.intercalate "\n" (c.constructorLines params)) }

theorem Class.constructorText_eq (c : Class) (unit : String) (params : List Parameter) :
    c.constructorText ⟨.javascript, unit⟩ params = (c.constructorMethod params).print ⟨.javascript, unit⟩ := by
  simp [constructorText, constructorMethod, constructorLines, Method.print, accessText, returnText, textIf, Dialect.isTyped]

theorem isCodeLine_super : IsCodeLine "super();".toList := by
  have round : IsInline (code '(' :: ([] ++ [code ')'])) := IsInline.nil.enclosed rfl
  have word : IsInline ("super".toList.map code) := isInline_code (List.all_eq_true.1 rfl)
  have semicolon : IsInline ([';'].map code) := isInline_code (List.all_eq_true.1 rfl)
  exact ⟨⟨_, rfl, word.append (round.append semicolon)⟩, ⟨'s', rfl, rfl⟩, ';', rfl, rfl⟩

theorem isCodeLine_assignment {name : String} (named : isIdentifier name = true) :
    IsCodeLine ("this." ++ name ++ " = " ++ name ++ ";").toList := by
  have text : ("this." ++ name ++ " = " ++ name ++ ";").toList =
      "this.".toList ++ (name.toList ++ (" = ".toList ++ (name.toList ++ ";".toList))) := by simp
  have letters : ∀ c ∈ name.toList, isInlineChar c = true :=
    fun c hc => isInlineChar_of_isPlainWord (isPlainWord_of_isIdentifier named c hc)
  rw [text]
  refine ⟨isInlineText_of_plain ?_, ⟨'t', rfl, rfl⟩, ';', ?_, rfl⟩
  · simp only [List.forall_mem_append]
    exact ⟨List.all_eq_true.1 rfl, letters, List.all_eq_true.1 rfl, letters, List.all_eq_true.1 rfl⟩
  · exact List.getLast?_eq_some_iff.2 ⟨"this.".toList ++ (name.toList ++ (" = ".toList ++ name.toList)), by simp⟩

theorem Class.isPlainMember_constructor {params : List Parameter} (plain : ∀ p ∈ params, p.IsPlain) (c : Class) :
    (c.constructorMethod params).IsPlainMember := by
  have named : isIdentifier "constructor" = true := by decide
  refine ⟨named, plain, fun b hb => ?_⟩
  obtain rfl := Option.some.inj hb
  refine isPlainBody_of_lines ?_
  rw [List.forall_mem_map]
  intro t ht
  rcases List.mem_append.1 ht with ht | ht
  · split_ifs at ht
    · rw [List.mem_singleton.1 ht]
      exact isCodeLine_super
    · cases ht
  · obtain ⟨p, hp, rfl⟩ := List.mem_map.1 ht
    exact isCodeLine_assignment (plain p hp).named

/-- A class with identifiers for its names, whose bodies are plain. None of its methods is named by a word that is no name of a
method. -/
structure Class.IsPlain (c : Class) : Prop where
  named : isIdentifier c.name = true
  parent : ∀ p ∈ c.parent, isDottedName p = true
  params : ∀ ps ∈ c.constructorParams, ∀ p ∈ ps, p.IsPlain
  fields : ∀ f ∈ c.fields, f.IsPlain
  methods : ∀ m ∈ c.methods, m.IsPlainMember
  notWords : ∀ m ∈ c.methods, m.name ∉ notMethods

/-- The names of the methods that a class has: its constructor, if its parameters are given, and its methods. -/
def Class.methodNames (c : Class) : List String :=
  (if c.constructorParams.isSome then ["constructor"] else []) ++ c.methods.map (·.name)

/-- What stands between the braces of a class: its sections, indented, with line feeds around each. -/
def Class.inner (c : Class) (unit : String) : List Char :=
  (c.sections ⟨.javascript, unit⟩).flatMap fun part => '\n' :: (indentLines part.toList unit.toList ++ ['\n'])

/-- The text of a class. -/
theorem Class.toList_print (c : Class) (unit : String) : (c.print ⟨.javascript, unit⟩).toList =
    (c.head .javascript).toList ++ ' ' :: '\x7b' :: (c.inner unit ++ ['\x7d', '\n']) := by
  have joined {parts : List (List Char)} (some_part : parts ≠ []) :
      '\n' :: (['\n', '\n'].intercalate parts ++ ['\n']) = parts.flatMap fun p => '\n' :: (p ++ ['\n']) := by
    induction parts with
    | nil => exact absurd rfl some_part
    | cons p parts ih =>
      cases parts with
      | nil => simp [List.intercalate]
      | cons q parts =>
        rw [List.flatMap_cons, ← ih (by simp), List.intercalate_cons_cons]
        simp
  unfold inner Class.print
  split_ifs with empty
  · rw [List.isEmpty_iff.1 empty]
    simp
  · have some_section : (c.sections ⟨.javascript, unit⟩).map (fun part => indentLines part.toList unit.toList) ≠ [] := by
      simpa using empty
    have inner := joined some_section
    rw [List.flatMap_map] at inner
    rw [← inner]
    simp [String.toList_intercalate, indentText, Function.comp_def]

/-- A method with line feeds around it. -/
theorem Method.IsPlainMember.writesSection {m : Method} (plain : m.IsPlainMember) (is_indent : IsIndent unit.toList) :
    WritesMembers ('\n' :: (indentLines (m.print ⟨.javascript, unit⟩).toList unit.toList ++ ['\n'])) [m.name] := by
  have whole := writesMembers_feed.behind (plain.writesMembers is_indent)
  rwa [List.singleton_append] at whole

/-- The fields of a class, with line feeds around them. -/
theorem writesMembers_fields {fields : List ClassField} (plain : ∀ f ∈ fields, f.IsPlain) (some_field : fields ≠ [])
    (is_indent : IsIndent unit.toList) :
    WritesMembers
      ('\n' :: (indentLines (String.intercalate "\n" (fields.map (ClassField.print .javascript))).toList unit.toList ++ ['\n']))
      [] := by
  have each : ∀ l ∈ (fields.map (ClassField.print .javascript)).map String.toList,
      '\n' ∉ l ∧ ∃ c ∈ l.getLast?, isSpace c = false := by
    rw [List.forall_mem_map, List.forall_mem_map]
    intro f hf
    refine ⟨(plain f hf).isInlineText.oneLine, ';', ?_, rfl⟩
    rw [f.toList_print]
    simp [List.getLast?_append]
  have text : (String.intercalate "\n" (fields.map (ClassField.print .javascript))).toList =
      ['\n'].intercalate ((fields.map (ClassField.print .javascript)).map String.toList) := by
    rw [String.toList_intercalate]
    rfl
  rw [text, indentLines_intercalate each (by simpa using some_field), List.flatMap_map, List.flatMap_map]
  have lines := WritesMembers.flatMap (g := fun _ => []) fun f hf => (plain f hf).writesMembers is_indent
  have none : (fields.flatMap fun _ => ([] : List String)) = [] := by simp
  rw [none] at lines
  have whole := writesMembers_feed.behind lines
  rwa [List.singleton_append] at whole

/-- Between the braces of a plain class, a search for methods finds its methods. -/
theorem Class.IsPlain.writesMembers (plain : c.IsPlain) (is_indent : IsIndent unit.toList) :
    WritesMembers (c.inner unit) c.methodNames := by
  unfold inner sections methodNames
  rw [List.flatMap_append, List.flatMap_append, List.flatMap_map, List.append_assoc]
  refine .behind ?_ (.append ?_ ?_)
  · split_ifs with empty
    · exact .nil
    · rw [List.flatMap_singleton]
      exact writesMembers_fields plain.fields (by simpa using empty) is_indent
  · cases given : c.constructorParams with
    | none => exact .nil
    | some params =>
      have section_ : c.constructorText ⟨.javascript, unit⟩ params = _ := c.constructorText_eq unit params
      rw [Option.toList_some, List.flatMap_singleton, section_]
      exact (c.isPlainMember_constructor (plain.params params given)).writesSection is_indent
  · rw [List.flatMap_map, List.map_eq_flatMap]
    exact .flatMap fun m hm => (plain.methods m hm).writesSection is_indent

/-! ## The head -/

/-- The words in front of a class. -/
def Class.exportWords (c : Class) : List String :=
  if c.exportedAsDefault then ["export", "default"] else if c.exported then ["export"] else []

theorem Class.isExport_exportWords (c : Class) : IsExport c.exportWords := by
  unfold exportWords
  split_ifs
  · exact .inr (.inr rfl)
  · exact .inr (.inl rfl)
  · exact .inl rfl

theorem Class.toList_head (c : Class) :
    (c.head .javascript).toList = spaced c.exportWords ++ ("class ".toList ++ (c.name.toList ++ parentText c.parent)) := by
  have words : spaced c.exportWords = (exportText c.exported c.exportedAsDefault).toList := by
    unfold exportWords exportText textIf
    split_ifs <;> rfl
  have parent : parentText c.parent = (textOf c.parent (" extends " ++ ·)).toList := by
    unfold parentText textOf
    cases c.parent <;> simp
  rw [words, parent]
  simp [Class.head, textIf, Dialect.isTyped]

/-- The cells of the head of a class, up to its opening brace. -/
def Class.headCells (c : Class) : List Cell := ((c.head .javascript).toList ++ [' ']).map code

theorem Class.length_headCells (c : Class) : c.headCells.length =
    (spaced c.exportWords).length + 6 + c.name.toList.length + (parentText c.parent).length + 1 := by
  rw [headCells, List.length_map, List.length_append, c.toList_head]
  simp
  omega

/-- A class from its head on. -/
theorem Class.head_append (c : Class) (r : List Char) : (c.head .javascript).toList ++ ' ' :: '\x7b' :: r =
    spaced c.exportWords ++ ("class ".toList ++ (c.name.toList ++ (parentText c.parent ++ ' ' :: '\x7b' :: r))) := by
  rw [c.toList_head]
  simp

theorem Class.faces_headCells (c : Class) (u : List Cell) : faces (blockCells c.headCells u) =
    (c.head .javascript).toList ++ ' ' :: '\x7b' :: (faces u ++ ['\x7d', '\n']) := by
  rw [blockCells, headCells, faces_append, faces_code]
  simp [Cell.face]

theorem Class.chars_headCells (c : Class) (u : List Cell) : chars (blockCells c.headCells u) =
    (c.head .javascript).toList ++ ' ' :: '\x7b' :: (chars u ++ ['\x7d', '\n']) := by
  simp [blockCells, headCells, Function.comp_def]

theorem Class.IsPlain.isInline_head (plain : c.IsPlain) : IsInline c.headCells := by
  refine isInline_code ?_
  have words : ∀ ws, IsExport ws → ∀ d ∈ spaced ws, isInlineChar d = true := by
    rintro ws (rfl | rfl | rfl) <;> exact List.all_eq_true.1 rfl
  have parent : ∀ d ∈ parentText c.parent, isInlineChar d = true := by
    cases given : c.parent with
    | none => exact nofun
    | some p =>
      obtain ⟨e, es, same, starts, more⟩ := exists_of_isDottedName (plain.parent p given)
      have letters : ∀ d ∈ p.toList, isInlineChar d = true := by
        rw [same]
        refine List.forall_mem_cons.2 ⟨isInlineChar_of_isPlainWord (isPlainWord_of_isNameStart starts), fun d hd => ?_⟩
        exact isInlineChar_of isDottedRest rfl (more d hd)
      have keyword : ∀ d ∈ " extends ".toList, isInlineChar d = true := List.all_eq_true.1 rfl
      exact List.forall_mem_append.2 ⟨keyword, letters⟩
  have name : ∀ d ∈ c.name.toList, isInlineChar d = true :=
    fun d hd => isInlineChar_of_isPlainWord (isPlainWord_of_isIdentifier plain.named d hd)
  rw [c.toList_head]
  simp only [List.forall_mem_append]
  exact ⟨⟨words _ c.isExport_exportWords, List.all_eq_true.1 rfl, name, parent⟩, List.all_eq_true.1 rfl⟩

/-- A plain class is written as a head and a block of members. -/
theorem Class.IsPlain.exists_cells (plain : c.IsPlain) (is_indent : IsIndent unit.toList) :
    ∃ u, (c.print ⟨.javascript, unit⟩).toList = chars (blockCells c.headCells u) ∧ ReadsAsCode (blockCells c.headCells u) ∧
      bracketsBalanced (brackets (blockCells c.headCells u)) = true ∧ Lists u c.methodNames := by
  obtain ⟨u, text, reads, balanced, lists⟩ := plain.writesMembers is_indent
  have head := plain.isInline_head
  have opening : ReadsAsCode [code '\x7b'] := readsAsCode_code (w := ['\x7b']) (List.all_eq_true.1 rfl)
  refine ⟨u, ?_, head.reads.blockCells (opening.append reads), balanced_blockCells head.balanced balanced, lists⟩
  rw [c.toList_print, ← text, blockCells, headCells]
  simp [Function.comp_def]

end Codewright.Script
