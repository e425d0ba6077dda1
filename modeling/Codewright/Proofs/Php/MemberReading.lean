import Codewright.Proofs.Php.MemberText

/-!
# Reading the members of a class

The tokens of a member are read as a member of which a summary says the same. What is read has another place in a
source, and perhaps a comment.

* `ShowsMembers` – a summary says of some members what their descriptors say;
* `Finds.member` – modifiers, and what stands behind them;
* `Descriptor.Entry.finds`, `Descriptor.finds_members` – the members made of descriptors, one by one and in braces.
-/

namespace Codewright.Php

open Text Source

/-! ## What a summary says of members -/

namespace Descriptor

/-- What a summary says of the method. -/
def Method.summary (m : Method) : Summary.Method :=
  ⟨m.name, m.modifiers, m.returnType, m.parameters.map Parameter.summary⟩

/-- What a summary says of the property. -/
def Property.summary (p : Property) : Summary.Property :=
  ⟨bareName p.name, p.modifiers, p.type, p.default.map fun v => Expr.print (literalOf v)⟩

namespace Entry

/-- The traits that the entry brings in. -/
def traitNames : Entry → List Name
  | .traits names => names
  | _ => []

/-- The constants that the entry declares. -/
def constantNames : Entry → List String
  | .constant c => [c.name]
  | _ => []

/-- The methods that the entry declares. -/
def methods : Entry → List Summary.Method
  | .method m => [m.summary]
  | _ => []

/-- The properties that the entry declares. -/
def properties : Entry → List Summary.Property
  | .property p => [p.summary]
  | _ => []

end Entry

end Descriptor

/-- A summary says of the members what the descriptors say. -/
structure ShowsMembers (xs : List Member) (es : List Descriptor.Entry) : Prop where
  traits : Summary.traitsOf (xs.flatMap Node.declarations) = es.flatMap Descriptor.Entry.traitNames
  constants : Summary.constantsOf (xs.flatMap Node.declarations) = es.flatMap Descriptor.Entry.constantNames
  methods : Summary.Method.ofMembers (xs.flatMap Node.declarations) = es.flatMap Descriptor.Entry.methods
  properties : Summary.Property.ofMembers (xs.flatMap Node.declarations) = es.flatMap Descriptor.Entry.properties

namespace ShowsMembers

variable {xs xs' : List Member} {es es' : List Descriptor.Entry}

theorem append (h : ShowsMembers xs es) (h' : ShowsMembers xs' es') : ShowsMembers (xs ++ xs') (es ++ es') := by
  obtain ⟨traits, constants, methods, properties⟩ := h
  obtain ⟨traits', constants', methods', properties'⟩ := h'
  constructor
  all_goals
    simp only [Summary.traitsOf, Summary.constantsOf, Summary.Method.ofMembers, Summary.Property.ofMembers,
      List.flatMap_append, List.filterMap_append] at *
    simp only [*]

/-- Comments say nothing. -/
theorem comments (texts : List String) : ShowsMembers (texts.map .memberComment) [] := by
  have none : (texts.map Node.memberComment).flatMap Node.declarations = [] := by
    have each (text : String) : (Node.memberComment text).declarations = [] := rfl
    simp [List.flatMap_map, each]
  constructor <;> rw [none] <;> rfl

end ShowsMembers

/-! ## Modifiers -/

/-- In front of a token that is no modifier, modifiers that go together are read. -/
theorem Reads.memberModifiers {ws : List Modifier} {m : Modifiers} {rest : List Face}
    (added : Modifiers.none.addAll? ws = some m) (consistent : (m.isAbstract && m.isFinal) = false)
    (behind : Begins (fun f => NoModifier f ∧ f.isKeyword "var" = false) rest) :
    Reads Parse.memberModifiers (ws.map Modifier.face) m rest := by
  obtain ⟨f, fs, rfl, no_modifier, no_var⟩ := behind
  refine Reads.bind_nil (.refine_words added ?round ?last) ?_
  case round =>
    intro m m' w _ added r
    refine Reads.get_bind fun s hs => ?_
    rw [Parse.nextModifier?_face w.mem_all hs]
    exact (Reads.addModifier added).map some
  case last =>
    intro m
    refine Reads.get_bind fun s hs => ?_
    rw [Parse.nextModifier?_none (fun w _ => no_modifier w) hs]
    simp only [Stream.atKeyword_eq hs, no_var, Bool.false_eq_true, if_false]
    exact .pure _ _
  rw [consistent]
  exact .pure _ _

/-- What is read of a member behind its modifiers. -/
def Grammar.memberBehind (g : Grammar) (start : Nat) (m : Modifiers) (doc : Option String) : Parse Member := do
  if ← Parse.tryKeyword "const" then g.classConst m doc []
  else if ← Parse.tryKeyword "function" then g.method start m doc []
  else g.property start m doc []

/-- A member behind at least one modifier. -/
theorem Finds.member {g : Grammar} {w : Modifier} {ws : List Modifier} {m : Modifiers} {fs rest : List Face}
    {P : Member → Prop} (added : Modifiers.none.addAll? (w :: ws) = some m)
    (consistent : (m.isAbstract && m.isFinal) = false)
    (behind : Begins (fun f => NoModifier f ∧ f.isKeyword "var" = false) fs)
    (h : ∀ start doc, Finds (g.memberBehind start m doc) fs P rest) :
    Finds g.member ((w :: ws).map Modifier.face ++ fs) P rest := by
  refine Finds.get_bind fun s hs => ?_
  have no_use : s.atKeyword "use" = false := by
    rw [Stream.atKeyword_eq hs]
    cases w <;> decide
  have no_case : w.face.isKeyword "case" = false := by
    cases w <;> decide
  rw [no_use]
  refine Finds.get_bind fun s _ => Finds.nil_bind .takeDoc fun before _ => ?_
  refine Finds.nil_bind (P := (· = [])) ((Reads.attributes_nil (.cons (by simp [Modifier.face]) _)).finds rfl) ?_
  rintro _ rfl
  have modified (doc : Option String) : Finds (do
      if ← Parse.tryKeyword "case" then g.enumCase doc []
      else
        let modifiers ← Parse.memberModifiers
        if ← Parse.tryKeyword "const" then g.classConst modifiers doc []
        else if ← Parse.tryKeyword "function" then g.method s.peek.span.start modifiers doc []
        else g.property s.peek.span.start modifiers doc []) ((w :: ws).map Modifier.face ++ fs) P rest := by
    refine Finds.nil_bind (P := (· = false)) ((Reads.tryKeyword_false no_case).finds rfl) ?_
    rintro _ rfl
    refine Finds.bind_reads (Reads.memberModifiers added consistent (behind.append rest)) ?_
    exact h s.peek.span.start doc
  cases before with
  | some doc => exact modified (some doc)
  | none => exact Finds.nil_bind .takeDoc fun doc _ => modified doc

/-! ## The members made of descriptors -/

namespace Descriptor

variable {n : Nat}

theorem finds_traits {names : List Name} (ne_nil : names ≠ []) (rest : List Face) :
    Finds (Grammar.upTo n).member (Entry.traits names).faces (fun x => ShowsMembers [x] [.traits names]) rest := by
  have items : List.Forall₂ (fun fs name => ∀ r, True → Reads (Parse.expectIdent "trait name") fs name r)
      (names.map nameFaces) names :=
    List.forall₂_map_left_iff.2 <| List.forall₂_same.2 fun name _ r _ => Reads.expectIdent "trait name"
  have traits : Reads (Parse.nameList "trait name") (commaFaces (names.map nameFaces)) names
      ((.semicolon, ";") :: rest) :=
    Reads.commaList items (by simpa using ne_nil) (by decide) (fun _ => trivial) trivial
  have use : Reads Parse.traitUse (Entry.traits names).faces (.traitUse names []) rest :=
    Reads.expectKeyword (by decide) <| traits.bind <| Reads.nil_bind (Reads.tryToken_false (by decide)) <|
      Reads.expectSemicolon.bind_nil (.pure _ rest)
  refine Finds.get_bind fun s hs => ?_
  have here : s.atKeyword "use" = true := by
    rw [Entry.faces, List.cons_append] at hs
    rw [Stream.atKeyword_eq hs]
    decide
  rw [here]
  exact use.finds ⟨rfl, rfl, rfl, rfl⟩

theorem noModifier_const : NoModifier (.ident, "const") := by
  intro w
  cases w <;> decide

theorem noModifier_function : NoModifier (.ident, "function") := by
  intro w
  cases w <;> decide

theorem Constant.finds {c : Constant} (h : c.IsPlain) (enough : 3 * (Entry.constant c).faces.length ≤ n)
    (rest : List Face) :
    Finds (Grammar.upTo n).member (Entry.constant c).faces (fun x => ShowsMembers [x] [.constant c]) rest := by
  simp only [Entry.faces, bareFaces, List.length_append, List.length_cons, List.length_map] at enough
  have value : Reads (Grammar.upTo n).anyExpr (literalFaces c.value) (literalTree c.value)
      ((.semicolon, ";") :: rest) :=
    reads_literal h (by omega) (.ending (by decide) _ rest)
  have item : Reads (do
      let name ← Parse.expectIdent "constant name"
      let _ ← Parse.expect .assign
      return Node.definition name (← (Grammar.upTo n).anyExpr))
      ((.ident, c.name) :: (.assign, "=") :: literalFaces c.value) (.definition c.name (literalTree c.value))
      ((.semicolon, ";") :: rest) :=
    (Reads.expectIdent _).cons_bind (Reads.expect (by decide) (value.map (Node.definition c.name)))
  have added : Modifiers.none.addAll? [c.visibility.word] = some c.visibility.modifiers := by
    cases c.visibility <;> rfl
  have consistent : (c.visibility.modifiers.isAbstract && c.visibility.modifiers.isFinal) = false := by
    cases c.visibility <;> rfl
  refine Finds.member added consistent (.cons ⟨noModifier_const, by decide⟩ _) fun start doc => ?_
  have declared : Reads ((Grammar.upTo n).classConst c.visibility.modifiers doc [])
      (((.ident, c.name) :: (.assign, "=") :: literalFaces c.value) ++ [(.semicolon, ";")])
      (.classConst ⟨c.visibility.modifiers, doc, []⟩ (.ofList [.definition c.name (literalTree c.value)])) rest :=
    Reads.bind (Reads.commaList_single item (by decide)) (Reads.expectSemicolon.bind_nil (.pure _ rest))
  have behind : Reads ((Grammar.upTo n).memberBehind start c.visibility.modifiers doc) c.bareFaces
      (.classConst ⟨c.visibility.modifiers, doc, []⟩ (.ofList [.definition c.name (literalTree c.value)])) rest :=
    (Reads.tryKeyword_true (by decide)).cons_bind declared
  exact behind.finds ⟨rfl, rfl, rfl, rfl⟩

/-! ### Properties -/

theorem Property.addAll?_words (p : Property) : Modifiers.none.addAll? p.words = some p.modifiers := by
  rw [words, modifiers]
  cases p.visibility <;> cases p.isStatic <;> cases p.isReadonly <;> rfl

/-- A property begins behind its modifiers with its type or its name. -/
theorem Property.begins_bareFaces {p : Property} (h : p.IsWritable) :
    Begins (fun f => ∀ word ∈ memberWords, f.isKeyword word = false) p.bareFaces := by
  have no_word {k : TokenKind} (other : k ≠ .ident) (text word : String) : Face.isKeyword (k, text) word = false := by
    simp [Face.isKeyword, other]
  rw [bareFaces]
  cases type : p.type with
  | none => exact .cons (fun word _ => no_word (by decide) _ word) _
  | some text =>
    have hint := (h.type text (by simp [type])).spec
    obtain ⟨f, fs, first, start⟩ := hint.written.exists_face
    rw [Option.map_some, Option.elim_some, first]
    refine .cons ?_ _
    rcases start with mark | ⟨name, opens, rfl⟩
    · have kind := (show ∀ k ∈ [TokenKind.question, .openParen], k ≠ .ident by decide) f.1 mark
      exact fun word _ => no_word kind _ word
    · exact hint.apart name opens

theorem Property.finds {p : Property} (h : p.IsWritable) (enough : 3 * (Entry.property p).faces.length ≤ n)
    (rest : List Face) :
    Finds (Grammar.upTo n).member (Entry.property p).faces (fun x => ShowsMembers [x] [.property p]) rest := by
  simp only [Entry.faces, bareFaces, List.length_append, List.length_cons, List.length_map] at enough
  have init : Reads (Grammar.upTo n).initialValue (initFaces p.default) (p.default.map literalTree)
      ((.semicolon, ";") :: rest) :=
    .initialValue h.default (by omega) (.ending (by decide) _ rest) (.cons (by decide) _)
  have item : Reads (do
      let name ← Parse.expectVariable
      return Node.varItem name (.ofOption (← (Grammar.upTo n).initialValue)))
      ((.variable, bareName p.name) :: initFaces p.default)
      (.varItem (bareName p.name) (.ofOption (p.default.map literalTree))) ((.semicolon, ";") :: rest) :=
    Reads.expectVariable.cons_bind (init.map fun v => Node.varItem _ (.ofOption v))
  have typed (start : Nat) (doc : Option String) : Finds ((Grammar.upTo n).property start p.modifiers doc [])
      p.bareFaces
      (fun x => ShowsMembers [x] [.property p]) rest := by
    have behindType : Finds (do
        let items ← (Grammar.upTo n).varItems
        if (← get).at_ .openBrace then Parse.failUnsupported "property hooks"
        else
          Parse.expectSemicolon
          let span := (← get).spanFrom start
          return Node.property ⟨p.modifiers, p.type.map hintOf, doc, [], span⟩ (.ofList items))
        (((.variable, bareName p.name) :: initFaces p.default) ++ [(.semicolon, ";")])
        (fun x => ShowsMembers [x] [.property p]) rest := by
      have shows (s : Stream) : ShowsMembers
          [.property ⟨p.modifiers, p.type.map hintOf, doc, [], s.spanFrom start⟩
            (.ofList [.varItem (bareName p.name) (.ofOption (p.default.map literalTree))])] [.property p] := by
        refine ⟨rfl, rfl, rfl, ?_⟩
        change [Summary.Property.mk _ _ _ (Summary.initialText _)] = [p.summary]
        rw [Summary.initialText, Node.toOption_ofOption, map_text_hintOf h.type, map_print_literalTree h.default]
        rfl
      refine Finds.bind_reads (Reads.commaList_single item (by decide)) (Finds.get_bind fun s hs => ?_)
      rw [Stream.at_eq hs]
      refine Finds.bind_nil (P := fun _ => True) (Reads.expectSemicolon.finds trivial) fun _ _ => ?_
      exact Finds.get_bind fun s _ => Finds.pure (P := fun x => ShowsMembers [x] [.property p]) (shows s) rest
    refine Finds.get_bind fun s hs => ?_
    rw [bareFaces] at hs ⊢
    cases type : p.type with
    | none =>
      rw [type] at hs behindType
      have untyped : s.at_ .variable = true := by
        rw [Stream.at_eq hs]
        rfl
      rw [if_pos untyped]
      exact behindType
    | some text =>
      rw [type] at hs behindType
      have written := (h.type text (by simp [type])).spec.written
      have typed : s.at_ .variable = false := by
        obtain ⟨f, fs, first, start⟩ := written.exists_face
        rw [Option.map_some, Option.elim_some, first] at hs
        rw [Stream.at_eq hs]
        rcases start with mark | ⟨name, -, rfl⟩
        · exact (show ∀ k ∈ [TokenKind.question, .openParen], (k == .variable) = false by decide) f.1 mark
        · rfl
      rw [if_neg (by simp [typed])]
      exact Finds.bind_reads (Reads.fmap (Reads.typeHint written (.of_kind (by decide) _ _)) some) behindType
  obtain ⟨w, ws, words⟩ : ∃ w ws, p.words = w :: ws := ⟨_, _, rfl⟩
  have added := p.addAll?_words
  have consistent : (p.modifiers.isAbstract && p.modifiers.isFinal) = false := by
    rw [modifiers]
    cases p.visibility <;> rfl
  rw [Entry.faces, words]
  rw [words] at added
  have begins := begins_bareFaces h
  refine Finds.member added consistent (begins.mono fun f no_word => ?_) fun start doc => ?_
  · exact ⟨fun w => no_word _ (by cases w <;> decide), no_word _ (by decide)⟩
  · obtain ⟨f, fs, first, no_word⟩ := begins
    have behind := typed start doc
    rw [first] at behind ⊢
    refine Finds.nil_bind (P := (· = false)) ((Reads.tryKeyword_false (no_word _ (by decide))).finds rfl) ?_
    rintro _ rfl
    refine Finds.nil_bind (P := (· = false)) ((Reads.tryKeyword_false (no_word _ (by decide))).finds rfl) ?_
    rintro _ rfl
    exact behind

/-! ### Methods -/

theorem Method.addAll?_words (m : Method) : Modifiers.none.addAll? m.words = some m.modifiers := by
  rw [words, modifiers]
  cases m.visibility <;> cases m.isStatic <;> cases m.isAbstract <;> cases m.isFinal <;> rfl

theorem reads_returnType {words : List String} {type? : Option String}
    (h : ∀ text ∈ type?, IsPrintedType words text) {f : Face} (rest : List Face)
    (stop : f.1 ∉ [TokenKind.colon, .pipe, .amp]) :
    Reads Parse.returnType (returnFaces type?) (type?.map hintOf) (f :: rest) := by
  have other : f.1 ≠ .colon ∧ f.1 ∉ [TokenKind.pipe, .amp] := by simpa using stop
  cases type? with
  | none => exact Reads.afterToken_none other.1
  | some text =>
    exact Reads.afterToken_some (by decide) (Reads.typeHint (h text rfl).spec.written (.of_kind other.2 f.2 rest))

/-- Whatever comments stand in an empty block, it is read. -/
theorem finds_emptyBlock (g : Grammar) (rest : List Face) :
    Finds g.block [(.openBrace, "\x7b"), (.closeBrace, "\x7d")] (fun _ => True) rest := by
  have nothing : Finds (g.statementsUntil []) [] (fun _ => True) ((.closeBrace, "\x7d") :: rest) := by
    refine Finds.collect fun n _ => ?_
    obtain ⟨n, rfl⟩ : ∃ m, n = m + 1 := ⟨n - 1, by omega⟩
    have stop : Finds (do
        Parse.skipAll Parse.fillers
        let comments ← Parse.leadingComments
        let s ← get
        if s.at_ .closeBrace || s.atAnyKeyword [] then return (comments, false)
        else if s.atEnd then Parse.failExpected "'\x7d'"
        else return (comments ++ [← g.stmt], true)) [] (fun y => y.2 = false) ((.closeBrace, "\x7d") :: rest) :=
      Finds.leading [] (by simp) (.cons (by decide) _) fun comments s _ hs => by
        rw [Stream.at_eq hs]
        exact Finds.pure (P := fun y : List Stmt × Bool => y.2 = false) (x := (comments, false)) rfl _
    refine Finds.bind_nil stop ?_
    rintro ⟨xs, more⟩ rfl
    exact .pure trivial _
  exact Finds.enclosedBy (by decide) (by decide) nothing

/-- The end of a method, in front of whatever looks at nothing but its body. -/
theorem Method.finds_body (g : Grammar) (m : Method) {s : Stream} {rest : List Face}
    (hs : s.faces = m.bodyFaces ++ rest)
    {α : Type} {k : Option (List Stmt) → Parse α} {P : α → Prop} (h : ∀ body, Finds (k body) [] P rest) :
    Finds (if s.at_ .openBrace then do
        let body ← some <$> g.block
        k body
      else do
        Parse.expectSemicolon
        let body ← pure none
        k body) m.bodyFaces P rest := by
  rw [bodyFaces] at hs ⊢
  split at hs
  next is_abstract =>
    rw [Stream.at_eq hs, if_pos is_abstract]
    exact Finds.bind_nil (P := fun _ => True) (Reads.expectSemicolon.finds trivial) fun _ _ => h none
  next is_concrete =>
    rw [Stream.at_eq hs, if_neg is_concrete]
    exact Finds.bind_nil (P := fun _ => True) ((finds_emptyBlock g rest).fmap fun _ _ => trivial) fun body _ => h body

theorem Method.finds {m : Method} (h : m.IsWritable) (consistent : (m.isAbstract && m.isFinal) = false)
    (printable : ∀ p ∈ m.parameters, p.IsPrintable) (enough : 3 * (Entry.method m).faces.length ≤ n)
    (rest : List Face) :
    Finds (Grammar.upTo n).member (Entry.method m).faces (fun x => ShowsMembers [x] [.method m]) rest := by
  simp only [Entry.faces, bareFaces, List.length_append, List.length_cons, List.length_map] at enough
  have shows (doc : Option String) (span : Span) (body : Node (.opt (.list .stmt))) : ShowsMembers
      [.method ⟨m.name, m.modifiers, false, m.returnType.map hintOf, doc, [], span⟩
        (.ofList (m.parameters.map (Parameter.node literalTree))) body] [.method m] := by
    have params : (m.parameters.map (Parameter.node literalTree)).map Summary.Parameter.ofNode =
        m.parameters.map Parameter.summary := by
      rw [List.map_map]
      exact List.map_congr_left fun p hp => Parameter.ofNode_node (printable p hp).1
    refine ⟨rfl, rfl, ?_, rfl⟩
    change [Summary.Method.mk _ _ _ (Summary.Parameter.ofNodes _)] = [m.summary]
    rw [Summary.Parameter.ofNodes, Node.toList_ofList, map_text_hintOf h, params]
    rfl
  have named (start : Nat) (doc : Option String) : Finds ((Grammar.upTo n).method start m.modifiers doc [])
      ((.ident, m.name) :: (Parameter.listFaces m.parameters ++ (returnFaces m.returnType ++ m.bodyFaces)))
      (fun x => ShowsMembers [x] [.method m]) rest := by
    have params : Reads (Grammar.upTo n).params (Parameter.listFaces m.parameters)
        (m.parameters.map (Parameter.node literalTree)) (returnFaces m.returnType ++ m.bodyFaces ++ rest) :=
      Parameter.reads_list printable (by omega) _
    have returnType : Reads Parse.returnType (returnFaces m.returnType) (m.returnType.map hintOf)
      (m.bodyFaces ++ rest) := by
      rw [bodyFaces]
      split <;> exact reads_returnType h _ (by decide)
    refine Finds.nil_bind (P := (· = false))
      ((Reads.tryToken_false (show TokenKind.ident ≠ .amp by decide)).finds rfl) ?_
    rintro _ rfl
    refine Finds.cons_bind (P := (· = m.name)) ((Reads.expectIdent _).finds rfl) ?_
    rintro _ rfl
    refine Finds.bind_reads params (Finds.bind_reads returnType ?_)
    refine Finds.get_bind fun s hs => Method.finds_body _ m hs fun body => Finds.get_bind fun s _ => ?_
    exact Finds.pure (P := fun x => ShowsMembers [x] [.method m]) (shows doc _ _) rest
  obtain ⟨w, ws, words⟩ : ∃ w ws, m.words = w :: ws := by
    rw [Method.words]
    cases m.isAbstract <;> cases m.isFinal <;> exact ⟨_, _, rfl⟩
  have added := m.addAll?_words
  rw [words] at added
  rw [Entry.faces, words]
  refine Finds.member added consistent (.cons ⟨noModifier_function, by decide⟩ _) fun start doc => ?_
  refine Finds.nil_bind (P := (· = false)) ((Reads.tryKeyword_false (by decide)).finds rfl) ?_
  rintro _ rfl
  exact Finds.cons_bind (P := (· = true)) ((Reads.tryKeyword_true (by decide)).finds rfl) (by
    rintro _ rfl
    exact named start doc)

/-! ### All members -/

/-- An entry is read as a member of which a summary says the same. -/
theorem Entry.finds {e : Entry} (h : e.IsPrintable) (enough : 3 * e.faces.length ≤ n) (rest : List Face) :
    Finds (Grammar.upTo n).member e.faces (fun x => ShowsMembers [x] [e]) rest := by
  cases e with
  | traits names => exact finds_traits h.1 rest
  | constant c => exact Constant.finds h.1 enough rest
  | property p => exact Property.finds h.1 enough rest
  | method m => exact Method.finds h.1 h.2.2.1 h.2.2.2 enough rest

/-- An entry begins with a word. -/
theorem Entry.begins_faces (e : Entry) : Begins (·.1 = .ident) e.faces := by
  cases e with
  | traits names => exact ⟨_, _, rfl, rfl⟩
  | constant c => exact ⟨_, _, rfl, rfl⟩
  | property p => exact ⟨_, _, rfl, rfl⟩
  | method m =>
    rw [faces, Method.words]
    cases m.isAbstract <;> cases m.isFinal <;> exact ⟨_, _, rfl, rfl⟩

/-- Entries in braces are read as members of which a summary says the same. -/
theorem finds_members {es : List Entry} (h : ∀ e ∈ es, e.IsPrintable) (enough : 3 * (es.flatMap Entry.faces).length ≤ n)
    (rest : List Face) :
    Finds (Grammar.upTo n).members ((.openBrace, "\x7b") :: (es.flatMap Entry.faces ++ [(.closeBrace, "\x7d")]))
      (ShowsMembers · es) rest := by
  refine Finds.enclosedBy (by decide) (by decide)
    (Finds.collect_items ShowsMembers (· = []) [] .append ?round ?last ?ne_nil rfl rfl)
  case round =>
    rintro _ rfl e is suffix
    have he : e ∈ es := suffix.mem (by simp)
    have size : e.faces.length ≤ (es.flatMap Entry.faces).length :=
      (List.sublist_flatten_of_mem (List.mem_map_of_mem he)).length_le
    have read := Entry.finds (h e he) (n := n) (by omega) (is.flatMap Entry.faces ++ (.closeBrace, "\x7d") :: rest)
    obtain ⟨f, fs, first, word⟩ := e.begins_faces
    refine Finds.nil_bind .takeComments fun comments _ => Finds.get_bind fun s hs => ?_
    rw [first] at hs
    have goes_on : s.at_ .closeBrace = false ∧ s.atEnd = false := by
      rw [Stream.atEnd, Stream.at_eq hs, Stream.at_eq hs, word]
      decide
    rw [goes_on.1, goes_on.2]
    have entry (doc : Option String) : Finds (do
        return ((comments ++ doc.toList).map Node.memberComment ++ [← (Grammar.upTo n).member], true)) e.faces
        (fun y => y.2 = true ∧ ShowsMembers y.1 [e]) (is.flatMap Entry.faces ++ (.closeBrace, "\x7d") :: rest) :=
      read.map fun x shows => ⟨rfl, (ShowsMembers.comments _).append shows⟩
    cases s.atKeyword "use" with
    | true => exact Finds.nil_bind .takeDoc fun doc _ => entry doc
    | false => exact entry none
  case last =>
    rintro _ rfl
    refine Finds.nil_bind .takeComments fun comments _ => Finds.get_bind fun s hs => ?_
    have stops : s.at_ .closeBrace = true := by rw [Stream.at_eq hs]; rfl
    rw [stops, Bool.or_true, Bool.true_or, if_pos rfl]
    exact Finds.nil_bind .takeDoc fun doc _ => .pure ⟨rfl, .comments _⟩ _
  case ne_nil =>
    rintro e - none
    obtain ⟨f, fs, first, -⟩ := e.begins_faces
    rw [none] at first
    cases first

end Descriptor

end Codewright.Php
