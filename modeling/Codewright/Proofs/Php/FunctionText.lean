import Codewright.Proofs.Php.ClassReading

/-!
# Functions printed and read back

A function with an empty body is printed with its parameters in parentheses, and read back with them.

* `functionFile` – a file with such a function;
* `Descriptor.functionFaces` – the tokens of the function; `spells_function`, `finds_function` – its text spells them, and
  they are read as a function;
* `exists_parse_functionFile` – what is declared in the file that is read back.
-/

namespace Codewright.Php

open Text Source

/-- A function with an empty body. -/
def emptyFunction (name : String) (params : List (Node .param)) : Stmt :=
  .function ⟨name, false, none, none, [], .nowhere⟩ (.ofList params) .nil

/-- A file with a single function. -/
def functionFile (name : String) (params : List (Node .param)) : File := ⟨.ofList [emptyFunction name params], .nowhere⟩

/-- The declaration is a function with this name and these parameters. -/
def Declaration.IsFunction (name : String) (params : List (Node .param)) (d : Declaration) : Prop :=
  ∃ decl, d = .function decl (.ofList params) ∧ decl.name = name

namespace Descriptor

variable {name : String} {ps : List Parameter}

/-- The tokens of a function with an empty body. -/
def functionFaces (name : String) (ps : List Parameter) : List Face :=
  (.ident, "function") :: (.ident, name) :: (Parameter.listFaces ps ++ [(.openBrace, "\x7b"), (.closeBrace, "\x7d")])

/-- What is made of parameters, as a function with them. -/
def functionOf (name : String) (ps : List Parameter) : Stmt := emptyFunction name (ps.map (Parameter.node literalOf))

theorem spells_function (named : IsName name) (h : ∀ p ∈ ps, p.IsPrintable) (unit : String) (rest : List Char) :
    Lexer.Spells (Doc.chars unit (Node.doc 0 (functionOf name ps))) (functionFaces name ps) rest := by
  have chars : Doc.chars unit (Node.doc 0 (functionOf name ps)) = "function".toList ++ ' ' :: (name.toList ++ '(' ::
      (Doc.chars unit (Doc.commas (ps.map fun p => Node.doc 0 (p.node literalOf))) ++
        ')' :: ['\n', '\x7b', '\n', '\x7d', '\n'])) := by
    have printed : (Node.doc 0 (functionOf name ps) : Doc) =
      Doc.line 0 (.text ("function " ++ "" ++ name ++ "(") ::
        Doc.commas (Node.doc 0 (.ofList (ps.map (Parameter.node literalOf)))) ++ [.text (")" ++ "")]) ++
        bracedBelow 0 [] := rfl
    rw [printed, Node.doc_ofList, List.map_map]
    simp [Doc.chars_line, bracedBelow, Function.comp_def]
  have body : Lexer.Spells ['\n', '\x7b', '\n', '\x7d', '\n'] [(.openBrace, "\x7b"), (.closeBrace, "\x7d")] rest :=
    .newline (.openBrace (.newline (.closeBrace (.newline (.nil rest)))))
  rw [chars]
  exact .word (by decide) (.name named rfl (Parameter.spells_list h unit 0 body))

/-- The tokens of a function are none of another declaration. -/
theorem starts_functionFaces {s : Stream} {rest : List Face} (hs : s.faces = functionFaces name ps ++ rest) :
    s.atClass = false ∧ s.atFunction = true ∧ ∀ word ∈ ["interface", "trait", "enum"], s.atKeyword word = false := by
  have first : s.faces = (.ident, "function") :: (.ident, name) :: _ := hs
  refine ⟨?_, ?_, fun word hw => ?_⟩
  · exact atClass_eq_false first (by decide)
  · rw [Stream.atFunction, Stream.atKeyword_eq first, Stream.hasAt_one_eq first]
    have keyword : Face.isKeyword (.ident, "function") "function" = true := by decide
    simp [keyword]
  · rw [Stream.atKeyword_eq first]
    exact (show ∀ w ∈ ["interface", "trait", "enum"], Face.isKeyword (.ident, "function") w = false by decide) word hw

/-- Behind its comment, a function is read with the same parameters. -/
theorem finds_declarationOf (h : ∀ p ∈ ps, p.IsPrintable) {n : Nat} (enough : 3 * (functionFaces name ps).length ≤ n)
    (doc : Option String) (rest : List Face) :
    Finds ((Grammar.upTo n).declarationOf doc []) (functionFaces name ps)
      (fun x => ∃ d, x.declarations = [d] ∧ d.IsFunction name (ps.map (Parameter.node literalTree))) rest := by
  simp only [functionFaces, List.length_cons, List.length_append] at enough
  refine Finds.get_bind fun s hs => ?_
  obtain ⟨no_class, function, others⟩ := starts_functionFaces hs
  simp only [no_class, function, others, List.mem_cons, true_or, or_true, Bool.false_eq_true, if_false, if_true]
  refine Finds.get_bind fun s _ => ?_
  refine Finds.cons_bind (Finds.expectKeyword (by decide)) fun _ _ => ?_
  refine Finds.nil_bind (P := (· = false))
    ((Reads.tryToken_false (show TokenKind.ident ≠ .amp by decide)).finds rfl) ?_
  rintro _ rfl
  refine Finds.cons_bind (P := (· = name)) ((Reads.expectIdent _).finds rfl) ?_
  rintro _ rfl
  refine Finds.bind_reads (Parameter.reads_list h (by omega) _) ?_
  refine Finds.nil_bind (P := (· = none)) ((Reads.afterToken_none (by decide)).finds rfl) ?_
  rintro _ rfl
  refine Finds.bind_nil (finds_emptyBlock _ rest) fun body _ => Finds.get_bind fun s' _ => ?_
  exact (Reads.pure _ _).finds ⟨_, rfl, _, rfl, rfl⟩

/-- The tokens of a function are read as a function with the same parameters. -/
theorem finds_function (h : ∀ p ∈ ps, p.IsPrintable) {n : Nat} (enough : 3 * (functionFaces name ps).length ≤ n)
    (rest : List Face) : Finds (Grammar.upTo (n + 1)).stmt (functionFaces name ps)
      (fun x => ∃ d, x.declarations = [d] ∧ d.IsFunction name (ps.map (Parameter.node literalTree))) rest := by
  change Finds (Grammar.upTo n).statement _ _ rest
  refine Finds.get_bind fun s hs => ?_
  rw [if_pos (by rw [Stream.atDeclaration, (starts_functionFaces hs).2.1]; simp)]
  refine Finds.nil_bind .takeDoc fun before _ => ?_
  refine Finds.nil_bind (P := (· = [])) ((Reads.attributes_nil (.cons (by decide) _)).finds rfl) ?_
  rintro _ rfl
  cases before with
  | some doc => exact finds_declarationOf h enough (some doc) rest
  | none => exact Finds.nil_bind .takeDoc fun doc _ => finds_declarationOf h enough doc rest

/-- The statements declare functions with these parameters, one after the other, and nothing else. -/
def DeclaresFunctions (name : String) (xs : List Stmt) (pss : List (List Parameter)) : Prop :=
  List.Forall₂ (fun d ps => d.IsFunction name (ps.map (Parameter.node literalTree))) (xs.flatMap Node.declarations) pss

theorem DeclaresFunctions.comments {xs : List Stmt} (h : ∀ x ∈ xs, ∃ text, x = .comment text) :
    DeclaresFunctions name xs [] := by
  have none : xs.flatMap Node.declarations = [] := by
    rw [List.flatMap_eq_nil_iff]
    intro x hx
    obtain ⟨text, rfl⟩ := h x hx
    rfl
  rw [DeclaresFunctions, none]
  exact .nil

theorem DeclaresFunctions.append {xs xs' : List Stmt} {pss pss' : List (List Parameter)} (h : DeclaresFunctions name xs pss)
    (h' : DeclaresFunctions name xs' pss') : DeclaresFunctions name (xs ++ xs') (pss ++ pss') := by
  rw [DeclaresFunctions, List.flatMap_append]
  exact List.rel_append h h'

/-- The function is read behind an opening tag. -/
theorem finds_functionBody (h : ∀ p ∈ ps, p.IsPrintable) {n : Nat} (enough : 3 * (functionFaces name ps).length ≤ n) :
    Finds (Grammar.upTo (n + 1)).fileBody ((.openTag, "<?php") :: functionFaces name ps)
      (DeclaresFunctions name · [ps]) [eofFace] := by
  have begins : Begins (fun f => f.1 = .ident ∧ f.isKeyword "namespace" = false) (functionFaces name ps) :=
    .cons (by decide) _
  have body : Finds (Grammar.upTo (n + 1)).fileBody ([(.openTag, "<?php")] ++ [ps].flatMap (functionFaces name))
      (DeclaresFunctions name · [ps]) [eofFace] := by
    refine Finds.collect_items (DeclaresFunctions name) (fun fs => ∀ f ∈ fs, f.1 ∈ Parse.fillers) [(.openTag, "<?php")]
      .append ?round ?last (fun _ _ => List.cons_ne_nil _ _) (by simp) (by decide)
    case round =>
      intro passed fillers qs is suffix
      obtain ⟨rfl, rfl⟩ : qs = ps ∧ is = [] := by
        have length := suffix.length_le
        cases is <;> simp_all [List.suffix_cons_iff]
      refine Finds.leading passed fillers ((begins.append _).mono fun f start => by simp [start.1, Parse.fillers]) ?_
      intro comments s all hs
      have goes_on : s.atEnd = false ∧ s.atNamespace = false := by
        obtain ⟨f, fs, first, word, no_namespace⟩ := begins
        rw [first] at hs
        rw [Stream.atEnd, Stream.atNamespace, Stream.at_eq hs, Stream.atKeyword_eq hs, no_namespace, word]
        exact ⟨rfl, rfl⟩
      rw [goes_on.1, goes_on.2]
      refine (finds_function h enough _).map fun x found => ⟨rfl, (DeclaresFunctions.comments all).append ?_⟩
      obtain ⟨d, declared, is_function⟩ := found
      rw [DeclaresFunctions, List.flatMap_singleton, declared]
      exact .cons is_function .nil
    case last =>
      intro passed fillers
      have whole : passed = passed ++ [] := (List.append_nil passed).symm
      rw [whole]
      refine Finds.leading passed fillers (.cons (by decide) _) fun comments s all hs => ?_
      have stops : s.atEnd = true := by
        rw [Stream.atEnd, Stream.at_eq hs]
        rfl
      rw [stops, if_pos rfl]
      exact .pure ⟨rfl, .comments all⟩ _
  simpa using body

/-- The file with a function is read back, and a function with the same parameters is all that is declared in it. -/
theorem exists_parse_functionFile (named : IsName name) (h : ∀ p ∈ ps, p.IsPrintable) : ∃ f d,
    parse ((functionFile name (ps.map (Parameter.node literalOf))).print usualIndent) = .ok f ∧ f.declarations = [d] ∧
      d.IsFunction name (ps.map (Parameter.node literalTree)) := by
  have inner : Lexer.Spells (Doc.chars usualIndent (printedTopLevel ([ps].map (functionOf name))
      (([ps].map (functionOf name)).map (Node.doc 0)))) ([ps].flatMap (functionFaces name)) [] := by
    refine spells_topLevel (fun _ => rfl) (fun qs hq rest => ?_) []
    obtain rfl := List.mem_singleton.1 hq
    exact spells_function named h usualIndent rest
  have chars : ((functionFile name (ps.map (Parameter.node literalOf))).print usualIndent).toList =
      Lexer.openingTag '\n' ++ ('\n' :: Doc.chars usualIndent (printedTopLevel ([ps].map (functionOf name))
        (([ps].map (functionOf name)).map (Node.doc 0)))) := by
    change Doc.chars usualIndent (File.doc _) = _
    rw [File.doc, functionFile]
    simp only [Node.toList_ofList, Node.doc_ofList]
    have some_stmt : [functionOf name ps].all Stmt.isNop = false := rfl
    simp only [functionOf] at some_stmt
    rw [some_stmt]
    simp [Lexer.openingTag, functionOf]
  obtain ⟨xs, span, read, declares⟩ := exists_parse_eq_ok chars inner.newline fun _ => by
    simpa using finds_functionBody h
  have declared : (File.mk (.ofList xs) span).declarations = xs.flatMap Node.declarations := Node.declarations_ofList xs
  obtain ⟨d, _, is_function, none, same⟩ := List.forall₂_cons_right_iff.1 declares
  rw [List.forall₂_nil_right_iff.1 none] at same
  exact ⟨_, d, read, declared.trans same, is_function⟩

end Descriptor

/-- The types of the parameters of all functions that are declared in a file that can be read. -/
def parameterTypes? (source : String) : Option (List (List (Option String))) :=
  (parse source).toOption.map fun f => f.summary.functions.map fun g => g.parameters.map (·.type)

theorem parameterTypes?_of_declarations {source : String} {f : File} {decl : FunctionDecl} {d : ParamDecl}
    {value : Node (.opt .expr)} (read : parse source = .ok f)
    (declared : f.declarations = [.function decl (.ofList [.param d value])]) :
    parameterTypes? source = some [[d.type.map TypeHint.text]] := by
  have typed : f.summary.functions.map (fun g => g.parameters.map (·.type)) = [[d.type.map TypeHint.text]] := by
    change (Summary.functionsOf f.declarations).map _ = _
    rw [declared]
    rfl
  rw [parameterTypes?, read, ← typed]
  rfl

end Codewright.Php
