import Codewright.Proofs.Php.ReindentedTree
import Codewright.Proofs.Php.PlainStatements

/-!
# Sources printed with another width of indentation

* `File.onLines_body` – what is printed below the opening tag of a plain tree is the same code with any two units of spaces;
* `content_print` – the printed texts of a source that can be read have the same tokens, whatever the width of the indentation is.
-/

namespace Codewright.Php

open Text Source Lexer

/-- The unit of indentation of a width. -/
def indentOfWidth (width : Nat) : String := String.ofList (List.replicate width ' ')

theorem spaces_indentOfWidth (width : Nat) : ∀ c ∈ (indentOfWidth width).toList, c = ' ' := by
  rw [indentOfWidth, String.toList_ofList]
  exact fun _ => List.eq_of_mem_replicate

/-- The printed document of a source below its opening tag. -/
def File.body (f : File) : Doc :=
  if f.stmts.toList.all Stmt.isNop then [] else Doc.blankLine ++ printedTopLevel f.stmts.toList (f.stmts.doc 0)

theorem File.toList_print (indent : String) (f : File) :
    (f.print indent).toList = openingTag '\n' ++ f.body.chars indent := by
  show Doc.chars indent (.text "<?php\n" :: f.body) = _
  rw [Doc.chars_text_cons]
  rfl

variable {u v : String} {f : File}

theorem File.onLines_body (hu : ∀ c ∈ u.toList, c = ' ') (hv : ∀ c ∈ v.toList, c = ' ') (plain : f.stmts.IsPlain) :
    OnLines u v f.body := by
  unfold body
  split
  · exact .nil
  · exact .append .blankLine (.printedTopLevel (Node.prints hu hv f.stmts plain 0) _)

/-- The opening tag is read whatever stands on the lines below it. -/
theorem tokenize_print (indent : String) (f : File) :
    tokenize (f.print indent) =
      (readCode (Position.origin.after (openingTag '\n')) (f.body.chars indent)).map
        (token .openTag "<?php" .origin (Position.origin.after (openingTag '\n')) .empty :: ·) := by
  rw [tokenize, f.toList_print, readText_openingTag (by decide)]
  rfl

/-- The texts of a plain tree with two units of spaces. -/
theorem sameTokens_print (hu : ∀ c ∈ u.toList, c = ' ') (hv : ∀ c ∈ v.toList, c = ' ') (plain : f.stmts.IsPlain) :
    SameTokens (tokenize (f.print u)) (tokenize (f.print v)) := by
  -- The line feed of the opening tag is the one in front of the first line.
  have start : Reindented ('\n' :: []) ('\n' :: []) := .feed (i := []) (j := []) nofun nofun .nil
  have body := (File.onLines_body hu hv plain).reindented [] [] start
  rw [List.append_nil, List.append_nil] at body
  rw [tokenize_print, tokenize_print]
  exact (body.readCode_tail _ _).map (l := [_]) (m := [_]) rfl

/-- **The width of the indentation does not change the program.** Whatever two widths a source is printed with, both texts can be
read, as tokens of the same kinds and texts, with the same comments up to the white space around their lines. -/
theorem content_print {source : String} (h : parse source = .ok f) (m n : Nat) :
    ∃ ts us, tokenize (f.print (indentOfWidth m)) = .ok ts ∧ tokenize (f.print (indentOfWidth n)) = .ok us ∧
      ts.map Token.content = us.map Token.content :=
  sameTokens_print (spaces_indentOfWidth m) (spaces_indentOfWidth n) (isPlain_parse h)

/-- A heredoc, a comment of several lines and a closure in the body of a function: the two texts differ, the tokens do not. -/
theorem content_print_function : ∃ f,
    parse "<?php function f($a) \x7b /* one\n * two */ $b = <<<E\n  $a x\nE; return fn() => function() \x7b $a; \x7d; \x7d" = .ok f ∧
      f.print (indentOfWidth 0) ≠ f.print (indentOfWidth 4) ∧
      ∃ ts us, tokenize (f.print (indentOfWidth 0)) = .ok ts ∧ tokenize (f.print (indentOfWidth 4)) = .ok us ∧
        ts.map Token.content = us.map Token.content := by
  let source := "<?php function f($a) \x7b /* one\n * two */ $b = <<<E\n  $a x\nE; return fn() => function() \x7b $a; \x7d; \x7d"
  have differ : (parse source).toOption.all (fun f => f.print (indentOfWidth 0) != f.print (indentOfWidth 4)) = true := by
    decide +kernel
  have accepted : (parse source).toOption.isSome = true := by decide +kernel
  cases read : parse source with
  | error _ =>
    rw [read] at accepted
    cases accepted
  | ok f =>
    rw [read] at differ
    exact ⟨f, rfl, bne_iff_ne.1 differ, content_print read 0 4⟩

end Codewright.Php
