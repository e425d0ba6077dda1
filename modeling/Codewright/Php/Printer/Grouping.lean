import Codewright.Php.Tree
import Codewright.Text.Layout

/-!
# Blank lines

Where a printed list of statements or members has blank lines. Statements fall into groups; at the top level a blank
line stands between statements of different groups and between any two declarations. Members fall into kinds; a blank
line stands between kinds and in front of every method. A comment counts as the statement or member that it precedes,
and no blank line follows it.

* `Stmt.group`, `separateStmts` – for statements;
* `Member.kind?`, `separateMembers` – for members.
-/

namespace Codewright.Php

open Text

/-- The groups of statements. -/
inductive StmtGroup where
  | imports
  | constants
  | code
  | declaration
deriving DecidableEq, Repr

namespace Stmt

/-- The statement is a comment. -/
def isComment : Stmt → Bool
  | .comment _ => true
  | _ => false

/-- The statement prints nothing. -/
def isNop : Stmt → Bool
  | .nop => true
  | _ => false

/-- The group of a statement that is no comment. -/
def group : Stmt → StmtGroup
  | .useDecl .. => .imports
  | .constDecl .. => .constants
  | .classLike .. | .function .. | .namespaceDecl .. | .declare .. | .declareBlock .. => .declaration
  | _ => .code

end Stmt

/-- The group of the first statement that is no comment, in a list of statements with their printed form. -/
def groupAhead (stmts : List (Stmt × Doc)) : StmtGroup :=
  match stmts.find? fun p => !p.1.isComment with
  | some p => p.1.group
  | none => .code

/-- A blank line stands between a statement of the first group and one of the second. -/
def blankBetween (before after : StmtGroup) : Bool := !(before == after && after != .declaration)

/-- Joins printed statements, each given with its tree, by the rules of the top level. -/
def separateStmts (before : Option StmtGroup) (afterComment : Bool) : List (Stmt × Doc) → Doc
  | [] => []
  | (s, d) :: rest =>
    let group := groupAhead ((s, d) :: rest)
    let gap := match before with
      | some b => if blankBetween b group && !afterComment then Doc.blankLine else []
      | none => []
    gap ++ d ++ separateStmts (some group) s.isComment rest

/-- A printed top-level list of statements. -/
def printedTopLevel (stmts : List Stmt) (docs : List Doc) : Doc :=
  separateStmts none false ((stmts.zip docs).filter fun p => !p.1.isNop)

/-- The kinds of members. -/
inductive MemberKind where
  | traitUse
  | const
  | property
  | method
  | enumCase
deriving DecidableEq, Repr

/-- The kind of a member; a comment has none. -/
def Member.kind? : Member → Option MemberKind
  | .traitUse .. => some .traitUse
  | .classConst .. => some .const
  | .property .. => some .property
  | .method .. => some .method
  | .enumCase .. => some .enumCase
  | .memberComment _ => none

/-- Joins printed members, each given with its tree; `before` is the kind of the last one that is no comment. -/
def separateMembers (before : Option MemberKind) (afterComment : Bool) : List (Member × Doc) → Doc
  | [] => []
  | (m, d) :: rest =>
    let gap := match before, ((m, d) :: rest).findSome? fun p => Member.kind? p.1 with
      | some b, some k => if (b != k || k == .method) && !afterComment then Doc.blankLine else []
      | _, _ => []
    gap ++ d ++ separateMembers (Member.kind? m <|> before) (Member.kind? m).isNone rest

/-- A printed list of members. -/
def printedMembers (members : List Member) (docs : List Doc) : Doc :=
  separateMembers none false (members.zip docs)

end Codewright.Php
