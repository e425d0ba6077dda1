import Codewright.Language.Extension

/-!
# Files in memory

A `Store` is a tree of directories and files. A path names an entry from the root of the store; two dots lead from a
directory that is there back to the one above, and the root is above itself. Paths and names have a greatest length,
and neither holds a null character.

* `Store.follow` – the names that lead from the root to the end of a path;
* `Store.find` – the entry at a path, or why there is none;
* `Store.makeDirsAbove`, `Store.write` – directories and files made; both may be impossible.
-/

namespace Codewright.Workshop

/-- A file or a directory. -/
inductive Store where
  | file (content : ByteArray)
  | directory (entries : List (String × Store))

/-- Why no entry is found at a path. -/
inductive Store.Absence where
  | missing
  /-- A file stands where a directory is needed, or a path or name is not one that an entry can have. -/
  | obstructed
deriving DecidableEq, Repr

namespace Store

/-- The store without entries. -/
def empty : Store := .directory []

/-- The names that lead from the root to an entry, the last one first. -/
abbrev Address := List String

/-- Where one more part of a path leads. -/
def Address.step (above : Address) (part : String) : Address := if part = ".." then above.tail else part :: above

/-- The path asks for a directory: it ends in a slash or a single dot. -/
def asksForDirectory (path : String) : Bool :=
  match path.toList.reverse with
  | '/' :: _ | '.' :: '/' :: _ => true
  | _ => false

/-- A path that may be followed. -/
def isPath (path : String) : Bool := path.utf8ByteSize < 4096 && !path.toList.contains '\x00'

/-- A path, read backwards, without the slashes and single dots at its end. -/
def dropIdleEnd : List Char → List Char
  | '/' :: cs => dropIdleEnd cs
  | '.' :: '/' :: cs => dropIdleEnd cs
  | cs => cs

/-- A path without its last part. -/
def parentOf (path : String) : String :=
  String.ofList (dropIdleEnd ((dropIdleEnd path.toList.reverse).dropWhile (· != '/'))).reverse

/-- A name that an entry can have. -/
def isEntryName (name : String) : Bool := name.utf8ByteSize ≤ 255

/-- The entry with a name. -/
def lookup (name : String) (entries : List (String × Store)) : Option Store :=
  (entries.find? fun e => e.1 == name).map (·.2)

/-- The entries with one of them set. -/
def put (name : String) (s : Store) : List (String × Store) → List (String × Store)
  | [] => [(name, s)]
  | (n, t) :: es => if n = name then (n, s) :: es else (n, t) :: put name s es

/-- The entry at the end of some steps. -/
def findAt : List String → Store → Except Absence Store
  | [], s => .ok s
  | _ :: _, .file _ => .error .obstructed
  | step :: steps, .directory entries =>
    if isEntryName step then
      match lookup step entries with
      | some s => findAt steps s
      | none => .error .missing
    else .error .obstructed

/-- Where the parts of a path lead from an address. Each of them starts in a directory. -/
def follow (s : Store) : Address → List String → Except Absence Address
  | above, [] => .ok above
  | above, part :: parts =>
    match findAt above.reverse s with
    | .ok (.directory _) => follow s (above.step part) parts
    | .ok (.file _) => .error .obstructed
    | .error why => .error why

/-- The entry at a path. -/
def find (s : Store) (path : String) : Except Absence Store := do
  if !isPath path then throw .obstructed
  let address ← s.follow [] (pathParts path)
  match ← findAt address.reverse s with
  | .file content => if asksForDirectory path then .error .obstructed else .ok (.file content)
  | .directory entries => .ok (.directory entries)

/-- The store with directories at all of some steps, if no file stands there. -/
def makeDirsAt : List String → Store → Option Store
  | _, .file _ => none
  | [], s => some s
  | step :: steps, .directory entries =>
    if isEntryName step then
      (makeDirsAt steps ((lookup step entries).getD empty)).map fun s => .directory (put step s entries)
    else none

/-- The store with a file at the end of some steps, if its directory is there and no directory stands in its place. -/
def writeAt (content : ByteArray) : List String → Store → Option Store
  | [], .file _ => some (.file content)
  | [], .directory _ => none
  | _ :: _, .file _ => none
  | step :: steps, .directory entries =>
    if isEntryName step then
      match lookup step entries, steps with
      | some s, _ => (writeAt content steps s).map fun s => .directory (put step s entries)
      | none, [] => some (.directory (put step (.file content) entries))
      | none, _ :: _ => none
    else none

/-- The store with directories wherever the parts of a path lead from an address, up to the first one that cannot be
made; the flag says whether all could. -/
def makeDirs (s : Store) : Address → List String → Bool × Store
  | _, [] => (true, s)
  | above, part :: parts =>
    match makeDirsAt (above.step part).reverse s with
    | some s => makeDirs s (above.step part) parts
    | none => (false, s)

/-- The store with the directories above a path, and whether all of them are there. -/
def makeDirsAbove (s : Store) (path : String) : Bool × Store :=
  if isPath (parentOf path) then s.makeDirs [] (pathParts (parentOf path)) else (false, s)

/-- The store with a file at a path. -/
def write (s : Store) (path : String) (content : ByteArray) : Option Store :=
  if !isPath path || asksForDirectory path then none
  else
    match s.follow [] (pathParts path) with
    | .ok address => writeAt content address.reverse s
    | .error _ => none

end Store

end Codewright.Workshop
