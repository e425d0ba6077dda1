import Codewright.Language.Builtin
import Codewright.Language.Registry
import Codewright.Workshop.Store

/-!
# The workshop

A `Workshop` makes, changes and looks at the files of a store. Each call takes the language from the extension of the
path. `write` and `editFile` answer with a flag that says whether the file could be written; `isValid` answers for
every path, and says no where there is nothing to judge. It fails only where the program stops.
-/

namespace Codewright

open Workshop

/-- Languages and settings. -/
structure Workshop where
  settings : Settings
  registry : Registry

namespace Workshop

/-- The workshop with all languages. -/
def make (s : Settings) : Except CraftError Workshop := do return ⟨s, ← Registry.ofList (Language.builtin s)⟩

variable (w : Workshop)

/-- The language of an extension. -/
def languageOf (extension : String) : Except CraftError Language :=
  match w.registry.get? extension with
  | some l => .ok l
  | none => .error (.unsupportedExtension extension)

/-- The language of a path. -/
def languageFor (path : String) : Except CraftError Language :=
  match pathExtension? path with
  | some extension => w.languageOf extension
  | none => .error (.missingExtension path)

/-- The size of a directory: a block, whatever it holds. -/
def directorySize : Nat := 4096

/-- How many bytes an entry takes. -/
def sizeOfEntry : Store → Nat
  | .file content => content.size
  | .directory _ => directorySize

/-- The text of a file. -/
def readSource (s : Store) (path : String) : Except CraftError String :=
  match s.find path with
  | .error .missing => .error (.fileNotFound path)
  | .error .obstructed => .error .unreadable
  | .ok entry =>
    if w.settings.maxSourceBytes < sizeOfEntry entry then
      .error (.invalidOptions (.tooLarge path (sizeOfEntry entry) w.settings.maxSourceBytes))
    else
      match entry with
      | .directory _ => .error .unreadable
      | .file content =>
        match String.fromUTF8? content with
        | some text => .ok text
        | none => .error .unreadable

/-- The store with a text at a path and the directories above it, and whether it could be written. Directories that
were made stay, even if the text cannot be written. -/
def persist (s : Store) (path text : String) : Bool × Store :=
  match s.makeDirsAbove path with
  | (false, s) => (false, s)
  | (true, s) =>
    match s.write path text.toUTF8 with
    | none => (false, s)
    | some s => (true, s)

/-- Makes a source for a path. -/
def create (path : String) (options : Json) : Except CraftError Output := do
  (← w.languageFor path).create options

/-- Makes a source and writes it. -/
def write (s : Store) (path : String) (options : Json) : Except CraftError (Bool × Store) := do
  return persist s path (← w.create path options).text

/-- The file at a path after some operations. -/
def edit (s : Store) (path : String) (operations : List Json) : Except CraftError Output := do
  let l ← w.languageFor path
  l.edit (← w.readSource s path) operations

/-- Does some operations on the file at a path. -/
def editFile (s : Store) (path : String) (operations : List Json) : Except CraftError (Bool × Store) := do
  return persist s path (← w.edit s path operations).text

/-- What the file at a path consists of. -/
def analyze (s : Store) (path : String) : Except CraftError Report := do
  let l ← w.languageFor path
  l.analyze (← w.readSource s path)

/-- The file at a path can be read and is well formed. -/
def isValid (s : Store) (path : String) : Except CraftError Bool :=
  match w.languageFor path with
  | .error _ => .ok false
  | .ok l =>
    match w.readSource s path with
    | .error _ => .ok false
    | .ok source => l.verdict source

/-- How the language of an extension is used. -/
def help (extension : String) : Except CraftError Help := (w.languageOf extension).map (·.help)

end Workshop

end Codewright
