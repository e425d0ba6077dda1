import Codewright.Css.Summary
import Codewright.Json.Document
import Codewright.Language.Extension
import Codewright.Php.Summary
import Codewright.Script.Summary

/-!
# Languages

A `Language` makes, changes and looks at sources of one kind, all of it in memory.

* `Output` – a source with the warnings of making it;
* `Report` – what a source consists of, by language;
* `Help` – how a language is used.
-/

namespace Codewright

open Json

/-- A source that was made or changed, with the warnings. -/
structure Output where
  text : String
  warnings : List Source.Diagnostic := []

/-- What a source consists of. -/
inductive Report where
  | php (summary : Php.Summary)
  | script (dialect : Script.Dialect) (summary : Script.Summary)
  | stylesheet (summary : Css.Summary)
  | document (summary : Document.Summary)

/-- A report as JSON; the language comes first. -/
def Report.toJson : Report → Json
  | php summary => .object (("language", .string "php") :: summary.fields)
  | script dialect summary => .object (("language", .string dialect.name) :: summary.fields)
  | stylesheet summary => .object (("language", .string "css") :: summary.fields)
  | document summary => .object (("language", .string "json") :: summary.fields)

/-- How a language is used: examples of options, and the meaning of each option, in the order of their names. -/
structure Help where
  description : String
  examples : List Json
  options : List (String × String)

/-- A kind of sources. -/
structure Language where
  name : String
  extensions : List String
  /-- What the language can do, in the order of the names. -/
  capabilities : List (String × Bool)
  help : Help
  create : Json → Except CraftError Output
  edit : String → List Json → Except CraftError Output
  analyze : String → Except CraftError Report
  isValid : String → Bool
  /-- Whether a source is well formed, unless the program stops. -/
  verdict : String → Except CraftError Bool := fun source => .ok (isValid source)

namespace Language

/-- The version of every language. -/
def version : String := "1.0.0"

/-- The language has a capability. -/
def supports (l : Language) (capability : String) : Bool :=
  (l.capabilities.find? fun c => c.1 == capability).any (·.2)

/-- The language has an extension, in whatever form it is written. -/
def claims (l : Language) (extension : String) : Bool :=
  (l.extensions.map normalExtension).contains (normalExtension extension)

end Language

end Codewright
