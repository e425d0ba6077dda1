import Codewright.Css.Sheet
import Codewright.Json.Text
import Codewright.Language.Options

/-!
# Making stylesheets

* `Rule`, `Media`, `Options` – what a stylesheet is to contain, with the records that read them from JSON;
* `Rule.print`, `Media.print`, `create` – the text made of it. A unit of indentation is given to each.
-/

namespace Codewright.Css

open Text Json

/-- A rule: a selector and the values of properties. -/
structure Rule where
  selector : String := ""
  properties : Entries := []

/-- Rules under a media query. -/
structure Media where
  query : String := ""
  rules : List Rule := []

/-- What a new stylesheet contains. -/
structure Options where
  imports : Option (List String) := none
  customProperties : Option Entries := none
  rules : Option (List Rule) := none
  media : Option (List Media) := none

/-- The fields of a rule. -/
def Rule.record : Record Rule where
  name := "RuleOptions"
  blank := {}
  fields := [
    .required "selector" .string fun v s => { s with selector := v },
    .optional "properties" .entries fun v s => { s with properties := v }]

/-- The fields of a media query with its rules. -/
def Media.record : Record Media where
  name := "MediaOptions"
  blank := {}
  fields := [
    .required "query" .string fun v s => { s with query := v },
    .optional "rules" (.list Rule.record.decode) fun v s => { s with rules := v }]

/-- The fields of the options of a new stylesheet. -/
def Options.record : Record Options where
  name := "CreateOptions"
  blank := {}
  fields := [
    .optionalByName "imports" (.nullable (.list .string)) fun v s => { s with imports := v },
    .optionalByName "variables" (.nullable .entries) fun v s => { s with customProperties := v },
    .optionalByName "rules" (.nullable (.list Rule.record.decode)) fun v s => { s with rules := v },
    .optionalByName "media" (.nullable (.list Media.record.decode)) fun v s => { s with media := v }]

/-! ### Text -/

/-- The text of a value: a string as it is, everything else as JSON. -/
def valueText : Json → String
  | .string s => s
  | v => v.compact

/-- A head with a block of some lines, which may be none. -/
def blockText (head : String) (body : List String) (separator : String) : String :=
  let head := head ++ " \x7b\n"
  if body.isEmpty then head ++ "\x7d" else head ++ String.intercalate separator body ++ "\n\x7d"

/-- A property with its value. -/
def propertyText (entry : String × Json) : String := entry.1 ++ ": " ++ valueText entry.2 ++ ";"

/-- The text of a rule. -/
def Rule.print (unit : String) (r : Rule) : String :=
  blockText (trimmed r.selector) (r.properties.map fun entry => unit ++ propertyText entry) "\n"

/-- The text of a media query with its rules. -/
def Media.print (unit : String) (m : Media) : String :=
  blockText ("@media " ++ trimmed m.query) (m.rules.map fun r => indentText (r.print unit) unit) "\n\n"

/-- The name of a custom property, which begins with two dashes. -/
def customName (name : String) : String := if startsWith "--" name then name else "--" ++ name

/-- The entries with other keys; of equal keys the last value counts. -/
def mapKeys (f : String → String) (es : Entries) : Entries := Entries.ofPairs (es.map fun e => (f e.1, e.2))

/-- The rule that defines custom properties. -/
def customRule (properties : Entries) : Rule := ⟨":root", mapKeys customName properties⟩

/-- The import of an address. An address in quotes or in `url` is taken as it is. -/
def importText (target : String) : String :=
  let target := trimmed target
  if startsWith "url(" target || startsWith "\"" target || startsWith "'" target then "@import " ++ target ++ ";"
  else "@import url('" ++ target ++ "');"

/-- A section of lines, unless there are none. -/
def sectionOf (ls : List String) : List String := if ls.isEmpty then [] else [String.intercalate "\n" ls]

/-- The sections of a new stylesheet. -/
def Options.sections (unit : String) (o : Options) : List String :=
  let properties := o.customProperties.getD []
  sectionOf ((o.imports.getD []).map importText) ++
    (if properties.isEmpty then [] else [(customRule properties).print unit]) ++
    (o.rules.getD []).map (Rule.print unit) ++ (o.media.getD []).map (Media.print unit)

/-- Nothing is said about the content. -/
def Options.isEmpty (o : Options) : Bool :=
  o.imports.isNone && o.customProperties.isNone && o.rules.isNone && o.media.isNone

/-- Makes a stylesheet. -/
def create (unit : String) (options : Json) : Except CraftError String := do
  let o ← readOptions Options.record options
  if o.isEmpty then .error (.invalidOptions .noStyles)
  else
    let sections := o.sections unit
    return if sections.isEmpty then "" else String.intercalate "\n\n" sections ++ "\n"

end Codewright.Css
