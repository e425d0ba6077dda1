import Codewright.Css.Descriptor

/-!
# Changing stylesheets

Changes are put into the text of a stylesheet; what they do not concern stays as it is, except that the removal of a
rule leaves at most one empty line between blocks.

* `addBlock`, `updateProperty`, `removeRule` – the changes;
* `editOne` – an operation read from JSON and done.
-/

namespace Codewright.Css

open Text Json

/-- A new value for a property of a rule. -/
structure PropertyChange where
  selector : String := ""
  property : String := ""
  value : Json := .null

/-- The fields of a new value for a property. -/
def PropertyChange.record : Record PropertyChange where
  name := "UpdateProperty"
  blank := {}
  fields := [
    .required "selector" .string fun v s => { s with selector := v },
    .required "property" .string fun v s => { s with property := v },
    .required "value" .any fun v s => { s with value := v }]

/-- The fields of a selector alone. -/
def selectorRecord : Record String where
  name := "RemoveRule"
  blank := ""
  fields := [.required "selector" .string fun v _ => v]

/-- The items of a source. -/
def itemsOf (source : String) : Except CraftError (List Item) :=
  (parse source.toList).mapError fun why => .operationFailed (.stylesheet why)

/-- A block with this selector. -/
def blockWith? (selector : String) : Item → Option (Nat × Nat × Nat × List Item)
  | .block s start opening closing children => if s = selector then some (start, opening, closing, children) else none
  | _ => none

/-- The place of a declaration of this property, whatever its case. -/
def declarationOf? (property : String) : Item → Option (Nat × Nat)
  | .declaration p start stop _ => if sameIgnoringCase p property then some (start, stop) else none
  | _ => none

/-- The end of a declaration that no semicolon follows. -/
def openEnd? : Item → Option Nat
  | .declaration _ _ stop false => some stop
  | _ => none

/-- A source with a block behind its content. -/
def addBlock (source block : String) : String := String.ofList (appendBlock source.toList block.toList)

/-- A source in which a property of a rule has a new value. The first block with the selector is taken. -/
def updateProperty (unit source : String) (change : PropertyChange) : Except CraftError String := do
  let items ← itemsOf source
  match items.findSome? (blockWith? (collapseSpace change.selector)) with
  | none => .error (.operationFailed (.noRule change.selector))
  | some (_, opening, closing, children) =>
    let text := source.toList
    let declaration := (change.property ++ ": " ++ valueText change.value).toList
    match children.findSome? (declarationOf? change.property) with
    | some (start, stop) => return String.ofList (text.take start ++ declaration ++ text.drop stop)
    | none =>
      let member := declaration ++ [';']
      match children.getLast?.bind openEnd? with
      | some stop =>
        let text := text.take stop ++ ';' :: text.drop stop
        return String.ofList (insertLast text opening (closing + 1) member unit.toList false)
      | none => return String.ofList (insertLast text opening closing member unit.toList false)

/-- A text without the block between two places, the indentation in front of it, and the line feed behind it. -/
def cutBlock (text : List Char) (start closing : Nat) : List Char :=
  let first := lineStart text start
  let first := if isBlankList (slice text first start) then first else start
  let rest := text.drop (closing + 1)
  text.take first ++ if rest.head? = some '\n' then rest.tail else rest

/-- Lines of which no two blank ones follow each other; `afterBlank` says that a blank one comes before. -/
def singleBlanks (afterBlank : Bool) : List (List Char) → List (List Char)
  | [] => []
  | l :: ls =>
    if isBlankList l then if afterBlank then singleBlanks true ls else l :: singleBlanks true ls
    else l :: singleBlanks false ls

/-- A text with at most one blank line at a time and none at its ends. -/
def tidy (text : List Char) : List Char :=
  let body := trim ((singleBlanks false (lines text)).flatMap fun l => l ++ ['\n'])
  if body.isEmpty then [] else body ++ ['\n']

/-- A source without the rules that have a selector. -/
def removeRule (source selector : String) : Except CraftError String := do
  let items ← itemsOf source
  let blocks := items.filterMap (blockWith? (collapseSpace selector))
  if blocks.isEmpty then .error (.operationFailed (.noRule selector))
  else
    return String.ofList (tidy (blocks.foldr
      (fun (start, _, closing, _) text => cutBlock text start closing) source.toList))

/-- Does one operation on a stylesheet. -/
def editOne (unit source : String) (operation : Json) : Except CraftError String := do
  match ← operationTag operation with
  | "add_rule" =>
    let rule ← readOptions Rule.record operation
    return addBlock source (rule.print unit)
  | "update_property" => updateProperty unit source (← readOptions PropertyChange.record operation)
  | "remove_rule" => removeRule source (← readOptions selectorRecord operation)
  | "add_media" =>
    let media ← readOptions Media.record operation
    return addBlock source (media.print unit)
  | other => .error (.unknownOperation "css" other)

end Codewright.Css
