import Codewright.Css.Sheet
import Codewright.Json.Basic

/-!
# The summary of a stylesheet

`Summary.ofItems` lists the selectors, media queries, custom properties and imports of a stylesheet, and counts its
rules and declarations. Steps of an animation count as rules, but their selectors are not listed.
-/

namespace Codewright.Css

open Text Json

/-- Something that a summary tells of. -/
inductive Fact where
  /-- A rule; `step` says that it is a step of an animation. -/
  | rule (selector : String) (step : Bool)
  | media (query : String)
  | imported (target : String)
  | declared (property : String)
deriving DecidableEq, Repr

/-- The name of an at-rule, at sign included and in lower case. -/
def atRule? (selector : String) : Option String :=
  match selector.toList with
  | '@' :: cs => some (asciiLower (String.ofList ('@' :: cs.takeWhile fun c => !isSpace c && c != '(')))
  | _ => none

/-- The address that an import names. -/
def importTarget (rest : String) : String :=
  let rest := trim rest.toList
  let inner := match stripStart? "url(".toList rest with
    | some cs => if cs.contains ')' then cs.takeWhile (· != ')') else (words rest).head?.getD rest
    | none => (words rest).head?.getD rest
  let isQuote (c : Char) : Bool := c == '"' || c == '\''
  String.ofList (dropWhileEnd isQuote ((trim inner).dropWhile isQuote))

/-- What a statement tells. -/
def statementFacts (text : String) : List Fact :=
  match stripStart? "@import".toList text.toList with
  | some rest => [.imported (importTarget (String.ofList rest))]
  | none => []

/-- What a selector or at-rule with a block tells. -/
def blockFacts (inAnimation : Bool) (selector : String) : List Fact :=
  match atRule? selector with
  | none => [.rule selector inAnimation]
  | some "@media" => [.media (String.ofList (trim (selector.toList.drop 6)))]
  | some _ => []

/-- The block is an animation. -/
def isAnimation (selector : String) : Bool := (atRule? selector).any (endsWith "keyframes")

mutual

/-- What an item tells. -/
def Item.facts (inAnimation : Bool) : Item → List Fact
  | .block selector _ _ _ children =>
    blockFacts inAnimation selector ++ factsOf (inAnimation || isAnimation selector) children
  | .statement text => statementFacts text
  | .declaration property _ _ _ => [.declared property]

/-- What some items tell, in their order. -/
def factsOf (inAnimation : Bool) : List Item → List Fact
  | [] => []
  | i :: is => i.facts inAnimation ++ factsOf inAnimation is

end

/-- What a stylesheet consists of. -/
structure Summary where
  selectors : List String
  mediaQueries : List String
  customProperties : List String
  imports : List String
  ruleCount : Nat
  declarationCount : Nat
deriving DecidableEq, Repr

namespace Summary

/-- The summary of some facts. -/
def ofFacts (facts : List Fact) : Summary where
  selectors := facts.filterMap fun
    | .rule selector false => some selector
    | _ => none
  mediaQueries := facts.filterMap fun
    | .media query => some query
    | _ => none
  customProperties := (facts.filterMap fun
    | .declared property => if startsWith "--" property then some property else none
    | _ => none).eraseDups
  imports := facts.filterMap fun
    | .imported target => some target
    | _ => none
  ruleCount := facts.countP fun
    | .rule _ _ => true
    | _ => false
  declarationCount := facts.countP fun
    | .declared _ => true
    | _ => false

/-- The summary of the items of a stylesheet. -/
def ofItems (items : List Item) : Summary := ofFacts (factsOf false items)

/-- The entries of a summary. -/
def fields (s : Summary) : Entries :=
  [("selectors", .ofStrings s.selectors), ("media_queries", .ofStrings s.mediaQueries),
    ("custom_properties", .ofStrings s.customProperties), ("imports", .ofStrings s.imports),
    ("rule_count", .ofNat s.ruleCount), ("declaration_count", .ofNat s.declarationCount)]

end Summary

end Codewright.Css
