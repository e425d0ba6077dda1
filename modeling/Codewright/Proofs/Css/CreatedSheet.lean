import Mathlib.Algebra.GroupWithZero.Nat
import Codewright.Language.Builtin
import Codewright.Proofs.Css.CreatedText

/-!
# New stylesheets

What `create` makes of simple options is a valid stylesheet, and its summary tells what the options say.

* `Options.facts` – what a stylesheet with the outlines of the options tells, fact by fact;
* `Options.summary` – what the options say, in the form of a summary;
* `Options.toJson` – the options as a record, with the keys that are present;
* `create_summary` – the summary of the text that is made of the record.

White space in the address of an import is collapsed, as that of a selector is (`not_create_summary`).
-/

namespace Codewright.Css

open Text Json

variable {e : String × Json} {entries : Entries} {r : Rule} {m : Media} {o : Options} {s t : String} {v : Json}

/-! ## Facts -/

/-- What a rule tells. -/
def Rule.facts (r : Rule) : List Fact := .rule (collapseSpace r.selector) false :: r.properties.keys.map .declared

/-- What a media query with its rules tells. -/
def Media.facts (m : Media) : List Fact := .media (collapseSpace m.query) :: m.rules.flatMap Rule.facts

/-- What options tell. -/
def Options.facts (o : Options) : List Fact :=
  (o.imports.getD []).map (fun t => .imported (collapseSpace t)) ++
    (if (o.customProperties.getD []).isEmpty then [] else (customRule (o.customProperties.getD [])).facts) ++
    (o.rules.getD []).flatMap Rule.facts ++ (o.media.getD []).flatMap Media.facts

theorem outlineFacts_eq (inAnimation : Bool) (os : List Outline) :
    outlineFacts inAnimation os = os.flatMap (Outline.facts inAnimation) := by
  induction os with
  | nil => rfl
  | cons o os ih => rw [outlineFacts, List.flatMap_cons, ih]

/-- The name of a property comes back from its declaration. -/
theorem facts_propertyOutline (inAnimation : Bool) (name : IsSimpleText e.1) :
    (propertyOutline e).facts inAnimation = [.declared e.1] := by
  have no_colon : ':' ∉ e.1.toList := name.not_mem (by decide)
  obtain ⟨c, first, letter⟩ := name.ends.first
  obtain ⟨cs, name_eq⟩ := List.head?_eq_some_iff.1 first
  -- The name with the colon stays in place when the declaration is trimmed.
  have front : trim (e.1 ++ ": " ++ valueText e.2).toList =
      e.1.toList ++ ':' :: dropWhileEnd isSpace (' ' :: (valueText e.2).toList) := by
    have parts : (e.1 ++ ": " ++ valueText e.2).toList = e.1.toList ++ ':' :: (' ' :: (valueText e.2).toList) := by simp
    have no_space : (e.1.toList ++ ':' :: (' ' :: (valueText e.2).toList)).dropWhile isSpace =
        e.1.toList ++ ':' :: (' ' :: (valueText e.2).toList) := by
      rw [name_eq, List.cons_append, List.dropWhile_cons_of_neg (by simp [letter])]
    rw [parts, trim, trimStart, no_space, trimEnd, dropWhileEnd_append_cons rfl]
  have property : (trim (e.1 ++ ": " ++ valueText e.2).toList).takeWhile (· != ':') = e.1.toList := by
    rw [front, List.takeWhile_append_of_pos fun c hc => by
      rw [bne_iff_ne]
      rintro rfl
      exact no_colon hc]
    simp
  rw [propertyOutline, Outline.facts, trimmed, String.toList_ofList, property, name.trim_toList, String.ofList_toList]

theorem facts_properties (inAnimation : Bool) (simple : AreSimple entries) :
    outlineFacts inAnimation (entries.map propertyOutline) = entries.keys.map .declared := by
  induction entries with
  | nil => rfl
  | cons e entries ih =>
    rw [AreSimple, List.forall_mem_cons] at simple
    rw [List.map_cons, outlineFacts, facts_propertyOutline inAnimation simple.1.1, ih simple.2]
    rfl

/-- A rule whose selector is plain tells of itself and of its properties. -/
theorem facts_ruleOutline (no_at : '@' ∉ r.selector.toList) (simple : AreSimple r.properties) :
    r.outline.facts false = r.facts := by
  have none := atRule?_eq_none no_at
  have no_animation : isAnimation (collapseSpace r.selector) = false := by rw [isAnimation, none]; rfl
  rw [Rule.outline, Outline.facts, blockFacts, none, no_animation, facts_properties _ simple]
  rfl

theorem Rule.IsSimple.facts_outline (simple : r.IsSimple) : r.outline.facts false = r.facts :=
  facts_ruleOutline (simple.selector.not_mem (by decide)) simple.properties

theorem Media.IsSimple.facts_outline (simple : m.IsSimple) : m.outline.facts false = m.facts := by
  have no_animation : isAnimation (collapseSpace ("@media " ++ m.query)) = false := by
    rw [isAnimation, atRule?_media]
    decide
  have rules : (m.rules.map Rule.outline).flatMap (Outline.facts false) = m.rules.flatMap Rule.facts := by
    rw [List.flatMap_map]
    exact List.flatMap_congr fun r hr => (simple.rules r hr).facts_outline
  rw [Media.outline, Outline.facts, blockFacts_media, no_animation, Bool.or_false, outlineFacts_eq, rules]
  rfl

/-- The address that stands in quotes and in `url`. -/
theorem importTarget_url {x : List Char} (no_bracket : ')' ∉ x) (no_quote : ∀ c ∈ x, ¬IsQuote c) :
    importTarget (String.ofList (' ' :: ("url(".toList ++ ('\'' :: (x ++ ['\''] ++ [')'])))) ) = String.ofList x := by
  have address : trim (' ' :: ("url(".toList ++ ('\'' :: (x ++ ['\''] ++ [')'])))) =
      "url(".toList ++ ('\'' :: (x ++ ['\''] ++ [')'])) := by
    have ends : Trimmed isSpace [' '] ("url(".toList ++ ('\'' :: (x ++ ['\''])) ++ [')']) [] :=
      ⟨by simp [isSpace], ⟨'u', by simp, rfl⟩, ⟨')', List.getLast?_concat, rfl⟩, by simp⟩
    simpa using ends.trim
  have stripped : stripStart? "url(".toList ("url(".toList ++ ('\'' :: (x ++ ['\''] ++ [')']))) =
      some ('\'' :: (x ++ ['\''] ++ [')'])) := by simp [stripStart?]
  have inner : ('\'' :: (x ++ ['\''] ++ [')'])).takeWhile (· != ')') = '\'' :: (x ++ ['\'']) := by
    rw [← List.cons_append, ← List.cons_append, List.takeWhile_append_of_pos]
    · simp
    · intro c hc
      rw [bne_iff_ne]
      rintro rfl
      simp [no_bracket] at hc
  have quoted : trim ('\'' :: (x ++ ['\''])) = '\'' :: (x ++ ['\'']) := by
    have ends : Trimmed isSpace [] ('\'' :: x ++ ['\'']) [] :=
      ⟨by simp, ⟨'\'', rfl, rfl⟩, ⟨'\'', List.getLast?_concat, rfl⟩, by simp⟩
    simpa using ends.trim
  let isQuote (c : Char) : Bool := c == '"' || c == '\''
  have no_quote : ∀ c ∈ x, isQuote c = false := by
    intro c hc
    have := no_quote c hc
    simp only [IsQuote, not_or] at this
    simp [isQuote, this]
  have front : ('\'' :: (x ++ ['\''])).dropWhile isQuote = if x = [] then [] else x ++ ['\''] := by
    cases x with
    | nil => rfl
    | cons c cs =>
      rw [List.dropWhile_cons_of_pos rfl, List.cons_append, List.dropWhile_cons_of_neg (by simp [no_quote c])]
      rfl
  have bare : dropWhileEnd isQuote (('\'' :: (x ++ ['\''])).dropWhile isQuote) = x := by
    rw [front]
    split_ifs with none
    · rw [none]
      rfl
    · obtain ⟨y, d, rfl⟩ := List.eq_nil_or_concat' x |>.resolve_left none
      have letter := no_quote d (by simp)
      rw [List.append_assoc, List.singleton_append, dropWhileEnd_append_cons letter,
        dropWhileEnd_of_all (List.forall_mem_singleton.2 rfl)]
  have some_bracket : ('\'' :: (x ++ ['\''] ++ [')'])).contains ')' = true := List.contains_iff_mem.2 (by simp)
  simp only [importTarget, String.toList_ofList, address, stripped, some_bracket, if_true, inner, quoted]
  exact congrArg String.ofList bare

/-- The address of an import comes back with its white space collapsed. -/
theorem facts_importOutline (simple : IsSimpleText t) : (importOutline t).facts false = [.imported (collapseSpace t)] := by
  -- The statement without spare white space.
  have statement : (collapseSpace ("@import url('" ++ t ++ "')")).toList =
      "@import".toList ++ ' ' :: ("url(".toList ++ ('\'' :: ((collapseSpace t).toList ++ ['\''] ++ [')']))) := by
    have parts : ("@import url('" ++ t ++ "')").toList =
        "@import".toList ++ ([' '] ++ ("url('".toList ++ (t.toList ++ ['\'', ')']))) := by simp
    have word : words "@import".toList = ["@import".toList] := by decide
    have around := intercalate_words_around (p := "url('".toList) (q := ['\'', ')']) (by simp [isSpace]) (by simp [isSpace])
      simple.ends
    obtain ⟨w, ws, some_word⟩ := List.exists_cons_of_ne_nil (words_ne_nil (s := "url('".toList ++ (t.toList ++ ['\'', ')']))
      ⟨'u', by simp, rfl⟩)
    rw [toList_collapseSpace, parts, words_append (by simp [isSpace]) (by simp), word, some_word, List.singleton_append,
      List.intercalate_cons_cons, ← some_word, around, ← toList_collapseSpace]
    simp
  have no_special {c : Char} (special : c ∈ "'\")".toList) : c ∉ (collapseSpace t).toList := by
    have within : "'\")".toList ⊆ "'\"()\x7b\x7d;:/\\@\n".toList := by decide
    intro hc
    rcases mem_collapseSpace hc with rfl | here
    · exact absurd special (by decide)
    · exact simple.not_mem (within special) here
  have stripped (cs : List Char) : stripStart? "@import".toList ("@import".toList ++ cs) = some cs := by simp [stripStart?]
  rw [importOutline, Outline.facts, statementFacts, statement, stripped]
  have target := importTarget_url (no_special (c := ')') (by decide)) (by
    rintro c hc (rfl | rfl)
    · exact no_special (by decide) hc
    · exact no_special (by decide) hc)
  rw [String.ofList_toList] at target
  exact congrArg (fun t => [Fact.imported t]) target

/-- A stylesheet with the outlines of simple options tells what they tell. -/
theorem Options.IsSimple.facts_outlines (simple : o.IsSimple) : outlineFacts false o.outlines = o.facts := by
  have custom : (customRule (o.customProperties.getD [])).outline.facts false = (customRule (o.customProperties.getD [])).facts :=
    facts_ruleOutline (by change '@' ∉ ":root".toList; decide) simple.customProperties.mapKeys_customName
  have imports : ((o.imports.getD []).map importOutline).flatMap (Outline.facts false) =
      (o.imports.getD []).map fun t => .imported (collapseSpace t) := by
    rw [List.flatMap_map, List.map_eq_flatMap]
    exact List.flatMap_congr fun t ht => facts_importOutline (simple.imports t ht)
  have rules : ((o.rules.getD []).map Rule.outline).flatMap (Outline.facts false) = (o.rules.getD []).flatMap Rule.facts := by
    rw [List.flatMap_map]
    exact List.flatMap_congr fun r hr => (simple.rules r hr).facts_outline
  have media : ((o.media.getD []).map Media.outline).flatMap (Outline.facts false) = (o.media.getD []).flatMap Media.facts := by
    rw [List.flatMap_map]
    exact List.flatMap_congr fun m hm => (simple.media m hm).facts_outline
  rw [outlineFacts_eq, Options.outlines, Options.facts]
  simp only [List.flatMap_append, imports, rules, media]
  congr 3
  split_ifs
  · rfl
  · rw [List.flatMap_singleton, custom]

/-! ## Summaries -/

/-- The names of the custom properties, each of them once. -/
def Options.customNames (o : Options) : List String := ((o.customProperties.getD []).map (customName ·.1)).eraseDups

/-- The rules, and behind them those of the media queries. -/
def Options.allRules (o : Options) : List Rule := o.rules.getD [] ++ (o.media.getD []).flatMap (·.rules)

/-- What options say, in the form of a summary. -/
def Options.summary (o : Options) : Summary where
  selectors := (if (o.customProperties.getD []).isEmpty then [] else [":root"]) ++ o.allRules.map (collapseSpace ·.selector)
  mediaQueries := (o.media.getD []).map (collapseSpace ·.query)
  customProperties := ((o.customNames ++ o.allRules.flatMap (·.properties.keys)).filter (startsWith "--")).eraseDups
  imports := (o.imports.getD []).map collapseSpace
  ruleCount := (if (o.customProperties.getD []).isEmpty then 0 else 1) + o.allRules.length
  declarationCount := o.customNames.length + (o.allRules.map (·.properties.length)).sum

theorem keys_customRule (o : Options) : (customRule (o.customProperties.getD [])).properties.keys = o.customNames := by
  rw [customRule, mapKeys, Entries.keys_ofPairs, Options.customNames, List.map_map]
  rfl

/-- The rules under media queries are told of as other rules are, but for the queries themselves. -/
theorem filterMap_mediaFacts {α : Type} {g : Fact → Option α} (no_query : ∀ q, g (.media q) = none) (ms : List Media) :
    (ms.flatMap Media.facts).filterMap g = ((ms.flatMap (·.rules)).flatMap Rule.facts).filterMap g := by
  rw [List.flatMap_assoc, List.filterMap_flatMap, List.filterMap_flatMap]
  refine List.flatMap_congr fun m _ => ?_
  rw [Media.facts, List.filterMap_cons_none (no_query _)]

/-- What is taken from the facts of options, if media queries do not matter. -/
theorem Options.filterMap_facts {α : Type} {g : Fact → Option α} (no_query : ∀ q, g (.media q) = none) (o : Options) :
    o.facts.filterMap g = ((o.imports.getD []).map (Fact.imported ∘ collapseSpace)).filterMap g ++
      ((if (o.customProperties.getD []).isEmpty then [] else (customRule (o.customProperties.getD [])).facts).filterMap g ++
        (o.allRules.flatMap Rule.facts).filterMap g) := by
  simp only [Options.facts, Options.allRules, List.filterMap_append, List.flatMap_append, List.append_assoc,
    filterMap_mediaFacts no_query, Function.comp_def]

/-- What is counted among the facts of options, if imports and media queries do not matter. -/
theorem Options.countP_facts {p : Fact → Bool} (no_query : ∀ q, p (.media q) = false) (no_import : ∀ t, p (.imported t) = false)
    (o : Options) : o.facts.countP p =
      (if (o.customProperties.getD []).isEmpty then [] else (customRule (o.customProperties.getD [])).facts).countP p +
        (o.allRules.flatMap Rule.facts).countP p := by
  have no_imports : ((o.imports.getD []).map (Fact.imported ∘ collapseSpace)).filterMap (Option.guard p) = [] := by
    rw [List.filterMap_map, List.filterMap_eq_nil_iff]
    simp [no_import]
  simp only [List.countP_eq_length_filter, ← List.filterMap_eq_filter]
  rw [Options.filterMap_facts (by simp [no_query]), no_imports, List.nil_append, List.length_append]

/-- The summary of what options tell. -/
theorem Options.ofFacts_facts (o : Options) : Summary.ofFacts o.facts = o.summary := by
  have keys := keys_customRule o
  have root : collapseSpace (customRule (o.customProperties.getD [])).selector = ":root" := by
    change collapseSpace ":root" = ":root"
    decide
  have none_named (none : (o.customProperties.getD []).isEmpty = true) : o.customNames = [] := by
    rw [Options.customNames, List.isEmpty_iff.1 none]
    rfl
  have dashed (names : List String) : names.filterMap (fun p => if startsWith "--" p then some p else none) =
      names.filter (startsWith "--") := congrFun List.filterMap_eq_filter names
  have nothing {α β : Type} (l : List α) : l.flatMap (fun _ => ([] : List β)) = [] := by simp
  have size (r : Rule) : r.properties.keys.length = r.properties.length := List.length_map _
  rw [Summary.ofFacts, Options.summary, Options.countP_facts (by simp) (by simp), Options.countP_facts (by simp) (by simp)]
  congr 1
  · rw [Options.filterMap_facts (by simp)]
    split_ifs
    · simp [List.filterMap_flatMap, Rule.facts, ← List.map_eq_flatMap]
    · simp [List.filterMap_flatMap, Rule.facts, ← List.map_eq_flatMap, root]
  · rw [Options.facts]
    split_ifs
    · simp [List.filterMap_flatMap, Rule.facts, Media.facts, nothing, ← List.map_eq_flatMap]
    · simp [List.filterMap_flatMap, Rule.facts, Media.facts, nothing, ← List.map_eq_flatMap]
  · rw [Options.filterMap_facts (by simp)]
    split_ifs with none
    · simp [List.filterMap_flatMap, Rule.facts, List.filter_flatMap, none_named none, dashed]
    · simp [List.filterMap_flatMap, Rule.facts, List.filter_flatMap, keys, dashed]
  · rw [Options.filterMap_facts (by simp)]
    split_ifs
    · simp [List.filterMap_flatMap, Rule.facts]
    · simp [List.filterMap_flatMap, Rule.facts]
  · split_ifs
    · simp [List.countP_flatMap, Rule.facts, Function.comp_def]
    · simp [List.countP_flatMap, Rule.facts, Function.comp_def]
  · split_ifs with none
    · simp [List.countP_flatMap, Rule.facts, Function.comp_def, none_named none, size]
    · simp [List.countP_flatMap, Rule.facts, Function.comp_def, keys, size]

/-! ## Records -/

/-- A rule as a record. -/
def Rule.toJson (r : Rule) : Json := .object [("selector", .string r.selector), ("properties", .object r.properties)]

/-- A media query as a record. -/
def Media.toJson (m : Media) : Json := .object [("query", .string m.query), ("rules", .array (m.rules.map Rule.toJson))]

/-- Options as a record with the keys that are present. -/
def Options.toJson (o : Options) : Json := .object (
  (o.imports.map fun ts => ("imports", .ofStrings ts)).toList ++
    (o.customProperties.map fun es => ("variables", .object es)).toList ++
    (o.rules.map fun rs => ("rules", .array (rs.map Rule.toJson))).toList ++
    (o.media.map fun ms => ("media", .array (ms.map Media.toJson))).toList)

/-- The rule with its numerals in plain form. -/
def Rule.plain (r : Rule) : Rule := { r with properties := plainEntries r.properties }

/-- The media query with the numerals of its rules in plain form. -/
def Media.plain (m : Media) : Media := { m with rules := m.rules.map Rule.plain }

/-- The options with all numerals in plain form. -/
def Options.plain (o : Options) : Options where
  imports := o.imports
  customProperties := o.customProperties.map plainEntries
  rules := o.rules.map (·.map Rule.plain)
  media := o.media.map (·.map Media.plain)

/-- A list is read item by item. -/
theorem list_map {α β : Type} {decode : Decoder β} {write : α → Json} {f : α → β}
    (each : ∀ a, decode (write a) = .ok (f a)) (as : List α) :
    Decoder.list decode (.array (as.map write)) = .ok (as.map f) := by
  change (as.map write).mapM decode = _
  induction as with
  | nil => rfl
  | cons a as ih =>
    rw [List.map_cons, List.mapM_cons, each, ih]
    rfl

theorem Rule.decode_toJson (r : Rule) : Rule.record.decode r.toJson = .ok r.plain := rfl

theorem Media.decode_toJson (m : Media) : Media.record.decode m.toJson = .ok m.plain := by
  have rules := list_map Rule.decode_toJson m.rules
  simp [Media.record, Media.toJson, Record.decode, Record.readEntries, Field.hasKey, Field.required, Field.optional, rules]
  rfl

/-- The record of options is read as these options. -/
theorem Options.readOptions_toJson (o : Options) : readOptions record o.toJson = .ok o.plain := by
  have texts (ts : List String) : Decoder.list .string (.array (ts.map .string)) = .ok ts := by
    have each (t : String) : Decoder.string (.string t) = .ok (id t) := rfl
    have := list_map each ts
    rwa [List.map_id] at this
  have rules (rs : List Rule) := list_map Rule.decode_toJson rs
  have media (ms : List Media) := list_map Media.decode_toJson ms
  obtain ⟨imports, customProperties, rs, ms⟩ := o
  have decoded : record.decode (toJson ⟨imports, customProperties, rs, ms⟩) =
      .ok (Options.plain ⟨imports, customProperties, rs, ms⟩) := by
    cases imports <;> cases customProperties <;> cases rs <;> cases ms <;>
      simp [record, toJson, Options.plain, Record.decode, Record.readEntries, Field.hasKey, Field.optionalByName,
        Field.optional, Decoder.nullable, Decoder.entries, texts, rules, media, Except.map, Except.bind, ofStrings]
  rw [readOptions, decoded]
  rfl

/-! ## Numerals -/

theorem isNumeralChar_toDigits {n : Nat} : ∀ c ∈ Nat.toDigits 10 n, IsNumeralChar c :=
  fun _ hc => .inl (Nat.isDigit_of_mem_toDigits (by decide) (by decide) hc)

theorem isNumeralChar_positional (d : Decimal) : ∀ c ∈ d.positional, IsNumeralChar c := by
  have zeros (n : Nat) : ∀ c ∈ List.replicate n '0', IsNumeralChar c := fun c hc => by
    rw [List.eq_of_mem_replicate hc]
    exact .inl rfl
  unfold Decimal.positional
  split_ifs
  · exact List.forall_mem_append.2 ⟨isNumeralChar_toDigits, zeros _⟩
  · have padded (n : Nat) := List.forall_mem_append.2 ⟨zeros n, isNumeralChar_toDigits (n := d.digits)⟩
    refine List.forall_mem_append.2 ⟨fun c hc => padded _ c (List.mem_of_mem_take hc), ?_⟩
    exact List.forall_mem_cons.2 ⟨.inr (by decide), fun c hc => padded _ c (List.mem_of_mem_drop hc)⟩

theorem isNumeralChar_scientific (d : Decimal) : ∀ c ∈ d.scientific, IsNumeralChar c := by
  unfold Decimal.scientific
  refine List.forall_mem_append.2 ⟨List.forall_mem_append.2 ⟨?_, ?_⟩, ?_⟩
  · exact fun c hc => isNumeralChar_toDigits c (List.mem_of_mem_take hc)
  · split_ifs
    · simp
    · exact List.forall_mem_cons.2 ⟨.inr (by decide), fun c hc => isNumeralChar_toDigits c (List.mem_of_mem_drop hc)⟩
  · refine List.forall_mem_cons.2 ⟨.inr (by decide), List.forall_mem_cons.2 ⟨?_, isNumeralChar_toDigits⟩⟩
    split_ifs
    · exact .inr (by decide)
    · exact .inr (by decide)

theorem isNumeralChar_plainMagnitude (bound : Nat) {text : List Char} (numeral : ∀ c ∈ text, IsNumeralChar c) :
    ∀ c ∈ plainMagnitude bound text, IsNumeralChar c := by
  unfold plainMagnitude
  split_ifs
  · exact numeral
  · split
    · split_ifs
      · unfold writtenMagnitude
        dsimp only
        split_ifs
        · exact isNumeralChar_positional _
        · exact isNumeralChar_scientific _
      · exact numeral
    · exact numeral

/-- The plain form of a numeral is a numeral. -/
theorem isNumeralChar_plainNumeral (numeral : ∀ c ∈ t.toList, IsNumeralChar c) :
    ∀ c ∈ (plainNumeral t).toList, IsNumeralChar c := by
  unfold plainNumeral
  split
  · simp [IsNumeralChar]
  next cs _ text_eq =>
    rw [text_eq, List.forall_mem_cons] at numeral
    rw [String.toList_ofList]
    exact List.forall_mem_cons.2 ⟨numeral.1, isNumeralChar_plainMagnitude _ numeral.2⟩
  next =>
    rw [String.toList_ofList]
    exact isNumeralChar_plainMagnitude _ numeral

theorem IsSimpleValue.plain (simple : IsSimpleValue v) : IsSimpleValue v.plain := by
  cases v with
  | number t => exact isNumeralChar_plainNumeral simple
  | null | bool _ | string _ => exact simple
  | array _ | object _ => cases simple

theorem plainEntries_eq_map (es : Entries) : plainEntries es = es.map fun e => (e.1, e.2.plain) := by
  induction es with
  | nil => rfl
  | cons e es ih => rw [plainEntries, ih, List.map_cons]

theorem AreSimple.plain (simple : AreSimple entries) : AreSimple (plainEntries entries) := by
  rw [AreSimple, plainEntries_eq_map, List.forall_mem_map]
  exact fun e he => ⟨(simple e he).1, (simple e he).2.plain⟩

theorem Rule.IsSimple.plain (simple : r.IsSimple) : r.plain.IsSimple := ⟨simple.selector, simple.properties.plain⟩

theorem Media.IsSimple.plain (simple : m.IsSimple) : m.plain.IsSimple :=
  ⟨simple.query, List.forall_mem_map.2 fun r hr => (simple.rules r hr).plain⟩

/-- What the options contain, in plain form. -/
theorem Options.getD_plain (o : Options) :
    o.plain.customProperties.getD [] = plainEntries (o.customProperties.getD []) ∧
      o.plain.rules.getD [] = (o.rules.getD []).map Rule.plain ∧ o.plain.media.getD [] = (o.media.getD []).map Media.plain :=
  ⟨Option.getD_map plainEntries [] _, Option.getD_map (List.map Rule.plain) [] _, Option.getD_map (List.map Media.plain) [] _⟩

theorem Options.IsSimple.plain (simple : o.IsSimple) : o.plain.IsSimple := by
  obtain ⟨customProperties, rules, media⟩ := o.getD_plain
  refine ⟨simple.imports, ?_, ?_, ?_⟩
  · rw [customProperties]
    exact simple.customProperties.plain
  · rw [rules]
    exact List.forall_mem_map.2 fun r hr => (simple.rules r hr).plain
  · rw [media]
    exact List.forall_mem_map.2 fun m hm => (simple.media m hm).plain

/-- Plain forms of numerals do not show in the summary. -/
theorem Options.summary_plain (o : Options) : o.plain.summary = o.summary := by
  obtain ⟨customProperties, rules, media⟩ := o.getD_plain
  have names : o.plain.customNames = o.customNames := by
    rw [customNames, customProperties, plainEntries_eq_map, List.map_map]
    rfl
  have all : o.plain.allRules = o.allRules.map Rule.plain := by
    simp [allRules, rules, media, List.flatMap_map, List.map_flatMap, Media.plain]
  have none : (o.plain.customProperties.getD []).isEmpty = (o.customProperties.getD []).isEmpty := by
    rw [customProperties, plainEntries_eq_map, List.isEmpty_map]
  have imports : o.plain.imports = o.imports := rfl
  have keys (es : Entries) : (plainEntries es).keys = es.keys := by simp [plainEntries_eq_map, Entries.keys]
  have size (es : Entries) : (plainEntries es).length = es.length := by simp [plainEntries_eq_map]
  simp [summary, names, all, none, imports, keys, size, media, List.flatMap_map, Function.comp_def, Rule.plain, Media.plain]

/-! ## Creation -/

/-- What is made of simple options is a stylesheet that tells what they say. -/
theorem Options.IsSimple.exists_created (s : Settings) (simple : o.IsSimple) (present : o.isEmpty = false)
    (read : readOptions Options.record v = readOptions Options.record o.toJson) :
    ∃ text items, (Language.css s).create v = .ok ⟨text, []⟩ ∧ parse text.toList = .ok items ∧
      Summary.ofItems items = o.summary := by
  have no_feed : '\n' ∉ s.unit.toList := by
    rw [Settings.unit, String.toList_ofList]
    intro feed
    cases List.eq_of_mem_replicate feed
  obtain ⟨content, sheet, outlines⟩ := Options.exists_sheet (isSpace_unit s) no_feed simple.plain
  have present : o.plain.isEmpty = false := by simpa [Options.isEmpty, Options.plain] using present
  have created : (Language.css s).create v = .ok ⟨o.plain.print s.unit, []⟩ := by
    change (Css.create s.unit v).bind _ = _
    rw [Options.create_eq (read.trans o.readOptions_toJson) present]
    rfl
  refine ⟨_, _, created, sheet.parse, ?_⟩
  rw [Summary.ofItems, ← outlineFacts_outlinesOf (o.plain.print s.unit).toList, Content.outlinesOf_whole sheet.chars, outlines,
    simple.plain.facts_outlines, Options.ofFacts_facts, Options.summary_plain]

/-- A value that is read as a record of simple options, with one of its keys at least, is made into a text that validates, and
the summary of this text is what the options say. -/
theorem create_summary (s : Settings) {o : Options} {v : Json} (present : o.isEmpty = false) (simple : o.IsSimple)
    (read : readOptions Options.record v = readOptions Options.record o.toJson) :
    ∃ text, (Language.css s).create v = .ok ⟨text, []⟩ ∧ (Language.css s).isValid text = true ∧
      (Language.css s).analyze text = .ok (.stylesheet o.summary) := by
  obtain ⟨text, items, created, parsed, told⟩ := simple.exists_created s present read
  refine ⟨text, created, ?_, ?_⟩
  · change (parse text.toList).isOk = true
    rw [parsed]
    rfl
  · change (itemsOf text).bind _ = _
    rw [itemsOf, parsed, ← told]
    rfl

/-- Two names of one custom property, a rule with a number, and an empty media query, given out of order. -/
theorem create_summary_repeated :
    Options.isEmpty ⟨some ["a.css"], some [("b", .string "c"), ("--b", .null)], some [⟨"d  e", [("f", .number "10")]⟩],
      some [⟨"print", []⟩]⟩ = false ∧
    Options.IsSimple ⟨some ["a.css"], some [("b", .string "c"), ("--b", .null)], some [⟨"d  e", [("f", .number "10")]⟩],
      some [⟨"print", []⟩]⟩ ∧
    ∃ text, (Language.css {}).create (.object [
        ("media", .array [.object [("query", .string "print")]]),
        ("rules", .array [.array [.string "d  e", .object [("f", .number "10")]]]),
        ("imports", .ofStrings ["a.css"]),
        ("variables", .object [("b", .string "c"), ("--b", .null)])]) = .ok ⟨text, []⟩ ∧
      (Language.css {}).isValid text = true ∧
      (Language.css {}).analyze text = .ok (.stylesheet ⟨[":root", "d e"], ["print"], ["--b"], ["a.css"], 2, 2⟩) := by
  have simple : Options.IsSimple ⟨some ["a.css"], some [("b", .string "c"), ("--b", .null)],
      some [⟨"d  e", [("f", .number "10")]⟩], some [⟨"print", []⟩]⟩ := by
    refine ⟨?_, ?_, ?_, ?_⟩
    · exact List.forall_mem_singleton.2 (by decide)
    · refine List.forall_mem_cons.2 ⟨⟨by decide, ?_⟩, List.forall_mem_singleton.2 ⟨by decide, trivial⟩⟩
      exact show IsSimpleText "c" by decide
    · refine List.forall_mem_singleton.2 ⟨by decide, List.forall_mem_singleton.2 ⟨by decide, ?_⟩⟩
      exact show ∀ c ∈ "10".toList, IsNumeralChar c by simp [IsNumeralChar]
    · exact List.forall_mem_singleton.2 ⟨by decide, List.forall_mem_nil _⟩
  refine ⟨rfl, simple, create_summary {} rfl simple rfl⟩

/-- White space in the address of an import does not come back as it was. -/
theorem not_create_summary : ¬∀ (s : Settings) (o : Options) (v : Json), o.isEmpty = false → o.IsSimple →
    readOptions Options.record v = readOptions Options.record o.toJson →
      ∃ text, (Language.css s).create v = .ok ⟨text, []⟩ ∧ (Language.css s).isValid text = true ∧
        (Language.css s).analyze text = .ok (.stylesheet { o.summary with imports := o.imports.getD [] }) := by
  intro exact_imports
  have simple : Options.IsSimple { imports := some ["a  b.css"] } := by
    refine ⟨List.forall_mem_singleton.2 (by decide), ?_, ?_, ?_⟩
    · exact List.forall_mem_nil _
    · exact List.forall_mem_nil _
    · exact List.forall_mem_nil _
  obtain ⟨text, created, -, told⟩ := exact_imports {} _ _ rfl simple rfl
  obtain ⟨text', items, created', parsed, told'⟩ := simple.exists_created {} rfl rfl
  obtain rfl : text = text' := congrArg Output.text (Except.ok.inj (created.symm.trans created'))
  change (itemsOf text).bind _ = _ at told
  rw [itemsOf, parsed] at told
  have same := congrArg Summary.imports (told'.symm.trans (Report.stylesheet.inj (Except.ok.inj told)))
  revert same
  decide

end Codewright.Css
