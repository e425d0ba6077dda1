/-!
# Settings

`Settings` holds what a caller can choose: how wide an indentation is, and how large a source may be.
`Settings.make?` refuses widths that no printer uses, and a limit that admits no source.
-/

namespace Codewright

/-- Why settings are refused. -/
inductive SettingsError where
  | indent (width : Nat)
  | sourceLimit (bytes : Nat)
deriving DecidableEq, Repr

/-- The wording for refused settings. -/
def SettingsError.message : SettingsError → String
  | indent width => "indent_width must be within 1..=16: " ++ toString width
  | sourceLimit bytes => "max_source_bytes must be positive: " ++ toString bytes

/-- What a caller can choose. -/
structure Settings where
  /-- Spaces for one level of indentation. -/
  indentWidth : Nat := 4
  /-- The largest source in bytes. -/
  maxSourceBytes : Nat := 16777216
  indentWidth_ok : 1 ≤ indentWidth ∧ indentWidth ≤ 16 := by decide
  maxSourceBytes_pos : 0 < maxSourceBytes := by decide

namespace Settings

/-- Settings with these values. -/
def make? (indentWidth maxSourceBytes : Nat) : Except SettingsError Settings :=
  if hw : 1 ≤ indentWidth ∧ indentWidth ≤ 16 then
    if hm : 0 < maxSourceBytes then .ok ⟨indentWidth, maxSourceBytes, hw, hm⟩
    else .error (.sourceLimit maxSourceBytes)
  else .error (.indent indentWidth)

/-- One level of indentation. -/
def unit (s : Settings) : String := String.ofList (List.replicate s.indentWidth ' ')

end Settings

end Codewright
