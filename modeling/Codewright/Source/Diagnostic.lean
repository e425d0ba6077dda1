import Codewright.Source.Span

/-!
# Diagnostics

A `Diagnostic` tells a caller about a problem in a source, or about something that was left out while code was
made. `Diagnostic.text` is the line shown to a person.
-/

namespace Codewright.Source

/-- How serious a diagnostic is. -/
inductive Severity where
  | error
  | warning
deriving DecidableEq, Repr, Inhabited

/-- The word for a severity. -/
def Severity.label : Severity → String
  | .error => "error"
  | .warning => "warning"

/-- A message about a place of the source, perhaps with a hint. -/
structure Diagnostic where
  severity : Severity
  message : String
  span : Span
  hint : Option String
deriving DecidableEq, Repr, Inhabited

namespace Diagnostic

/-- An error without a hint. -/
def error (message : String) (span : Span) : Diagnostic := ⟨.error, message, span, none⟩

/-- A warning without a hint. -/
def warning (message : String) (span : Span) : Diagnostic := ⟨.warning, message, span, none⟩

/-- The same diagnostic with a hint. -/
def withHint (d : Diagnostic) (hint : String) : Diagnostic := { d with hint := some hint }

/-- The diagnostic is a warning. -/
def isWarning (d : Diagnostic) : Bool := d.severity == .warning

/-- The line shown to a person: severity, message, and the hint in parentheses. -/
def text (d : Diagnostic) : String :=
  d.severity.label ++ ": " ++ d.message ++
    match d.hint with
    | none => ""
    | some hint => " (" ++ hint ++ ")"

end Diagnostic

end Codewright.Source
