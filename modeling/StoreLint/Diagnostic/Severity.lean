import StoreLint.Text.Case
import StoreLint.Text.Quoted
import StoreLint.Text.Space

/-!
# Severities and rules

A diagnostic is an error, a warning, an information or a note.  Rules change the severity of the
diagnostics with a given code, or turn them off; an error stays an error whatever the rules say.
-/

namespace StoreLint

/-- How serious a diagnostic is. -/
inductive Severity where
  | error
  | warning
  | info
  | note
  /-- Not reported at all. -/
  | off
  /-- A severity beyond the known ones. -/
  | unknown
  deriving DecidableEq, Repr, Inhabited

namespace Severity

/-- The severity with a given number. -/
def ofCode : Nat → Severity
  | 0 => .error
  | 1 => .warning
  | 2 => .info
  | 3 => .note
  | 255 => .off
  | _ => .unknown

/-- The name of a severity. -/
def name : Severity → String
  | .error => "error"
  | .warning => "warning"
  | .info => "info"
  | .note => "note"
  | .off => "off"
  | .unknown => "unknown"

/-- The severity that a name stands for.  White space around the name and the case of its letters do
not matter, and two severities have a second name. -/
def ofName? (name : String) : Option Severity :=
  let word := String.ofList ((trimSpace name.toList).map asciiLower)
  if word = "error" then some .error
  else if word = "warning" ∨ word = "warn" then some .warning
  else if word = "info" then some .info
  else if word = "note" then some .note
  else if word = "off" ∨ word = "none" then some .off
  else none

/-- The message about a name that stands for no severity. -/
def unknownName (name : String) : Bytes :=
  utf8 "unknown severity " ++ quoted (utf8 name)

end Severity

/-- Severities by code, a later entry for a code replacing an earlier one. -/
abbrev Rules := List (String × Severity)

namespace Rules

/-- Sets the severity of a code. -/
def set (rules : Rules) (code : String) (severity : Severity) : Rules :=
  rules.filter (fun rule => rule.1 != code) ++ [(code, severity)]

/-- A rule whose severity has an unknown name. -/
structure Invalid where
  code : String
  name : String
  deriving DecidableEq, Repr

/-- The message about an invalid rule. -/
def Invalid.message (e : Invalid) : Bytes :=
  utf8 "rule " ++ utf8 e.code ++ utf8 ": " ++ Severity.unknownName e.name

/-- The rules that map codes to names of severities; codes are taken in upper case. -/
def ofNames (names : List (String × String)) : Except Invalid Rules :=
  names.foldlM (fun rules (code, name) =>
    match Severity.ofName? name with
    | some severity => .ok (rules.set (upperCase code) severity)
    | none => .error ⟨code, name⟩) []

/-- The severity of a diagnostic with a code and a severity of its own. -/
def severityFor (rules : Rules) (code : String) (own : Severity) : Severity :=
  if own = .error then .error else (rules.lookup code).getD own

end Rules

end StoreLint
