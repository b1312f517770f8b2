import StoreLint.Settings.Basic
import StoreLint.Toml.Parser

/-!
# Settings in TOML

Settings are the fields of the document.  The case of the letters of a name does not matter, and
unknown names are passed over.  A field must have a value of its own type; only for `rules` a value
that is no table is passed over.
-/

namespace StoreLint.Settings

open Toml

/-- A string. -/
def tomlString? : Toml → Option String
  | .string s => some s
  | _ => none

/-- A truth value. -/
def tomlBoolean? : Toml → Option Bool
  | .boolean b => some b
  | _ => none

/-- A whole number. -/
def tomlInteger? : Toml → Option Int
  | .integer n => some n
  | _ => none

/-- The rules of a table, whose values must be strings. -/
def tomlRules? : Toml → Option (List (String × String))
  | .table fields => fields.mapM fun (code, name) => (tomlString? name).map fun name => (code, name)
  | _ => some []

/-- Settings after a field. -/
def addTomlField? (s : Settings) (name : String) (value : Toml) : Option Settings :=
  if sameLetters name "format" then (tomlString? value).map fun v => { s with format := some v }
  else if sameLetters name "color" then (tomlBoolean? value).map fun v => { s with color := some v }
  else if sameLetters name "sortByLine" then
    (tomlBoolean? value).map fun v => { s with sortByLine := some v }
  else if sameLetters name "failOnDeadStore" then
    (tomlBoolean? value).map fun v => { s with failOnDeadStore := some v }
  else if sameLetters name "showSource" then
    (tomlBoolean? value).map fun v => { s with showSource := some v }
  else if sameLetters name "indent" then
    (tomlInteger? value).map fun v => { s with indent := some v }
  else if sameLetters name "rules" then (tomlRules? value).map fun v => { s with rules := v }
  else some s

/-- The settings in a TOML text. -/
def ofToml? (text : Bytes) : Option Settings := do
  (← parse? text).foldlM (fun (s : Settings) (name, value) => s.addTomlField? name value) {}

end StoreLint.Settings
