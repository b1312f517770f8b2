import StoreLint.Json.Parser
import StoreLint.Number.Integer
import StoreLint.Settings.Basic

/-!
# Settings in JSON

Settings are the fields of an object, or `null` for none.  The case of the letters of a name does
not matter, and unknown names are passed over.  A field given twice has its last value, and `null`
takes a field back; a second object of rules adds to the first.
-/

namespace StoreLint

namespace Settings

open Json

/-- A string, or none for `null`. -/
def jsonString? : Json → Option (Option String)
  | .null => some none
  | .string s => some (some s)
  | _ => none

/-- A truth value, or none for `null`. -/
def jsonBoolean? : Json → Option (Option Bool)
  | .null => some none
  | .boolean b => some (some b)
  | _ => none

/-- A whole number of 64 bits without fraction or exponent, or none for `null`. -/
def jsonInteger? : Json → Option (Option Int)
  | .null => some none
  | .number literal =>
    (Number.integer (some 10) (literal.flatMap utf8Char)).toOption.map some
  | _ => none

/-- Rules with a rule added; a rule for the same code gives way. -/
def addRule (rules : List (String × String)) (code name : String) : List (String × String) :=
  rules.filter (fun rule => rule.1 != code) ++ [(code, name)]

/-- Rules with the rules of an object added; `null` takes all rules back, and is an empty name when
it stands for a name. -/
def addJsonRules? (rules : List (String × String)) : Json → Option (List (String × String))
  | .null => some []
  | .object fields =>
    fields.foldlM (fun rules (code, name) =>
      (jsonString? name).map fun name => addRule rules code (name.getD "")) rules
  | _ => none

/-- Settings after a field. -/
def addJsonField? (s : Settings) (name : String) (value : Json) : Option Settings :=
  if sameLetters name "format" then (jsonString? value).map fun v => { s with format := v }
  else if sameLetters name "color" then (jsonBoolean? value).map fun v => { s with color := v }
  else if sameLetters name "sortByLine" then
    (jsonBoolean? value).map fun v => { s with sortByLine := v }
  else if sameLetters name "failOnDeadStore" then
    (jsonBoolean? value).map fun v => { s with failOnDeadStore := v }
  else if sameLetters name "showSource" then
    (jsonBoolean? value).map fun v => { s with showSource := v }
  else if sameLetters name "indent" then (jsonInteger? value).map fun v => { s with indent := v }
  else if sameLetters name "rules" then
    (addJsonRules? s.rules value).map fun v => { s with rules := v }
  else some s

/-- The settings in a JSON text. -/
def ofJson? (text : Bytes) : Option Settings :=
  match parse? text with
  | some .null => some {}
  | some (.object fields) =>
    fields.foldlM (fun (s : Settings) (name, value) => s.addJsonField? name value) {}
  | _ => none

end Settings

end StoreLint
