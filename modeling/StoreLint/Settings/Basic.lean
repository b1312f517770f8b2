import StoreLint.Analysis.Basic

/-!
# Settings

A settings file may fix some of seven settings and leave the others open.  What it leaves open has a
default, and the command line overrides both.

* `Settings` is what a file says, and `Settings.invalid?` the first thing wrong with it.
* `Overrides` is what the command line says.
* `Options` is what holds in the end; `Options.request` is the part of it that is about the
  analysis.
-/

namespace StoreLint

/-- The form of a report. -/
inductive ReportFormat where
  | text
  | json
  | yaml
  deriving DecidableEq, Repr

namespace ReportFormat

/-- The name of a form. -/
def name : ReportFormat → String
  | .text => "text"
  | .json => "json"
  | .yaml => "yaml"

/-- All forms. -/
def all : List ReportFormat :=
  [.text, .json, .yaml]

/-- The form with a given name. -/
def ofName? (name : String) : Option ReportFormat :=
  all.find? fun f => f.name = name

end ReportFormat

/-- What a settings file says. -/
structure Settings where
  /-- The name of the form of the report. -/
  format : Option String := none
  /-- Is the text report styled? -/
  color : Option Bool := none
  /-- Are dead assignments reported by line? -/
  sortByLine : Option Bool := none
  /-- Do dead assignments make a check fail? -/
  failOnDeadStore : Option Bool := none
  /-- Does the text report show source lines? -/
  showSource : Option Bool := none
  /-- The number of spaces for a level of nesting. -/
  indent : Option Int := none
  /-- Names of severities by code. -/
  rules : List (String × String) := []
  deriving DecidableEq, Repr

namespace Settings

/-- What is wrong with settings. -/
inductive Invalid where
  | format (name : String)
  | indent (n : Int)
  | rule (e : Rules.Invalid)
  deriving DecidableEq, Repr

/-- The message about wrong settings. -/
def Invalid.message : Invalid → Bytes
  | .format name =>
    utf8 "unknown format " ++ quoted (utf8 name) ++ utf8 " (want one of "
      ++ (utf8 ", ").intercalate (ReportFormat.all.map fun f => utf8 f.name) ++ utf8 ")"
  | .indent n => utf8 "indent must be between 1 and 16, got " ++ decimal n
  | .rule e => e.message

/-- The first thing wrong with settings: an unknown form, an indent out of bounds, or a rule with an
unknown severity. -/
def invalid? (s : Settings) : Option Invalid :=
  match s.format.filter fun name => (ReportFormat.ofName? name).isNone with
  | some name => some (.format name)
  | none =>
    match s.indent.filter fun n => n < 1 || 16 < n with
    | some n => some (.indent n)
    | none =>
      (s.rules.find? fun rule => (Severity.ofName? rule.2).isNone).map fun rule =>
        .rule ⟨rule.1, rule.2⟩

end Settings

/-- The settings that hold in the end. -/
structure Options where
  format : String := "text"
  color : Bool := true
  sortByLine : Bool := true
  failOnDeadStore : Bool := false
  showSource : Bool := true
  indent : Int := 4
  rules : Rules := []
  deriving DecidableEq, Repr

/-- What the command line says. -/
structure Overrides where
  /-- The form of the report; empty when it is not given. -/
  format : String := ""
  noColor : Bool := false
  unsorted : Bool := false
  fail : Bool := false
  /-- The indent; not positive when it is not given. -/
  indent : Int := 0
  deriving DecidableEq, Repr

namespace Settings

/-- The rules of settings.  Codes are taken in upper case, and an unknown severity as off. -/
def resolvedRules (s : Settings) : Rules :=
  s.rules.foldl (fun rules (code, name) =>
    rules.set (upperCase code) ((Severity.ofName? name).getD .off)) []

/-- Settings with the default for what they leave open. -/
def options (s : Settings) : Options :=
  { format := s.format.getD "text"
    color := s.color.getD true
    sortByLine := s.sortByLine.getD true
    failOnDeadStore := s.failOnDeadStore.getD false
    showSource := s.showSource.getD true
    indent := s.indent.getD 4
    rules := s.resolvedRules }

/-- Settings under the command line. -/
def merge (s : Settings) (o : Overrides) : Options :=
  let base := s.options
  { base with
    format := if o.format = "" then base.format else o.format
    color := base.color && !o.noColor
    sortByLine := base.sortByLine && !o.unsorted
    failOnDeadStore := base.failOnDeadStore || o.fail
    indent := if 0 < o.indent then o.indent else base.indent }

end Settings

/-- The analysis that options ask for. -/
def Options.request (o : Options) : Request :=
  { order := if o.sortByLine then .byLine else .discovery
    rules := o.rules.map fun (code, severity) => (code, severity.name) }

end StoreLint
