import StoreLint.Analysis.Basic

/-!
# Reports as data

The report about a file, apart from its form: records, lists, numbers and texts.  Fields stand in a
fixed order, and some are left out when there is nothing to say in them.
-/

namespace StoreLint

/-- A report, or a part of one. -/
inductive Data where
  | number (n : Int)
  | text (t : Bytes)
  | list (items : List Data)
  | record (fields : List (String × Data))

/-- The fields of a place. -/
def Position.data (p : Position) : List (String × Data) :=
  [("line", .number p.line), ("column", .number p.column)]

/-- A field that is left out when its list is empty. -/
def Data.optionalList (name : String) (items : List Data) : List (String × Data) :=
  if items.isEmpty then [] else [(name, .list items)]

/-- The report about a dead assignment. -/
def DeadStore.data (d : DeadStore) : Data :=
  .record (d.position.data
    ++ [("variable", .text [d.target]), ("statement", .text d.statement)]
    ++ d.overwrittenAt.toList.map fun p => ("overwrittenAt", .record p.data))

/-- The report about an error. -/
def Fault.data (f : Fault) : Data :=
  .record ([("code", .text (utf8 f.code)), ("message", .text f.message)] ++ f.position.data)

/-- The report about a note. -/
def Note.data (n : Note) : Data :=
  .record (("message", .text n.message) :: n.range.start.data)

/-- The report about a diagnostic. -/
def Diagnostic.data (d : Diagnostic) : Data :=
  .record ([("severity", .text (utf8 d.severity.name)), ("code", .text (utf8 d.code)),
      ("message", .text d.message)]
    ++ d.range.start.data ++ Data.optionalList "related" (d.notes.map Note.data))

/-- The report about the counts. -/
def Stats.data (s : Stats) : Data :=
  .record [("lines", .number s.lines), ("tokens", .number s.tokens),
    ("statements", .number s.statements), ("assignments", .number s.assignments),
    ("deadStores", .number s.deadStores)]

/-- The fields of the report about an analysis. -/
def Analysis.data (a : Analysis) : List (String × Data) :=
  [("deadStores", .list (a.deadStores.map DeadStore.data))]
    ++ Data.optionalList "errors" (a.faults.map Fault.data)
    ++ [("diagnostics", .list (a.listing.entries.map Diagnostic.data)), ("stats", a.stats.data)]

/-- The analysis of a named file. -/
structure FileReport where
  file : String
  analysis : Analysis
  deriving DecidableEq, Repr

/-- The report about a file. -/
def FileReport.data (r : FileReport) : Data :=
  .record (("file", .text (utf8 r.file)) :: r.analysis.data)

end StoreLint
