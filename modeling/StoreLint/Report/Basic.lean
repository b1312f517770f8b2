import StoreLint.Report.Json
import StoreLint.Report.Text
import StoreLint.Report.Yaml

/-!
# The report of a check

A check reports about all its files in one of three forms, and ends with a status: two if a file
could not be analysed, one if dead assignments were found and count as a failure, else zero.
-/

namespace StoreLint

/-- The reports about files as one list. -/
def reportData (reports : List FileReport) : Data :=
  .list (reports.map FileReport.data)

/-- What writes reports, as far as libraries do. -/
structure Writers where
  render : Renderer
  yaml : Data → Bytes

/-- The writers for an output that takes no colours. -/
def Writers.standard : Writers :=
  ⟨plainRender, Data.toYaml⟩

/-- The report in a given form. -/
def writeReport (writers : Writers) (format : ReportFormat) (o : Options)
    (reports : List FileReport) : Bytes :=
  match format with
  | .text => textReport writers.render o reports
  | .json => (reportData reports).toJson
  | .yaml => writers.yaml (reportData reports)

/-- The status with which a check ends. -/
def checkStatus (o : Options) (reports : List FileReport) : Nat :=
  if reports.any FileReport.failed then 2
  else if o.failOnDeadStore && 0 < totalDeadStores reports then 1
  else 0

end StoreLint
