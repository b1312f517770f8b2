import StoreLint.Report.Data
import StoreLint.Settings.Basic
import StoreLint.Text.Utf8

/-!
# Reports as text

The text report has the diagnostics of each file, one after the other, and a line that sums up.  Its
parts have looks: a colour, and whether they are bold.

* `Renderer` is what a styling library makes of a text with a look, and `Options.style` styles
  diagnostics by it.  Without colours, diagnostics are left as they are.
* `textReport` is the report.
* `plainRender` is the renderer for an output that takes no colours.  A terminal may put anything in
  place of a tab, so styling writes four spaces for each.  A part of several lines, such as a place
  in a file with a line end in its name, is made a rectangle, its lines filled up with blanks.
* `Renderer.ExpandsTabs`: the tabs are all that styling changes in a single line.
-/

namespace StoreLint

/-! ## Looks -/

/-- How a part of the report looks. -/
structure Look where
  /-- A colour, by the shares of red, green and blue in it. -/
  foreground : Option String := none
  bold : Bool := false
  deriving DecidableEq, Repr

/-- What styling makes of a text with a look. -/
abbrev Renderer := Look → Bytes → Bytes

/-- The looks of all parts of a report. -/
structure Looks where
  location : Look := {}
  error : Look := {}
  warning : Look := {}
  info : Look := {}
  code : Look := {}
  source : Look := {}
  mark : Look := {}
  note : Look := {}
  summary : Look := {}
  clean : Look := {}
  deriving DecidableEq, Repr

/-- The looks of a report with colours. -/
def Looks.coloured : Looks where
  location := { bold := true }
  error := { foreground := some "#EF4444", bold := true }
  warning := { foreground := some "#F59E0B", bold := true }
  info := { foreground := some "#06B6D4" }
  code := { foreground := some "#6B7280" }
  source := { foreground := some "#6B7280" }
  mark := { foreground := some "#F59E0B" }
  note := { foreground := some "#06B6D4" }
  summary := { bold := true }
  clean := { foreground := some "#10B981" }

/-- The look of a severity. -/
def Looks.severity (l : Looks) : Severity → Look
  | .error => l.error
  | .warning => l.warning
  | _ => l.info

namespace Options

/-- The looks that options ask for. -/
def looks (o : Options) : Looks :=
  if o.color then .coloured else {}

/-- The style of diagnostics.  Without colours they are left as they are. -/
def style (render : Renderer) (o : Options) : Style :=
  if o.color then
    { location := render o.looks.location
      severity := fun s => render (o.looks.severity s)
      code := render o.looks.code
      source := render o.looks.source
      mark := render o.looks.mark
      note := render o.looks.note }
  else .plain

end Options

/-! ## The report -/

namespace FileReport

/-- The diagnostics of a file as text. -/
def text (render : Renderer) (o : Options) (r : FileReport) : Bytes :=
  r.analysis.listing.text ⟨r.file, !o.showSource, o.style render⟩

/-- The number of dead assignments in a file. -/
def deadStores (r : FileReport) : Nat :=
  r.analysis.deadStores.length

/-- Was the file impossible to analyse? -/
def failed (r : FileReport) : Bool :=
  !r.analysis.faults.isEmpty

end FileReport

/-- The number of all dead assignments. -/
def totalDeadStores (reports : List FileReport) : Nat :=
  reports.foldr (fun r n => r.deadStores + n) 0

/-- The number of files with dead assignments. -/
def affectedFiles (reports : List FileReport) : Nat :=
  reports.countP fun r => 0 < r.deadStores

/-- A number of things, with the word for one of them or for more. -/
def counted (n : Nat) (one many : String) : Bytes :=
  digits n ++ utf8 " " ++ utf8 (if n = 1 then one else many)

/-- The line that sums up. -/
def summary (reports : List FileReport) : Bytes :=
  if 0 < totalDeadStores reports then
    counted (totalDeadStores reports) "dead store" "dead stores" ++ utf8 " in "
      ++ counted (affectedFiles reports) "file" "files"
  else if reports.any FileReport.failed then utf8 "analysis failed"
  else utf8 "no dead stores"

/-- The look of the line that sums up. -/
def summaryLook (l : Looks) (reports : List FileReport) : Look :=
  if 0 < totalDeadStores reports then l.summary
  else if reports.any FileReport.failed then l.error
  else l.clean

/-- The text report. -/
def textReport (render : Renderer) (o : Options) (reports : List FileReport) : Bytes :=
  reports.flatMap (FileReport.text render o)
    ++ render (summaryLook o.looks reports) (summary reports) ++ utf8 "\n"

/-! ## Styling on an output without colours -/

/-- A text with four spaces for each tab. -/
def expandTabs (t : Bytes) : Bytes :=
  t.flatMap fun b => if b = 0x09 then utf8 "    " else [b]

/-- A text without the carriage returns before line ends. -/
def dropReturns : Bytes → Bytes
  | 0x0D :: 0x0A :: rest => 0x0A :: dropReturns rest
  | b :: rest => b :: dropReturns rest
  | [] => []

/-- The number of columns of a line, one for each character that is no control character. -/
def columns (line : Bytes) : Nat :=
  (Utf8.lossy line).countP fun c => (0x20 ≤ c.toNat && c.toNat < 0x7F) || 0xA0 ≤ c.toNat

/-- Lines filled up to the widest of them. -/
def fillLines (ls : List Bytes) : List Bytes :=
  let widest := ls.foldr (fun l n => max (columns l) n) 0
  ls.map fun l => l ++ List.replicate (widest - columns l) 0x20

/-- A part of the report as styling writes it, whatever its look. -/
def plainRender : Renderer := fun _ t =>
  [0x0A].intercalate (fillLines (lines (dropReturns (expandTabs t))))

/-! ## Single lines -/

/-- The byte of a tab. -/
def tab : UInt8 := 0x09

/-- All that styling does to a single line is to expand its tabs.  This is taken for granted of
styling on an output without colours. -/
def Renderer.ExpandsTabs (render : Renderer) : Prop :=
  ∀ look t, lineFeed ∉ t → render look t = expandTabs t

@[simp] theorem expandTabs_append (t u : Bytes) :
    expandTabs (t ++ u) = expandTabs t ++ expandTabs u :=
  List.flatMap_append

theorem expandTabs_cons (b : UInt8) (t : Bytes) :
    expandTabs (b :: t) = (if b = tab then utf8 "    " else [b]) ++ expandTabs t :=
  List.flatMap_cons

theorem expandTabs_of_not_mem {t : Bytes} (h : tab ∉ t) : expandTabs t = t := by
  induction t with
  | nil => rfl
  | cons b t ih =>
    simp only [List.mem_cons, not_or] at h
    rw [expandTabs_cons, if_neg (Ne.symm h.1), ih h.2]
    rfl

theorem lineFeed_not_mem_expandTabs {t : Bytes} (h : lineFeed ∉ t) : lineFeed ∉ expandTabs t := by
  intro hmem
  obtain ⟨b, hb, hbyte⟩ := List.mem_flatMap.1 hmem
  split at hbyte
  · exact absurd hbyte (by decide)
  · rw [List.mem_singleton.1 hbyte] at h
    exact h hb

theorem dropReturns_of_not_mem {t : Bytes} (h : lineFeed ∉ t) : dropReturns t = t := by
  fun_induction dropReturns t with
  | case1 rest ih => exact absurd (show lineFeed ∈ _ by simp [lineFeed]) h
  | case2 b rest hne ih => rw [ih fun hmem => h (List.mem_cons_of_mem _ hmem)]
  | case3 => rfl

theorem expandsTabs_plainRender : Renderer.ExpandsTabs plainRender := by
  intro look t h
  have hfeed := lineFeed_not_mem_expandTabs h
  have hlines : lines (expandTabs t) = [expandTabs t] := List.splitOn_eq_singleton hfeed
  rw [plainRender, dropReturns_of_not_mem hfeed, hlines]
  simp [fillLines, List.intercalate]

end StoreLint
