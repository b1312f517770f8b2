import StoreLint.Diagnostic.Listing
import StoreLint.Findings.Check
import StoreLint.Program.Layout
import StoreLint.Program.Parser

/-!
# Analysing a program

A program is cut into tokens, parsed, and checked for dead assignments.  The result has the dead
assignments or the error that stopped the analysis, a diagnostic for each of them, and some counts.
On the way each stage leaves an event in a trace.

The rules apply to diagnostics.  Turning the code of dead assignments off drops the dead assignments
themselves as well.
-/

namespace StoreLint

namespace Code

/-- The code of dead assignments. -/
def deadStore : String := "W0001"

/-- The code of an error that belongs to no stage. -/
def internal : String := "E0900"

end Code

/-- The code of an error of the scanner. -/
def LexicalCause.code : LexicalCause → String
  | .unrecognized _ => "E0002"
  | .malformedNumber _ => "E0003"
  | .longIdentifier _ => "E0004"

/-- The code of an error of grammar. -/
def GrammarError.Kind.code : GrammarError.Kind → String
  | .trailingTokens => "E0005"
  | .missingEnd => "E0006"
  | _ => "E0001"

/-- The code of an error that stops a program from being read. -/
def ParseError.code : ParseError → String
  | .lexical e => e.cause.code
  | .grammar e => e.cause.kind.code

/-- A dead assignment as it is reported. -/
structure DeadStore where
  position : Position
  target : UInt8
  /-- The assignment as printed. -/
  statement : Bytes
  /-- Where the value was overwritten; nowhere when it waited until the end of the program. -/
  overwrittenAt : Option Position
  deriving DecidableEq, Repr

/-- The error that stopped an analysis. -/
structure Fault where
  code : String
  message : Bytes
  position : Position
  deriving DecidableEq, Repr

/-- The message with its place in front. -/
def Fault.text (f : Fault) : Bytes :=
  f.position.label ++ f.message

/-- Counts about an analysed program. -/
structure Stats where
  lines : Nat
  tokens : Nat
  statements : Nat
  assignments : Nat
  deadStores : Nat
  deriving DecidableEq, Repr

/-- What a stage of the analysis leaves in the trace. -/
inductive Event where
  | tokenized (tokens lines : Nat)
  | parsed (statements assignments : Nat)
  | checked (deadStores : Nat)
  | silenced (deadStores : Nat)
  | failed (fault : Fault)
  deriving DecidableEq, Repr

/-- The result of an analysis. -/
structure Analysis where
  program : Option Block
  deadStores : List DeadStore
  faults : List Fault
  listing : Listing
  stats : Stats
  trace : List Event
  deriving DecidableEq, Repr

/-- How a program is analysed. -/
structure AnalysisOptions where
  order : ReportOrder
  rules : Rules

/-- By line, without rules. -/
def AnalysisOptions.default : AnalysisOptions :=
  ⟨.byLine, []⟩

/-- The number of lines of a program: none when it is empty, else the line feeds that are not at its
end, and one. -/
def lineCount (source : Bytes) : Nat :=
  if source = [] then 0
  else (trimEnd 0x0A source).count 0x0A + 1

namespace Finding

/-- A finding as it is reported. -/
def toDeadStore (f : Finding) : DeadStore :=
  { position := f.dead.write.position
    target := f.dead.write.target
    statement := f.dead.write.print .pretty
    overwrittenAt := f.overwriter.map fun s => s.write.position }

end Finding

namespace DeadStore

/-- The diagnostic about a dead assignment. -/
def diagnostic (d : DeadStore) : Diagnostic :=
  { severity := .warning
    code := Code.deadStore
    message := utf8 "value assigned to " ++ d.target :: utf8 " is never read"
    range := .point d.position 1
    notes := d.overwrittenAt.toList.map fun p => ⟨.point p 1, utf8 "overwritten here"⟩ }

end DeadStore

namespace Fault

/-- The diagnostic about an error. -/
def diagnostic (f : Fault) : Diagnostic :=
  ⟨.error, f.code, f.message, .point f.position 1, []⟩

end Fault

/-- The fault of an error that stops a program from being read. -/
def ParseError.fault (e : ParseError) : Fault :=
  ⟨e.code, e.message, e.position⟩

/-- The fault of a program that cannot be checked; it has no place. -/
def CheckError.fault (e : CheckError) : Fault :=
  ⟨Code.internal, e.message, ⟨0, 0⟩⟩

namespace AnalysisOptions

/-- Do the rules turn dead assignments off? -/
def silent (opts : AnalysisOptions) : Bool :=
  opts.rules.severityFor Code.deadStore .warning = .off

end AnalysisOptions

namespace Analysis

/-- An analysis that has not found anything yet. -/
def begin (source : Bytes) : Analysis :=
  { program := none
    deadStores := []
    faults := []
    listing := .ofSource source
    stats := ⟨lineCount source, 0, 0, 0, 0⟩
    trace := [] }

/-- Records an event. -/
def log (a : Analysis) (e : Event) : Analysis :=
  { a with trace := a.trace ++ [e] }

/-- The analysis after an error. -/
def fail (a : Analysis) (rules : Rules) (f : Fault) : Analysis :=
  { a with
    faults := a.faults ++ [f]
    listing := a.listing.add (some rules) f.diagnostic
    trace := a.trace ++ [.failed f] }

/-- Adds a dead assignment. -/
def addDeadStore (rules : Rules) (a : Analysis) (d : DeadStore) : Analysis :=
  { a with
    deadStores := a.deadStores ++ [d]
    listing := a.listing.add (some rules) d.diagnostic }

/-- The analysis after the check. -/
def conclude (opts : AnalysisOptions) (a : Analysis) (found : List Finding) : Analysis :=
  if opts.silent then a.log (.silenced found.length)
  else
    let a := (found.map Finding.toDeadStore).foldl (addDeadStore opts.rules) a
    { a with stats := { a.stats with deadStores := a.deadStores.length } }.log
      (.checked a.deadStores.length)

/-- The analysis after parsing. -/
def examine (opts : AnalysisOptions) (a : Analysis) (b : Block) : Analysis :=
  let a := { a with
      program := some b
      stats := { a.stats with statements := b.size, assignments := b.assignments } }.log
    (.parsed b.size b.assignments)
  match b.check opts.order with
  | .error e => { a.fail opts.rules e.fault with program := none }
  | .ok found => a.conclude opts found

end Analysis

/-- Analyses a program. -/
def analyze (opts : AnalysisOptions) (source : Bytes) : Analysis :=
  let a := Analysis.begin source
  match tokenize source with
  | .error e => a.fail opts.rules (ParseError.lexical e).fault
  | .ok ts =>
    let a := { a with stats := { a.stats with tokens := ts.length } }.log
      (.tokenized ts.length a.stats.lines)
    match parse ts with
    | .error e => a.fail opts.rules (ParseError.grammar e).fault
    | .ok b => a.examine opts b

/-! ## What an analysis returns -/

/-- The dead assignments that the findings of a check are reported as. -/
def AnalysisOptions.reported (opts : AnalysisOptions) (found : List Finding) : List DeadStore :=
  if opts.silent then [] else found.map Finding.toDeadStore

theorem AnalysisOptions.exists_of_mem_reported {opts : AnalysisOptions} {found : List Finding}
    {d : DeadStore} (hd : d ∈ opts.reported found) : ∃ f ∈ found, f.toDeadStore = d := by
  unfold reported at hd
  split at hd
  · cases hd
  · exact List.mem_map.1 hd

namespace Analysis

theorem foldl_addDeadStore (rules : Rules) (ds : List DeadStore) (a : Analysis) :
    (ds.foldl (addDeadStore rules) a).program = a.program ∧
      (ds.foldl (addDeadStore rules) a).deadStores = a.deadStores ++ ds ∧
      (ds.foldl (addDeadStore rules) a).faults = a.faults ∧
      (ds.foldl (addDeadStore rules) a).stats = a.stats := by
  induction ds generalizing a with
  | nil => simp
  | cons d ds ih =>
    obtain ⟨hprogram, hdead, hfaults, hstats⟩ := ih (a.addDeadStore rules d)
    refine ⟨hprogram, ?_, hfaults, hstats⟩
    rw [List.foldl_cons, hdead]
    simp [addDeadStore]

theorem listing_foldl_addDeadStore (rules : Rules) (ds : List DeadStore) (a : Analysis) :
    (ds.foldl (addDeadStore rules) a).listing = ⟨a.listing.source,
      a.listing.entries ++ ds.filterMap fun d => Listing.graded rules d.diagnostic⟩ := by
  induction ds generalizing a with
  | nil => simp
  | cons d ds ih =>
    rw [List.foldl_cons, ih, addDeadStore, Listing.add_rules, List.append_assoc,
      List.filterMap_cons]
    cases Listing.graded rules d.diagnostic <;> rfl

theorem listing_fail (a : Analysis) (rules : Rules) (f : Fault) :
    (a.fail rules f).listing =
      ⟨a.listing.source, a.listing.entries ++ (Listing.graded rules f.diagnostic).toList⟩ :=
  a.listing.add_rules rules f.diagnostic

/-- An analysis gets a diagnostic for each dead assignment, as the rules have it. -/
theorem listing_conclude (opts : AnalysisOptions) (a : Analysis) (found : List Finding) :
    (a.conclude opts found).listing = ⟨a.listing.source, a.listing.entries ++
      (opts.reported found).filterMap fun d => Listing.graded opts.rules d.diagnostic⟩ := by
  unfold conclude AnalysisOptions.reported
  cases opts.silent with
  | true => simp [log]
  | false => exact listing_foldl_addDeadStore opts.rules (found.map Finding.toDeadStore) a

/-- An analysis without dead assignments gets those of the check. -/
theorem conclude_fields (opts : AnalysisOptions) {a : Analysis} (hdead : a.deadStores = [])
    (hstats : a.stats.deadStores = 0) (found : List Finding) :
    (a.conclude opts found).program = a.program ∧
      (a.conclude opts found).deadStores = opts.reported found ∧
      (a.conclude opts found).faults = a.faults ∧
      (a.conclude opts found).stats =
        { a.stats with deadStores := (opts.reported found).length } := by
  unfold conclude AnalysisOptions.reported
  cases opts.silent with
  | true =>
    refine ⟨rfl, hdead, rfl, ?_⟩
    simp [log, ← hstats]
  | false =>
    obtain ⟨hprogram, hfound, hfaults, hcounts⟩ :=
      foldl_addDeadStore opts.rules (found.map Finding.toDeadStore) a
    rw [hdead, List.nil_append] at hfound
    refine ⟨hprogram, hfound, hfaults, ?_⟩
    simp [log, hcounts, hfound]

end Analysis

/-- The analysis of a program that can be read and checked. -/
theorem analyze_of_check {opts : AnalysisOptions} {source : Bytes} {ts : List Token} {b : Block}
    {found : List Finding} (htokens : tokenize source = .ok ts) (hparse : parse ts = .ok b)
    (hcheck : b.check opts.order = .ok found) :
    (analyze opts source).program = some b ∧
      (analyze opts source).deadStores = opts.reported found ∧
      (analyze opts source).faults = [] ∧
      (analyze opts source).stats = ⟨lineCount source, ts.length, b.size, b.assignments,
        (opts.reported found).length⟩ := by
  unfold analyze
  rw [htokens]
  dsimp only
  rw [hparse]
  dsimp only [Analysis.examine]
  rw [hcheck]
  exact Analysis.conclude_fields opts rfl rfl found

/-- The analysis of a program that cannot be parsed. -/
theorem analyze_of_grammarError (opts : AnalysisOptions) {source : Bytes} {ts : List Token}
    {e : GrammarError} (htokens : tokenize source = .ok ts) (hparse : parse ts = .error e) :
    (analyze opts source).program = none ∧ (analyze opts source).deadStores = [] ∧
      (analyze opts source).faults = [(ParseError.grammar e).fault] ∧
      (analyze opts source).stats = ⟨lineCount source, ts.length, 0, 0, 0⟩ := by
  unfold analyze
  rw [htokens]
  dsimp only
  rw [hparse]
  exact ⟨rfl, rfl, rfl, rfl⟩

/-- The diagnostics of a program that can be read and checked. -/
theorem listing_of_check {opts : AnalysisOptions} {source : Bytes} {ts : List Token} {b : Block}
    {found : List Finding} (htokens : tokenize source = .ok ts) (hparse : parse ts = .ok b)
    (hcheck : b.check opts.order = .ok found) :
    (analyze opts source).listing = ⟨source,
      (opts.reported found).filterMap fun d => Listing.graded opts.rules d.diagnostic⟩ := by
  unfold analyze
  rw [htokens]
  dsimp only
  rw [hparse]
  dsimp only [Analysis.examine]
  rw [hcheck]
  exact Analysis.listing_conclude opts _ found

/-- The diagnostics of a program that cannot be read. -/
theorem listing_of_error (opts : AnalysisOptions) {source : Bytes} {e : ParseError}
    (h : parseSource source = .error e) :
    (analyze opts source).listing =
      ⟨source, (Listing.graded opts.rules e.fault.diagnostic).toList⟩ := by
  unfold parseSource at h
  unfold analyze
  cases htokens : tokenize source with
  | error e' =>
    rw [htokens] at h
    cases h
    exact (Analysis.begin source).listing_fail opts.rules (ParseError.lexical e').fault
  | ok ts =>
    rw [htokens] at h
    dsimp only at h ⊢
    cases hparse : parse ts with
    | error e' =>
      rw [hparse] at h
      cases h
      exact Analysis.listing_fail _ opts.rules (ParseError.grammar e').fault
    | ok b =>
      rw [hparse] at h
      cases h

/-- The listing is about the program. -/
theorem listing_source (opts : AnalysisOptions) (source : Bytes) :
    (analyze opts source).listing.source = source := by
  cases htokens : tokenize source with
  | error e =>
    rw [listing_of_error opts (e := .lexical e) (by rw [parseSource, htokens])]
  | ok ts =>
    cases hparse : parse ts with
    | error e =>
      rw [listing_of_error opts (e := .grammar e) (by simp only [parseSource, htokens, hparse])]
    | ok b =>
      cases hcheck : b.check opts.order with
      | error e =>
        unfold analyze
        rw [htokens]
        dsimp only
        rw [hparse]
        dsimp only [Analysis.examine]
        rw [hcheck]
        exact congrArg Listing.source (Analysis.listing_fail _ opts.rules e.fault)
      | ok found => rw [listing_of_check htokens hparse hcheck]

/-- An analysis as it is asked for from outside, with severities by name. -/
structure Request where
  order : ReportOrder
  rules : List (String × String)
  deriving DecidableEq, Repr

/-- Analyses a program as asked, unless a severity has an unknown name. -/
def Request.analyze (r : Request) (source : Bytes) : Except Rules.Invalid Analysis :=
  (Rules.ofNames r.rules).map fun rules => StoreLint.analyze ⟨r.order, rules⟩ source

end StoreLint
