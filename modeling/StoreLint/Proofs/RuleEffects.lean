import StoreLint.Proofs.ResultShape
import StoreLint.Proofs.RuleNames

/-!
# What rules do to an analysis

Rules act in two places: the dead assignments are dropped as a whole when their code is off, and
each diagnostic is graded when it is added.  This file shows that the two agree, and that together
they do no more than one of two things to the analysis without rules.

* `Analysis.silenced` drops the dead assignments and the diagnostics about them.
* `Analysis.relabelled` changes the severity of these diagnostics.

Until the check nothing depends on the rules (`Analysis.Fresh`).  From there on `fail_ruled` and
`conclude_ruled` compare the two runs, and `analyze_ruled` puts the stages together.
`rules_relabel_or_silence` says the same about rules by name.
-/

namespace StoreLint

/-! ## The two effects -/

/-- An event as it is when the dead assignments are dropped. -/
def Event.silence : Event → Event
  | .checked deadStores => .silenced deadStores
  | e => e

/-- The diagnostic with a given severity, if there is one and it is about a dead assignment. -/
def Diagnostic.relabelled (severity : Option Severity) (d : Diagnostic) : Diagnostic :=
  if d.code = Code.deadStore then { d with severity := severity.getD d.severity } else d

namespace Analysis

/-- The analysis without dead assignments and without the diagnostics about them. -/
def silenced (a : Analysis) : Analysis :=
  { a with
    deadStores := []
    listing := ⟨a.listing.source, a.listing.entries.filter fun d => d.code ≠ Code.deadStore⟩
    stats := { a.stats with deadStores := 0 }
    trace := a.trace.map Event.silence }

/-- The analysis with a given severity, if there is one, for the diagnostics about dead
assignments. -/
def relabelled (severity : Option Severity) (a : Analysis) : Analysis :=
  { a with listing := ⟨a.listing.source, a.listing.entries.map (.relabelled severity)⟩ }

/-- The analysis when dead assignments are given a severity. -/
def ruled (severity : Option Severity) (a : Analysis) : Analysis :=
  if severity = some .off then a.silenced else a.relabelled severity

/-! ## Before the check -/

/-- Nothing has been found yet. -/
structure Fresh (a : Analysis) : Prop where
  deadStores : a.deadStores = []
  entries : a.listing.entries = []
  count : a.stats.deadStores = 0
  trace : ∀ e ∈ a.trace, e.silence = e

theorem fresh_begin (source : Bytes) : (begin source).Fresh :=
  ⟨rfl, rfl, rfl, fun _ h => absurd h List.not_mem_nil⟩

theorem Fresh.log {a : Analysis} (h : a.Fresh) {e : Event} (he : e.silence = e) :
    (a.log e).Fresh := by
  refine ⟨h.deadStores, h.entries, h.count, ?_⟩
  intro e' he'
  rcases List.mem_append.1 he' with hmem | hmem
  · exact h.trace e' hmem
  · rw [List.mem_singleton.1 hmem, he]

theorem Fresh.listing_eq {a : Analysis} (h : a.Fresh) : a.listing = ⟨a.listing.source, []⟩ := by
  rw [← h.entries]

theorem Fresh.map_trace {a : Analysis} (h : a.Fresh) : a.trace.map Event.silence = a.trace := by
  rw [List.map_congr_left h.trace, List.map_id']

/-! ## Errors -/

/-- **Errors are beyond the reach of rules.**  An analysis that fails is the same with and without
rules, and neither effect changes it. -/
theorem fail_ruled {a : Analysis} (h : a.Fresh) (rules : Rules) {f : Fault}
    (hcode : f.code ≠ Code.deadStore) (severity : Option Severity) :
    a.fail rules f = (a.fail [] f).ruled severity := by
  have herror : ∀ rules : Rules, a.fail rules f = { a with
      faults := a.faults ++ [f]
      listing := ⟨a.listing.source, [f.diagnostic]⟩
      trace := a.trace ++ [.failed f] } := by
    intro rules
    simp [fail, Listing.add, Rules.severityFor, Fault.diagnostic, h.entries]
  rw [herror rules, herror [], ruled]
  split
  · simp [silenced, Fault.diagnostic, hcode, h.deadStores, h.map_trace, Event.silence, ← h.count]
  · simp [relabelled, Diagnostic.relabelled, Fault.diagnostic, hcode]

/-! ## Dead assignments -/

theorem silent_iff (order : ReportOrder) (rules : Rules) :
    AnalysisOptions.silent ⟨order, rules⟩ = true ↔ rules.lookup Code.deadStore = some .off := by
  cases h : rules.lookup Code.deadStore <;>
    simp [AnalysisOptions.silent, Rules.severityFor, h]

/-- Unless they are off, the diagnostics about dead assignments get the severity of the rules. -/
theorem foldl_addDeadStore_relabelled {rules : Rules}
    (hon : rules.lookup Code.deadStore ≠ some .off) (ds : List DeadStore) (a : Analysis) :
    ds.foldl (addDeadStore rules) a = { a with
      deadStores := a.deadStores ++ ds
      listing := ⟨a.listing.source, a.listing.entries ++
        ds.map fun d => d.diagnostic.relabelled (rules.lookup Code.deadStore)⟩ } := by
  have hgraded : ∀ d : DeadStore, Listing.graded rules d.diagnostic =
      some (d.diagnostic.relabelled (rules.lookup Code.deadStore)) := by
    intro d
    cases h : rules.lookup Code.deadStore with
    | none =>
        simp [Listing.graded, Rules.severityFor, Diagnostic.relabelled, DeadStore.diagnostic, h]
    | some severity =>
        rw [h] at hon
        have hsome : severity ≠ .off := fun hoff => hon (congrArg some hoff)
        simp [Listing.graded, Rules.severityFor, Diagnostic.relabelled, DeadStore.diagnostic, h,
          hsome]
  induction ds generalizing a with
  | nil => simp
  | cons d ds ih =>
      rw [List.foldl_cons, ih]
      simp [addDeadStore, Listing.add_rules, hgraded]

/-- The analysis after the check, unless dead assignments are off. -/
theorem conclude_relabelled {a : Analysis} (h : a.Fresh) (order : ReportOrder) (rules : Rules)
    (hon : rules.lookup Code.deadStore ≠ some .off) (found : List Finding) :
    a.conclude ⟨order, rules⟩ found = { a with
      deadStores := found.map Finding.toDeadStore
      listing := ⟨a.listing.source, (found.map Finding.toDeadStore).map fun d =>
        d.diagnostic.relabelled (rules.lookup Code.deadStore)⟩
      stats := { a.stats with deadStores := found.length }
      trace := a.trace ++ [.checked found.length] } := by
  have hloud : AnalysisOptions.silent ⟨order, rules⟩ = false := by
    rw [← Bool.not_eq_true, silent_iff]
    exact hon
  simp [conclude, hloud, foldl_addDeadStore_relabelled hon, h.deadStores, h.entries, log]

/-- **The two places where rules act agree.**  The check with rules is the check without rules after
one of the two effects. -/
theorem conclude_ruled {a : Analysis} (h : a.Fresh) (order : ReportOrder) (rules : Rules)
    (found : List Finding) :
    a.conclude ⟨order, rules⟩ found =
      (a.conclude ⟨order, []⟩ found).ruled (rules.lookup Code.deadStore) := by
  have hplain := conclude_relabelled h order [] (by simp) found
  by_cases hoff : rules.lookup Code.deadStore = some .off
  · have hsilent := (silent_iff order rules).2 hoff
    have hdropped : ((found.map Finding.toDeadStore).map fun d =>
        d.diagnostic.relabelled none).filter (fun d => d.code ≠ Code.deadStore) = [] := by
      simp [List.filter_eq_nil_iff, Diagnostic.relabelled, DeadStore.diagnostic]
    rw [List.lookup_nil] at hplain
    rw [ruled, if_pos hoff, hplain, conclude, if_pos hsilent, silenced]
    dsimp only
    rw [hdropped, ← h.listing_eq, List.map_append, h.map_trace]
    simp [log, Event.silence, h.deadStores, ← h.count]
  · rw [ruled, if_neg hoff, hplain, conclude_relabelled h order rules hoff]
    simp [relabelled, Diagnostic.relabelled, DeadStore.diagnostic]

/-! ## Whole analyses -/

theorem ruled_program (severity : Option Severity) (a : Analysis) (program : Option Block) :
    { a with program }.ruled severity = { a.ruled severity with program } := by
  unfold ruled
  split <;> rfl

theorem faults_ruled (severity : Option Severity) (a : Analysis) :
    (a.ruled severity).faults = a.faults := by
  unfold ruled
  split <;> rfl

theorem stats_ruled (severity : Option Severity) (a : Analysis) :
    { (a.ruled severity).stats with deadStores := 0 } = { a.stats with deadStores := 0 } := by
  unfold ruled
  split <;> rfl

/-- Neither effect changes a diagnostic that is not about a dead assignment. -/
theorem filter_entries_ruled (severity : Option Severity) (a : Analysis) :
    ((a.ruled severity).listing.entries.filter fun d => d.code ≠ Code.deadStore) =
      a.listing.entries.filter fun d => d.code ≠ Code.deadStore := by
  unfold ruled
  split
  · simp [silenced]
  · simp only [relabelled]
    induction a.listing.entries with
    | nil => rfl
    | cons d entries ih =>
        rw [List.map_cons, List.filter_cons, List.filter_cons, ih]
        by_cases hcode : d.code = Code.deadStore <;> simp [Diagnostic.relabelled, hcode]

theorem examine_ruled {a : Analysis} (h : a.Fresh) (order : ReportOrder) (rules : Rules)
    (b : Block) :
    a.examine ⟨order, rules⟩ b =
      (a.examine ⟨order, []⟩ b).ruled (rules.lookup Code.deadStore) := by
  have hparsed : ({ a with
      program := some b
      stats := { a.stats with statements := b.size, assignments := b.assignments } }.log
        (.parsed b.size b.assignments)).Fresh := by
    apply Fresh.log
    · exact ⟨h.deadStores, h.entries, h.count, h.trace⟩
    · rfl
  unfold examine
  dsimp only
  cases b.check order with
  | error e =>
      have hcode : e.fault.code ≠ Code.deadStore := by
        simp [CheckError.fault, Code.internal, Code.deadStore]
      dsimp only
      rw [ruled_program, ← fail_ruled hparsed rules hcode]
  | ok found => exact conclude_ruled hparsed order rules found

end Analysis

theorem ParseError.code_ne_deadStore (e : ParseError) : e.code ≠ Code.deadStore := by
  intro h
  have hmem := e.code_mem
  rw [h] at hmem
  revert hmem
  decide

/-- The analysis with rules is the analysis without rules after one of the two effects. -/
theorem analyze_ruled (order : ReportOrder) (rules : Rules) (source : Bytes) :
    analyze ⟨order, rules⟩ source =
      (analyze ⟨order, []⟩ source).ruled (rules.lookup Code.deadStore) := by
  have hbegin := Analysis.fresh_begin source
  unfold analyze
  cases tokenize source with
  | error e => exact Analysis.fail_ruled hbegin rules (ParseError.lexical e).code_ne_deadStore _
  | ok ts =>
      have htokens : ({ Analysis.begin source with
          stats := { (Analysis.begin source).stats with tokens := ts.length } }.log
            (.tokenized ts.length (Analysis.begin source).stats.lines)).Fresh := by
        apply Analysis.Fresh.log
        · exact ⟨rfl, rfl, rfl, hbegin.trace⟩
        · rfl
      dsimp only
      cases parse ts with
      | error e =>
          exact Analysis.fail_ruled htokens rules (ParseError.grammar e).code_ne_deadStore _
      | ok b => exact Analysis.examine_ruled htokens order rules b

/-- Without rules, a diagnostic that is not about a dead assignment is an error. -/
theorem severity_eq_error (order : ReportOrder) {source : Bytes} {d : Diagnostic}
    (hd : d ∈ (analyze ⟨order, []⟩ source).listing.entries) (hcode : d.code ≠ Code.deadStore) :
    d.severity = .error := by
  cases h : parseSource source with
  | error e =>
      obtain ⟨e', hentries, hseverity, -⟩ := (stopped_of_error order h).entries
      rw [hentries, List.mem_singleton] at hd
      rw [hd, hseverity]
  | ok b => exact absurd ((finished_of_ok order h).code_eq hd) hcode

/-- **Rules only relabel or silence warnings.**  Take rules by name whose severities are all known
and whose codes stay different in upper case.  If they turn dead assignments off, the analysis is
the one without rules, less the dead assignments and the diagnostics about them; otherwise it is the
one without rules with the severity that the rules give these diagnostics, if they give one.  The
faults, the diagnostics of errors and the other counts are the same in any case, whatever the rules
say about the codes of errors. -/
theorem rules_relabel_or_silence {names : List (String × String)} (h : Rules.Readable names)
    (order : ReportOrder) (source : Bytes) :
    ∃ plain ruled, Request.analyze ⟨order, []⟩ source = .ok plain ∧
      Request.analyze ⟨order, names⟩ source = .ok ruled ∧
      ruled = (if Rules.given? names Code.deadStore = some .off then plain.silenced
        else plain.relabelled (Rules.given? names Code.deadStore)) ∧
      ruled.faults = plain.faults ∧
      (ruled.listing.entries.filter fun d => d.code ≠ Code.deadStore) =
        (plain.listing.entries.filter fun d => d.code ≠ Code.deadStore) ∧
      (∀ d ∈ ruled.listing.entries, d.code ≠ Code.deadStore → d.severity = .error) ∧
      { ruled.stats with deadStores := 0 } = { plain.stats with deadStores := 0 } := by
  have hnames : Request.analyze ⟨order, names⟩ source =
      .ok ((analyze ⟨order, []⟩ source).ruled (Rules.given? names Code.deadStore)) := by
    rw [Request.analyze, Rules.ofNames_eq_resolved h, ← Rules.lookup_resolved h.known,
      ← analyze_ruled]
    rfl
  refine ⟨analyze ⟨order, []⟩ source, _, rfl, hnames, rfl, ?_, ?_, ?_, ?_⟩
  · exact Analysis.faults_ruled _ _
  · exact Analysis.filter_entries_ruled _ _
  · intro d hd hcode
    have hmem : d ∈ (analyze ⟨order, []⟩ source).listing.entries.filter
        fun d => d.code ≠ Code.deadStore := by
      rw [← Analysis.filter_entries_ruled]
      exact List.mem_filter.2 ⟨hd, by simpa using hcode⟩
    exact severity_eq_error order (List.mem_filter.1 hmem).1 hcode
  · exact Analysis.stats_ruled _ _

/-- Rules that turn dead assignments off and try to lower two errors. -/
def Rules.quiet : List (String × String) :=
  [("e0001", "note"), ("w0001", " Off"), ("E0005", "none")]

/-- Rules that make dead assignments errors. -/
def Rules.strict : List (String × String) :=
  [("E0005", "off"), ("W0001", "ERROR")]

/-- A dead assignment is dropped by the first rules and becomes an error by the second, and the
error of a stray `end` is what it was. -/
theorem rules_relabel_or_silence_quiet :
    Rules.Readable Rules.quiet ∧ Rules.Readable Rules.strict ∧
      (∃ plain silent loud, Request.analyze ⟨.byLine, []⟩ (utf8 "x = 1") = .ok plain ∧
        Request.analyze ⟨.byLine, Rules.quiet⟩ (utf8 "x = 1") = .ok silent ∧
        Request.analyze ⟨.byLine, Rules.strict⟩ (utf8 "x = 1") = .ok loud ∧
        plain.listing.entries.map Diagnostic.severity = [.warning] ∧
        silent = plain.silenced ∧ silent.listing.entries = [] ∧
        loud = plain.relabelled (some .error) ∧
        loud.listing.entries.map Diagnostic.severity = [.error]) ∧
      ∃ plain ruled, Request.analyze ⟨.byLine, []⟩ (utf8 "x = 1 end") = .ok plain ∧
        Request.analyze ⟨.byLine, Rules.quiet⟩ (utf8 "x = 1 end") = .ok ruled ∧
        plain.listing.entries.map Diagnostic.code = ["E0005"] ∧
        ruled.listing = plain.listing ∧
        ruled.listing.entries.map Diagnostic.severity = [.error] := by
  have hquiet : Rules.Readable Rules.quiet := ⟨by decide +kernel, by decide +kernel⟩
  have hstrict : Rules.Readable Rules.strict := ⟨by decide +kernel, by decide +kernel⟩
  obtain ⟨plain, silent, hplain, hsilent, hsilenced, -⟩ :=
    rules_relabel_or_silence hquiet .byLine (utf8 "x = 1")
  obtain ⟨plain', loud, hplain', hloud, hraised, -⟩ :=
    rules_relabel_or_silence hstrict .byLine (utf8 "x = 1")
  obtain ⟨broken, ruled, hbroken, hruled, hfiltered, -⟩ :=
    rules_relabel_or_silence hquiet .byLine (utf8 "x = 1 end")
  obtain rfl : analyze ⟨.byLine, []⟩ (utf8 "x = 1") = plain := Except.ok.inj hplain
  obtain rfl : analyze ⟨.byLine, []⟩ (utf8 "x = 1") = plain' := Except.ok.inj hplain'
  obtain rfl : analyze ⟨.byLine, []⟩ (utf8 "x = 1 end") = broken := Except.ok.inj hbroken
  rw [if_pos (by decide +kernel)] at hsilenced hfiltered
  rw [if_neg (by decide +kernel),
    show Rules.given? Rules.strict Code.deadStore = some .error by decide +kernel] at hraised
  subst hsilenced hraised hfiltered
  exact ⟨hquiet, hstrict, ⟨_, _, _, hplain, hsilent, hloud, by decide +kernel, rfl,
    by decide +kernel, rfl, by decide +kernel⟩,
    _, _, hbroken, hruled, by decide +kernel, by decide +kernel, by decide +kernel⟩

end StoreLint
