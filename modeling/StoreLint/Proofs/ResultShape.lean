import Mathlib.Data.List.Perm.Subperm
import StoreLint.Proofs.LayoutFree

/-!
# The shape of a result

An analysis either stops at one error or goes through to the end, and its parts say the same thing
in both cases.

* `ParseError.code_mem`: an error that stops a program from being read has one of six codes.
* `walk_keeps`: the walk keeps what every single assignment keeps true of the log.
* `walk_reportedOnce`: so no assignment is reported twice, since a report looks first whether the
  assignment is there already, and there are no more findings than assignments
  (`length_le_assignments`).
* `stopped_of_error` and `finished_of_ok`: a program that cannot be read gives `Analysis.Stopped`,
  and any other one gives `Analysis.Finished`.  The check never fails on a program that was read
  from a text, so its own code does not occur.
* `result_stopped_or_finished`: each result has exactly one of the two shapes.
-/

namespace StoreLint

/-! ## Codes of errors -/

/-- The codes of the errors that stop a program from being read. -/
def Code.unreadable : List String :=
  ["E0001", "E0002", "E0003", "E0004", "E0005", "E0006"]

theorem ParseError.code_mem (e : ParseError) : e.code ∈ Code.unreadable := by
  cases e with
  | lexical e =>
      cases hcause : e.cause <;> simp [code, hcause, LexicalCause.code, Code.unreadable]
  | grammar e =>
      cases hkind : e.cause.kind <;>
        simp [code, hkind, GrammarError.Kind.code, Code.unreadable]

/-! ## Each assignment is reported once -/

namespace Log

/-- No two findings are about the same assignment. -/
def ReportedOnce (log : Log) : Prop :=
  (log.found.map fun f => f.dead.number).Nodup

theorem ReportedOnce.report {log : Log} (h : log.ReportedOnce) (o : Option Site) (s : Site) :
    (log.report o s).ReportedOnce := by
  unfold Log.report
  by_cases hs : log.has s = true
  · rw [if_pos hs]
    exact h
  · rw [if_neg hs]
    have hnew : ∀ f ∈ log.found, f.dead.number ≠ s.number := by
      intro f hf hnumber
      exact hs (has_iff.2 ⟨f, hf, hnumber⟩)
    have happend : ((log.found.map fun f => f.dead.number) ++ [s.number]).Nodup := by
      refine List.nodup_append.2 ⟨h, List.nodup_singleton _, ?_⟩
      intro n hn m hm
      obtain ⟨f, hf, rfl⟩ := List.mem_map.1 hn
      rw [List.mem_singleton.1 hm]
      exact hnew f hf
    simpa [ReportedOnce] using happend

theorem ReportedOnce.reportAll {log : Log} (h : log.ReportedOnce) (sites : List Site)
    (o : Option Site) : (log.reportAll sites o).ReportedOnce := by
  unfold Log.reportAll
  induction sites generalizing log with
  | nil => exact h
  | cons s rest ih => exact ih (h.report o s)

end Log

namespace Block

/-- What every assignment keeps true of the log, the walk through a program keeps true.  The log is
all that it hands on from one branch to the other. -/
theorem walk_keeps {P : Log → Prop}
    (step : ∀ log sites write, P log → P (log.overwrite sites ⟨log.next, write⟩)) {b : Block}
    {p p' : Pending} {log log' : Log} (h : b.walk p log = .ok (p', log')) (hlog : P log) :
    P log' := by
  induction b generalizing p log p' log' with
  | empty =>
      cases h
      exact hlog
  | assign write rest ih =>
      rw [walk_assign] at h
      exact ih h (step _ _ _ hlog)
  | branch line cond yes no rest ihyes ihno ih =>
      obtain ⟨q, log₁, q', log₂, hyes, hno, hrest⟩ := walk_branch_ok_iff.1 h
      exact ih hrest (ihno hno (ihyes hyes hlog))
  | loop line cond body rest ihbody ih =>
      obtain ⟨q, log₁, q', hbody, -, hrest⟩ := walk_loop_ok_iff.1 h
      exact ih hrest (ihbody hbody hlog)
  | missing rest ih => cases h

/-- The walk through a program reports no assignment twice. -/
theorem walk_reportedOnce {b : Block} {p p' : Pending} {log log' : Log}
    (h : b.walk p log = .ok (p', log')) (hlog : log.ReportedOnce) : log'.ReportedOnce :=
  walk_keeps (P := Log.ReportedOnce) (fun _ sites _ hlog => hlog.reportAll sites _) h hlog

/-- No assignment is found twice. -/
theorem check_reportedOnce {b : Block} {order : ReportOrder} {found : List Finding}
    (h : b.check order = .ok found) : (found.map fun f => f.dead.number).Nodup := by
  cases hwalk : b.walk .none .start with
  | error e => simp [check, hwalk, bind, Except.bind] at h
  | ok after =>
      obtain ⟨p, log⟩ := after
      have honce : (log.reportAll p.sites none).ReportedOnce :=
        (walk_reportedOnce hwalk List.nodup_nil).reportAll p.sites none
      obtain ⟨found', hcheck, hperm⟩ := check_perm hwalk order
      rw [hcheck] at h
      cases h
      exact (hperm.map _).nodup_iff.2 honce

/-- There are no more findings than assignments. -/
theorem length_le_assignments {b : Block} {order : ReportOrder} {found : List Finding}
    (h : b.check order = .ok found) (hinside : ∀ f ∈ found, f.Inside b) :
    found.length ≤ b.assignments := by
  have hnumbers : (found.map fun f => f.dead.number) ⊆ (b.sites 0).map Site.number := by
    intro n hn
    obtain ⟨f, hf, rfl⟩ := List.mem_map.1 hn
    exact List.mem_map_of_mem (hinside f hf).dead
  have hlength := (List.subperm_of_subset (check_reportedOnce h) hnumbers).length_le
  rw [map_number_sites] at hlength
  simpa using hlength

end Block

/-! ## The two shapes -/

/-- The diagnostic is about the dead assignment: it stands at the same place, and has a note for the
place where the value was overwritten, and for no other. -/
structure DeadStore.DescribedBy (d : DeadStore) (e : Diagnostic) : Prop where
  severity : e.severity = .warning
  code : e.code = Code.deadStore
  start : e.range.start = d.position
  notes : e.notes.map (fun n => n.range.start) = d.overwrittenAt.toList

theorem DeadStore.describedBy_diagnostic (d : DeadStore) : d.DescribedBy d.diagnostic where
  severity := rfl
  code := rfl
  start := rfl
  notes := by simp [diagnostic, Range.point, Function.comp_def]

theorem DeadStore.code_of_describedBy {ds : List DeadStore} {es : List Diagnostic}
    (h : List.Forall₂ DescribedBy ds es) : ∀ e ∈ es, e.code = Code.deadStore := by
  induction h with
  | nil => exact fun e he => absurd he List.not_mem_nil
  | cons hfirst _ ih =>
      intro e he
      rcases List.mem_cons.1 he with rfl | he
      · exact hfirst.code
      · exact ih e he

namespace Analysis

/-- The analysis stopped at an error: this is its only fault, the only diagnostic is about it, and
there are no dead assignments. -/
structure Stopped (a : Analysis) (f : Fault) : Prop where
  faults : a.faults = [f]
  code : f.code ∈ Code.unreadable
  deadStores : a.deadStores = []
  count : a.stats.deadStores = 0
  entries : ∃ d, a.listing.entries = [d] ∧ d.severity = .error ∧ d.code = f.code ∧
    d.message = f.message ∧ d.range.start = f.position ∧ d.notes = []

/-- The analysis went through: there is a diagnostic for each dead assignment, in the same order,
and the dead assignments are counted. -/
structure Finished (a : Analysis) : Prop where
  faults : a.faults = []
  entries : List.Forall₂ DeadStore.DescribedBy a.deadStores a.listing.entries
  count : a.stats.deadStores = a.deadStores.length
  bound : a.stats.deadStores ≤ a.stats.assignments

/-- Every diagnostic of a finished analysis is about a dead assignment. -/
theorem Finished.code_eq {a : Analysis} (h : a.Finished) {d : Diagnostic}
    (hd : d ∈ a.listing.entries) : d.code = Code.deadStore :=
  DeadStore.code_of_describedBy h.entries d hd

theorem Finished.not_stopped {a : Analysis} (h : a.Finished) : ¬ ∃ f, a.Stopped f := by
  rintro ⟨f, hstopped⟩
  have hfaults := hstopped.faults
  rw [h.faults] at hfaults
  cases hfaults

end Analysis

theorem Listing.graded_nil (d : Diagnostic) (h : d.severity ≠ .off) : graded [] d = some d := by
  have hown : Rules.severityFor [] d.code d.severity = d.severity := by
    unfold Rules.severityFor
    split
    · rename_i herror
      exact herror.symm
    · rfl
  rw [graded, hown, if_neg h]

/-- Without rules all findings are reported. -/
theorem AnalysisOptions.reported_nil (order : ReportOrder) (found : List Finding) :
    AnalysisOptions.reported ⟨order, []⟩ found = found.map Finding.toDeadStore := by
  simp [reported, silent, Rules.severityFor]

/-- An error that stops a program from being read is the only fault, and leaves no dead
assignments. -/
theorem analyze_of_error (opts : AnalysisOptions) {source : Bytes} {e : ParseError}
    (h : parseSource source = .error e) :
    (analyze opts source).faults = [e.fault] ∧ (analyze opts source).deadStores = [] ∧
      (analyze opts source).stats.deadStores = 0 := by
  obtain ⟨lexical, rfl, htokens⟩ | ⟨grammar, ts, rfl, htokens, hparse⟩ := parseSource_error_cases h
  · unfold analyze
    rw [htokens]
    exact ⟨rfl, rfl, rfl⟩
  · obtain ⟨-, hdead, hfaults, hstats⟩ := analyze_of_grammarError opts htokens hparse
    exact ⟨hfaults, hdead, by rw [hstats]⟩

/-- A program that cannot be read stops the analysis at its error. -/
theorem stopped_of_error (order : ReportOrder) {source : Bytes} {e : ParseError}
    (h : parseSource source = .error e) : (analyze ⟨order, []⟩ source).Stopped e.fault := by
  obtain ⟨hfaults, hdead, hcount⟩ := analyze_of_error ⟨order, []⟩ h
  have hlisting := listing_of_error ⟨order, []⟩ h
  rw [Listing.graded_nil _ (by simp [Fault.diagnostic])] at hlisting
  have hentries : (analyze ⟨order, []⟩ source).listing.entries = [e.fault.diagnostic] := by
    rw [hlisting]
    rfl
  exact ⟨hfaults, e.code_mem, hdead, hcount, _, hentries, rfl, rfl, rfl, rfl, rfl⟩

/-- A program that can be read can be checked. -/
theorem exists_check_of_ok (opts : AnalysisOptions) {source : Bytes} {b : Block}
    (h : parseSource source = .ok b) :
    ∃ ts found, tokenize source = .ok ts ∧ parse ts = .ok b ∧ b.check opts.order = .ok found ∧
      ∀ f ∈ found, f.Inside b := by
  obtain ⟨ts, htokens, hparse⟩ := parseSource_ok_iff.1 h
  obtain ⟨hcomplete, -⟩ := Block.inOrder_of_tokenize htokens hparse
  obtain ⟨found, hcheck, hinside⟩ := Block.exists_check hcomplete opts.order
  exact ⟨ts, found, htokens, hparse, hcheck, hinside⟩

/-- Every diagnostic is about the error that stopped the analysis, or about a dead assignment.  The
rules change nothing but its severity. -/
theorem exists_of_mem_entries {opts : AnalysisOptions} {source : Bytes} {d : Diagnostic}
    (hd : d ∈ (analyze opts source).listing.entries) :
    (∃ e, parseSource source = .error e ∧ d = { e.fault.diagnostic with severity := d.severity }) ∨
      ∃ s ∈ (analyze opts source).deadStores, d = { s.diagnostic with severity := d.severity } := by
  cases h : parseSource source with
  | error e =>
      rw [listing_of_error opts h] at hd
      exact .inl ⟨e, rfl, Listing.eq_of_graded (Option.mem_toList.1 hd)⟩
  | ok b =>
      obtain ⟨ts, found, htokens, hparse, hcheck, -⟩ := exists_check_of_ok opts h
      rw [listing_of_check htokens hparse hcheck] at hd
      obtain ⟨s, hs, hgraded⟩ := List.mem_filterMap.1 hd
      rw [(analyze_of_check htokens hparse hcheck).2.1]
      exact .inr ⟨s, hs, Listing.eq_of_graded hgraded⟩

/-- A program that can be read is analysed to the end. -/
theorem finished_of_ok (order : ReportOrder) {source : Bytes} {b : Block}
    (h : parseSource source = .ok b) : (analyze ⟨order, []⟩ source).Finished := by
  obtain ⟨ts, found, htokens, hparse, hcheck, hinside⟩ := exists_check_of_ok ⟨order, []⟩ h
  obtain ⟨-, hdead, hfaults, hstats⟩ := analyze_of_check htokens hparse hcheck
  have hlisting := listing_of_check htokens hparse hcheck
  rw [AnalysisOptions.reported_nil] at hdead hstats hlisting
  have hentries : (analyze ⟨order, []⟩ source).listing.entries =
      (found.map Finding.toDeadStore).map DeadStore.diagnostic := by
    rw [hlisting, ← List.filterMap_eq_map (f := DeadStore.diagnostic)]
    refine List.filterMap_congr ?_
    intro d _
    exact Listing.graded_nil _ (by simp [DeadStore.diagnostic])
  refine ⟨hfaults, ?_, ?_, ?_⟩
  · rw [hdead, hentries, List.forall₂_map_right_iff, List.forall₂_same]
    exact fun d _ => d.describedBy_diagnostic
  · rw [hstats, hdead]
  · rw [hstats]
    simpa using Block.length_le_assignments hcheck hinside

/-- **The shape of a result.**  Without rules, in either order, the analysis of every text either
stops at one error or goes through to the end, and never both.  It stops exactly if the text cannot
be read as a program. -/
theorem result_stopped_or_finished (order : ReportOrder) (source : Bytes) :
    ∃ a, Request.analyze ⟨order, []⟩ source = .ok a ∧ Xor (∃ f, a.Stopped f) a.Finished ∧
      ((∃ f, a.Stopped f) ↔ ∃ e, parseSource source = .error e) := by
  refine ⟨analyze ⟨order, []⟩ source, rfl, ?_⟩
  cases h : parseSource source with
  | error e =>
      have hstopped := stopped_of_error order h
      refine ⟨.inl ⟨⟨_, hstopped⟩, ?_⟩, ⟨fun _ => ⟨e, rfl⟩, fun _ => ⟨_, hstopped⟩⟩⟩
      intro hfinished
      exact hfinished.not_stopped ⟨_, hstopped⟩
  | ok b =>
      have hfinished := finished_of_ok order h
      refine ⟨.inr ⟨hfinished, hfinished.not_stopped⟩, ?_⟩
      simpa using hfinished.not_stopped

end StoreLint
