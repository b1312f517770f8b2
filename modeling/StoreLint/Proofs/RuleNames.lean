import Mathlib.Data.List.Chain
import StoreLint.Settings.Basic

/-!
# Rules by name

Rules are written with names: a code in any case, and a severity under one of its names, in any case
and between blanks.  Settings turn the names into codes in upper case and severities, and then ask
for the analysis with names again, which are read a second time.  This file shows that nothing is
lost on the way.

* `upperCase_upperCase`: a text in upper case stays as it is.  The table of upper-case forms is
  checked run by run: `CaseRun.not_has_form` says that a form is never a member of a run.
* `Severity.ofName?_name`: the name of a severity is read as that severity.
* `ofNames_eq_resolved`: rules whose names are known, under codes that stay different in upper case,
  are read as `Rules.resolved`, one rule for each name; `lookup_resolved` says which severity a code
  is given then.
* `settings_rules_reach_analysis`: valid settings ask for an analysis that succeeds, and that is the
  one with the rules as they are written.
-/

namespace StoreLint

/-! ## Upper case -/

/-- A run of `upperRuns`. -/
abbrev CaseRun := Nat × Nat × Nat × Int

namespace CaseRun

/-- The code point is a member of the run. -/
def Has (run : CaseRun) (n : Nat) : Prop :=
  run.1 ≤ n ∧ n ≤ run.2.1 ∧ (n - run.1) % run.2.2.1 = 0

/-- The upper-case form that the run gives a code point. -/
def form (run : CaseRun) (n : Nat) : Nat :=
  (n + run.2.2.2).toNat

/-- The forms of the first run stand between the members of the second. -/
def alternates (run other : CaseRun) : Bool :=
  Nat.ble (run.form run.2.1) other.2.1 && (run.2.2.1 % 2 == 0 || run.1 == run.2.1) &&
    other.2.2.1 % 2 == 0 && run.form run.1 % 2 != other.1 % 2

/-- Of the runs that do not end before the forms of a run start, the first one starts behind all
these forms, or they stand between its members. -/
def formsOutside (run : CaseRun) : Bool :=
  match upperRuns.find? fun other => Nat.ble (run.form run.1) other.2.1 with
  | none => true
  | some other => Nat.blt (run.form run.2.1) other.1 || run.alternates other

/-- The runs follow one another. -/
theorem isChain_upperRuns :
    upperRuns.IsChain fun run next => run.1 ≤ run.2.1 ∧ run.2.1 < next.1 := by
  decide +kernel

theorem formsOutside_upperRuns : upperRuns.all formsOutside = true := by
  decide +kernel

/-- The forms are code points of characters. -/
theorem valid_upperRuns : ∀ run ∈ upperRuns, 0 ≤ run.1 + run.2.2.2 ∧
    (form run run.2.1 < 0xD800 ∨
      0xDFFF < form run run.1 ∧ form run run.2.1 < 0x110000) := by
  decide +kernel

theorem pairwise_upperRuns :
    upperRuns.Pairwise fun run next => run.1 ≤ run.2.1 ∧ run.2.1 < next.1 := by
  have htrans : IsTrans CaseRun fun run next => run.1 ≤ run.2.1 ∧ run.2.1 < next.1 :=
    ⟨fun a b c hab hbc => ⟨hab.1, by omega⟩⟩
  exact List.isChain_iff_pairwise.1 isChain_upperRuns

/-- Of two runs, the forms of the first end before the members of the second start, start behind
these, or stand between them. -/
theorem forms_apart {run other : CaseRun} (hrun : run ∈ upperRuns) (hother : other ∈ upperRuns) :
    run.form run.2.1 < other.1 ∨ other.2.1 < run.form run.1 ∨ run.alternates other = true := by
  have houtside := List.all_eq_true.1 formsOutside_upperRuns run hrun
  unfold formsOutside at houtside
  split at houtside
  · rename_i hnone
    have hends := List.find?_eq_none.1 hnone other hother
    rw [Nat.ble_eq] at hends
    omega
  · rename_i first hfirst
    obtain ⟨-, before, behind, hsplit, hbefore⟩ := List.find?_eq_some_iff_append.1 hfirst
    have hends : run.form run.2.1 < first.1 ∨ run.alternates first = true := by
      simpa using houtside
    rw [hsplit] at hother
    rcases List.mem_append.1 hother with hmem | hmem
    · have hearlier := hbefore other hmem
      rw [Bool.not_eq_true', ← Bool.not_eq_true, Nat.ble_eq, Nat.not_le] at hearlier
      exact .inr (.inl hearlier)
    rcases List.mem_cons.1 hmem with rfl | hmem
    · exact hends.imp_right .inr
    · -- the runs behind the first one start where it has ended
      have hpairs := pairwise_upperRuns
      rw [hsplit] at hpairs
      obtain ⟨hfirst, hlater⟩ :=
        (List.pairwise_cons.1 (List.pairwise_append.1 hpairs).2.1).1 other hmem
      rcases hends with hends | hends
      · omega
      · simp only [alternates, Bool.and_eq_true, Nat.ble_eq] at hends
        omega

/-- The upper-case form of a member is a member of no run. -/
theorem not_has_form {run other : CaseRun} (hrun : run ∈ upperRuns) (hother : other ∈ upperRuns)
    {n : Nat} (hn : run.Has n) : ¬ other.Has (run.form n) := by
  intro hform
  obtain ⟨hfirst, hlast, hstep⟩ := hn
  obtain ⟨hfirst', hlast', hstep'⟩ := hform
  obtain ⟨hstart, -⟩ := valid_upperRuns run hrun
  have hplace : run.form n = run.form run.1 + (n - run.1) := by
    simp only [form]
    omega
  have hend : run.form run.2.1 = run.form run.1 + (run.2.1 - run.1) := by
    simp only [form]
    omega
  rcases forms_apart hrun hother with hends | hends | halternate
  · omega
  · omega
  · simp only [alternates, Bool.and_eq_true, Bool.or_eq_true, beq_iff_eq, bne_iff_ne] at halternate
    obtain ⟨⟨⟨-, hsteps⟩, heven⟩, hodd⟩ := halternate
    have hdistance : (n - run.1) % 2 = 0 := by
      rcases hsteps with hsteps | hsingle
      · exact Nat.mod_eq_zero_of_dvd
          (Nat.dvd_trans (Nat.dvd_of_mod_eq_zero hsteps) (Nat.dvd_of_mod_eq_zero hstep))
      · omega
    have hdistance' : (run.form n - other.1) % 2 = 0 :=
      Nat.mod_eq_zero_of_dvd
        (Nat.dvd_trans (Nat.dvd_of_mod_eq_zero heven) (Nat.dvd_of_mod_eq_zero hstep'))
    omega

end CaseRun

/-- A character is a member of a run and has the form that the run gives it, or it is a member of
none and is its own form. -/
theorem upper_cases (c : Char) :
    (∃ run ∈ upperRuns, CaseRun.Has run c.toNat ∧
        upper c = Char.ofNat (CaseRun.form run c.toNat)) ∨
      (∀ run ∈ upperRuns, ¬ CaseRun.Has run c.toNat) ∧ upper c = c := by
  unfold upper
  split
  · rename_i hfind
    have hmember := List.find?_some hfind
    simp only [Bool.and_eq_true, decide_eq_true_eq, beq_iff_eq, and_assoc] at hmember
    exact .inl ⟨_, List.mem_of_find?_eq_some hfind, hmember, rfl⟩
  · rename_i hnone
    refine .inr ⟨?_, rfl⟩
    intro run hrun hmember
    have hmiss := List.find?_eq_none.1 hnone run hrun
    simp only [Bool.and_eq_true, decide_eq_true_eq, beq_iff_eq, and_assoc] at hmiss
    exact hmiss hmember

/-- An upper-case form is its own upper-case form. -/
theorem upper_upper (c : Char) : upper (upper c) = upper c := by
  rcases upper_cases c with ⟨run, hrun, hmember, hform⟩ | ⟨-, hself⟩
  · have hvalid : (CaseRun.form run c.toNat).isValidChar := by
      obtain ⟨hstart, hrange⟩ := CaseRun.valid_upperRuns run hrun
      obtain ⟨hfirst, hlast, -⟩ := hmember
      simp only [CaseRun.form, Nat.isValidChar] at hrange ⊢
      omega
    have hpoint : (upper c).toNat = CaseRun.form run c.toNat := by
      rw [hform, Char.ofNat, dif_pos hvalid]
      rfl
    rcases upper_cases (upper c) with ⟨other, hother, hmember', -⟩ | ⟨-, hself⟩
    · rw [hpoint] at hmember'
      exact absurd hmember' (CaseRun.not_has_form hrun hother hmember)
    · exact hself
  · rw [hself, hself]

/-- A text in upper case stays as it is. -/
@[simp] theorem upperCase_upperCase (s : String) : upperCase (upperCase s) = upperCase s := by
  simp [upperCase, upper_upper, Function.comp_def]

/-! ## Names of severities -/

namespace Severity

theorem ne_unknown_of_ofName? {name : String} {s : Severity} (h : ofName? name = some s) :
    s ≠ .unknown := by
  rintro rfl
  simp only [ofName?] at h
  repeat' split at h
  all_goals simp at h

/-- The name of a severity is read as that severity. -/
theorem ofName?_name {s : Severity} (h : s ≠ .unknown) : ofName? s.name = some s := by
  cases s with
  | unknown => exact absurd rfl h
  | _ => rfl

end Severity

/-! ## Rules by name -/

namespace Rules

/-- All severities have a known name, and all codes stay different in upper case. -/
structure Readable (names : List (String × String)) : Prop where
  known : ∀ rule ∈ names, (Severity.ofName? rule.2).isSome = true
  distinct : (names.map fun rule => upperCase rule.1).Nodup

/-- One rule for each name. -/
def resolved (names : List (String × String)) : Rules :=
  names.map fun rule => (upperCase rule.1, (Severity.ofName? rule.2).getD .off)

/-- The severity that rules by name give a code. -/
def given? (names : List (String × String)) (code : String) : Option Severity :=
  (names.find? fun rule => upperCase rule.1 = code).bind fun rule => Severity.ofName? rule.2

theorem map_fst_resolved (names : List (String × String)) :
    (resolved names).map Prod.fst = names.map fun rule => upperCase rule.1 := by
  simp [resolved]

/-- A rule for a new code goes behind the others. -/
theorem set_of_not_mem {rules : Rules} {code : String} (h : code ∉ rules.map Prod.fst)
    (severity : Severity) : rules.set code severity = rules ++ [(code, severity)] := by
  unfold set
  rw [List.filter_eq_self.2]
  intro rule hrule
  simp only [bne_iff_ne, ne_eq]
  rintro rfl
  exact h (List.mem_map_of_mem hrule)

/-- Rules for new and different codes go behind the others, in their order. -/
theorem foldl_set (added rules : Rules) (hdistinct : ((rules ++ added).map Prod.fst).Nodup) :
    added.foldl (fun rules rule => rules.set rule.1 rule.2) rules = rules ++ added := by
  induction added generalizing rules with
  | nil => simp
  | cons rule added ih =>
      have hnew : rule.1 ∉ rules.map Prod.fst := by
        intro hmem
        rw [List.map_append, List.map_cons] at hdistinct
        exact (List.nodup_append.1 hdistinct).2.2 _ hmem _ (List.mem_cons_self ..) rfl
      rw [List.foldl_cons, set_of_not_mem hnew, ih _ (by simpa using hdistinct),
        List.append_assoc, List.singleton_append]

/-- Reading rules by name sets one after the other, if each severity is known. -/
theorem foldlM_known (read : Rules → String × String → Except Invalid Rules)
    (hread : ∀ rules rule severity, Severity.ofName? rule.2 = some severity →
      read rules rule = .ok (rules.set (upperCase rule.1) severity))
    {names : List (String × String)}
    (known : ∀ rule ∈ names, (Severity.ofName? rule.2).isSome = true) (rules : Rules) :
    names.foldlM read rules =
      .ok ((resolved names).foldl (fun rules rule => rules.set rule.1 rule.2) rules) := by
  induction names generalizing rules with
  | nil => rfl
  | cons rule names ih =>
      obtain ⟨severity, hseverity⟩ := Option.isSome_iff_exists.1 (known rule (by simp))
      have hrest := ih (fun rule hrule => known rule (by simp [hrule]))
        (rules.set (upperCase rule.1) severity)
      rw [List.foldlM_cons, hread rules rule severity hseverity]
      simpa [resolved, hseverity, bind, Except.bind] using hrest

/-- Readable rules are read as one rule for each name. -/
theorem ofNames_eq_resolved {names : List (String × String)} (h : Readable names) :
    ofNames names = .ok (resolved names) := by
  have hdistinct : (([] ++ resolved names).map Prod.fst).Nodup := by
    simpa [map_fst_resolved] using h.distinct
  rw [← (resolved names).nil_append, ← foldl_set (resolved names) [] hdistinct]
  refine foldlM_known _ ?_ h.known []
  intro rules rule severity hseverity
  simp [hseverity]

/-- The severity that a code is given, read off the rules by name. -/
theorem lookup_resolved {names : List (String × String)}
    (known : ∀ rule ∈ names, (Severity.ofName? rule.2).isSome = true) (code : String) :
    (resolved names).lookup code = given? names code := by
  induction names with
  | nil => rfl
  | cons rule names ih =>
      have hrest := ih fun rule hrule => known rule (by simp [hrule])
      obtain ⟨severity, hseverity⟩ := Option.isSome_iff_exists.1 (known rule (by simp))
      by_cases hcode : upperCase rule.1 = code
      · simp [resolved, given?, hcode, hseverity]
      · have hcode' : (code == upperCase rule.1) = false := by simpa using Ne.symm hcode
        simpa [resolved, given?, hcode, hcode', List.lookup_cons] using hrest

/-- Rules with the names that severities have. -/
def renamed (rules : Rules) : List (String × String) :=
  rules.map fun rule => (rule.1, rule.2.name)

/-- Writing the names of read rules and reading them again changes nothing. -/
theorem ofNames_renamed {names : List (String × String)} (h : Readable names) :
    ofNames (renamed (resolved names)) = .ok (resolved names) := by
  have hread : ∀ rule ∈ names, ∃ severity, Severity.ofName? rule.2 = some severity ∧
      Severity.ofName? severity.name = some severity := by
    intro rule hrule
    obtain ⟨severity, hseverity⟩ := Option.isSome_iff_exists.1 (h.known rule hrule)
    exact ⟨severity, hseverity,
      Severity.ofName?_name (Severity.ne_unknown_of_ofName? hseverity)⟩
  have hagain : resolved (renamed (resolved names)) = resolved names := by
    simp only [resolved, renamed, List.map_map, List.map_inj_left, Function.comp_apply,
      upperCase_upperCase, Prod.mk.injEq, true_and]
    intro rule hrule
    obtain ⟨severity, hseverity, hname⟩ := hread rule hrule
    simp [hseverity, hname]
  have hreadable : Readable (renamed (resolved names)) := by
    refine ⟨?_, ?_⟩
    · simp only [renamed, resolved, List.map_map, List.mem_map, Function.comp_apply]
      rintro _ ⟨rule, hrule, rfl⟩
      obtain ⟨severity, hseverity, hname⟩ := hread rule hrule
      simp [hseverity, hname]
    · rw [← map_fst_resolved, hagain, map_fst_resolved]
      exact h.distinct
  rw [ofNames_eq_resolved hreadable, hagain]

end Rules

/-! ## Settings -/

namespace Settings

/-- Valid settings give only known severities. -/
theorem known_of_invalid?_eq_none {s : Settings} (h : s.invalid? = none) :
    ∀ rule ∈ s.rules, (Severity.ofName? rule.2).isSome = true := by
  intro rule hrule
  unfold invalid? at h
  split at h
  · cases h
  split at h
  · cases h
  rw [Option.map_eq_none_iff, List.find?_eq_none] at h
  simpa [Option.isSome_iff_ne_none] using h rule hrule

theorem resolvedRules_eq {s : Settings}
    (h : (s.rules.map fun rule => upperCase rule.1).Nodup) :
    s.resolvedRules = Rules.resolved s.rules := by
  have hfold := Rules.foldl_set (Rules.resolved s.rules) []
    (by simpa [Rules.map_fst_resolved] using h)
  rw [List.nil_append, Rules.resolved, List.foldl_map] at hfold
  rw [Rules.resolved, ← hfold]
  unfold resolvedRules
  congr 1

/-- Resolved rules have severities with a name. -/
theorem ne_unknown_of_mem_resolvedRules (s : Settings) :
    ∀ rule ∈ s.resolvedRules, rule.2 ≠ .unknown := by
  have hfold : ∀ (names : List (String × String)) (rules : Rules),
      (∀ rule ∈ rules, rule.2 ≠ .unknown) →
      ∀ rule ∈ names.foldl (fun rules name =>
        rules.set (upperCase name.1) ((Severity.ofName? name.2).getD .off)) rules,
        rule.2 ≠ .unknown := by
    intro names
    induction names with
    | nil => exact fun rules h => h
    | cons name names ih =>
        intro rules h
        refine ih _ ?_
        intro rule hrule
        rcases List.mem_append.1 hrule with hrule | hrule
        · exact h rule (List.mem_of_mem_filter hrule)
        · rw [List.mem_singleton.1 hrule]
          show (Severity.ofName? name.2).getD .off ≠ .unknown
          cases hname : Severity.ofName? name.2 with
          | none => simp
          | some severity => exact Severity.ne_unknown_of_ofName? hname
  exact hfold s.rules [] fun rule hrule => absurd hrule List.not_mem_nil

/-- Settings never ask for an analysis with a severity of an unknown name. -/
theorem exists_rules_of_merge (s : Settings) (o : Overrides) :
    ∃ rules, Rules.ofNames (s.merge o).request.rules = .ok rules := by
  have hknown : ∀ rule ∈ (s.merge o).request.rules,
      (Severity.ofName? rule.2).isSome = true := by
    intro rule hrule
    obtain ⟨resolved, hresolved, rfl⟩ := List.mem_map.1 hrule
    show (Severity.ofName? resolved.2.name).isSome = true
    rw [Severity.ofName?_name (s.ne_unknown_of_mem_resolvedRules resolved hresolved)]
    rfl
  refine ⟨_, Rules.foldlM_known _ ?_ hknown []⟩
  intro rules rule severity hseverity
  simp [hseverity]

/-- The order of the report that settings and command line ask for. -/
theorem order_merge (s : Settings) (o : Overrides) :
    (s.merge o).request.order =
      if o.unsorted || s.sortByLine == some false then .discovery else .byLine := by
  cases hunsorted : o.unsorted <;> cases hsort : s.sortByLine with
  | none => simp [merge, options, Options.request, hunsorted, hsort]
  | some sorted => cases sorted <;> simp [merge, options, Options.request, hunsorted, hsort]

end Settings

/-- **The rules of settings reach the analysis as they are written.**  Valid settings, or none,
whose codes stay different in upper case, ask for an analysis that succeeds under every command
line.  It is the analysis with the rules as the settings write them, and in the order of discovery
if and only if the command line or the settings say so. -/
theorem settings_rules_reach_analysis {c : Option Settings} (hvalid : ∀ s ∈ c, s.invalid? = none)
    (hdistinct : ((c.getD {}).rules.map fun rule => upperCase rule.1).Nodup) (o : Overrides)
    (source : Bytes) :
    ∃ a, ((c.getD {}).merge o).request.analyze source = .ok a ∧
      Request.analyze
        ⟨if o.unsorted || (c.getD {}).sortByLine == some false then .discovery else .byLine,
          (c.getD {}).rules⟩ source = .ok a := by
  have hknown : ∀ rule ∈ (c.getD {}).rules, (Severity.ofName? rule.2).isSome = true := by
    cases c with
    | none => exact fun rule hrule => absurd hrule List.not_mem_nil
    | some s => exact Settings.known_of_invalid?_eq_none (hvalid s rfl)
  have hreadable : Rules.Readable (c.getD {}).rules := ⟨hknown, hdistinct⟩
  have hrules : ((c.getD {}).merge o).request.rules =
      Rules.renamed (Rules.resolved (c.getD {}).rules) := by
    rw [← Settings.resolvedRules_eq hdistinct]
    rfl
  refine ⟨analyze ⟨((c.getD {}).merge o).request.order, Rules.resolved (c.getD {}).rules⟩ source,
    ?_, ?_⟩
  · rw [Request.analyze, hrules, Rules.ofNames_renamed hreadable]
    rfl
  · rw [← Settings.order_merge, Request.analyze, Rules.ofNames_eq_resolved hreadable]
    rfl

/-- Settings with second names of severities, a blank that is not ASCII, and codes in lower case,
one of them with a letter outside ASCII. -/
def Settings.aliased : Settings :=
  { sortByLine := some false
    rules := [("w0001", "\u2003Warn "), ("ǆ9", "NONE")] }

theorem settings_rules_reach_analysis_aliased :
    (∀ s ∈ some Settings.aliased, s.invalid? = none) ∧
      (Settings.aliased.rules.map fun rule => upperCase rule.1).Nodup ∧
      ∃ a, (Settings.aliased.merge {}).request.analyze (utf8 "x = 1") = .ok a ∧
        Request.analyze ⟨.discovery, Settings.aliased.rules⟩ (utf8 "x = 1") = .ok a := by
  have hvalid : ∀ s ∈ some Settings.aliased, s.invalid? = none := by
    rintro _ ⟨⟩
    decide +kernel
  have hdistinct : (Settings.aliased.rules.map fun rule => upperCase rule.1).Nodup := by
    decide +kernel
  exact ⟨hvalid, hdistinct, settings_rules_reach_analysis hvalid hdistinct {} (utf8 "x = 1")⟩

end StoreLint
