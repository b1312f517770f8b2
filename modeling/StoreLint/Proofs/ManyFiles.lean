import Mathlib.Algebra.Ring.Nat
import StoreLint.Command.Run
import StoreLint.Files.Tree
import StoreLint.Proofs.ResultShape
import StoreLint.Proofs.RuleNames

/-!
# Checking many files

A check of many files counts, chooses its status and sums up over all of them at once.  This file
shows that nothing else happens than in the checks of each file alone, as long as the settings do
not depend on the files: then the reports follow one another, the status is the worst one, and the
counts in the line that sums up are added.

* `checkStatus_append`, `totalDeadStores_append`: what a check makes of two lists of reports, and
  `checkStatus_perm`, `summary_perm`: the order of reports makes no difference.
* `World.Finds`: a check gets as far as its reports, and `Finds.outcome` says what it writes then.
* `World.FixedSettings`: the settings are those of a given file, or none at all.  Then each check of
  files that can be read gets to its reports (`exists_finds`).
* `World.Composed`: how a check of files is put together from the checks of each file.
* `check_composed`: every check with fixed settings is put together so, and in another order of the
  files it has the same status and sums up the same.
-/

namespace StoreLint

/-! ## Texts without control bytes -/

/-- The text has no control bytes. -/
def Graphic (t : Bytes) : Prop :=
  ∀ b ∈ t, 0x20 ≤ b

instance (t : Bytes) : Decidable (Graphic t) :=
  List.decidableBAll _ t

namespace Graphic

variable {t u : Bytes}

theorem not_mem (h : Graphic t) {b : UInt8} (hb : b < 0x20) : b ∉ t := by
  intro hmem
  exact absurd (h b hmem) (UInt8.not_le.2 hb)

theorem append (ht : Graphic t) (hu : Graphic u) : Graphic (t ++ u) :=
  List.forall_mem_append.2 ⟨ht, hu⟩

/-- Styling has nothing to do where there are no control bytes. -/
theorem render_eq (h : Graphic t) {render : Renderer} (hrender : render.ExpandsTabs) (look : Look) :
    render look t = t := by
  rw [hrender look t (h.not_mem (by decide)), expandTabs_of_not_mem (h.not_mem (by decide))]

end Graphic

theorem isDigit_of_mem_digits {b : UInt8} {n : Nat} (h : b ∈ digits n) : isDigit b = true := by
  obtain ⟨c, hc, rfl⟩ := List.mem_map.1 h
  have hdigit : c.isDigit = true := Nat.isDigit_of_mem_toDigits (by decide) (by decide) hc
  simp only [Char.isDigit, Bool.and_eq_true, decide_eq_true_eq, ge_iff_le,
    UInt32.le_iff_toNat_le] at hdigit
  have hvalue : c.toUInt8.toNat = c.val.toNat % 256 := UInt32.toNat_toUInt8 c.val
  have hzero : ('0' : Char).val.toNat = 48 := rfl
  have hnine : ('9' : Char).val.toNat = 57 := rfl
  have hlow : (0x30 : UInt8).toNat = 48 := rfl
  have hhigh : (0x39 : UInt8).toNat = 57 := rfl
  simp only [isDigit, Bool.and_eq_true, decide_eq_true_eq, UInt8.le_iff_toNat_le]
  omega

theorem graphic_digits (n : Nat) : Graphic (digits n) := by
  intro b hb
  have hdigit := isDigit_of_mem_digits hb
  simp only [isDigit, Bool.and_eq_true, decide_eq_true_eq] at hdigit
  exact UInt8.le_trans (by decide) hdigit.1

theorem graphic_counted (n : Nat) {one many : String} (hone : Graphic (utf8 one))
    (hmany : Graphic (utf8 many)) : Graphic (counted n one many) := by
  have hblank : Graphic (utf8 " ") := by decide
  refine ((graphic_digits n).append hblank).append ?_
  split
  · exact hone
  · exact hmany

/-! ## Reports one after the other -/

/-- The line that sums up: the number of dead assignments and of files with any, or, where there are
none, whether a file could not be analysed. -/
def summaryLine (dead affected : Nat) (failed : Bool) : Bytes :=
  if 0 < dead then
    counted dead "dead store" "dead stores" ++ utf8 " in " ++ counted affected "file" "files"
  else if failed then utf8 "analysis failed"
  else utf8 "no dead stores"

theorem summary_eq (reports : List FileReport) :
    summary reports = summaryLine (totalDeadStores reports) (affectedFiles reports)
      (reports.any FileReport.failed) := rfl

/-- The look of that line. -/
def summaryLineLook (l : Looks) (dead : Nat) (failed : Bool) : Look :=
  if 0 < dead then l.summary
  else if failed then l.error
  else l.clean

theorem summaryLook_eq (l : Looks) (reports : List FileReport) :
    summaryLook l reports =
      summaryLineLook l (totalDeadStores reports) (reports.any FileReport.failed) := rfl

/-- What sums up is a single line without tabs. -/
theorem graphic_summaryLine (dead affected : Nat) (failed : Bool) :
    Graphic (summaryLine dead affected failed) := by
  unfold summaryLine
  split_ifs
  · have hbetween : Graphic (utf8 " in ") := by decide
    have hstores := graphic_counted dead (show Graphic (utf8 "dead store") by decide)
      (show Graphic (utf8 "dead stores") by decide)
    have hfiles := graphic_counted affected (show Graphic (utf8 "file") by decide)
      (show Graphic (utf8 "files") by decide)
    exact (hstores.append hbetween).append hfiles
  · decide
  · decide

theorem totalDeadStores_append (rs rs' : List FileReport) :
    totalDeadStores (rs ++ rs') = totalDeadStores rs + totalDeadStores rs' := by
  induction rs with
  | nil => simp [totalDeadStores]
  | cons r rs ih =>
      simp only [totalDeadStores, List.cons_append, List.foldr_cons] at ih ⊢
      omega

/-- The status of two lists of reports is the worse one. -/
theorem checkStatus_append (o : Options) (rs rs' : List FileReport) :
    checkStatus o (rs ++ rs') = max (checkStatus o rs) (checkStatus o rs') := by
  simp only [checkStatus, List.any_append, totalDeadStores_append, Bool.or_eq_true,
    Bool.and_eq_true, decide_eq_true_eq]
  by_cases hfailed : rs.any FileReport.failed = true
  · rw [if_pos (.inl hfailed), if_pos hfailed]
    split_ifs <;> omega
  · by_cases hfailed' : rs'.any FileReport.failed = true
    · rw [if_pos (.inr hfailed'), if_pos hfailed']
      split_ifs <;> omega
    · rw [if_neg (by simp [hfailed, hfailed']), if_neg hfailed, if_neg hfailed']
      cases o.failOnDeadStore with
      | false => simp
      | true =>
          simp only [true_and]
          split_ifs <;> omega

section Sums

variable (files : List String) (single : String → List FileReport)

theorem totalDeadStores_flatMap :
    totalDeadStores (files.flatMap single) =
      (files.map fun file => totalDeadStores (single file)).sum := by
  induction files with
  | nil => rfl
  | cons file files ih => rw [List.flatMap_cons, totalDeadStores_append, ih]; rfl

theorem affectedFiles_flatMap :
    affectedFiles (files.flatMap single) =
      (files.map fun file => affectedFiles (single file)).sum :=
  List.countP_flatMap

theorem checkStatus_flatMap (o : Options) :
    checkStatus o (files.flatMap single) =
      (files.map fun file => checkStatus o (single file)).foldr max 0 := by
  induction files with
  | nil => simp [checkStatus, totalDeadStores]
  | cons file files ih => rw [List.flatMap_cons, checkStatus_append, ih]; rfl

theorem totalDeadStores_flatMap_pos :
    0 < totalDeadStores (files.flatMap single) ↔
      ∃ file ∈ files, 0 < totalDeadStores (single file) := by
  induction files with
  | nil => simp [totalDeadStores]
  | cons file files ih =>
      rw [List.flatMap_cons, totalDeadStores_append, List.exists_mem_cons_iff, ← ih]
      omega

/-- The status asks first for a file that failed, and then for one with dead assignments. -/
theorem checkStatus_flatMap_eq_ite (o : Options) :
    checkStatus o (files.flatMap single) =
      if files.any fun file => (single file).any FileReport.failed then 2
      else if o.failOnDeadStore && files.any fun file => 0 < totalDeadStores (single file) then 1
      else 0 := by
  have hdead : decide (0 < totalDeadStores (files.flatMap single)) =
      files.any fun file => 0 < totalDeadStores (single file) := by
    rw [Bool.eq_iff_iff, decide_eq_true_iff, totalDeadStores_flatMap_pos, List.any_eq_true]
    simp only [decide_eq_true_eq]
  rw [checkStatus, List.any_flatMap, hdead]

theorem summary_flatMap :
    summary (files.flatMap single) =
      summaryLine (files.map fun file => totalDeadStores (single file)).sum
        (files.map fun file => affectedFiles (single file)).sum
        (files.any fun file => (single file).any FileReport.failed) := by
  rw [summary_eq, totalDeadStores_flatMap, affectedFiles_flatMap, List.any_flatMap]

theorem summaryLook_flatMap (l : Looks) :
    summaryLook l (files.flatMap single) =
      summaryLineLook l (files.map fun file => totalDeadStores (single file)).sum
        (files.any fun file => (single file).any FileReport.failed) := by
  rw [summaryLook_eq, totalDeadStores_flatMap, List.any_flatMap]

end Sums

section Order

variable {rs rs' : List FileReport} (h : rs.Perm rs')
include h

theorem totalDeadStores_perm : totalDeadStores rs = totalDeadStores rs' := by
  apply h.foldr_eq'
  intro r _ r' _ n
  omega

/-- What sums up does not depend on the order of the reports. -/
theorem summary_perm : summary rs = summary rs' := by
  have haffected : affectedFiles rs = affectedFiles rs' := h.countP_eq _
  rw [summary_eq, summary_eq, totalDeadStores_perm h, haffected, h.any_eq]

theorem summaryLook_perm (l : Looks) : summaryLook l rs = summaryLook l rs' := by
  rw [summaryLook_eq, summaryLook_eq, totalDeadStores_perm h, h.any_eq]

/-- The status does not depend on the order of the reports. -/
theorem checkStatus_perm (o : Options) : checkStatus o rs = checkStatus o rs' := by
  rw [checkStatus, checkStatus, totalDeadStores_perm h, h.any_eq]

end Order

/-- A file counts as failed exactly if it cannot be read as a program. -/
theorem FileReport.failed_iff (file : String) (opts : AnalysisOptions) (source : Bytes) :
    (FileReport.mk file (analyze opts source)).failed = true ↔
      ∃ e, parseSource source = .error e := by
  cases h : parseSource source with
  | error e =>
      have hfaults := (analyze_of_error opts h).1
      simp [failed, hfaults]
  | ok b =>
      obtain ⟨ts, found, htokens, hparse, hcheck, -⟩ := exists_check_of_ok opts h
      have hfaults := (analyze_of_check htokens hparse hcheck).2.2.1
      simp [failed, hfaults]

/-! ## Settings that are fixed -/

theorem mapM_of_ok {ε α β : Type} {f : α → Except ε β} {g : α → β} {xs : List α}
    (h : ∀ x ∈ xs, f x = .ok (g x)) : xs.mapM f = .ok (xs.map g) := by
  induction xs with
  | nil => rfl
  | cons x xs ih =>
      obtain ⟨hx, hxs⟩ := List.forall_mem_cons.1 h
      rw [List.mapM_cons, hx, ih hxs]
      rfl

namespace Settings

theorem invalid?_of_loadFile {files : Files} {path : String} {readers : Readers} {s : Settings}
    (h : loadFile files path readers = .ok s) : s.invalid? = none := by
  unfold loadFile at h
  split at h
  · cases h
  · split at h
    · cases h
    · split at h
      · cases h
      · rename_i hvalid
        cases h
        exact hvalid

/-- Valid settings name a form, and so they do under a command line that names one or none. -/
theorem exists_format {s : Settings} (h : s.invalid? = none) {o : Overrides}
    (ho : o.format = "" ∨ (ReportFormat.ofName? o.format).isSome = true) :
    ∃ format, ReportFormat.ofName? (s.merge o).format = some format := by
  refine Option.isSome_iff_exists.1 ?_
  show (ReportFormat.ofName? (if o.format = "" then s.format.getD "text" else o.format)).isSome =
    true
  by_cases hempty : o.format = ""
  · rw [if_pos hempty]
    unfold invalid? at h
    split at h
    · cases h
    · rename_i hfilter
      cases hformat : s.format with
      | none => rfl
      | some name =>
          rw [hformat, Option.filter_eq_none_iff] at hfilter
          simpa [Option.isSome_iff_ne_none] using hfilter name rfl
  · rw [if_neg hempty]
    exact ho.resolve_left hempty

end Settings

namespace World

/-- The settings are none at all, or those of a given file that can be loaded. -/
def FixedSettings (w : World) (flags : Flags) : Prop :=
  flags.noConfig = true ∨
    flags.config ≠ "" ∧ ∃ s, Settings.loadFile w.files flags.config w.libraries.readers = .ok s

theorem FixedSettings.exists_loaded {w : World} {flags : Flags} (h : w.FixedSettings flags) :
    ∃ loaded, (∀ files, w.settings flags files = .ok loaded) ∧ loaded.settings.invalid? = none := by
  by_cases hnone : flags.noConfig = true
  · exact ⟨⟨{}, none⟩, fun files => by rw [settings, if_pos hnone], rfl⟩
  · obtain ⟨hconfig, s, hload⟩ := h.resolve_left hnone
    refine ⟨⟨s, some flags.config⟩, fun files => ?_, Settings.invalid?_of_loadFile hload⟩
    rw [settings, if_neg hnone, if_pos hconfig, hload]

/-! ## From one file to many -/

/-- A check gets as far as its reports: the files can be read, the settings loaded, and there is a
form for the report. -/
structure Finds (w : World) (a : Arguments) (format : ReportFormat) (options : Options)
    (found : List FileReport) : Prop where
  read : ∃ sources, w.sources a.files = .ok sources ∧
    World.reports options.request sources = .ok found
  loaded : ∃ loaded, w.settings a.flags a.files = .ok loaded ∧
    loaded.settings.merge a.flags.overrides = options
  named : ReportFormat.ofName? options.format = some format

/-- What a check writes about its reports, and the status with which it ends. -/
theorem Finds.outcome {w : World} {a : Arguments} {format : ReportFormat} {options : Options}
    {found : List FileReport} (h : w.Finds a format options found) :
    (w.check a).output = writeReport w.libraries.writers format options found ∧
      (w.check a).status = checkStatus options found := by
  obtain ⟨⟨sources, hsources, hreports⟩, ⟨loaded, hloaded, rfl⟩, hformat⟩ := h
  simp only [check, hsources, hloaded, hformat, hreports, and_self]

/-- Rules with known severities give one report about each program. -/
theorem reports_of_rules {request : Request} {rules : Rules}
    (h : Rules.ofNames request.rules = .ok rules) (sources : List Source) :
    reports request sources =
      .ok (sources.map fun s => ⟨s.name, analyze ⟨request.order, rules⟩ s.text⟩) := by
  refine mapM_of_ok ?_
  intro source _
  rw [Request.analyze, h]
  rfl

/-- With fixed settings and a form that there is, every check of files that can be read gets to its
reports, which are one for each file. -/
theorem exists_finds {w : World} {flags : Flags} (hsettings : w.FixedSettings flags)
    (hformat : flags.format = "" ∨ (ReportFormat.ofName? flags.format).isSome = true) :
    ∃ format options opts, ∀ (text : String → Bytes) (files : List String), files ≠ [] →
      (∀ file ∈ files, w.files.read file = .ok (text file)) →
      w.Finds ⟨flags, files⟩ format options
        (files.map fun file => ⟨file, analyze opts (text file)⟩) := by
  obtain ⟨loaded, hloaded, hvalid⟩ := hsettings.exists_loaded
  obtain ⟨format, hname⟩ := Settings.exists_format hvalid (o := flags.overrides) hformat
  obtain ⟨rules, hrules⟩ := loaded.settings.exists_rules_of_merge flags.overrides
  refine ⟨format, loaded.settings.merge flags.overrides,
    ⟨(loaded.settings.merge flags.overrides).request.order, rules⟩, ?_⟩
  intro text files hfiles hread
  refine ⟨⟨files.map fun file => ⟨file, text file⟩, ?_, ?_⟩, ⟨loaded, hloaded files, rfl⟩, hname⟩
  · rw [sources, if_neg hfiles]
    refine mapM_of_ok ?_
    intro file hfile
    rw [hread file hfile]
    rfl
  · rw [reports_of_rules hrules, List.map_map]
    rfl

/-- How a check of files is put together from the checks of each of them alone, whose reports are
`single`. -/
structure Composed (w : World) (flags : Flags) (format : ReportFormat) (options : Options)
    (single : String → List FileReport) (files : List String) : Prop where
  /-- There is one report about each file, and it tells whether the file is no program. -/
  report : ∀ file ∈ files, ∃ text r, w.files.read file = .ok text ∧ single file = [r] ∧
    r.file = file ∧ (r.failed = true ↔ ∃ e, parseSource text = .error e)
  alone : ∀ file ∈ files, w.Finds ⟨flags, [file]⟩ format options (single file)
  /-- The reports follow one another. -/
  together : w.Finds ⟨flags, files⟩ format options (files.flatMap single)
  /-- In every form, it is these reports that are written. -/
  output : (w.check ⟨flags, files⟩).output =
      writeReport w.libraries.writers format options (files.flatMap single) ∧
    ∀ file ∈ files, (w.check ⟨flags, [file]⟩).output =
      writeReport w.libraries.writers format options (single file)
  /-- The status is the worst one. -/
  worst : (w.check ⟨flags, files⟩).status =
    (files.map fun file => (w.check ⟨flags, [file]⟩).status).foldr max 0
  status : (w.check ⟨flags, files⟩).status =
    if files.any fun file => (single file).any FileReport.failed then 2
    else if options.failOnDeadStore &&
        files.any fun file => 0 < totalDeadStores (single file) then 1
    else 0
  /-- As text, each file alone has its diagnostics and a line that sums up. -/
  textAlone : format = .text → ∀ file ∈ files, ∃ line look,
    line = summaryLine (totalDeadStores (single file)) (affectedFiles (single file))
      ((single file).any FileReport.failed) ∧
    look = summaryLineLook options.looks (totalDeadStores (single file))
      ((single file).any FileReport.failed) ∧
    (w.libraries.writers.render.ExpandsTabs → w.libraries.writers.render look line = line) ∧
    (w.check ⟨flags, [file]⟩).output =
      (single file).flatMap (FileReport.text w.libraries.writers.render options) ++
        w.libraries.writers.render look line ++ utf8 "\n"
  /-- Together they have the diagnostics of all, and one line with the sums. -/
  textTogether : format = .text → ∃ line look, lineFeed ∉ line ∧
    line = summaryLine (files.map fun file => totalDeadStores (single file)).sum
      (files.map fun file => affectedFiles (single file)).sum
      (files.any fun file => (single file).any FileReport.failed) ∧
    look = summaryLineLook options.looks (files.map fun file => totalDeadStores (single file)).sum
      (files.any fun file => (single file).any FileReport.failed) ∧
    (w.libraries.writers.render.ExpandsTabs → w.libraries.writers.render look line = line) ∧
    (w.check ⟨flags, files⟩).output =
      (files.flatMap fun file =>
        (single file).flatMap (FileReport.text w.libraries.writers.render options)) ++
          w.libraries.writers.render look line ++ utf8 "\n"

variable {w : World} {flags : Flags}

/-- Checks that get to the reports of each file, and to all of them one after the other, are
composed. -/
theorem Composed.of_finds {format : ReportFormat} {options : Options}
    {single : String → List FileReport} {files : List String}
    (hreport : ∀ file ∈ files, ∃ text r, w.files.read file = .ok text ∧ single file = [r] ∧
      r.file = file ∧ (r.failed = true ↔ ∃ e, parseSource text = .error e))
    (halone : ∀ file ∈ files, w.Finds ⟨flags, [file]⟩ format options (single file))
    (htogether : w.Finds ⟨flags, files⟩ format options (files.flatMap single)) :
    w.Composed flags format options single files where
  report := hreport
  alone := halone
  together := htogether
  output := ⟨htogether.outcome.1, fun file hfile => (halone file hfile).outcome.1⟩
  worst := by
    rw [htogether.outcome.2, checkStatus_flatMap]
    congr 1
    apply List.map_congr_left
    intro file hfile
    exact (halone file hfile).outcome.2.symm
  status := by rw [htogether.outcome.2, checkStatus_flatMap_eq_ite]
  textAlone := by
    rintro rfl file hfile
    refine ⟨_, _, rfl, rfl, fun hrender => (graphic_summaryLine _ _ _).render_eq hrender _, ?_⟩
    rw [(halone file hfile).outcome.1, writeReport, textReport, summary_eq, summaryLook_eq]
  textTogether := by
    rintro rfl
    have hline := graphic_summaryLine (files.map fun file => totalDeadStores (single file)).sum
      (files.map fun file => affectedFiles (single file)).sum
      (files.any fun file => (single file).any FileReport.failed)
    refine ⟨_, _, hline.not_mem (by decide), rfl, rfl, fun hrender => hline.render_eq hrender _, ?_⟩
    rw [htogether.outcome.1, writeReport, textReport, summary_flatMap, summaryLook_flatMap,
      List.flatMap_assoc]

/-- With fixed settings there is one form, and one report about each file, of which all checks of
files that can be read are composed. -/
theorem exists_composed (hsettings : w.FixedSettings flags)
    (hformat : flags.format = "" ∨ (ReportFormat.ofName? flags.format).isSome = true) :
    ∃ format options single, ∀ files : List String, files ≠ [] →
      (∀ file ∈ files, ∃ text, w.files.read file = .ok text) →
      w.Composed flags format options single files := by
  obtain ⟨format, options, opts, hfinds⟩ := exists_finds hsettings hformat
  let text : String → Bytes := fun file => (w.files.read file).toOption.getD []
  refine ⟨format, options, fun file => [⟨file, analyze opts (text file)⟩], ?_⟩
  intro files hfiles hexists
  have hread : ∀ file ∈ files, w.files.read file = .ok (text file) := by
    intro file hfile
    obtain ⟨content, hcontent⟩ := hexists file hfile
    simp only [text, hcontent]
    rfl
  refine .of_finds ?_ ?_ ?_
  · intro file hfile
    exact ⟨text file, _, hread file hfile, rfl, rfl, FileReport.failed_iff file opts (text file)⟩
  · intro file hfile
    refine hfinds text [file] (List.cons_ne_nil _ _) ?_
    intro file' hfile'
    rw [List.mem_singleton.1 hfile']
    exact hread file hfile
  · rw [← List.map_eq_flatMap]
    exact hfinds text files hfiles hread

/-- **A check of many files is composed of the checks of each.**  In another order of the files it
has the same reports in another order, ends with the same status, and sums up the same. -/
theorem check_composed {files : List String} (hfiles : files ≠ [])
    (hread : ∀ file ∈ files, ∃ text, w.files.read file = .ok text)
    (hsettings : w.FixedSettings flags)
    (hformat : flags.format = "" ∨ (ReportFormat.ofName? flags.format).isSome = true) :
    ∃ format options single, w.Composed flags format options single files ∧
      ∀ files' : List String, files'.Perm files →
        w.Composed flags format options single files' ∧
        (files'.flatMap single).Perm (files.flatMap single) ∧
        (w.check ⟨flags, files'⟩).status = (w.check ⟨flags, files⟩).status ∧
        summary (files'.flatMap single) = summary (files.flatMap single) ∧
        ∀ looks, summaryLook looks (files'.flatMap single) =
          summaryLook looks (files.flatMap single) := by
  obtain ⟨format, options, single, hcomposed⟩ := exists_composed hsettings hformat
  have hall := hcomposed files hfiles hread
  refine ⟨format, options, single, hall, ?_⟩
  intro files' hperm
  have hfiles' : files' ≠ [] := by
    rintro rfl
    exact hfiles hperm.nil_eq.symm
  have hother := hcomposed files' hfiles' fun file hfile => hread file (hperm.mem_iff.1 hfile)
  have hreports := hperm.flatMap_right single
  refine ⟨hother, hreports, ?_, summary_perm hreports, summaryLook_perm hreports⟩
  rw [hother.together.outcome.2, hall.together.outcome.2]
  exact checkStatus_perm hreports options

/-- A place with a program that has a dead assignment, one that cannot be read, and one without
either. -/
def mixed : World where
  arguments := []
  input := []
  workingDirectory := "/"
  files := (FileTree.directory
    [("dead.ds", .file (utf8 "x = a")), ("broken.ds", .file (utf8 "x =")),
      ("clean.ds", .file (utf8 "while x < 9 x = x + 1 end"))]).files []
  toolchain := ""

/-- Flags by which dead assignments count as a failure. -/
def strict : Flags := { noConfig := true, fail := true }

theorem check_composed_mixed :
    (["clean.ds", "dead.ds", "broken.ds"].map fun file => (mixed.check ⟨strict, [file]⟩).status) =
      [0, 1, 2] ∧
    ∃ format options single,
      mixed.Composed strict format options single ["clean.ds", "dead.ds", "broken.ds"] ∧
      ∀ files' : List String, files'.Perm ["clean.ds", "dead.ds", "broken.ds"] →
        mixed.Composed strict format options single files' ∧
        (files'.flatMap single).Perm (["clean.ds", "dead.ds", "broken.ds"].flatMap single) ∧
        (mixed.check ⟨strict, files'⟩).status =
          (mixed.check ⟨strict, ["clean.ds", "dead.ds", "broken.ds"]⟩).status ∧
        summary (files'.flatMap single) =
          summary (["clean.ds", "dead.ds", "broken.ds"].flatMap single) ∧
        ∀ looks, summaryLook looks (files'.flatMap single) =
          summaryLook looks (["clean.ds", "dead.ds", "broken.ds"].flatMap single) := by
  refine ⟨by decide +kernel, check_composed (by decide) ?_ (.inl rfl) (.inl rfl)⟩
  have hfiles : ∀ file ∈ ["clean.ds", "dead.ds", "broken.ds"],
      (mixed.files.read file).toOption.isSome = true := by decide +kernel
  intro file hfile
  cases hread : mixed.files.read file with
  | ok text => exact ⟨text, rfl⟩
  | error e =>
      have hsome := hfiles file hfile
      rw [hread] at hsome
      cases hsome

end World

end StoreLint
