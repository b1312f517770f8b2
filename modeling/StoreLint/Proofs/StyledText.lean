import StoreLint.Proofs.ManyFiles

/-!
# What colours change on a plain output

With colours, the parts of a text report go through styling one by one.  On an output that takes no
colours that should make no difference, but styling still writes spaces for tabs.  This file says
exactly when the report differs from the one without colours, and where the marks under quoted lines
get to.  Nothing else is taken for granted of styling than that it expands the tabs of single lines.

* `length_expandTabs`: a line gets longer by three bytes for each tab.
* `Fragment`, `Diagnostic.fragments`: the text of a diagnostic cut into fragments that belong to a
  part with a style or to none.  `Diagnostic.text_eq_fragments` puts it together again.
* `Fragment.flatMap_under_eq_iff`: no change in one fragment makes up for another.
* `Diagnostic.free_iff`: of all that is styled, only file names and quoted lines can have tabs.
* `World.coloured_eq_plain_iff` puts these together: the two reports are the same if and only if no
  file name and no line that they show has a tab.
-/

namespace StoreLint

/-! ## Tabs in a single line -/

/-- A tab takes three bytes more when it is expanded. -/
theorem length_expandTabs (t : Bytes) : (expandTabs t).length = t.length + 3 * t.count tab := by
  induction t with
  | nil => rfl
  | cons b t ih =>
      have hspaces : (utf8 "    ").length = 4 := rfl
      rw [expandTabs_cons, List.length_append, ih]
      by_cases hb : b = tab
      · rw [if_pos hb, hspaces, hb, List.count_cons_self, List.length_cons]
        omega
      · rw [if_neg hb, List.count_cons_of_ne hb, List.length_singleton, List.length_cons]
        omega

theorem expandTabs_eq_iff {t : Bytes} : expandTabs t = t ↔ tab ∉ t := by
  constructor
  · intro heq
    have hlength := length_expandTabs t
    rw [heq] at hlength
    exact List.count_eq_zero.1 (by omega)
  · exact expandTabs_of_not_mem

/-! ## Texts put together from parts -/

theorem length_flatMap_le {α : Type} {f g : α → Bytes} {xs : List α}
    (h : ∀ x ∈ xs, (g x).length ≤ (f x).length) :
    (xs.flatMap g).length ≤ (xs.flatMap f).length := by
  induction xs with
  | nil => exact le_rfl
  | cons x xs ih =>
      obtain ⟨hx, hxs⟩ := List.forall_mem_cons.1 h
      simp only [List.flatMap_cons, List.length_append]
      exact Nat.add_le_add hx (ih hxs)

/-- Where none of the parts gets shorter, what they are put together to stays the same only if each
part does. -/
theorem flatMap_eq_iff_of_length_le {α : Type} {f g : α → Bytes} {xs : List α}
    (h : ∀ x ∈ xs, (g x).length ≤ (f x).length) :
    xs.flatMap f = xs.flatMap g ↔ ∀ x ∈ xs, f x = g x := by
  constructor
  · intro heq
    induction xs with
    | nil => simp
    | cons x xs ih =>
        obtain ⟨hx, hxs⟩ := List.forall_mem_cons.1 h
        rw [List.flatMap_cons, List.flatMap_cons] at heq
        -- the other parts cannot make up for the length
        have hlength : (f x).length = (g x).length := by
          have htotal := congrArg List.length heq
          have hrest := length_flatMap_le hxs
          simp only [List.length_append] at htotal
          omega
        obtain ⟨hfirst, hrest⟩ := List.append_inj heq hlength
        exact List.forall_mem_cons.2 ⟨hfirst, ih hxs hrest⟩
  · intro hall
    exact List.flatMap_congr hall

/-! ## Texts cut into fragments -/

/-- A part of a diagnostic that has a style of its own. -/
inductive Diagnostic.Part where
  | location
  | severity (s : Severity)
  | code
  | source
  | mark
  | note

/-- The style of a part. -/
def Style.of (s : Style) : Diagnostic.Part → Bytes → Bytes
  | .location => s.location
  | .severity severity => s.severity severity
  | .code => s.code
  | .source => s.source
  | .mark => s.mark
  | .note => s.note

/-- All that the style does to a single line is to expand its tabs. -/
def Style.ExpandsTabs (s : Style) : Prop :=
  ∀ part t, lineFeed ∉ t → s.of part t = expandTabs t

theorem Options.expandsTabs_style {render : Renderer} (hrender : render.ExpandsTabs) {o : Options}
    (hcolor : o.color = true) : (o.style render).ExpandsTabs := by
  intro part t ht
  rw [style, if_pos hcolor]
  cases part <;> exact hrender _ t ht

/-- A fragment of a report: what it says, and the part that it is, unless it has no style. -/
structure Fragment where
  part : Option Diagnostic.Part
  text : Bytes

namespace Fragment

/-- A fragment as it is shown in a style. -/
def under (s : Style) (fragment : Fragment) : Bytes :=
  match fragment.part with
  | none => fragment.text
  | some part => s.of part fragment.text

theorem under_plain (fragment : Fragment) : fragment.under .plain = fragment.text := by
  obtain ⟨- | part, text⟩ := fragment
  · rfl
  · cases part <;> rfl

/-- The fragment has not got the byte, unless it has no style. -/
def Free (b : UInt8) (fragment : Fragment) : Prop :=
  fragment.part ≠ none → b ∉ fragment.text

variable {s : Style}

/-- A single line is shown as it is if and only if it has no tabs, and else it gets longer. -/
theorem under_of_expandsTabs (hs : s.ExpandsTabs) (fragment : Fragment)
    (h : fragment.Free lineFeed) :
    (fragment.under s = fragment.text ↔ fragment.Free tab) ∧
      fragment.text.length ≤ (fragment.under s).length := by
  obtain ⟨- | part, text⟩ := fragment
  · simp [under, Free]
  · have hstyled : (Fragment.mk (some part) text).under s = expandTabs text :=
      hs part text (h (by simp))
    have hfree : (Fragment.mk (some part) text).Free tab ↔ tab ∉ text := by simp [Free]
    rw [hstyled, hfree, length_expandTabs]
    exact ⟨expandTabs_eq_iff, Nat.le_add_right _ _⟩

/-- Fragments that are single lines are shown as they are, all together, if and only if none that
has a style has a tab. -/
theorem flatMap_under_eq_iff (hs : s.ExpandsTabs) {fragments : List Fragment}
    (h : ∀ fr ∈ fragments, fr.Free lineFeed) :
    fragments.flatMap (under s) = fragments.flatMap (under .plain) ↔
      ∀ fr ∈ fragments, fr.Free tab := by
  rw [flatMap_eq_iff_of_length_le fun fr hfr => by
    rw [under_plain]
    exact (fr.under_of_expandsTabs hs (h fr hfr)).2]
  refine forall₂_congr ?_
  intro fr hfr
  rw [under_plain]
  exact (fr.under_of_expandsTabs hs (h fr hfr)).1

end Fragment

/-! ## The fragments of a diagnostic -/

namespace Diagnostic

variable (d : Diagnostic) (source : Bytes) (file : String) (hide : Bool)

/-- The fragments of the quoted line and the mark under it. -/
def sourceFragments : List Fragment :=
  let line := Listing.sourceLine source d.range.start.line
  if !hide ∧ line ≠ [] ∧ 0 < d.range.start.column then
    [⟨none, utf8 "    "⟩, ⟨some .source, line⟩,
      ⟨none, utf8 "\n" ++ List.replicate (d.range.start.column - 1 + 4).toNat 0x20⟩,
      ⟨some .mark, markText d.range⟩, ⟨none, utf8 "\n"⟩]
  else []

/-- The fragments of a note. -/
def noteFragments (n : Note) : List Fragment :=
  [⟨none, utf8 "  "⟩,
    ⟨some .note, locationText file n.range.start ++ utf8 " note: " ++ n.message⟩,
    ⟨none, utf8 "\n"⟩]

/-- The fragments of a diagnostic. -/
def fragments : List Fragment :=
  [⟨some .location, locationText file d.range.start⟩, ⟨none, utf8 " "⟩,
      ⟨some (.severity d.severity), utf8 d.severity.name⟩]
    ++ (if d.code = "" then [] else [⟨some .code, utf8 "[" ++ utf8 d.code ++ utf8 "]"⟩])
    ++ [⟨none, utf8 ": " ++ d.message ++ utf8 "\n"⟩]
    ++ d.sourceFragments source hide ++ d.notes.flatMap (noteFragments file)

theorem sourceText_eq_fragments (s : Style) :
    d.sourceText source ⟨file, hide, s⟩ =
      (d.sourceFragments source hide).flatMap (Fragment.under s) := by
  unfold sourceText sourceFragments
  dsimp only
  split
  · simp [Fragment.under, Style.of]
  · rfl

theorem noteText_eq_fragments (s : Style) (n : Note) :
    noteText ⟨file, hide, s⟩ n = (noteFragments file n).flatMap (Fragment.under s) := by
  simp [noteText, noteFragments, Fragment.under, Style.of]

/-- The text of a diagnostic is that of its fragments. -/
theorem text_eq_fragments (s : Style) :
    d.text source ⟨file, hide, s⟩ =
      (d.fragments source file hide).flatMap (Fragment.under s) := by
  have hnotes : noteText ⟨file, hide, s⟩ =
      fun n => (noteFragments file n).flatMap (Fragment.under s) :=
    funext (noteText_eq_fragments file hide s)
  unfold text fragments
  rw [sourceText_eq_fragments, hnotes]
  simp only [List.flatMap_append, List.flatMap_assoc]
  split <;> simp [Fragment.under, Style.of]

end Diagnostic

/-! ## Where tabs and line ends can be -/

theorem graphic_decimal (n : Int) : Graphic (decimal n) := by
  have hminus : Graphic (utf8 "-") := by decide
  unfold decimal
  split
  · exact hminus.append (graphic_digits _)
  · exact graphic_digits _

theorem Severity.graphic_name (s : Severity) : Graphic (utf8 s.name) := by
  cases s <;> decide

theorem Diagnostic.graphic_markText (range : Range) : Graphic (markText range) := by
  have hcaret : Graphic (utf8 "^") := by decide
  refine hcaret.append ?_
  split
  · intro b hb
    rw [List.eq_of_mem_replicate hb]
    decide
  · exact List.forall_mem_nil _

/-- Control bytes in a place come from the name of its file. -/
theorem not_mem_locationText {b : UInt8} (hb : b < 0x20) (file : String) (p : Position) :
    b ∉ locationText file p ↔ b ∉ utf8 file := by
  have hcolon : b ∉ utf8 ":" := Graphic.not_mem (by decide) hb
  have hline := (graphic_decimal p.line).not_mem hb
  have hcolumn := (graphic_decimal p.column).not_mem hb
  unfold locationText
  by_cases hfile : file = ""
  · have hnone : utf8 "" = [] := rfl
    simp [hfile, hnone, hcolon, hline, hcolumn]
  · simp [hfile, hcolon, hline, hcolumn]

theorem mem_of_mem_trimEnd {r b : UInt8} {t : Bytes} (h : b ∈ trimEnd r t) : b ∈ t := by
  rw [trimEnd, List.mem_reverse] at h
  exact List.mem_reverse.1 ((List.dropWhile_sublist _).subset h)

/-- A quoted line is a single one. -/
theorem lineFeed_not_mem_sourceLine (source : Bytes) (line : Int) :
    lineFeed ∉ Listing.sourceLine source line := by
  intro hmem
  unfold Listing.sourceLine at hmem
  split at hmem
  · cases hmem
  · have hline := mem_of_mem_trimEnd hmem
    rw [List.getD_eq_getElem?_getD] at hline
    cases hget : (lines source)[line.toNat - 1]? with
    | none =>
        rw [hget] at hline
        cases hline
    | some text =>
        rw [hget] at hline
        exact not_mem_of_mem_splitOn (List.mem_of_getElem? hget) hline

namespace Diagnostic

variable {d : Diagnostic} {b : UInt8}

theorem free_sourceFragments_iff (hb : b < 0x20) (source : Bytes) (hide : Bool) :
    (∀ fr ∈ d.sourceFragments source hide, fr.Free b) ↔
      (hide = false → 0 < d.range.start.column →
        b ∉ Listing.sourceLine source d.range.start.line) := by
  have hmark := (graphic_markText d.range).not_mem hb
  unfold sourceFragments
  by_cases hline : Listing.sourceLine source d.range.start.line = []
  · simp [hline]
  · by_cases hshown : hide = false ∧ 0 < d.range.start.column
    · simp [hshown, hline, Fragment.Free, hmark]
    · have hnot : ¬ (hide = false ∧ Listing.sourceLine source d.range.start.line ≠ [] ∧
          0 < d.range.start.column) := fun h => hshown ⟨h.1, h.2.2⟩
      simp only [Bool.not_eq_true', hnot, if_false, List.not_mem_nil, false_implies, implies_true,
        true_iff]
      intro hhide hcolumn
      exact absurd ⟨hhide, hcolumn⟩ hshown

theorem free_noteFragments_iff (hb : b < 0x20) (file : String) {n : Note} (hn : b ∉ n.message) :
    (∀ fr ∈ noteFragments file n, fr.Free b) ↔ b ∉ utf8 file := by
  have hnote : b ∉ utf8 " note: " := Graphic.not_mem (by decide) hb
  simp [noteFragments, Fragment.Free, hn, hnote, not_mem_locationText hb]

/-- Control bytes in what is styled come from the name of the file or the quoted line. -/
theorem free_iff (hb : b < 0x20) (hcode : b ∉ utf8 d.code) (hnotes : ∀ n ∈ d.notes, b ∉ n.message)
    (source : Bytes) (file : String) (hide : Bool) :
    (∀ fr ∈ d.fragments source file hide, fr.Free b) ↔ b ∉ utf8 file ∧
      (hide = false → 0 < d.range.start.column →
        b ∉ Listing.sourceLine source d.range.start.line) := by
  have hname := (Severity.graphic_name d.severity).not_mem hb
  have hopen : b ∉ utf8 "[" := Graphic.not_mem (by decide) hb
  have hclose : b ∉ utf8 "]" := Graphic.not_mem (by decide) hb
  have hlabel : ∀ fr ∈ (if d.code = "" then [] else
      [(⟨some .code, utf8 "[" ++ utf8 d.code ++ utf8 "]"⟩ : Fragment)]), fr.Free b := by
    split
    · simp
    · simp [Fragment.Free, hopen, hcode, hclose]
  have hplace : (∀ fr ∈ ([⟨some .location, locationText file d.range.start⟩, ⟨none, utf8 " "⟩,
      ⟨some (.severity d.severity), utf8 d.severity.name⟩] : List Fragment), fr.Free b) ↔
        b ∉ utf8 file := by
    simp [Fragment.Free, hname, not_mem_locationText hb]
  have hmessage : ∀ fr ∈ [(⟨none, utf8 ": " ++ d.message ++ utf8 "\n"⟩ : Fragment)], fr.Free b := by
    simp [Fragment.Free]
  have hbehind : b ∉ utf8 file → ∀ fr ∈ d.notes.flatMap (noteFragments file), fr.Free b := by
    intro hfile fr hfr
    obtain ⟨n, hn, hfr⟩ := List.mem_flatMap.1 hfr
    exact (free_noteFragments_iff hb file (hnotes n hn)).2 hfile fr hfr
  simp only [fragments, List.forall_mem_append]
  rw [free_sourceFragments_iff hb, hplace]
  constructor
  · rintro ⟨⟨⟨⟨hfile, -⟩, -⟩, hline⟩, -⟩
    exact ⟨hfile, hline⟩
  · rintro ⟨hfile, hline⟩
    exact ⟨⟨⟨⟨hfile, hlabel⟩, hmessage⟩, hline⟩, hbehind hfile⟩

end Diagnostic

/-- The codes and the notes of an analysis have no control bytes. -/
theorem graphic_of_mem_entries {opts : AnalysisOptions} {source : Bytes} {d : Diagnostic}
    (hd : d ∈ (analyze opts source).listing.entries) :
    Graphic (utf8 d.code) ∧ ∀ n ∈ d.notes, Graphic n.message := by
  rcases exists_of_mem_entries hd with ⟨e, -, heq⟩ | ⟨s, -, heq⟩
  · have hcodes : ∀ code ∈ Code.unreadable, Graphic (utf8 code) := by decide
    rw [heq]
    exact ⟨hcodes _ e.code_mem, fun n hn => absurd hn List.not_mem_nil⟩
  · rw [heq]
    refine ⟨show Graphic (utf8 Code.deadStore) by decide, ?_⟩
    intro n hn
    obtain ⟨p, -, rfl⟩ := List.mem_map.1 hn
    exact show Graphic (utf8 "overwritten here") by decide

/-! ## Reports -/

namespace FileReport

/-- The fragments of the report about a file. -/
def fragments (o : Options) (r : FileReport) : List Fragment :=
  r.analysis.listing.entries.flatMap fun d =>
    d.fragments r.analysis.listing.source r.file (!o.showSource)

theorem text_eq_fragments (render : Renderer) (o : Options) (r : FileReport) :
    r.text render o = (r.fragments o).flatMap (Fragment.under (o.style render)) := by
  rw [text, Listing.text, fragments, List.flatMap_assoc]
  refine List.flatMap_congr ?_
  intro d _
  exact d.text_eq_fragments _ _ _ _

/-- The report styles no text with the byte in it: there is none in the name of the file, if it is
shown at all, and none in the lines that are quoted. -/
def Lacks (b : UInt8) (o : Options) (r : FileReport) : Prop :=
  ∀ d ∈ r.analysis.listing.entries, b ∉ utf8 r.file ∧
    (o.showSource = true → 0 < d.range.start.column →
      b ∉ Listing.sourceLine r.analysis.listing.source d.range.start.line)

theorem free_fragments_iff (o : Options) {r : FileReport} {opts : AnalysisOptions} {source : Bytes}
    (hr : r.analysis = analyze opts source) {b : UInt8} (hb : b < 0x20) :
    (∀ fr ∈ r.fragments o, fr.Free b) ↔ r.Lacks b o := by
  have hdiagnostic : ∀ d ∈ r.analysis.listing.entries,
      ((∀ fr ∈ d.fragments r.analysis.listing.source r.file (!o.showSource), fr.Free b) ↔
        b ∉ utf8 r.file ∧ (o.showSource = true → 0 < d.range.start.column →
          b ∉ Listing.sourceLine r.analysis.listing.source d.range.start.line)) := by
    intro d hd
    rw [hr] at hd
    obtain ⟨hcode, hnotes⟩ := graphic_of_mem_entries hd
    rw [Diagnostic.free_iff hb (hcode.not_mem hb) fun n hn => (hnotes n hn).not_mem hb,
      Bool.not_eq_false']
  constructor
  · intro hfree d hd
    exact (hdiagnostic d hd).1 fun fr hfr => hfree fr (List.mem_flatMap.2 ⟨d, hd, hfr⟩)
  · intro hlacks fr hfr
    obtain ⟨d, hd, hfr⟩ := List.mem_flatMap.1 hfr
    exact (hdiagnostic d hd).2 (hlacks d hd) fr hfr

end FileReport

theorem graphic_summary (reports : List FileReport) : Graphic (summary reports) :=
  graphic_summaryLine _ _ _

section Styling

variable {render : Renderer} (hrender : render.ExpandsTabs)
include hrender

theorem textReport_eq_fragments (o : Options) (reports : List FileReport) :
    textReport render o reports = (reports.flatMap (FileReport.fragments o)).flatMap
      (Fragment.under (o.style render)) ++ (summary reports ++ utf8 "\n") := by
  have htext : FileReport.text render o = fun r =>
      (r.fragments o).flatMap (Fragment.under (o.style render)) :=
    funext (FileReport.text_eq_fragments render o)
  rw [textReport, htext, List.flatMap_assoc, List.append_assoc,
    (graphic_summary reports).render_eq hrender]

/-- A report with colours is the same as without if and only if it shows no tab, as long as file
names are single lines. -/
theorem textReport_coloured_iff (o : Options) {reports : List FileReport}
    (hanalysed : ∀ r ∈ reports, ∃ opts source, r.analysis = analyze opts source)
    (hnames : ∀ r ∈ reports, lineFeed ∉ utf8 r.file) :
    textReport render { o with color := true } reports =
        textReport render { o with color := false } reports ↔
      ∀ r ∈ reports, r.Lacks tab o := by
  have hunbroken : ∀ fr ∈ reports.flatMap (FileReport.fragments o), fr.Free lineFeed := by
    intro fr hfr
    obtain ⟨r, hr, hfr⟩ := List.mem_flatMap.1 hfr
    obtain ⟨opts, source, hsource⟩ := hanalysed r hr
    refine (FileReport.free_fragments_iff o hsource (by decide)).2 ?_ fr hfr
    intro d _
    exact ⟨hnames r hr, fun _ _ => lineFeed_not_mem_sourceLine _ _⟩
  have hcoloured := textReport_eq_fragments hrender { o with color := true } reports
  have hplain := textReport_eq_fragments hrender { o with color := false } reports
  have hstyle : (Options.style render { o with color := true }).ExpandsTabs :=
    Options.expandsTabs_style hrender rfl
  rw [hcoloured, hplain, List.append_left_inj]
  refine (Fragment.flatMap_under_eq_iff hstyle hunbroken).trans ⟨?_, ?_⟩
  · intro hfree r hr
    obtain ⟨opts, source, hsource⟩ := hanalysed r hr
    refine (FileReport.free_fragments_iff o hsource (by decide)).1 ?_
    exact fun fr hfr => hfree fr (List.mem_flatMap.2 ⟨r, hr, hfr⟩)
  · intro hlacks fr hfr
    obtain ⟨r, hr, hfr⟩ := List.mem_flatMap.1 hfr
    obtain ⟨opts, source, hsource⟩ := hanalysed r hr
    exact (FileReport.free_fragments_iff o hsource (by decide)).2 (hlacks r hr) fr hfr

end Styling

/-! ## Marks under quoted lines -/

/-- A quoted line in two parts, with a mark that is moved to the right by `column` columns.  It
stands under the start of the second part if the first part has that many bytes. -/
def underlined (front back : Bytes) (column : Nat) (mark : Bytes) : Bytes :=
  utf8 "    " ++ front ++ back ++ utf8 "\n" ++ List.replicate (column + 4) 0x20 ++ mark ++ utf8 "\n"

/-- Styling moves the bytes of a quoted line and not the mark. -/
theorem Diagnostic.sourceText_split {d : Diagnostic} {source front back : Bytes}
    (hline : Listing.sourceLine source d.range.start.line = front ++ back)
    (hcolumn : d.range.start.column = front.length + 1) (hquoted : front ++ back ≠ [])
    (file : String) {s : Style} (hs : s.ExpandsTabs) :
    d.sourceText source ⟨file, false, .plain⟩ =
        underlined front back front.length (markText d.range) ∧
      d.sourceText source ⟨file, false, s⟩ =
        underlined (expandTabs front) (expandTabs back) front.length (markText d.range) := by
  have hspaces : ((front.length : Int) + 1 - 1 + 4).toNat = front.length + 4 := by omega
  have hpositive : (0 : Int) < front.length + 1 := by omega
  have hfeed := lineFeed_not_mem_sourceLine source d.range.start.line
  rw [hline] at hfeed
  have hsource : s.source (front ++ back) = expandTabs (front ++ back) := hs .source _ hfeed
  have hgraphic := graphic_markText d.range
  have hmark : s.mark (markText d.range) = markText d.range :=
    (hs .mark _ (hgraphic.not_mem (by decide))).trans
      (expandTabs_of_not_mem (hgraphic.not_mem (by decide)))
  unfold sourceText underlined
  dsimp only
  rw [hline, hcolumn, hspaces, if_pos ⟨by decide, hquoted, hpositive⟩,
    if_pos ⟨by decide, hquoted, hpositive⟩]
  simp only [Style.plain, id_eq, hsource, hmark, expandTabs_append, List.append_assoc, and_self]

/-! ## Checks with and without colours -/

namespace World

/-- A check reads the programs, and the options hold for it. -/
structure Resolves (w : World) (a : Arguments) (sources : List Source) (o : Options) : Prop where
  read : w.sources a.files = .ok sources
  loaded : ∃ loaded, w.settings a.flags a.files = .ok loaded ∧
    loaded.settings.merge a.flags.overrides = o

/-- Without colours, everything else stays as it is. -/
theorem Resolves.noColor {w : World} {flags : Flags} {files : List String} {sources : List Source}
    {o : Options} (h : w.Resolves ⟨flags, files⟩ sources o) :
    w.Resolves ⟨{ flags with noColor := true }, files⟩ sources { o with color := false } := by
  obtain ⟨loaded, hloaded, rfl⟩ := h.loaded
  refine ⟨h.read, loaded, hloaded, ?_⟩
  simp only [Settings.merge, Flags.overrides, Bool.not_true, Bool.and_false]
  rfl

/-- A check that resolves has known rules, and so a report about each program. -/
theorem Resolves.exists_rules {w : World} {a : Arguments} {sources : List Source} {o : Options}
    (h : w.Resolves a sources o) : ∃ rules, Rules.ofNames o.request.rules = .ok rules := by
  obtain ⟨loaded, -, rfl⟩ := h.loaded
  exact loaded.settings.exists_rules_of_merge a.flags.overrides

/-- A check writes its reports, or nothing at all if there is no such form. -/
theorem Resolves.output_eq {w : World} {a : Arguments} {sources : List Source} {o : Options}
    (h : w.Resolves a sources o) {found : List FileReport}
    (hfound : World.reports o.request sources = .ok found) :
    (w.check a).output =
      ((ReportFormat.ofName? o.format).map fun format =>
        writeReport w.libraries.writers format o found).getD [] := by
  cases hname : ReportFormat.ofName? o.format with
  | none =>
      obtain ⟨loaded, hloaded, rfl⟩ := h.loaded
      simp only [check, h.read, hloaded, hname]
      rfl
  | some format =>
      have hfinds : w.Finds a format o found := ⟨⟨sources, h.read, hfound⟩, h.loaded, hname⟩
      exact hfinds.outcome.1

/-- **Colours show in tabs only.**  Let two checks with the same libraries read the same programs
with the same options, except that one has colours and the other has not, and let styling expand the
tabs of single lines and leave them as they are otherwise, as it does on an output that takes no
colours.  If file names are single lines, the checks write the same if and only if the report is no
text or shows no tab.  The line that sums up has nothing to style.  Where a line is quoted, the mark
stands as far to the right with colours as without, while every tab in front of the reported byte
moves this byte by three columns. -/
theorem coloured_eq_plain_iff {w w' : World} (hlibraries : w'.libraries = w.libraries)
    (hrender : w.libraries.writers.render.ExpandsTabs)
    {a a' : Arguments} {sources : List Source} {o : Options}
    (h : w.Resolves a sources { o with color := true })
    (h' : w'.Resolves a' sources { o with color := false })
    (hnames : ∀ s ∈ sources, lineFeed ∉ utf8 s.name) :
    ∃ found, World.reports o.request sources = .ok found ∧
      ((w.check a).output = (w'.check a').output ↔
        (ReportFormat.ofName? o.format = some .text → ∀ r ∈ found, r.Lacks tab o)) ∧
      (∀ look, w.libraries.writers.render look (summary found) = summary found) ∧
      ∀ r ∈ found, ∀ d ∈ r.analysis.listing.entries, ∀ front back : Bytes,
        Listing.sourceLine r.analysis.listing.source d.range.start.line = front ++ back →
        d.range.start.column = front.length + 1 → front ++ back ≠ [] →
        d.sourceText r.analysis.listing.source
            ⟨r.file, false, Options.style w.libraries.writers.render { o with color := false }⟩ =
          underlined front back front.length (Diagnostic.markText d.range) ∧
        d.sourceText r.analysis.listing.source
            ⟨r.file, false, Options.style w.libraries.writers.render { o with color := true }⟩ =
          underlined (expandTabs front) (expandTabs back) front.length
            (Diagnostic.markText d.range) ∧
        (expandTabs front).length = front.length + 3 * front.count tab := by
  obtain ⟨rules, hrules⟩ := h.exists_rules
  -- the rules and the order of the reports do not depend on colours
  obtain ⟨found, hfound, hanalysed, hunbroken⟩ :
      ∃ found, World.reports o.request sources = .ok found ∧
        (∀ r ∈ found, ∃ opts source, r.analysis = analyze opts source) ∧
        ∀ r ∈ found, lineFeed ∉ utf8 r.file :=
    ⟨_, reports_of_rules hrules sources, List.forall_mem_map.2 fun s _ => ⟨_, s.text, rfl⟩,
      List.forall_mem_map.2 hnames⟩
  refine ⟨found, hfound, ?_, (graphic_summary found).render_eq hrender, ?_⟩
  · rw [h.output_eq hfound, h'.output_eq hfound, hlibraries]
    dsimp only
    cases ReportFormat.ofName? o.format with
    | none => simp
    | some format =>
        cases format with
        | text =>
            simp only [Option.map_some, Option.getD_some, writeReport, true_implies]
            exact textReport_coloured_iff hrender o hanalysed hunbroken
        | json => simp [writeReport]
        | yaml => simp [writeReport]
  · intro r _ d _ front back hline hcolumn hquoted
    obtain ⟨hunstyled, hstyled⟩ := Diagnostic.sourceText_split hline hcolumn hquoted r.file
      (Options.expandsTabs_style hrender (o := { o with color := true }) rfl)
    exact ⟨hunstyled, hstyled, length_expandTabs front⟩

/-- A world with nothing but a program in the standard input. -/
def asking (input : String) : World where
  arguments := []
  input := utf8 input
  workingDirectory := "/"
  files := (FileTree.directory []).files []
  toolchain := ""

theorem asking_resolves (input : String) :
    (asking input).Resolves ⟨{ noConfig := true }, []⟩ [⟨"<stdin>", utf8 input⟩] {} where
  read := rfl
  loaded := ⟨⟨{}, none⟩, rfl, rfl⟩

/-- A tab in a line that is not quoted makes no difference. -/
theorem coloured_eq_plain_iff_unquoted :
    ((asking "\tx = a\ny = x").check ⟨{ noConfig := true }, []⟩).output =
        ((asking "\tx = a\ny = x").check ⟨{ noConfig := true, noColor := true }, []⟩).output ∧
      ∃ found,
        World.reports ({} : Options).request [⟨"<stdin>", utf8 "\tx = a\ny = x"⟩] = .ok found ∧
        ∀ r ∈ found, r.Lacks tab {} := by
  have hsame : ((asking "\tx = a\ny = x").check ⟨{ noConfig := true }, []⟩).output =
      ((asking "\tx = a\ny = x").check ⟨{ noConfig := true, noColor := true }, []⟩).output := by
    decide +kernel
  have hresolves := asking_resolves "\tx = a\ny = x"
  obtain ⟨found, hfound, hiff, -⟩ :=
    coloured_eq_plain_iff rfl expandsTabs_plainRender (o := {}) hresolves hresolves.noColor
      (by decide)
  exact ⟨hsame, found, hfound, hiff.1 hsame (by decide)⟩

/-- With colours, the tab in front of a dead assignment gets four columns, and the mark that was
under the variable is not under it any more. -/
theorem tab_leaves_mark_behind :
    ((asking "\tx = a").check ⟨{ noConfig := true }, []⟩).output =
        utf8 ("<stdin>:1:2: warning[W0001]: value assigned to x is never read\n"
          ++ "        x = a\n     ^\n1 dead store in 1 file\n") ∧
      ((asking "\tx = a").check ⟨{ noConfig := true, noColor := true }, []⟩).output =
        utf8 ("<stdin>:1:2: warning[W0001]: value assigned to x is never read\n"
          ++ "    \tx = a\n     ^\n1 dead store in 1 file\n") ∧
      ((asking "\tx = a").check ⟨{ noConfig := true }, []⟩).output ≠
        ((asking "\tx = a").check ⟨{ noConfig := true, noColor := true }, []⟩).output := by
  decide +kernel

end World

end StoreLint
