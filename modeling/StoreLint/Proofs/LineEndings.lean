import StoreLint.Analysis.Basic
import StoreLint.Proofs.Lines

/-!
# Two styles of line ends

A line of a program ends at a line feed, or at a carriage return and a line feed together.  This
file shows that it makes no difference which of the two a text uses throughout.

* `withReturns`: the text with a carriage return before each line feed.
* `Lexeme.read_withReturns`, `Scanner.skipGap_withReturns`, `Scanner.next_withReturns`: the scanner
  goes through both texts side by side.  What it finds is the same, and so is its place; what is
  left of the one text is what is left of the other, with carriage returns.
* `analyze_about`: apart from the number of lines and the text that a listing shows, an analysis
  depends on the tokens alone.
* `sourceLine_withReturns`: a listing shows the same lines, since it leaves the carriage returns
  out.
* `line_ends_immaterial` puts these together.
-/

namespace StoreLint

/-- The text with a carriage return before each line feed. -/
def withReturns (text : Bytes) : Bytes :=
  text.flatMap fun b => if b = lineFeed then [carriageReturn, lineFeed] else [b]

@[simp] theorem withReturns_nil : withReturns [] = [] := rfl

@[simp] theorem withReturns_lineFeed (rest : Bytes) :
    withReturns (lineFeed :: rest) = carriageReturn :: lineFeed :: withReturns rest := rfl

theorem withReturns_cons {b : UInt8} (h : b ≠ lineFeed) (rest : Bytes) :
    withReturns (b :: rest) = b :: withReturns rest := by
  simp [withReturns, h]

theorem withReturns_append {piece : Bytes} (h : lineFeed ∉ piece) (rest : Bytes) :
    withReturns (piece ++ rest) = piece ++ withReturns rest := by
  induction piece with
  | nil => rfl
  | cons b piece ih =>
      have hb : b ≠ lineFeed := fun hb => h (by simp [hb])
      have hpiece : lineFeed ∉ piece := fun hmem => h (List.mem_cons_of_mem b hmem)
      rw [List.cons_append, withReturns_cons hb, ih hpiece, List.cons_append]

/-- A run that ends before every line end is the same in both texts. -/
theorem span_withReturns {p : UInt8 → Bool} (hreturn : p carriageReturn = false)
    (hfeed : p lineFeed = false) (text : Bytes) :
    (withReturns text).takeWhile p = text.takeWhile p ∧
      (withReturns text).dropWhile p = withReturns (text.dropWhile p) := by
  induction text with
  | nil => simp
  | cons b rest ih =>
      by_cases hb : b = lineFeed
      · subst hb
        simp [hreturn, hfeed]
      · rw [withReturns_cons hb]
        by_cases hp : p b = true
        · simp [hp, ih]
        · simp [hp, withReturns_cons hb]

theorem head?_withReturns {b : UInt8} (hb : b ≠ carriageReturn) (hfeed : b ≠ lineFeed)
    (text : Bytes) : (withReturns text).head? = some b ↔ text.head? = some b := by
  cases text with
  | nil => simp
  | cons c rest =>
      by_cases hc : c = lineFeed
      · subst hc
        simp [Ne.symm hb, Ne.symm hfeed]
      · simp [withReturns_cons hc]

/-! ## Lexemes -/

namespace Lexeme

/-- The lexeme at the front of the text with carriage returns. -/
def withReturns (l : Lexeme) : Lexeme :=
  ⟨l.outcome, StoreLint.withReturns l.rest⟩

theorem word_withReturns (text : Bytes) :
    word (StoreLint.withReturns text) = (word text).withReturns := by
  obtain ⟨htake, hdrop⟩ := span_withReturns (p := isLetter) rfl rfl text
  simp only [word, withReturns, htake, hdrop]

theorem number_withReturns (text : Bytes) :
    number (StoreLint.withReturns text) = (number text).withReturns := by
  have hspan := span_withReturns (p := isDigit) rfl rfl
  obtain ⟨htake, hdrop⟩ := hspan text
  unfold number
  rw [htake, hdrop]
  cases text.dropWhile isDigit with
  | nil => rfl
  | cons b after =>
      by_cases hfeed : b = lineFeed
      · subst hfeed
        rfl
      · rw [withReturns_cons hfeed]
        obtain ⟨hplaces, hrest⟩ := hspan after
        have hpoint := head?_withReturns (b := pointByte) (by decide) (by decide)
          (after.dropWhile isDigit)
        dsimp only
        rw [hplaces, hrest]
        simp only [hpoint]
        split_ifs <;> simp [withReturns, withReturns_cons hfeed]

theorem read_withReturns (b : UInt8) (rest : Bytes) (hb : b ≠ lineFeed) :
    read b (StoreLint.withReturns rest) = (read b rest).withReturns := by
  have hcons := withReturns_cons hb rest
  unfold read
  split_ifs
  · rw [← hcons, word_withReturns]
  · rw [← hcons, number_withReturns]
  · unfold sign
    split <;> rfl

end Lexeme

/-! ## The scanner -/

namespace Scanner

/-- The scanner at the same place of the text with carriage returns. -/
def withReturns (s : Scanner) : Scanner :=
  ⟨StoreLint.withReturns s.rest, s.position⟩

theorem skipGap_withReturns {text : Bytes} (h : carriageReturn ∉ text) (p : Position) :
    skipGap (StoreLint.withReturns text) p = (skipGap text p).withReturns := by
  induction text generalizing p with
  | nil => rfl
  | cons b rest ih =>
      have hb : b ≠ carriageReturn := fun hb => h (by simp [hb])
      have hrest : carriageReturn ∉ rest := fun hmem => h (List.mem_cons_of_mem b hmem)
      by_cases hfeed : b = lineFeed
      · subst hfeed
        rw [withReturns_lineFeed, skipGap_both, skipGap_lineFeed, ih hrest]
      · rw [withReturns_cons hfeed]
        by_cases hspace : b = 0x20 ∨ b = 0x09
        · rw [skipGap_space hspace, skipGap_space hspace, ih hrest]
        · have hblank : isBlank b = false := by
            simp only [not_or] at hspace
            simp [isBlank, hspace, hfeed, hb]
          rw [skipGap_of_not_blank hblank, skipGap_of_not_blank hblank, withReturns,
            withReturns_cons hfeed]

/-- The scanner goes through both texts side by side: it finds the same, and comes to the same
place. -/
theorem next_withReturns {s : Scanner} (h : carriageReturn ∉ s.rest) :
    s.withReturns.next = (s.next.1, s.next.2.withReturns) := by
  have hskip := skipGap_withReturns h s.position
  have hgap := rest_skipGap s.rest s.position
  unfold next
  rw [show s.withReturns.rest = StoreLint.withReturns s.rest from rfl,
    show s.withReturns.position = s.position from rfl, hskip]
  generalize skipGap s.rest s.position = here at hgap ⊢
  obtain ⟨text, p⟩ := here
  cases text with
  | nil => rfl
  | cons b text =>
      have hb : isBlank b = false := isBlank_of_eq_dropWhile hgap
      have hfeed : b ≠ lineFeed := (inLine_of_not_blank hb).1
      obtain ⟨taken, htaken, hblank⟩ := Lexeme.exists_taken hb text
      have hnone : lineFeed ∉ taken := fun hmem => absurd (hblank lineFeed hmem) (by decide)
      -- the lexeme takes the same bytes from both texts
      have hlength : (b :: StoreLint.withReturns text).length -
            (StoreLint.withReturns (Lexeme.read b text).rest).length =
          (b :: text).length - (Lexeme.read b text).rest.length := by
        rw [← withReturns_cons hfeed, htaken, withReturns_append hnone]
        simp
      simp only [withReturns, withReturns_cons hfeed]
      rw [Lexeme.read_withReturns b text hfeed]
      simp only [Lexeme.withReturns, hlength]
      cases (Lexeme.read b text).outcome <;> rfl

/-- Nothing is left that was not there before. -/
theorem next_suffix (s : Scanner) : s.next.2.rest <:+ s.rest := by
  have hgap := rest_skipGap s.rest s.position
  have hsuffix : s.rest.dropWhile isBlank <:+ s.rest := List.dropWhile_suffix _
  unfold next
  generalize skipGap s.rest s.position = here at hgap ⊢
  obtain ⟨text, p⟩ := here
  cases text with
  | nil => exact List.nil_suffix
  | cons b text =>
      have hb : isBlank b = false := isBlank_of_eq_dropWhile hgap
      obtain ⟨taken, htaken, -⟩ := Lexeme.exists_taken hb text
      have hread : (Lexeme.read b text).rest <:+ s.rest := by
        refine List.IsSuffix.trans ⟨taken, htaken.symm⟩ ?_
        rw [show b :: text = s.rest.dropWhile isBlank from hgap]
        exact hsuffix
      dsimp only
      split <;> exact hread

theorem tokens_withReturns {s : Scanner} (h : carriageReturn ∉ s.rest) :
    s.withReturns.tokens = s.tokens := by
  have hfound : ∀ {s : Scanner}, carriageReturn ∉ s.rest → s.withReturns.next.1 = s.next.1 :=
    fun hs => by rw [next_withReturns hs]
  have hgo : ∀ {s : Scanner} {t : Token}, carriageReturn ∉ s.rest → s.next.1 = .token t →
      carriageReturn ∉ s.next.2.rest ∧
        s.withReturns.tokens = s.next.2.withReturns.tokens.map (t :: ·) := by
    intro s t hs token
    refine ⟨fun hmem => hs ((next_suffix s).subset hmem), ?_⟩
    rw [tokens_of_token ((hfound hs).trans token), next_withReturns hs]
  fun_induction tokens s with
  | case1 s p finished => exact tokens_of_finished ((hfound h).trans finished)
  | case2 s e stopped => exact tokens_of_error ((hfound h).trans stopped)
  | case3 s t token ts rest ih =>
      obtain ⟨hafter, hstep⟩ := hgo h token
      rw [hstep, ih hafter, rest]
      rfl
  | case4 s t token e rest ih =>
      obtain ⟨hafter, hstep⟩ := hgo h token
      rw [hstep, ih hafter, rest]
      rfl

end Scanner

/-- Both texts have the same tokens at the same places, or the same first error. -/
theorem tokenize_withReturns {source : Bytes} (h : carriageReturn ∉ source) :
    tokenize (withReturns source) = tokenize source :=
  Scanner.tokens_withReturns (s := .ofSource source) h

/-! ## Analyses of texts with the same tokens -/

/-- The event in the analysis of another text with the same tokens. -/
def Event.about (source : Bytes) : Event → Event
  | .tokenized tokens _ => .tokenized tokens (lineCount source)
  | e => e

namespace Analysis

/-- The analysis of another text with the same tokens: it shows that text and has its number of
lines. -/
def about (source : Bytes) (a : Analysis) : Analysis :=
  { a with
    listing := ⟨source, a.listing.entries⟩
    stats := { a.stats with lines := lineCount source }
    trace := a.trace.map (Event.about source) }

theorem log_about (a : Analysis) (source : Bytes) (e : Event) :
    (a.log e).about source = (a.about source).log (e.about source) := by
  simp [log, about]

theorem fail_about (a : Analysis) (source : Bytes) (rules : Rules) (f : Fault) :
    (a.fail rules f).about source = (a.about source).fail rules f := by
  simp [fail, about, Listing.add_rules, Event.about]

theorem foldl_addDeadStore_about (rules : Rules) (ds : List DeadStore) (a : Analysis)
    (source : Bytes) :
    (ds.foldl (addDeadStore rules) a).about source =
      ds.foldl (addDeadStore rules) (a.about source) := by
  induction ds generalizing a with
  | nil => rfl
  | cons d ds ih =>
      have hstep : (a.addDeadStore rules d).about source =
          (a.about source).addDeadStore rules d := by
        simp [addDeadStore, about, Listing.add_rules]
      rw [List.foldl_cons, ih, hstep, List.foldl_cons]

theorem conclude_about (opts : AnalysisOptions) (a : Analysis) (found : List Finding)
    (source : Bytes) :
    (a.conclude opts found).about source = (a.about source).conclude opts found := by
  unfold conclude
  split
  · exact log_about a source _
  · dsimp only
    rw [log_about, ← foldl_addDeadStore_about]
    rfl

theorem examine_about (opts : AnalysisOptions) (a : Analysis) (b : Block) (source : Bytes) :
    (a.examine opts b).about source = (a.about source).examine opts b := by
  unfold examine
  dsimp only
  cases b.check opts.order with
  | error e =>
      have hfail := fail_about ({ a with
          program := some b
          stats := { a.stats with statements := b.size, assignments := b.assignments } }.log
        (.parsed b.size b.assignments)) source opts.rules e.fault
      rw [log_about] at hfail
      exact congrArg (fun a : Analysis => { a with program := none }) hfail
  | ok found =>
      rw [conclude_about, log_about]
      rfl

end Analysis

/-- Apart from the number of lines and the text itself, the analysis of a text depends on its tokens
alone. -/
theorem analyze_about {source source' : Bytes} (h : tokenize source' = tokenize source)
    (opts : AnalysisOptions) : analyze opts source' = (analyze opts source).about source' := by
  have hbegin : (Analysis.begin source).about source' = Analysis.begin source' := rfl
  unfold analyze
  rw [h]
  cases tokenize source with
  | error e =>
      dsimp only
      rw [Analysis.fail_about, hbegin]
  | ok ts =>
      dsimp only
      cases parse ts with
      | error e =>
          dsimp only
          rw [Analysis.fail_about, Analysis.log_about]
          rfl
      | ok b =>
          dsimp only
          rw [Analysis.examine_about, Analysis.log_about]
          rfl

/-! ## The lines that a listing shows -/

/-- Without the carriage returns at their ends, the lines of both texts are the same. -/
theorem lines_withReturns (text : Bytes) :
    (lines (withReturns text)).map (trimEnd carriageReturn) =
      (lines text).map (trimEnd carriageReturn) := by
  induction text with
  | nil => rfl
  | cons b rest ih =>
      by_cases hb : b = lineFeed
      · subst hb
        rw [withReturns_lineFeed, lines_cons (by decide), lines_lineFeed, lines_lineFeed,
          List.modifyHead_cons, List.map_cons, List.map_cons, ih]
        rfl
      · rw [withReturns_cons hb, lines_cons hb, lines_cons hb]
        obtain ⟨line, below, hlines⟩ := exists_lines rest
        obtain ⟨line', below', hlines'⟩ := exists_lines (withReturns rest)
        rw [hlines, hlines'] at ih ⊢
        obtain ⟨hfirst, hbelow⟩ := List.cons.inj ih
        simp only [List.modifyHead_cons, List.map_cons, trimEnd_cons, hfirst, hbelow]

theorem sourceLine_withReturns (source : Bytes) (line : Int) :
    Listing.sourceLine (withReturns source) line = Listing.sourceLine source line := by
  have hshown : ∀ (ls : List Bytes) (row : Nat),
      trimEnd carriageReturn (ls.getD row []) =
        (ls.map (trimEnd carriageReturn)).getD row [] := by
    intro ls row
    rw [List.getD_eq_getElem?_getD, List.getD_eq_getElem?_getD, List.getElem?_map]
    cases ls[row]? <;> rfl
  unfold Listing.sourceLine
  split
  · rfl
  · exact (hshown _ _).trans ((congrArg (fun ls : List Bytes => ls.getD _ [])
      (lines_withReturns source)).trans (hshown _ _).symm)

/-- A listing about either text is printed alike. -/
theorem text_withReturns (source : Bytes) (entries : List Diagnostic) (o : TextOptions) :
    Listing.text ⟨withReturns source, entries⟩ o = Listing.text ⟨source, entries⟩ o := by
  have hentry : ∀ d : Diagnostic, d.text (withReturns source) o = d.text source o := by
    intro d
    unfold Diagnostic.text Diagnostic.sourceText
    rw [sourceLine_withReturns]
  simp only [Listing.text, hentry]

/-! ## Both styles are alike -/

/-- **The style of line ends makes no difference.**  Take a text without carriage returns, and the
text with one before each line feed.  Both have the same tokens at the same places, or the same
first error; their analyses, in any order and under any rules, have the same dead assignments,
errors, diagnostics and counts, apart from the number of lines; and the diagnostics are printed
alike, with any file name and in any style, with or without source lines. -/
theorem line_ends_immaterial {source : Bytes} (h : carriageReturn ∉ source)
    (opts : AnalysisOptions) :
    tokenize (withReturns source) = tokenize source ∧
      (analyze opts (withReturns source)).program = (analyze opts source).program ∧
      (analyze opts (withReturns source)).deadStores = (analyze opts source).deadStores ∧
      (analyze opts (withReturns source)).faults = (analyze opts source).faults ∧
      (analyze opts (withReturns source)).listing.entries =
        (analyze opts source).listing.entries ∧
      { (analyze opts (withReturns source)).stats with lines := 0 } =
        { (analyze opts source).stats with lines := 0 } ∧
      ∀ o, (analyze opts (withReturns source)).listing.text o =
        (analyze opts source).listing.text o := by
  have htokens := tokenize_withReturns h
  refine ⟨htokens, ?_⟩
  rw [analyze_about htokens opts]
  refine ⟨rfl, rfl, rfl, rfl, rfl, fun o => ?_⟩
  have hsource := listing_source opts source
  show Listing.text ⟨withReturns source, (analyze opts source).listing.entries⟩ o = _
  rw [text_withReturns]
  generalize (analyze opts source).listing = listing at hsource ⊢
  subst hsource
  rfl

theorem line_ends_immaterial_blankLine :
    carriageReturn ∉ utf8 "x = a\n\nx = b\n" ∧
      withReturns (utf8 "x = a\n\nx = b\n") = utf8 "x = a\r\n\r\nx = b\r\n" ∧
      tokenize (utf8 "x = a\r\n\r\nx = b\r\n") = tokenize (utf8 "x = a\n\nx = b\n") ∧
      (analyze .default (utf8 "x = a\r\n\r\nx = b\r\n")).deadStores =
        (analyze .default (utf8 "x = a\n\nx = b\n")).deadStores ∧
      ∀ o, (analyze .default (utf8 "x = a\r\n\r\nx = b\r\n")).listing.text o =
        (analyze .default (utf8 "x = a\n\nx = b\n")).listing.text o := by
  have hnone : carriageReturn ∉ utf8 "x = a\n\nx = b\n" := by decide
  have hreturns : withReturns (utf8 "x = a\n\nx = b\n") = utf8 "x = a\r\n\r\nx = b\r\n" := by
    decide
  obtain ⟨htokens, -, hdead, -, -, -, htext⟩ := line_ends_immaterial hnone .default
  rw [hreturns] at htokens hdead htext
  exact ⟨hnone, hreturns, htokens, hdead, htext⟩

end StoreLint
