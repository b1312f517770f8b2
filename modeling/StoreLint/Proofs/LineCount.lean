import Mathlib.Data.List.DropRight
import StoreLint.Proofs.FirstError
import StoreLint.Proofs.LineEndings
import StoreLint.Proofs.Offsets
import StoreLint.Proofs.ResultShape

/-!
# The number of lines

An analysis counts the line feeds of a program, without those at its very end.  The scanner ends
lines at carriage returns as well.  This file compares the two.

* `line_placeAt`, `lineCount_add_finalFeeds`: what each of them counts.
* `LinesFit`: the places that can be reported are in the lines that are counted.  Carriage returns
  that stand alone are not counted, but line feeds behind the last token can make up for them.
* `Scanner.AtOffset.exists_last`: the scanner finds something in the line of the last byte that is
  not blank, so no weaker condition will do.
* `lineCount_withReturns`: with carriage returns before the line feeds, only one of the line feeds
  at the very end is left out.
* `line_count_exact` puts these together.
-/

namespace StoreLint

/-! ## What is counted -/

/-- The lines that end up to an offset do so with a line feed or with a carriage return alone. -/
theorem count_endsLine (source : Bytes) (k : Nat) :
    Nat.count (EndsLine source) (k + 1) =
      (source.take k).count lineFeed + Nat.count (LoneReturn source) k := by
  induction k with
  | zero => simp [Nat.count_succ, EndsLine]
  | succ k ih =>
      rw [Nat.count_succ, ih, Nat.count_succ, List.take_add_one, List.count_append]
      by_cases hfeed : source[k]? = some lineFeed
      · have hreturn : ¬ LoneReturn source k := by
          simp [LoneReturn, hfeed, lineFeed, carriageReturn]
        simp only [EndsLine, hfeed, true_or, if_true, if_neg hreturn, Option.toList_some,
          List.count_singleton_self]
        omega
      · have hcount : source[k]?.toList.count lineFeed = 0 := by
          refine List.count_eq_zero.2 fun hmem => hfeed ?_
          exact Option.mem_toList.1 hmem
        simp only [EndsLine, hfeed, false_or, hcount]
        omega

theorem line_placeAt (source : Bytes) (k : Nat) :
    (placeAt source k).line =
      ((source.take k).count lineFeed + Nat.count (LoneReturn source) k + 1 : Nat) := by
  rw [← count_endsLine]
  rfl

theorem line_placeAt_mono (source : Bytes) {i j : Nat} (h : i ≤ j) :
    (placeAt source i).line ≤ (placeAt source j).line := by
  have hcount := Nat.count_monotone (EndsLine source) (Nat.add_le_add_right h 1)
  simp only [placeAt]
  omega

/-- No line ends between bytes that are not blank. -/
theorem line_placeAt_of_solid {source : Bytes} {i j : Nat} (hij : i ≤ j) (hj : j ≤ source.length)
    (hsolid : ∀ b ∈ source.extract i j, isBlank b = false) :
    (placeAt source j).line = (placeAt source i).line := by
  induction j, hij using Nat.le_induction with
  | base => rfl
  | succ j hij ih =>
      have hbyte : source[j]? = some source[j] := List.getElem?_eq_getElem hj
      have hb := inLine_of_not_blank (hsolid _ (mem_extract hbyte hij (Nat.lt_succ_self j)))
      have hends : ¬ EndsLine source (j + 1) := by
        simp [EndsLine, LoneReturn, hbyte, hb.1, hb.2]
      rw [placeAt_right hends]
      refine ih (Nat.le_of_lt hj) fun b hmem => hsolid b ?_
      rw [← extract_append_extract source hij (Nat.le_succ j)]
      exact List.mem_append_left _ hmem

/-- The number of line feeds at the very end. -/
def finalFeeds (source : Bytes) : Nat :=
  (source.rtakeWhile (· == lineFeed)).length

theorem finalFeeds_lineFeed (text : Bytes) :
    finalFeeds (text ++ [lineFeed]) = finalFeeds text + 1 := by
  rw [finalFeeds, List.rtakeWhile_concat_pos (· == lineFeed) text lineFeed (beq_self_eq_true _),
    List.length_append]
  rfl

theorem finalFeeds_concat {b : UInt8} (hb : b ≠ lineFeed) (text : Bytes) :
    finalFeeds (text ++ [b]) = 0 := by
  rw [finalFeeds, List.rtakeWhile_concat_neg (· == lineFeed) text b (by simpa using hb)]
  rfl

/-- The line feeds at the very end are the ones that are not counted. -/
theorem lineCount_add_finalFeeds {source : Bytes} (hne : source ≠ []) :
    lineCount source + finalFeeds source = source.count lineFeed + 1 := by
  have hall : (source.rtakeWhile (· == lineFeed)).count lineFeed = finalFeeds source := by
    refine List.count_eq_length.2 fun b hb => ?_
    have hfeed : (b == lineFeed) = true := List.mem_rtakeWhile_imp (p := (· == lineFeed)) hb
    exact (beq_iff_eq.1 hfeed).symm
  have hsplit := congrArg (List.count lineFeed)
    (List.rdropWhile_append_rtakeWhile (p := (· == lineFeed)) (l := source))
  rw [List.count_append, hall] at hsplit
  rw [lineCount, if_neg hne, ← hsplit]
  exact Nat.add_right_comm _ 1 _

theorem lineCount_pos {source : Bytes} (hne : source ≠ []) : 0 < lineCount source := by
  rw [lineCount, if_neg hne]
  exact Nat.succ_pos _

/-- An analysis has the number of lines of its program. -/
theorem lines_analyze (opts : AnalysisOptions) (source : Bytes) :
    (analyze opts source).stats.lines = lineCount source := by
  have hsame : tokenize source = tokenize source := rfl
  rw [analyze_about hsame opts]
  rfl

/-! ## The last line with something in it -/

/-- The offset behind the last byte that is not blank. -/
def solidLength (source : Bytes) : Nat :=
  (source.rdropWhile isBlank).length

theorem solidLength_le (source : Bytes) : solidLength source ≤ source.length :=
  List.IsPrefix.length_le <| List.rdropWhile_prefix isBlank source

theorem drop_solidLength (source : Bytes) :
    source.drop (solidLength source) = source.rtakeWhile isBlank := calc
  _ = (source.rdropWhile isBlank ++ source.rtakeWhile isBlank).drop (solidLength source) := by
    rw [List.rdropWhile_append_rtakeWhile]
  _ = _ := List.drop_left

theorem isBlank_of_mem_drop {source : Bytes} {b : UInt8}
    (hb : b ∈ source.drop (solidLength source)) : isBlank b = true := by
  rw [drop_solidLength] at hb
  exact List.mem_rtakeWhile_imp hb

/-- The last byte before that offset is not blank. -/
theorem exists_solid_last {source : Bytes} {k : Nat} (h : k < solidLength source) :
    ∃ b, source[solidLength source - 1]? = some b ∧ isBlank b = false := by
  have hne : source.rdropWhile isBlank ≠ [] := List.ne_nil_of_length_pos (Nat.zero_lt_of_lt h)
  have hlast := List.getLast?_eq_some_getLast hne
  rw [List.getLast?_eq_getElem?] at hlast
  refine ⟨_, ?_, Bool.eq_false_iff.2 (List.rdropWhile_last_not isBlank source hne)⟩
  calc source[solidLength source - 1]?
      = (source.rdropWhile isBlank ++ source.rtakeWhile isBlank)[solidLength source - 1]? := by
        rw [List.rdropWhile_append_rtakeWhile]
    _ = (source.rdropWhile isBlank)[solidLength source - 1]? :=
        List.getElem?_append_left (Nat.sub_one_lt_of_lt h)
    _ = _ := hlast

/-- The places that can be reported are in the lines that are counted: the carriage returns that
stand alone before the last byte that is not blank are no more than the line feeds behind it, those
at the very end left out. -/
def LinesFit (source : Bytes) : Prop :=
  Nat.count (LoneReturn source) (solidLength source) + finalFeeds source ≤
    (source.drop (solidLength source)).count lineFeed

instance (source : Bytes) : Decidable (LinesFit source) :=
  inferInstanceAs (Decidable (_ ≤ _))

theorem linesFit_iff {source : Bytes} (hne : source ≠ []) :
    LinesFit source ↔ (placeAt source (solidLength source)).line ≤ lineCount source := by
  have hcount := lineCount_add_finalFeeds hne
  have hsplit := congrArg (List.count lineFeed) (source.take_append_drop (solidLength source))
  rw [List.count_append] at hsplit
  rw [LinesFit, line_placeAt]
  omega

/-- A line feed at the very end is behind the last byte that is not blank. -/
theorem finalFeeds_le (source : Bytes) :
    finalFeeds source ≤ (source.drop (solidLength source)).count lineFeed := by
  have htake : ∀ text : Bytes, (text.takeWhile (· == lineFeed)).length ≤
      (text.takeWhile isBlank).count lineFeed := by
    intro text
    induction text with
    | nil => exact Nat.le_refl 0
    | cons b text ih =>
        by_cases hb : b = lineFeed
        · subst hb
          rw [List.takeWhile_cons_of_pos (by simp), List.takeWhile_cons_of_pos (by decide),
            List.length_cons, List.count_cons_self]
          exact Nat.succ_le_succ ih
        · rw [List.takeWhile_cons_of_neg (by simpa using hb)]
          exact Nat.zero_le _
  rw [drop_solidLength, List.rtakeWhile, List.count_reverse, finalFeeds, List.rtakeWhile,
    List.length_reverse]
  exact htake source.reverse

/-- Where no carriage return stands alone before the last byte that is not blank, nothing is
missed. -/
theorem linesFit_of_count_eq_zero {source : Bytes}
    (h : Nat.count (LoneReturn source) (solidLength source) = 0) : LinesFit source := by
  rw [LinesFit, h, Nat.zero_add]
  exact finalFeeds_le source

/-! ## What the scanner finds -/

namespace Scanner

namespace Call

variable {source : Bytes} {cursor : Nat} {c : Call}

theorem Chain.exists_madeAt {calls : List Call} (h : Chain source cursor calls) (hc : c ∈ calls) :
    ∃ k, c.MadeAt source k := by
  induction calls generalizing cursor with
  | nil => cases hc
  | cons first calls ih =>
      rcases List.mem_cons.1 hc with rfl | hc
      · exact ⟨cursor, h.1⟩
      · exact ih h.2 hc

namespace MadeAt

/-- What is found before the end starts before the blanks at the end. -/
theorem start_lt (h : c.MadeAt source cursor) (hfound : ∀ p, c.outcome ≠ .finished p) :
    c.start < solidLength source := by
  have hlt := h.start_lt_stop hfound
  obtain ⟨b, hbyte⟩ : ∃ b, source[c.start]? = some b :=
    ⟨_, List.getElem?_eq_getElem (hlt.trans_le h.stop_le.2)⟩
  have hsolid := h.solid _ (mem_extract hbyte (Nat.le_refl _) hlt)
  by_contra hle
  rw [← Nat.add_sub_cancel' (Nat.le_of_not_lt hle), ← List.getElem?_drop] at hbyte
  rw [isBlank_of_mem_drop (List.mem_of_getElem? hbyte)] at hsolid
  cases hsolid

/-- A call before the last byte that is not blank finds something there or before it. -/
theorem start_lt_of_lt (h : c.MadeAt source cursor) (hcursor : cursor < solidLength source) :
    c.start < solidLength source := by
  obtain ⟨b, hb, hsolid⟩ := exists_solid_last hcursor
  by_contra hle
  rw [h.gap b (mem_extract hb (by omega) (by omega))] at hsolid
  cases hsolid

theorem not_finished (h : c.MadeAt source cursor) (hlt : c.start < source.length) (p : Position) :
    c.outcome ≠ .finished p := by
  intro houtcome
  have hend := h.found
  rw [houtcome] at hend
  exact absurd hend (Nat.ne_of_lt hlt)

end MadeAt

end Call

/-- Every outcome belongs to a call, and has its place. -/
theorem exists_call_of_mem {source : Bytes} {n : Nat} {o : Outcome}
    (ho : o ∈ outcomes n (ofSource source)) :
    ∃ (c : Call) (k : Nat), c.outcome = o ∧ c.MadeAt source k ∧
      o.toToken.position = placeAt source c.start := by
  obtain ⟨calls, rfl, hcalls⟩ := (atOffset_ofSource source).exists_calls n
  rw [← hcalls.outcomes] at ho
  obtain ⟨c, hc, rfl⟩ := List.mem_map.1 ho
  obtain ⟨k, hmade⟩ := hcalls.chain.exists_madeAt hc
  exact ⟨c, k, rfl, hmade, hcalls.places c hc⟩

/-- Something is found in the line of the last byte that is not blank. -/
theorem AtOffset.exists_last {source : Bytes} {k : Nat} {s : Scanner} (h : s.AtOffset source k)
    (hk : k < solidLength source) :
    ∃ n, ∃ o ∈ outcomes n s, (∀ p, o ≠ .finished p) ∧
      o.toToken.position.line = (placeAt source (solidLength source)).line := by
  induction hleft : solidLength source - k using Nat.strong_induction_on generalizing k s with
  | _ left ih =>
      obtain ⟨c, houtcome, hmade, hplace, hafter⟩ := h.exists_call
      have hstart := hmade.start_lt_of_lt hk
      have hfound := hmade.not_finished (hstart.trans_le (solidLength_le source))
      by_cases hlast : solidLength source ≤ c.stop
      · refine ⟨1, c.outcome, ?_, hfound, ?_⟩
        · rw [houtcome]
          exact List.mem_singleton_self _
        · rw [hplace]
          refine (line_placeAt_of_solid hstart.le (solidLength_le source) fun b hb => ?_).symm
          refine hmade.solid b ?_
          rw [← extract_append_extract source hstart.le hlast]
          exact List.mem_append_left _ hb
      · have hstop := hmade.start_lt_stop hfound
        have hcursor := hmade.start_le
        obtain ⟨n, o, ho, hnot, hline⟩ := ih _ (by omega) hafter (by omega) rfl
        exact ⟨n + 1, o, List.mem_cons_of_mem _ ho, hnot, hline⟩

end Scanner

/-- Nothing that the scanner finds before the end is below the line. -/
def FoundWithin (source : Bytes) (line : Int) : Prop :=
  ∀ n, ∀ o ∈ Scanner.outcomes n (.ofSource source), (∀ p, o ≠ .finished p) →
    o.toToken.position.line ≤ line

theorem foundWithin_iff {source : Bytes} (hne : source ≠ []) :
    FoundWithin source (lineCount source) ↔ LinesFit source := by
  constructor
  · intro hfound
    by_cases hblank : solidLength source = 0
    · exact linesFit_of_count_eq_zero (by rw [hblank, Nat.count_zero])
    · obtain ⟨n, o, ho, hnot, hline⟩ :=
        (Scanner.atOffset_ofSource source).exists_last (Nat.pos_of_ne_zero hblank)
      rw [linesFit_iff hne, ← hline]
      exact hfound n o ho hnot
  · intro hfit n o ho hnot
    obtain ⟨c, k, rfl, hmade, hplace⟩ := Scanner.exists_call_of_mem ho
    rw [hplace]
    exact (line_placeAt_mono source (hmade.start_lt hnot).le).trans ((linesFit_iff hne).1 hfit)

namespace FoundWithin

variable {source : Bytes} {line : Int} {ts : List Token}

theorem token (h : FoundWithin source line) (htokens : tokenize source = .ok ts) :
    ∀ t ∈ ts, t.position.line ≤ line := by
  intro t ht
  obtain ⟨calls, c, p, hcalls, hfound, -⟩ :=
    (Scanner.atOffset_ofSource source).finished (tokenize_ok_iff.1 htokens)
  refine h (calls ++ [c]).length (.token t) ?_ (by simp)
  rw [← hcalls.outcomes, List.map_append, hfound]
  exact List.mem_append_left _ (List.mem_map_of_mem ht)

theorem lexicalError (h : FoundWithin source line) {e : LexicalError}
    (herror : tokenize source = .error e) : e.position.line ≤ line := by
  obtain ⟨ts, calls, c, hcalls, -, hlast, -⟩ :=
    (Scanner.atOffset_ofSource source).stopped herror
  refine h (calls ++ [c]).length (.error e) ?_ (by simp)
  rw [← hcalls.outcomes, List.map_append, ← hlast]
  exact List.mem_append_right _ (List.mem_singleton_self _)

/-- An error of grammar is in the line of a token, or in the first line. -/
theorem grammarError (h : FoundWithin source line) (hline : 1 ≤ line)
    (htokens : tokenize source = .ok ts) {e : GrammarError} (hparse : parse ts = .error e) :
    e.position.line ≤ line := by
  rw [(Parser.placedIn_of_tokenize htokens hparse).placed]
  cases htoken : ts[e.index]? with
  | some t => exact h.token htokens t (List.mem_of_getElem? htoken)
  | none =>
      rw [Option.getD_none, Parser.ending]
      cases hlast : ts.getLast? with
      | none => exact hline
      | some t => exact h.token htokens t (List.mem_of_getLast? hlast)

theorem site (h : FoundWithin source line) (htokens : tokenize source = .ok ts) {b : Block}
    (hparse : parse ts = .ok b) : ∀ s ∈ b.sites 0, s.write.position.line ≤ line := by
  intro s hs
  have hplaces := (writtenAs_of_tokenize htokens hparse).positions_sublist 0
  obtain ⟨t, ht, hplace⟩ := List.mem_map.1
    (hplaces.subset (List.mem_map_of_mem (f := fun s : Site => s.write.position) hs))
  rw [← hplace]
  exact h.token htokens t ht

end FoundWithin

/-! ## Two styles of line ends -/

theorem count_withReturns (text : Bytes) :
    (withReturns text).count lineFeed = text.count lineFeed := by
  induction text with
  | nil => rfl
  | cons b rest ih =>
      by_cases hb : b = lineFeed
      · subst hb
        rw [withReturns_lineFeed, List.count_cons_of_ne (by decide), List.count_cons_self, ih,
          List.count_cons_self]
      · rw [withReturns_cons hb, List.count_cons_of_ne hb, ih, List.count_cons_of_ne hb]

/-- With carriage returns, no two line feeds stand together. -/
theorem finalFeeds_withReturns (text : Bytes) :
    finalFeeds (withReturns text) = min 1 (finalFeeds text) := by
  rcases List.eq_nil_or_concat' text with rfl | ⟨text, b, rfl⟩
  · rfl
  · by_cases hb : b = lineFeed
    · subst hb
      have hreturns : withReturns (text ++ [lineFeed]) =
          withReturns text ++ [carriageReturn] ++ [lineFeed] := by
        simp [withReturns]
      rw [hreturns, finalFeeds_lineFeed, finalFeeds_concat (by decide), finalFeeds_lineFeed]
      omega
    · have hreturns : withReturns (text ++ [b]) = withReturns text ++ [b] := by
        simp [withReturns, hb]
      rw [hreturns, finalFeeds_concat hb, finalFeeds_concat hb, Nat.min_zero]

/-- With carriage returns, one line feed at the very end is left out and the others are counted. -/
theorem lineCount_withReturns (source : Bytes) :
    lineCount (withReturns source) = lineCount source + (finalFeeds source - 1) := by
  by_cases hne : source = []
  · subst hne
    rfl
  · have hreturns : withReturns source ≠ [] := by
      obtain ⟨b, rest, rfl⟩ := List.exists_cons_of_ne_nil hne
      by_cases hb : b = lineFeed
      · simp [hb]
      · simp [withReturns_cons hb]
    have hcount := lineCount_add_finalFeeds hne
    have hcount' := lineCount_add_finalFeeds hreturns
    rw [count_withReturns, finalFeeds_withReturns] at hcount'
    omega

/-! ## The lines of an analysis -/

/-- What the scanner finds before the end and what the analysis reports is all in the lines that the
analysis has counted. -/
structure LinesWithin (opts : AnalysisOptions) (source : Bytes) : Prop where
  found : FoundWithin source (analyze opts source).stats.lines
  faults : ∀ f ∈ (analyze opts source).faults,
    f.position.line ≤ (analyze opts source).stats.lines
  deadStores : ∀ d ∈ (analyze opts source).deadStores,
    d.position.line ≤ (analyze opts source).stats.lines ∧
      ∀ p ∈ d.overwrittenAt, p.line ≤ (analyze opts source).stats.lines

/-- The errors and the dead assignments are no further down than what the scanner finds. -/
theorem FoundWithin.linesWithin {opts : AnalysisOptions} {source : Bytes} (hne : source ≠ [])
    (h : FoundWithin source (analyze opts source).stats.lines) : LinesWithin opts source := by
  have hpos : (1 : Int) ≤ (analyze opts source).stats.lines := by
    rw [lines_analyze]
    have := lineCount_pos hne
    omega
  cases hsource : parseSource source with
  | error e =>
      obtain ⟨hfaults, hdead, -⟩ := analyze_of_error opts hsource
      refine ⟨h, ?_, by simp [hdead]⟩
      rw [hfaults]
      intro f hf
      rw [List.mem_singleton.1 hf]
      obtain ⟨l, rfl, htokens⟩ | ⟨g, ts, rfl, htokens, hparse⟩ := parseSource_error_cases hsource
      · exact h.lexicalError htokens
      · exact h.grammarError hpos htokens hparse
  | ok b =>
      obtain ⟨ts, found, htokens, hparse, hcheck, hinside⟩ := exists_check_of_ok opts hsource
      obtain ⟨-, hdead, hfaults, -⟩ := analyze_of_check htokens hparse hcheck
      refine ⟨h, by simp [hfaults], ?_⟩
      rw [hdead]
      intro d hd
      obtain ⟨f, hf, rfl⟩ := AnalysisOptions.exists_of_mem_reported hd
      refine ⟨h.site htokens hparse _ (hinside f hf).dead, fun p hp => ?_⟩
      obtain ⟨s, hs, rfl⟩ := Option.mem_map.1 hp
      exact h.site htokens hparse s ((hinside f hf).overwriter s hs)

/-- **The number of lines.**  All that is found and reported in a program is in the lines that are
counted exactly if its line feeds make up for the carriage returns that stand alone; so it is if
there are none of these.  The end of the program is below the lines that are counted by the line
feeds at its very end and the carriage returns that stand alone.  A carriage return before each line
feed makes one line more of each line feed at the very end but the last. -/
theorem line_count_exact (opts : AnalysisOptions) {source : Bytes} (hne : source ≠ []) :
    (LinesWithin opts source ↔ LinesFit source) ∧
      ((∀ k, ¬ LoneReturn source k) → LinesWithin opts source) ∧
      (∀ (n : Nat) (p : Position), .finished p ∈ Scanner.outcomes n (.ofSource source) →
        p.line = ((analyze opts source).stats.lines + finalFeeds source +
          Nat.count (LoneReturn source) source.length : Nat)) ∧
      (analyze opts (withReturns source)).stats.lines =
        (analyze opts source).stats.lines + (finalFeeds source - 1) := by
  have hlines := lines_analyze opts source
  have hwithin : LinesWithin opts source ↔ LinesFit source := by
    rw [← foundWithin_iff hne, ← hlines]
    exact ⟨LinesWithin.found, FoundWithin.linesWithin hne⟩
  refine ⟨hwithin, ?_, ?_, ?_⟩
  · intro hnone
    refine hwithin.2 (linesFit_of_count_eq_zero ?_)
    exact Nat.count_of_forall_not fun k _ => hnone k
  · intro n p hp
    obtain ⟨c, k, houtcome, hmade, hplace⟩ := Scanner.exists_call_of_mem hp
    have hstart : c.start = source.length := by
      have hend := hmade.found
      rwa [houtcome] at hend
    have hcount := lineCount_add_finalFeeds hne
    rw [hstart] at hplace
    rw [show p = placeAt source source.length from hplace, line_placeAt, List.take_length, hlines]
    omega
  · rw [hlines, lines_analyze, lineCount_withReturns]

/-- A carriage return that stands alone, and blank lines behind it. -/
def blankEnd : Bytes :=
  utf8 "x = a\rx = b\n \n\n"

theorem line_count_exact_blankEnd :
    blankEnd ≠ [] ∧ LinesFit blankEnd ∧ LinesWithin .default blankEnd ∧
      (analyze .default blankEnd).stats.lines = 2 ∧
      (∀ (n : Nat) (p : Position), .finished p ∈ Scanner.outcomes n (.ofSource blankEnd) →
        p.line = 5) ∧
      (analyze .default (withReturns blankEnd)).stats.lines = 3 := by
  have hne : blankEnd ≠ [] := by decide
  have hfit : LinesFit blankEnd := by decide +kernel
  have hlines : (analyze .default blankEnd).stats.lines = 2 := by
    rw [lines_analyze]
    decide +kernel
  have hcounts : finalFeeds blankEnd = 2 ∧ Nat.count (LoneReturn blankEnd) blankEnd.length = 1 := by
    decide +kernel
  obtain ⟨hwithin, -, hend, hreturns⟩ := line_count_exact .default hne
  rw [hlines, hcounts.1, hcounts.2] at hend
  rw [hlines, hcounts.1] at hreturns
  exact ⟨hne, hfit, hwithin.2 hfit, hlines, hend, hreturns⟩

/-- Two lines with a carriage return alone between them. -/
def returnBetween : Bytes :=
  utf8 "x = a\rx = b"

/-- One line, and a blank line behind it. -/
def blankBehind : Bytes :=
  utf8 "x = a\n\n"

/-- Of two lines with a carriage return alone between them one is counted, and there are tokens in
the other.  With carriage returns before its line feeds, a program can have more lines. -/
theorem line_count_short :
    (∃ ts, tokenize returnBetween = .ok ts ∧
      ∃ t ∈ ts, (analyze .default returnBetween).stats.lines < t.position.line) ∧
    carriageReturn ∉ blankBehind ∧
      (analyze .default blankBehind).stats.lines <
        (analyze .default (withReturns blankBehind)).stats.lines := by
  have htokens : tokenize returnBetween = .ok [⟨.variable, utf8 "x", ⟨1, 1⟩⟩,
      ⟨.assign, utf8 "=", ⟨1, 3⟩⟩, ⟨.variable, utf8 "a", ⟨1, 5⟩⟩, ⟨.variable, utf8 "x", ⟨2, 1⟩⟩,
      ⟨.assign, utf8 "=", ⟨2, 3⟩⟩, ⟨.variable, utf8 "b", ⟨2, 5⟩⟩] :=
    eq_ok_of_toOption (by decide +kernel)
  simp only [lines_analyze]
  exact ⟨⟨_, htokens, by decide +kernel⟩, by decide, by decide +kernel⟩

end StoreLint
