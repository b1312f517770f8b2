import StoreLint.Proofs.FirstError
import StoreLint.Proofs.LayoutFree
import StoreLint.Proofs.Lines

/-!
# Diagnostics and the lines they quote

A diagnostic has a place, and the text of a listing quotes the line of that place with a mark under
its column.  Two things make the quotation right: the place is the one of what the diagnostic is
about, and the quoted line is the line of the place.

* `Diagnostic.PointsAt`: the place of a diagnostic is the place of the target of a dead assignment,
  of the piece or token that is in error, or of the end of the input.  It holds of every diagnostic
  of an analysis (`pointsAt_of_mem_entries`).
* `quoted_line_is_reported`: the quoted line is the line of the place as the scanner counts lines,
  if the listing counts the lines up to there in the same way.
* `lone_return_misquoted`: it does not where a carriage return stands alone.
-/

namespace StoreLint

/-! ## Places -/

namespace Stands

variable {source piece : Bytes} {p : Position}

/-- A place where something stands is in a line. -/
theorem exists_line (h : Stands source piece p) :
    ∃ (row column : Nat) (line : Bytes), p = ⟨row + 1, column + 1⟩ ∧
      (numberedLines source)[row]? = some line := by
  obtain ⟨row, column, line, hp, hline, -⟩ := h
  exact ⟨row, column, line, hp, hline⟩

/-- Just behind a piece is a place in the same line, which is not longer than the text. -/
theorem exists_line_behind (h : Stands source piece p) :
    ∃ (row column : Nat) (line : Bytes), p.right piece.length = ⟨row + 1, column + 1⟩ ∧
      (numberedLines source)[row]? = some line ∧ column ≤ source.length := by
  obtain ⟨row, column, line, rfl, hline, hne, hpiece⟩ := h
  refine ⟨row, column + piece.length, line, ?_, hline, ?_⟩
  · simp only [Position.right]
    congr 1
    omega
  · have hlength := length_le_of_mem_numberedLines (List.mem_of_getElem? hline)
    have hfits := hpiece.length_le
    have hpos := List.length_pos_iff.2 hne
    rw [List.length_drop] at hfits
    omega

/-- Behind a piece of a text that is short enough, columns do not turn round. -/
theorem shifted_eq (h : Stands source piece p) (hlength : source.length < 0x7FFFFFFFFFFFFFFF) :
    p.shifted piece.length = p.right piece.length := by
  obtain ⟨row, column, line, hplace, -, hcolumn⟩ := h.exists_line_behind
  have hp : p.column + piece.length = column + 1 := congrArg Position.column hplace
  exact p.shifted_of_fits piece.length (by omega) (by omega)

end Stands

/-! ## What a diagnostic is about -/

/-- What the diagnostic is about stands at its place. -/
inductive Diagnostic.PointsAt (opts : AnalysisOptions) (source : Bytes) (d : Diagnostic) :
    Prop where
  /-- A dead assignment: its target. -/
  | store {s : DeadStore} (reported : s ∈ (analyze opts source).deadStores)
      (diagnostic : d = { s.diagnostic with severity := d.severity })
      (stands : Stands source [s.target] d.range.start)
  /-- A piece that is no token. -/
  | piece {e : LexicalError} (stopped : tokenize source = .error e)
      (diagnostic : d = { (ParseError.lexical e).fault.diagnostic with severity := d.severity })
      (stands : Stands source e.cause.piece d.range.start)
  /-- A token that does not belong there. -/
  | token {ts : List Token} {e : GrammarError} {t : Token} (tokens : tokenize source = .ok ts)
      (stopped : parse ts = .error e)
      (diagnostic : d = { (ParseError.grammar e).fault.diagnostic with severity := d.severity })
      (offending : ts[e.index]? = some t) (stands : Stands source t.value d.range.start)
  /-- The end of the input, just behind the last token. -/
  | ending {ts : List Token} {e : GrammarError} {t : Token} (tokens : tokenize source = .ok ts)
      (stopped : parse ts = .error e)
      (diagnostic : d = { (ParseError.grammar e).fault.diagnostic with severity := d.severity })
      (atEnd : e.index = ts.length) (last : ts.getLast? = some t)
      (stands : Stands source t.value t.position)
      (behind : d.range.start = t.position.right t.value.length)
  /-- The end of an input without tokens. -/
  | empty {e : GrammarError} (tokens : tokenize source = .ok []) (stopped : parse [] = .error e)
      (diagnostic : d = { (ParseError.grammar e).fault.diagnostic with severity := d.severity })
      (atStart : d.range.start = .start)

namespace Diagnostic.PointsAt

variable {opts : AnalysisOptions} {source : Bytes} {d : Diagnostic}

/-- A diagnostic is about one column. -/
theorem range_eq (h : d.PointsAt opts source) : d.range = .point d.range.start 1 := by
  cases h with
  | store _ diagnostic => rw [diagnostic]; rfl
  | piece _ diagnostic => rw [diagnostic]; rfl
  | token _ _ diagnostic => rw [diagnostic]; rfl
  | ending _ _ diagnostic => rw [diagnostic]; rfl
  | empty _ _ diagnostic => rw [diagnostic]; rfl

/-- The place of a diagnostic is in a line. -/
theorem exists_line (h : d.PointsAt opts source) :
    ∃ (row column : Nat) (line : Bytes), d.range.start = ⟨row + 1, column + 1⟩ ∧
      (numberedLines source)[row]? = some line := by
  cases h with
  | store _ _ stands => exact stands.exists_line
  | piece _ _ stands => exact stands.exists_line
  | token _ _ _ _ stands => exact stands.exists_line
  | ending _ _ _ _ _ stands behind =>
      obtain ⟨row, column, line, hplace, hline, -⟩ := stands.exists_line_behind
      exact ⟨row, column, line, behind.trans hplace, hline⟩
  | empty _ _ _ atStart =>
      obtain ⟨line, below, hlines⟩ := exists_numberedLines source
      exact ⟨0, 0, line, atStart, by rw [hlines]; rfl⟩

end Diagnostic.PointsAt

/-- An error of the scanner is where the rejected piece stands. -/
theorem pointsAt_of_lexicalError {opts : AnalysisOptions} {source : Bytes} {d : Diagnostic}
    {e : LexicalError} (htokens : tokenize source = .error e)
    (hd : d = { (ParseError.lexical e).fault.diagnostic with severity := d.severity }) :
    d.PointsAt opts source := by
  refine .piece htokens hd ?_
  rw [hd]
  exact (Scanner.placedIn_ofSource source).stands_of_error htokens

/-- An error of grammar is where the offending token stands, or just behind the last one. -/
theorem pointsAt_of_grammarError {opts : AnalysisOptions} {source : Bytes} {d : Diagnostic}
    {ts : List Token} {e : GrammarError} (hlength : source.length < 0x7FFFFFFFFFFFFFFF)
    (htokens : tokenize source = .ok ts) (hparse : parse ts = .error e)
    (hd : d = { (ParseError.grammar e).fault.diagnostic with severity := d.severity }) :
    d.PointsAt opts source := by
  have hstands := (Scanner.placedIn_ofSource source).stands_of_tokens htokens
  have hplaced := Parser.placedIn_of_tokenize htokens hparse
  have hstart : d.range.start = (ts[e.index]?.getD (Parser.ending ts)).position := by
    rw [hd]
    exact hplaced.placed
  cases htoken : ts[e.index]? with
  | some t =>
      rw [htoken] at hstart
      refine .token htokens hparse hd htoken ?_
      rw [hstart]
      exact hstands t (List.mem_of_getElem? htoken)
  | none =>
      rw [htoken] at hstart
      have hindex : e.index = ts.length :=
        Nat.le_antisymm hplaced.within (List.getElem?_eq_none_iff.1 htoken)
      cases hlast : ts.getLast? with
      | none =>
          rw [List.getLast?_eq_none_iff.1 hlast] at htokens hparse hstart
          exact .empty htokens hparse hd hstart
      | some t =>
          have ht := hstands t (List.mem_of_getLast? hlast)
          refine .ending htokens hparse hd hindex hlast ht ?_
          rw [hstart, Option.getD_none, Parser.ending, hlast]
          exact ht.shifted_eq hlength

/-- A report is where the target of a dead assignment stands. -/
theorem pointsAt_of_reported {opts : AnalysisOptions} {source : Bytes} {d : Diagnostic}
    {ts : List Token} {b : Block} (htokens : tokenize source = .ok ts) (hparse : parse ts = .ok b)
    {f : Finding} (hf : f.Inside b) (hreported : f.toDeadStore ∈ (analyze opts source).deadStores)
    (hd : d = { f.toDeadStore.diagnostic with severity := d.severity }) :
    d.PointsAt opts source := by
  refine .store hreported hd ?_
  have htargets := (writtenAs_of_tokenize htokens hparse).targets_sublist 0
  obtain ⟨t, ht, hplace⟩ := List.mem_map.1 (htargets.subset (List.mem_map_of_mem hf.dead))
  obtain ⟨hposition, hvalue⟩ := Prod.mk.inj hplace
  have hstands := (Scanner.placedIn_ofSource source).stands_of_tokens htokens t ht
  rw [hposition, hvalue] at hstands
  rw [hd]
  exact hstands

theorem pointsAt_of_mem_entries {opts : AnalysisOptions} {source : Bytes} {d : Diagnostic}
    (hlength : source.length < 0x7FFFFFFFFFFFFFFF)
    (hd : d ∈ (analyze opts source).listing.entries) : d.PointsAt opts source := by
  cases htokens : tokenize source with
  | error e =>
      have hsource : parseSource source = .error (.lexical e) := by rw [parseSource, htokens]
      rw [listing_of_error opts hsource] at hd
      exact pointsAt_of_lexicalError htokens (Listing.eq_of_graded (Option.mem_toList.1 hd))
  | ok ts =>
      cases hparse : parse ts with
      | error e =>
          have hsource : parseSource source = .error (.grammar e) := by
            rw [parseSource, htokens]
            dsimp only
            rw [hparse]
          rw [listing_of_error opts hsource] at hd
          exact pointsAt_of_grammarError hlength htokens hparse
            (Listing.eq_of_graded (Option.mem_toList.1 hd))
      | ok b =>
          obtain ⟨hcomplete, -⟩ := Block.inOrder_of_tokenize htokens hparse
          obtain ⟨found, hcheck, hinside⟩ := Block.exists_check hcomplete opts.order
          have hstores := (analyze_of_check htokens hparse hcheck).2.1
          rw [listing_of_check htokens hparse hcheck] at hd
          obtain ⟨s, hs, hgraded⟩ := List.mem_filterMap.1 hd
          obtain ⟨f, hf, rfl⟩ := AnalysisOptions.exists_of_mem_reported hs
          exact pointsAt_of_reported htokens hparse (hinside f hf) (hstores ▸ hs)
            (Listing.eq_of_graded hgraded)

/-! ## The quoted line -/

/-- A line and a mark under one of its columns, counted from zero; an empty line is not quoted. -/
def quotation (line : Bytes) (column : Nat) : Bytes :=
  if line = [] then []
  else utf8 "    " ++ line ++ utf8 "\n" ++ List.replicate (column + 4) 0x20 ++ utf8 "^\n"

/-- Shifted columns may turn round, but they never get ahead. -/
theorem Position.column_shifted_le {p : Position} {n : Int} (h : 0 ≤ p.column + n) :
    (p.shifted n).column ≤ p.column + n := by
  by_cases hfits : p.column + n < 0x8000000000000000
  · rw [p.shifted_of_fits n (by omega) hfits]
  · have hlow : (p.column + n).bmod 0x10000000000000000 < 0x8000000000000000 :=
      Int.bmod_lt (by decide)
    rw [Position.shifted]
    dsimp only
    omega

/-- The mark of one column is one sign. -/
theorem markText_point {p : Position} (h : 0 < p.column) :
    Diagnostic.markText (.point p 1) = utf8 "^" := by
  have hstop : (p.shifted (max 1 1)).column ≤ p.column + 1 :=
    Position.column_shifted_le (n := 1) (by omega)
  unfold Diagnostic.markText Range.point
  split
  · rw [show ((p.shifted (max 1 1)).column - p.column - 1).toNat = 0 by omega]
    simp
  · simp

/-- Without styles, a diagnostic about one column quotes the line that the listing has for it. -/
theorem sourceText_eq_quotation {d : Diagnostic} {row column : Nat}
    (hrange : d.range = .point ⟨row + 1, column + 1⟩ 1) (source : Bytes) (file : String) :
    d.sourceText source ⟨file, false, .plain⟩ =
      quotation (Listing.sourceLine source (row + 1)) column := by
  have hcolumn : (0 : Int) < column + 1 := by omega
  have hspaces : ((column : Int) + 4).toNat = column + 4 := by omega
  have hmark : utf8 "^" ++ utf8 "\n" = utf8 "^\n" := rfl
  unfold Diagnostic.sourceText quotation
  rw [hrange, markText_point hcolumn]
  by_cases hline : Listing.sourceLine source (row + 1) = []
  · simp [Range.point, hline]
  · simp [Range.point, hline, hspaces, hcolumn, hmark, Style.plain]

/-- **The quoted line is the reported line.**  Every diagnostic of an analysis has its place in a
line of the program, as the scanner counts lines, and what it is about stands there.  If the listing
counts the lines up to there in the same way, its text quotes that line with a mark under that
column; only an empty line is not quoted. -/
theorem quoted_line_is_reported (opts : AnalysisOptions) {source : Bytes}
    (hlength : source.length < 0x7FFFFFFFFFFFFFFF) {d : Diagnostic}
    (hd : d ∈ (analyze opts source).listing.entries) :
    d.PointsAt opts source ∧
      ∃ (row column : Nat) (line : Bytes), d.range.start = ⟨row + 1, column + 1⟩ ∧
        (numberedLines source)[row]? = some line ∧
        (LinesAgree source row → ∀ file : String,
          d.sourceText (analyze opts source).listing.source ⟨file, false, .plain⟩ =
            quotation line column) := by
  have hpoints := pointsAt_of_mem_entries hlength hd
  obtain ⟨row, column, line, hplace, hline⟩ := hpoints.exists_line
  refine ⟨hpoints, row, column, line, hplace, hline, fun hagree file => ?_⟩
  have hrange := hpoints.range_eq
  rw [hplace] at hrange
  rw [listing_source, sourceText_eq_quotation hrange, hagree.sourceLine_eq hline]

/-- Two lines, the second without an expression; they end in different ways. -/
def openEnded : Bytes :=
  utf8 "x = a\r\n\tx =\r\r\n"

theorem quoted_line_is_reported_openEnded :
    openEnded.length < 0x7FFFFFFFFFFFFFFF ∧
      ∃ d ∈ (analyze .default openEnded).listing.entries,
        d.PointsAt .default openEnded ∧ d.range.start = ⟨2, 5⟩ ∧ LinesAgree openEnded 1 ∧
          ∀ file : String,
            d.sourceText (analyze .default openEnded).listing.source ⟨file, false, .plain⟩ =
              utf8 "    \tx =\n        ^\n" := by
  have htokens : tokenize openEnded = .ok [⟨.variable, utf8 "x", ⟨1, 1⟩⟩,
      ⟨.assign, utf8 "=", ⟨1, 3⟩⟩, ⟨.variable, utf8 "a", ⟨1, 5⟩⟩, ⟨.variable, utf8 "x", ⟨2, 2⟩⟩,
      ⟨.assign, utf8 "=", ⟨2, 4⟩⟩] :=
    eq_ok_of_toOption (by decide +kernel)
  have hsource : parseSource openEnded = .error (.grammar ⟨.noMoreInput, 5, ⟨2, 5⟩⟩) := by
    rw [parseSource, htokens]
    rfl
  have hlines : numberedLines openEnded = [utf8 "x = a", utf8 "\tx =", [], []] := by decide +kernel
  have hlength : openEnded.length < 0x7FFFFFFFFFFFFFFF := by decide
  have hd : (ParseError.grammar ⟨.noMoreInput, 5, ⟨2, 5⟩⟩).fault.diagnostic ∈
      (analyze .default openEnded).listing.entries := by
    rw [listing_of_error .default hsource]
    exact List.mem_singleton_self _
  obtain ⟨hpoints, row, column, line, hplace, hline, hquoted⟩ :=
    quoted_line_is_reported .default hlength hd
  have hrow : row = 1 := by
    have := congrArg Position.line hplace
    change (2 : Int) = row + 1 at this
    omega
  have hcolumn : column = 4 := by
    have := congrArg Position.column hplace
    change (5 : Int) = column + 1 at this
    omega
  subst hrow hcolumn
  rw [hlines] at hline
  cases hline
  exact ⟨hlength, _, hd, hpoints, rfl, by decide, hquoted (by decide)⟩

/-- Two lines with a carriage return alone between them. -/
def loneReturn : Bytes :=
  utf8 "x = a\rx = b"

/-- A listing takes the two lines for one.  It quotes both for the first dead assignment, and
nothing for the second. -/
theorem lone_return_misquoted :
    numberedLines loneReturn = [utf8 "x = a", utf8 "x = b"] ∧
      ∃ d e : Diagnostic, (analyze .default loneReturn).listing.entries = [d, e] ∧
        d.range.start = ⟨1, 1⟩ ∧ e.range.start = ⟨2, 1⟩ ∧
        ∀ file : String,
          d.sourceText loneReturn ⟨file, false, .plain⟩ = utf8 "    x = a\rx = b\n    ^\n" ∧
            e.sourceText loneReturn ⟨file, false, .plain⟩ = [] := by
  have htokens : tokenize loneReturn = .ok [⟨.variable, utf8 "x", ⟨1, 1⟩⟩,
      ⟨.assign, utf8 "=", ⟨1, 3⟩⟩, ⟨.variable, utf8 "a", ⟨1, 5⟩⟩, ⟨.variable, utf8 "x", ⟨2, 1⟩⟩,
      ⟨.assign, utf8 "=", ⟨2, 3⟩⟩, ⟨.variable, utf8 "b", ⟨2, 5⟩⟩] :=
    eq_ok_of_toOption (by decide +kernel)
  have hcheck : Block.check .byLine (.assign ⟨⟨1, 1⟩, 0x78, .variable 0x61⟩
      (.assign ⟨⟨2, 1⟩, 0x78, .variable 0x62⟩ .empty)) =
      .ok [⟨⟨0, ⟨⟨1, 1⟩, 0x78, .variable 0x61⟩⟩, some ⟨1, ⟨⟨2, 1⟩, 0x78, .variable 0x62⟩⟩⟩,
        ⟨⟨1, ⟨⟨2, 1⟩, 0x78, .variable 0x62⟩⟩, none⟩] := by
    rw [Block.check_byLine]
    exact congrArg Except.ok (List.mergeSort_of_pairwise (by decide))
  have hlisting : (analyze .default loneReturn).listing = _ := listing_of_check htokens rfl hcheck
  refine ⟨by decide +kernel, _, _, congrArg Listing.entries hlisting, rfl, rfl, fun file => ?_⟩
  exact ⟨by rfl, by rfl⟩

end StoreLint
