import Mathlib.Data.List.TakeWhile
import Mathlib.Data.Nat.Count
import StoreLint.Proofs.Lines

/-!
# Places and offsets

The scanner keeps its place by counting: it moves to the right with every byte, and to a new line
with every line end.  This file says what the place has to be at each offset of a text, without
going through the text, and shows that the scanner always has it right.

* `EndsLine`, `placeAt`: a line ends behind a line feed, and behind a carriage return unless a line
  feed follows.  The line at an offset is given by the number of line ends up to there, and the
  column by the distance to the last of them.
* `Scanner.AtOffset`: the scanner stands at an offset and has its place.
* `Scanner.Call`, `Scanner.Makes`: what the scanner finds, call by call, with the offsets where each
  of these starts and stops.
* `Scanner.AtOffset.call_madeAt` is one call, `Scanner.AtOffset.exists_calls` any number of them.
* `Scanner.AtOffset.finished`, `Scanner.AtOffset.stopped`: the calls up to the end, or to the first
  error.  The text before a rejected piece has the tokens that were found before it.
* `places_exact` puts these together.
-/

namespace StoreLint

/-! ## Line ends -/

/-- At the offset there is a carriage return without a line feed behind it. -/
def LoneReturn (source : Bytes) (k : Nat) : Prop :=
  source[k]? = some carriageReturn ∧ source[k + 1]? ≠ some lineFeed

instance (source : Bytes) : DecidablePred (LoneReturn source) :=
  fun _ => inferInstanceAs (Decidable (_ ∧ _))

/-- A line ends just before the offset. -/
def EndsLine (source : Bytes) : Nat → Prop
  | 0 => False
  | k + 1 => source[k]? = some lineFeed ∨ LoneReturn source k

instance (source : Bytes) : DecidablePred (EndsLine source)
  | 0 => inferInstanceAs (Decidable False)
  | _ + 1 => inferInstanceAs (Decidable (_ ∨ _))

/-- The place of an offset: its line is the number of line ends up to it and one, and its column is
the distance to the last of them, or to the start of the text, and one. -/
def placeAt (source : Bytes) (k : Nat) : Position :=
  ⟨Nat.count (EndsLine source) (k + 1) + 1, k - Nat.findGreatest (EndsLine source) k + 1⟩

theorem placeAt_zero (source : Bytes) : placeAt source 0 = .start := by
  simp [placeAt, Nat.count_succ, EndsLine, Position.start]

/-- Behind a byte that ends no line, the place is one further to the right. -/
theorem placeAt_right {source : Bytes} {k : Nat} (h : ¬ EndsLine source (k + 1)) :
    placeAt source (k + 1) = (placeAt source k).right 1 := by
  simp only [placeAt, Position.right, Nat.count_succ _ (k + 1), if_neg h, Nat.findGreatest_of_not h]
  congr 1
  omega

/-- Behind the end of a line, the next line starts. -/
theorem placeAt_nextLine {source : Bytes} {k : Nat} (h : EndsLine source (k + 1)) :
    placeAt source (k + 1) = (placeAt source k).nextLine := by
  simp only [placeAt, Position.nextLine, Nat.count_succ _ (k + 1), if_pos h, Nat.findGreatest_eq h]
  congr 1
  omega

/-! ## The text between two offsets -/

theorem mem_extract {source : Bytes} {i j k : Nat} {b : UInt8} (hb : source[k]? = some b)
    (hik : i ≤ k) (hkj : k < j) : b ∈ source.extract i j := by
  refine List.mem_of_getElem? (i := k - i) ?_
  rw [List.extract_eq_take_drop, List.getElem?_take_of_lt (by omega), List.getElem?_drop,
    Nat.add_sub_cancel' hik, hb]

theorem extract_append_extract (source : Bytes) {i j l : Nat} (hij : i ≤ j) (hjl : j ≤ l) :
    source.extract i j ++ source.extract j l = source.extract i l := by
  simp only [List.extract_eq_take_drop]
  rw [show l - i = (j - i) + (l - j) by omega, List.take_add, List.drop_drop,
    show i + (j - i) = j by omega]

theorem extract_append_drop (source : Bytes) {i j : Nat} (hij : i ≤ j) :
    source.extract i j ++ source.drop j = source.drop i := by
  rw [List.extract_eq_take_drop, show source.drop j = (source.drop i).drop (j - i) by
    rw [List.drop_drop, show i + (j - i) = j by omega], List.take_append_drop]

/-! ## The scanner at an offset -/

namespace Scanner

/-- The scanner stands at the offset of the text, and has the place of that offset. -/
structure AtOffset (source : Bytes) (k : Nat) (s : Scanner) : Prop where
  bound : k ≤ source.length
  rest : s.rest = source.drop k
  place : s.position = placeAt source k

theorem atOffset_ofSource (source : Bytes) : (ofSource source).AtOffset source 0 where
  bound := Nat.zero_le _
  rest := rfl
  place := (placeAt_zero source).symm

/-- The number of bytes of the text that the scanner has left behind. -/
def cursor (source : Bytes) (s : Scanner) : Nat :=
  source.length - s.rest.length

theorem AtOffset.cursor_eq {source : Bytes} {k : Nat} {s : Scanner} (h : s.AtOffset source k) :
    s.cursor source = k := by
  have hbound := h.bound
  rw [cursor, h.rest, List.length_drop]
  omega

namespace AtOffset

variable {source rest : Bytes} {k : Nat} {p : Position} {b : UInt8}

/-- The scanner sees the byte at its offset. -/
theorem getElem?_eq {s : Scanner} (h : s.AtOffset source k) (i : Nat) :
    source[k + i]? = s.rest[i]? := by
  rw [h.rest, List.getElem?_drop]

theorem succ (h : AtOffset source k ⟨b :: rest, p⟩) :
    AtOffset source (k + 1) ⟨rest, placeAt source (k + 1)⟩ := by
  have hrest : b :: rest = source.drop k := h.rest
  refine ⟨?_, ?_, rfl⟩
  · have hlength := congrArg List.length hrest
    simp only [List.length_cons, List.length_drop] at hlength
    omega
  · have htail := congrArg List.tail hrest
    simpa using htail

theorem right (h : AtOffset source k ⟨b :: rest, p⟩) (hb : InLine b) :
    AtOffset source (k + 1) ⟨rest, p.right 1⟩ := by
  have hbyte : source[k]? = some b := h.getElem?_eq 0
  have hends : ¬ EndsLine source (k + 1) := by
    simp [EndsLine, LoneReturn, hbyte, hb.1, hb.2]
  have hnext := h.succ
  rwa [placeAt_right hends, ← h.place] at hnext

theorem nextLine_lineFeed (h : AtOffset source k ⟨lineFeed :: rest, p⟩) :
    AtOffset source (k + 1) ⟨rest, p.nextLine⟩ := by
  have hends : EndsLine source (k + 1) := Or.inl (h.getElem?_eq 0)
  have hnext := h.succ
  rwa [placeAt_nextLine hends, ← h.place] at hnext

theorem nextLine_return (h : AtOffset source k ⟨carriageReturn :: rest, p⟩)
    (hrest : rest.head? ≠ some lineFeed) : AtOffset source (k + 1) ⟨rest, p.nextLine⟩ := by
  have hbehind : source[k + 1]? = rest.head? := by
    rw [h.getElem?_eq 1, List.head?_eq_getElem?]
    rfl
  have hends : EndsLine source (k + 1) := Or.inr ⟨h.getElem?_eq 0, by rwa [hbehind]⟩
  have hnext := h.succ
  rwa [placeAt_nextLine hends, ← h.place] at hnext

/-- A carriage return and a line feed end one line together. -/
theorem nextLine_both (h : AtOffset source k ⟨carriageReturn :: lineFeed :: rest, p⟩) :
    AtOffset source (k + 2) ⟨rest, p.nextLine⟩ := by
  have hbyte : source[k]? = some carriageReturn := h.getElem?_eq 0
  have hbehind : source[k + 1]? = some lineFeed := h.getElem?_eq 1
  have hends : ¬ EndsLine source (k + 1) := by
    simp [EndsLine, LoneReturn, hbyte, hbehind, lineFeed, carriageReturn]
  have hnext := h.succ.nextLine_lineFeed
  rwa [placeAt_right hends, ← h.place] at hnext

/-- Bytes that end no line move the scanner to the right. -/
theorem right_append {piece : Bytes} (h : AtOffset source k ⟨piece ++ rest, p⟩)
    (hpiece : ∀ b ∈ piece, InLine b) :
    AtOffset source (k + piece.length) ⟨rest, p.right piece.length⟩ := by
  induction piece generalizing k p with
  | nil => simpa [Position.right] using h
  | cons b piece ih =>
      obtain ⟨hb, hpiece⟩ := List.forall_mem_cons.1 hpiece
      have hnext := ih (h.right hb) hpiece
      have hplace : (p.right 1).right piece.length = p.right (b :: piece).length := by
        simp only [Position.right, List.length_cons]
        congr 1
        omega
      have hoffset : k + 1 + piece.length = k + (b :: piece).length := by
        simp only [List.length_cons]
        omega
      rwa [hplace, hoffset] at hnext

/-- Behind the gap, the scanner is at the first byte that is not blank. -/
theorem skipGap (h : AtOffset source k ⟨rest, p⟩) :
    (Scanner.skipGap rest p).AtOffset source (k + (rest.takeWhile isBlank).length) := by
  -- a blank in front makes the gap longer by one
  have hblank : ∀ {b : UInt8} {rest : Bytes} {k : Nat}, isBlank b = true →
      k + ((b :: rest).takeWhile isBlank).length = k + 1 + (rest.takeWhile isBlank).length := by
    intro b rest k hb
    rw [List.takeWhile_cons_of_pos hb, List.length_cons]
    omega
  fun_induction Scanner.skipGap rest p generalizing k with
  | case1 p => exact h
  | case2 b rest p hspace ih =>
      have hb : isBlank b = true ∧ InLine b := by
        rcases hspace with rfl | rfl <;> simp [isBlank, InLine, lineFeed, carriageReturn]
      rw [hblank hb.1]
      exact ih (h.right hb.2)
  | case3 rest p hspace ih =>
      rw [hblank (by decide)]
      exact ih h.nextLine_lineFeed
  | case4 p => exact h.nextLine_return (by simp)
  | case5 p rest hspace hfeed ih =>
      rw [hblank (by decide), hblank (by decide)]
      exact ih h.nextLine_both
  | case6 p c rest hc hspace hfeed ih =>
      rw [hblank (by decide)]
      exact ih (h.nextLine_return (by simpa using hc))
  | case7 b rest p hspace hfeed hreturn =>
      have hb : isBlank b = false := by
        simp only [not_or] at hspace
        simp [isBlank, hspace, hfeed, hreturn]
      rw [List.takeWhile_cons_of_neg (by simp [hb])]
      exact h

/-- What is left from one offset on starts with the text between the two. -/
theorem extract_eq {s : Scanner} {piece : Bytes} (h : s.AtOffset source k)
    (hrest : s.rest = piece ++ rest) : source.extract k (k + piece.length) = piece := by
  rw [List.extract_eq_take_drop, ← h.rest, hrest]
  simp

end AtOffset

/-! ## Calls -/

/-- A call of the scanner: what it finds, the offset where this starts, and the offset where the
next call goes on. -/
structure Call where
  outcome : Outcome
  start : Nat
  stop : Nat

/-- The outcome is what stands in the text from the one offset to the other.  An error is about the
piece at the start, and the end is the end of the text. -/
def Outcome.FoundIn (source : Bytes) (start stop : Nat) : Outcome → Prop
  | .token t => start < stop ∧ t.value = source.extract start stop
  | .error e => start < stop ∧ e.cause.piece ≠ [] ∧ e.cause.piece <+: source.drop start
  | .finished _ => start = source.length

namespace Call

/-- The call, made at an offset, skips the blanks there and then takes bytes that are not blank. -/
structure MadeAt (source : Bytes) (cursor : Nat) (c : Call) : Prop where
  start_le : cursor ≤ c.start
  stop_le : c.start ≤ c.stop ∧ c.stop ≤ source.length
  gap : ∀ b ∈ source.extract cursor c.start, isBlank b = true
  solid : ∀ b ∈ source.extract c.start c.stop, isBlank b = false
  found : c.outcome.FoundIn source c.start c.stop

/-- What is found before the end has at least one byte. -/
theorem MadeAt.start_lt_stop {source : Bytes} {cursor : Nat} {c : Call} (h : c.MadeAt source cursor)
    (hfound : ∀ p, c.outcome ≠ .finished p) : c.start < c.stop := by
  have hplace := h.found
  cases houtcome : c.outcome with
  | token t =>
      rw [houtcome] at hplace
      exact hplace.1
  | error e =>
      rw [houtcome] at hplace
      exact hplace.1
  | finished p => exact absurd houtcome (hfound p)

/-- Each call is made where the one before has stopped. -/
def Chain (source : Bytes) : Nat → List Call → Prop
  | _, [] => True
  | cursor, c :: calls => c.MadeAt source cursor ∧ Chain source c.stop calls

end Call

/-- The call that a scanner of the text makes. -/
def call (source : Bytes) (s : Scanner) : Call :=
  ⟨s.next.1, (skipGap s.rest s.position).cursor source, s.next.2.cursor source⟩

/-- The calls are the first ones that a scanner makes from an offset on, and what they find has the
place of the offset where it starts. -/
structure Makes (source : Bytes) (cursor : Nat) (s : Scanner) (calls : List Call) : Prop where
  outcomes : calls.map Call.outcome = Scanner.outcomes calls.length s
  chain : Call.Chain source cursor calls
  places : ∀ c ∈ calls, c.outcome.toToken.position = placeAt source c.start

theorem makes_nil (source : Bytes) (cursor : Nat) (s : Scanner) : s.Makes source cursor [] where
  outcomes := rfl
  chain := trivial
  places := by simp

/-- A call, and the calls after it. -/
theorem Makes.cons {source : Bytes} {cursor : Nat} {s : Scanner} {c : Call} {calls : List Call}
    (houtcome : c.outcome = s.next.1) (hmade : c.MadeAt source cursor)
    (hplace : c.outcome.toToken.position = placeAt source c.start)
    (h : s.next.2.Makes source c.stop calls) : s.Makes source cursor (c :: calls) where
  outcomes := by rw [List.map_cons, houtcome, h.outcomes]; rfl
  chain := ⟨hmade, h.chain⟩
  places := List.forall_mem_cons.2 ⟨hplace, h.places⟩

namespace AtOffset

variable {source : Bytes} {k : Nat} {s : Scanner}

/-- The lexeme at the offset is found there, and the scanner stands behind it afterwards. -/
theorem exists_lexeme {b : UInt8} {text : Bytes} {p : Position}
    (h : AtOffset source k ⟨b :: text, p⟩) (hb : isBlank b = false) :
    ∃ taken : Bytes, 0 < taken.length ∧ (∀ c ∈ taken, isBlank c = false) ∧
      source.extract k (k + taken.length) = taken ∧
      (b :: text).length - (Lexeme.read b text).rest.length = taken.length ∧
      AtOffset source (k + taken.length) ⟨(Lexeme.read b text).rest, p.right taken.length⟩ ∧
      (∀ kind value, (Lexeme.read b text).outcome = .ok (kind, value) → value = taken) := by
  obtain ⟨taken, htaken, hsolid⟩ := Lexeme.exists_taken hb text
  have hlength : (b :: text).length - (Lexeme.read b text).rest.length = taken.length := by
    rw [htaken]
    simp
  refine ⟨taken, ?_, hsolid, h.extract_eq htaken, hlength, ?_, ?_⟩
  · have hlt := Lexeme.read_length_lt b text
    omega
  · rw [htaken] at h
    exact h.right_append fun c hc => inLine_of_not_blank (hsolid c hc)
  · intro kind value houtcome
    have hread : Lexeme.read b text = ⟨.ok (kind, value), (Lexeme.read b text).rest⟩ := by
      rw [← houtcome]
    exact List.append_cancel_right ((Lexeme.read_ok_iff.1 hread).1.symm.trans htaken)

/-- **One call.**  From an offset on, the scanner finds what starts behind the gap, with its place,
and stands behind it afterwards. -/
theorem call_madeAt (h : s.AtOffset source k) :
    (s.call source).MadeAt source k ∧
      (s.call source).outcome.toToken.position = placeAt source (s.call source).start ∧
      s.next.2.AtOffset source (s.call source).stop := by
  have hhere := h.skipGap
  have hskip := rest_skipGap s.rest s.position
  have hgap : ∀ b ∈ s.rest.takeWhile isBlank, isBlank b = true :=
    List.all_eq_true.1 List.all_takeWhile
  have hextract := h.extract_eq (List.takeWhile_append_dropWhile (p := isBlank)).symm
  unfold call next
  generalize Scanner.skipGap s.rest s.position = here at hhere hskip
  generalize s.rest.takeWhile isBlank = gap at hhere hgap hextract
  obtain ⟨text, p⟩ := here
  have hstart : k ≤ k + gap.length := Nat.le_add_right _ _
  rw [← hextract] at hgap
  generalize k + gap.length = start at hhere hgap hstart
  rw [hhere.cursor_eq]
  cases text with
  | nil =>
      have hend : start = source.length := by
        have hlength := congrArg List.length hhere.rest
        have hbound := hhere.bound
        simp only [List.length_nil, List.length_drop] at hlength
        omega
      dsimp only
      rw [hhere.cursor_eq]
      exact ⟨⟨hstart, ⟨le_rfl, hhere.bound⟩, hgap, by simp, hend⟩, hhere.place, hhere⟩
  | cons b text =>
      have hb : isBlank b = false := isBlank_of_eq_dropWhile hskip
      obtain ⟨taken, hpos, hsolid, htaken, hlength, hafter, hvalue⟩ := hhere.exists_lexeme hb
      rw [← htaken] at hsolid
      have hmade : ∀ o : Outcome, o.FoundIn source start (start + taken.length) →
          Call.MadeAt source k ⟨o, start, start + taken.length⟩ := fun o hfound =>
        ⟨hstart, ⟨Nat.le_add_right _ _, hafter.bound⟩, hgap, hsolid, hfound⟩
      dsimp only
      rw [hlength]
      cases houtcome : (Lexeme.read b text).outcome with
      | ok found =>
          obtain ⟨kind, value⟩ := found
          have hfound : Outcome.FoundIn source start (start + taken.length)
              (.token ⟨kind, value, p⟩) :=
            ⟨Nat.lt_add_of_pos_right hpos, (hvalue kind value houtcome).trans htaken.symm⟩
          dsimp only
          rw [hafter.cursor_eq]
          exact ⟨hmade _ hfound, hhere.place, hafter⟩
      | error cause =>
          obtain ⟨⟨rest, hpiece⟩, -, hne⟩ := Lexeme.piece_of_error hb houtcome
          have hfound : Outcome.FoundIn source start (start + taken.length) (.error ⟨cause, p⟩) :=
            ⟨Nat.lt_add_of_pos_right hpos, hne, by rw [← hhere.rest]; exact ⟨rest, hpiece.symm⟩⟩
          dsimp only
          rw [hafter.cursor_eq]
          exact ⟨hmade _ hfound, hhere.place, hafter⟩

theorem exists_call (h : s.AtOffset source k) :
    ∃ c : Call, c.outcome = s.next.1 ∧ c.MadeAt source k ∧
      c.outcome.toToken.position = placeAt source c.start ∧ s.next.2.AtOffset source c.stop :=
  ⟨s.call source, rfl, h.call_madeAt⟩

/-- Any number of calls. -/
theorem exists_calls (h : s.AtOffset source k) (n : Nat) :
    ∃ calls : List Call, calls.length = n ∧ s.Makes source k calls := by
  induction n generalizing s k with
  | zero => exact ⟨[], rfl, makes_nil source k s⟩
  | succ n ih =>
      obtain ⟨c, houtcome, hmade, hplace, hafter⟩ := h.exists_call
      obtain ⟨calls, hlength, hcalls⟩ := ih hafter
      exact ⟨c :: calls, congrArg Nat.succ hlength, hcalls.cons houtcome hmade hplace⟩

end AtOffset

/-! ## Up to the end or to the first error -/

/-- Where the scanner stands behind a gap depends on the gap alone. -/
theorem skipGap_append {gap : Bytes} (hgap : ∀ b ∈ gap, isBlank b = true) {b : UInt8}
    (hb : isBlank b = false) (text : Bytes) (p : Position) :
    skipGap (gap ++ b :: text) p = ⟨b :: text, (skipGap gap p).position⟩ := by
  fun_induction skipGap gap p with
  | case1 p => exact skipGap_of_not_blank hb text p
  | case2 c rest p hspace ih =>
      rw [List.cons_append, skipGap_space hspace, ih (List.forall_mem_cons.1 hgap).2]
  | case3 rest p hspace ih =>
      rw [List.cons_append, skipGap_lineFeed, ih (List.forall_mem_cons.1 hgap).2]
  | case4 p =>
      -- a carriage return at the end of the gap stands alone: no line feed comes behind the gap
      have hne : (b :: text).head? ≠ some lineFeed := by simpa using (inLine_of_not_blank hb).1
      rw [List.cons_append, List.nil_append, skipGap_return hne, skipGap_of_not_blank hb]
  | case5 p rest hspace hfeed ih =>
      rw [List.cons_append, List.cons_append, skipGap_both,
        ih (List.forall_mem_cons.1 (List.forall_mem_cons.1 hgap).2).2]
  | case6 p c rest hc hspace hfeed ih =>
      have hne : (c :: (rest ++ b :: text)).head? ≠ some lineFeed := by simpa using hc
      rw [List.cons_append, List.cons_append, skipGap_return hne, ← List.cons_append,
        ih (List.forall_mem_cons.1 hgap).2]
  | case7 c rest p hspace hfeed hreturn =>
      have hc := (List.forall_mem_cons.1 hgap).1
      simp only [not_or] at hspace
      simp [isBlank, hspace, hfeed, hreturn] at hc

/-- A token is found also if the text is cut off somewhere behind it. -/
theorem next_of_cut {s s' : Scanner} {t : Token} (h : s.next = (.token t, s')) {front : Bytes}
    (hfront : front <+: s'.rest) {gap : Bytes} (hgap : ∀ b ∈ gap, isBlank b = true)
    (hrest : s.rest = gap ++ (t.value ++ s'.rest)) :
    next ⟨gap ++ (t.value ++ front), s.position⟩ = (.token t, ⟨front, s'.position⟩) := by
  obtain ⟨b, text, hhere, hread, hplace⟩ := next_eq_token_iff.1 h
  obtain ⟨htext, hlexical, hends⟩ := Lexeme.read_ok_iff.1 hread
  obtain ⟨b', tail, hvalue⟩ := List.exists_cons_of_ne_nil hlexical.ne_nil
  rw [hvalue, List.cons_append] at htext
  obtain ⟨rfl, rfl⟩ := List.cons.inj htext
  have hb : isBlank b = false := Lexeme.not_blank_of_read hread
  rw [hrest, hvalue, List.cons_append, skipGap_append hgap hb] at hhere
  refine next_eq_token_iff.2 ⟨b, tail ++ front, ?_, ?_, hplace⟩
  · rw [hvalue, List.cons_append, skipGap_append hgap hb]
    injection hhere with _ hposition
    rw [hposition]
  · refine Lexeme.read_ok_iff.2 ⟨by rw [hvalue, List.cons_append], hlexical, ?_⟩
    exact hends.of_isPrefix hfront

namespace AtOffset

variable {source : Bytes} {k : Nat} {s : Scanner}

/-- The tokens of a text are what the calls find until one finds the end. -/
theorem finished (h : s.AtOffset source k) {ts : List Token} (hyields : Yields s ts) :
    ∃ calls c p, s.Makes source k (calls ++ [c]) ∧
      calls.map Call.outcome = ts.map Outcome.token ∧ c.outcome = .finished p := by
  induction hyields generalizing k with
  | @finished s p finished =>
      obtain ⟨c, houtcome, hmade, hplace, -⟩ := h.exists_call
      exact ⟨[], c, p, (makes_nil source c.stop _).cons houtcome hmade hplace, rfl,
        houtcome.trans finished⟩
  | token token _ ih =>
      obtain ⟨c, houtcome, hmade, hplace, hafter⟩ := h.exists_call
      obtain ⟨calls, last, p, hcalls, htokens, hlast⟩ := ih hafter
      refine ⟨c :: calls, last, p, hcalls.cons houtcome hmade hplace, ?_, hlast⟩
      rw [List.map_cons, List.map_cons, htokens, houtcome, token]

/-- If the scanner stops at an error, the calls before have found tokens, and these are the tokens
of the text up to the start of the rejected piece. -/
theorem stopped (h : s.AtOffset source k) {e : LexicalError} (herror : s.tokens = .error e) :
    ∃ ts calls c, s.Makes source k (calls ++ [c]) ∧
      calls.map Call.outcome = ts.map Outcome.token ∧ c.outcome = .error e ∧ k ≤ c.start ∧
      Yields ⟨source.extract k c.start, s.position⟩ ts := by
  fun_induction Scanner.tokens s generalizing k with
  | case1 => cases herror
  | case2 s e' stopped =>
      cases herror
      obtain ⟨c, houtcome, hmade, hplace, -⟩ := h.exists_call
      refine ⟨[], [], c, (makes_nil source c.stop _).cons houtcome hmade hplace, rfl,
        houtcome.trans stopped, hmade.start_le, ?_⟩
      -- only the gap is left before the rejected piece
      have hempty : (Scanner.skipGap (source.extract k c.start) s.position).rest = [] := by
        rw [rest_skipGap, List.dropWhile_eq_nil_iff]
        exact hmade.gap
      exact .finished (next_finished_iff.2 (by rw [← hempty]))
  | case3 => cases herror
  | case4 s t token e' rest ih =>
      cases herror
      obtain ⟨c, houtcome, hmade, hplace, hafter⟩ := h.exists_call
      obtain ⟨ts, calls, last, hcalls, htokens, hlast, hle, hyields⟩ := ih hafter rest
      refine ⟨t :: ts, c :: calls, last, hcalls.cons houtcome hmade hplace, ?_, hlast, ?_, ?_⟩
      · rw [List.map_cons, List.map_cons, htokens, houtcome, token]
      · exact hmade.start_le.trans (hmade.stop_le.1.trans hle)
      · have hvalue : t.value = source.extract c.start c.stop := by
          have hfound := hmade.found
          rw [houtcome, token] at hfound
          exact hfound.2
        have hrest : s.rest = source.extract k c.start ++ (t.value ++ s.next.2.rest) := by
          rw [h.rest, hvalue, hafter.rest, extract_append_drop source hmade.stop_le.1,
            extract_append_drop source hmade.start_le]
        have hfront : source.extract c.stop last.start <+: s.next.2.rest := by
          rw [hafter.rest, List.extract_eq_take_drop]
          exact List.take_prefix _ _
        have hnext := next_of_cut (Prod.ext token rfl) hfront hmade.gap hrest
        rw [hvalue, extract_append_extract source hmade.stop_le.1 hle, extract_append_extract source
          hmade.start_le (hmade.stop_le.1.trans hle)] at hnext
        refine .token (congrArg Prod.fst hnext) ?_
        rw [hnext]
        exact hyields

end AtOffset

end Scanner

/-- **Places are exact.**  However often a scanner of a text is called, also after errors and after
the end, what it finds starts behind the gap where it was called, and has the place of the offset
where it starts.  So the tokens of a text are in the order of their places.  An error has the place
where the rejected piece starts, and the text before this piece can be cut into tokens: those that
were found before. -/
theorem places_exact (source : Bytes) :
    (∀ n, ∃ calls, calls.length = n ∧ (Scanner.ofSource source).Makes source 0 calls) ∧
    (∀ ts, tokenize source = .ok ts →
      (ts.Pairwise fun t u => t.position.Before u.position) ∧
      ∃ calls c p, (Scanner.ofSource source).Makes source 0 (calls ++ [c]) ∧
        calls.map Scanner.Call.outcome = ts.map .token ∧ c.outcome = .finished p) ∧
    ∀ e, tokenize source = .error e →
      ∃ ts calls c, (Scanner.ofSource source).Makes source 0 (calls ++ [c]) ∧
        calls.map Scanner.Call.outcome = ts.map .token ∧ c.outcome = .error e ∧
        e.position = placeAt source c.start ∧ tokenize (source.take c.start) = .ok ts := by
  have hstart := Scanner.atOffset_ofSource source
  refine ⟨hstart.exists_calls, ?_, ?_⟩
  · intro ts htokens
    have hyields := tokenize_ok_iff.1 htokens
    exact ⟨hyields.ascending, hstart.finished hyields⟩
  · intro e herror
    obtain ⟨ts, calls, c, hcalls, htokens, hlast, -, hyields⟩ := hstart.stopped herror
    refine ⟨ts, calls, c, hcalls, htokens, hlast, ?_, ?_⟩
    · have hplace := hcalls.places c (by simp)
      rwa [hlast] at hplace
    · rw [List.extract_eq_take_drop, List.drop_zero, Nat.sub_zero] at hyields
      exact tokenize_ok_iff.2 hyields

/-- Three lines that end in different ways, the last with a second point in a number. -/
def secondPoint : Bytes :=
  utf8 "x = 1\r\ny\r = 2.3.4"

/-- The number is rejected, and so is its second point; the digit behind it is a token again. -/
theorem places_exact_secondPoint :
    (∃ calls, (Scanner.ofSource secondPoint).Makes secondPoint 0 calls ∧
      calls.map (fun c => placeAt secondPoint c.start) =
        [⟨1, 1⟩, ⟨1, 3⟩, ⟨1, 5⟩, ⟨2, 1⟩, ⟨3, 2⟩, ⟨3, 4⟩, ⟨3, 7⟩, ⟨3, 8⟩, ⟨3, 9⟩]) ∧
    ∃ e, tokenize secondPoint = .error e ∧
      ∃ (ts : List Token) (c : Scanner.Call), c.outcome = .error e ∧
        e.position = placeAt secondPoint c.start ∧
        tokenize (secondPoint.take c.start) = .ok ts := by
  obtain ⟨hcalls, -, hstopped⟩ := places_exact secondPoint
  constructor
  · obtain ⟨calls, hlength, hmakes⟩ := hcalls 9
    refine ⟨calls, hmakes, ?_⟩
    have hplaces : (Scanner.outcomes 9 (.ofSource secondPoint)).map (fun o => o.toToken.position) =
        [⟨1, 1⟩, ⟨1, 3⟩, ⟨1, 5⟩, ⟨2, 1⟩, ⟨3, 2⟩, ⟨3, 4⟩, ⟨3, 7⟩, ⟨3, 8⟩, ⟨3, 9⟩] := by
      decide +kernel
    rw [← hplaces, ← hlength, ← hmakes.outcomes, List.map_map]
    exact List.map_congr_left fun c hc => (hmakes.places c hc).symm
  · have hnone : (tokenize secondPoint).toOption = none := by decide +kernel
    cases herror : tokenize secondPoint with
    | ok ts =>
        rw [herror] at hnone
        cases hnone
    | error e =>
        obtain ⟨ts, -, c, -, -, hlast, hplace, hbefore⟩ := hstopped e herror
        exact ⟨e, rfl, ts, c, hlast, hplace, hbefore⟩

end StoreLint
