import Mathlib.Data.Nat.Count
import StoreLint.Proofs.Offsets

/-!
# The scanner gets through every text

A scanner can be called as often as one likes: it goes on after errors, and after the end it stays
there.  This file follows all these calls over one text and shows that nothing is read twice and
nothing but blanks is left out, so that the calls run out of text.

* `Scanner.after`, `Scanner.nthCall`: the scanner after a number of calls, and the call that it
  makes then.
* `Scanner.atOffset_after`: after any number of calls the scanner is somewhere in the text.
* `Scanner.next_next_of_finished`: one call at the end changes nothing.
* `Scanner.count_le_cursor`: every call before the end has moved the cursor.
* `Scanner.exists_stop`: collecting tokens ends at the first call that finds no token.
* `Scanner.makes_progress` puts these together.
-/

namespace StoreLint
namespace Scanner

/-- The scanner after a number of calls. -/
def after (n : Nat) (s : Scanner) : Scanner :=
  (fun s => s.next.2)^[n] s

theorem after_succ (n : Nat) (s : Scanner) : s.after (n + 1) = (s.after n).next.2 :=
  Function.iterate_succ_apply' _ n s

theorem after_next (n : Nat) (s : Scanner) : s.next.2.after n = s.after (n + 1) :=
  (Function.iterate_succ_apply _ n s).symm

/-- The outcomes are those of the calls that are made one after the other. -/
theorem outcomes_eq (n : Nat) (s : Scanner) :
    outcomes n s = (List.range n).map fun i => (s.after i).next.1 := by
  induction n generalizing s with
  | zero => rfl
  | succ n ih =>
      have hlater : (fun i => (s.next.2.after i).next.1) = fun i => (s.after (i + 1)).next.1 := by
        funext i
        rw [after_next]
      rw [outcomes, ih, hlater, List.range_succ_eq_map, List.map_cons, List.map_map]
      rfl

/-- The call on a scanner of the text that comes after `n` other calls. -/
def nthCall (source : Bytes) (n : Nat) : Call :=
  ((ofSource source).after n).call source

/-- The offset where the scanner of a text stands after a number of calls. -/
def cursorAfter (source : Bytes) (n : Nat) : Nat :=
  ((ofSource source).after n).cursor source

/-- The call returns the token of the end. -/
def Call.AtEnd (c : Call) : Prop :=
  c.outcome.toToken.kind = .endOfInput

instance : DecidablePred Call.AtEnd :=
  fun c => inferInstanceAs (Decidable (c.outcome.toToken.kind = .endOfInput))

/-! ## One call -/

/-- No token that is read, and no error, looks like the end. -/
theorem atEnd_iff {source : Bytes} {s : Scanner} :
    (s.call source).AtEnd ↔ ∃ p, s.next.1 = .finished p := by
  show s.next.1.toToken.kind = .endOfInput ↔ _
  cases hnext : s.next.1 with
  | token t =>
      have hread := (next_token hnext).1.isRead
      constructor
      · intro hkind
        rw [show t.kind = .endOfInput from hkind] at hread
        cases hread
      · rintro ⟨p, hp⟩
        cases hp
  | error e => simp [Outcome.toToken, LexicalError.token]
  | finished p => simp [Outcome.toToken]

/-- At the end, a call finds the end once more and leaves the scanner where it is. -/
theorem next_next_of_finished {s : Scanner} {p : Position} (h : s.next.1 = .finished p) :
    s.next.2.next = s.next := by
  have hnext : s.next = (.finished p, ⟨[], p⟩) := by
    unfold next
    rw [next_finished_iff.1 h]
  rw [hnext]
  rfl

/-! ## Any number of calls -/

section Calls

variable (source : Bytes)

/-- After any number of calls, the scanner stands in the text. -/
theorem atOffset_after (n : Nat) :
    ((ofSource source).after n).AtOffset source (cursorAfter source n) := by
  have hsome : ∃ k, ((ofSource source).after n).AtOffset source k := by
    induction n with
    | zero => exact ⟨0, atOffset_ofSource source⟩
    | succ n ih =>
        obtain ⟨k, hk⟩ := ih
        rw [after_succ]
        exact ⟨_, hk.call_madeAt.2.2⟩
  obtain ⟨k, hk⟩ := hsome
  rw [cursorAfter, hk.cursor_eq]
  exact hk

theorem nthCall_madeAt (n : Nat) : (nthCall source n).MadeAt source (cursorAfter source n) :=
  (atOffset_after source n).call_madeAt.1

theorem stop_nthCall (n : Nat) : (nthCall source n).stop = cursorAfter source (n + 1) := by
  rw [cursorAfter, after_succ]
  rfl

variable {source}

/-- A call that does not find the end takes at least one byte. -/
theorem start_lt_stop_nthCall {n : Nat} (h : ¬ (nthCall source n).AtEnd) :
    (nthCall source n).start < (nthCall source n).stop := by
  refine (nthCall_madeAt source n).start_lt_stop ?_
  intro p hp
  exact h (atEnd_iff.2 ⟨p, hp⟩)

theorem cursorAfter_mono {m n : Nat} (h : m ≤ n) : cursorAfter source m ≤ cursorAfter source n := by
  refine monotone_nat_of_le_succ (f := cursorAfter source) ?_ h
  intro i
  rw [← stop_nthCall]
  exact (nthCall_madeAt source i).start_le.trans (nthCall_madeAt source i).stop_le.1

/-- There are no more calls before the end than bytes that the scanner has left behind. -/
theorem count_le_cursor (n : Nat) :
    Nat.count (fun i => ¬ (nthCall source i).AtEnd) n ≤ cursorAfter source n := by
  induction n with
  | zero => simp
  | succ n ih =>
      have hstart := (nthCall_madeAt source n).start_le
      have hstop := stop_nthCall source n
      rw [Nat.count_succ]
      by_cases hend : (nthCall source n).AtEnd
      · have hle := (nthCall_madeAt source n).stop_le.1
        rw [if_neg (not_not.2 hend)]
        omega
      · have hlt := start_lt_stop_nthCall hend
        rw [if_pos hend]
        omega

/-- Once the end is found, all further calls do the same. -/
theorem next_after_of_atEnd {m n : Nat} (h : (nthCall source m).AtEnd) (hmn : m ≤ n) :
    ((ofSource source).after n).next = ((ofSource source).after m).next := by
  obtain ⟨p, hp⟩ := atEnd_iff.1 h
  induction n, hmn using Nat.le_induction with
  | base => rfl
  | succ n _ ih =>
      rw [after_succ, next_next_of_finished (p := p) (by rw [ih, hp]), ih]

end Calls

/-! ## Collecting tokens -/

/-- The tokens are collected by calls of which all but the last find a token. -/
theorem exists_stop (s : Scanner) :
    ∃ n ts, ((List.range n).map fun i => (s.after i).next.1) = ts.map Outcome.token ∧
      ((∃ p, (s.after n).next.1 = .finished p) ∧ s.tokens = .ok ts ∨
        ∃ e, (s.after n).next.1 = .error e ∧ s.tokens = .error e) := by
  -- the rest gets shorter with every token
  induction hlength : s.rest.length using Nat.strong_induction_on generalizing s with
  | _ length ih =>
      cases hnext : s.next.1 with
      | finished p => exact ⟨0, [], rfl, .inl ⟨⟨p, hnext⟩, tokens_of_finished hnext⟩⟩
      | error e => exact ⟨0, [], rfl, .inr ⟨e, hnext, tokens_of_error hnext⟩⟩
      | token t =>
          have hlt : s.next.2.rest.length < length := by
            rw [← hlength]
            apply next_length_lt
            intro p
            rw [hnext]
            exact Outcome.noConfusion
          obtain ⟨n, ts, hfound, hlast⟩ := ih _ hlt s.next.2 rfl
          refine ⟨n + 1, t :: ts, ?_, ?_⟩
          · rw [← outcomes_eq] at hfound ⊢
            rw [outcomes, hfound, hnext, List.map_cons]
          · rw [after_next] at hlast
            rw [tokens_of_token hnext]
            rcases hlast with ⟨hend, htokens⟩ | ⟨e, herror, htokens⟩
            · exact .inl ⟨hend, by rw [htokens]; rfl⟩
            · exact .inr ⟨e, herror, by rw [htokens]; rfl⟩

/-! ## All together -/

/-- How the calls on one scanner get through a text. -/
structure Progresses (source : Bytes) : Prop where
  /-- The calls are those that are made one after the other. -/
  outcomes : ∀ n, Scanner.outcomes n (ofSource source) =
    (List.range n).map fun i => (nthCall source i).outcome
  /-- The cursor never passes the end, and the text behind it is what is left to read. -/
  bounded : ∀ n, cursorAfter source n ≤ source.length ∧
    ((ofSource source).after n).rest = source.drop (cursorAfter source n)
  /-- A call skips blanks from the cursor on, and then takes bytes that are not blank. -/
  made : ∀ n, (nthCall source n).MadeAt source (cursorAfter source n) ∧
    (nthCall source n).stop = cursorAfter source (n + 1)
  /-- If a call does not find the end, it takes at least one such byte. -/
  takes : ∀ n, ¬ (nthCall source n).AtEnd →
    ∃ b ∈ source.extract (nthCall source n).start (nthCall source n).stop, isBlank b = false
  /-- What is taken by different calls does not overlap, and comes in their order. -/
  inOrder : ∀ m n, m < n → (nthCall source m).stop ≤ (nthCall source n).start
  /-- There are only blanks between what one call takes and what the next one does. -/
  separated : ∀ n, ∀ b ∈ source.extract (nthCall source n).stop (nthCall source (n + 1)).start,
    isBlank b = true
  /-- At most as many calls as there are bytes find anything else than the end. -/
  atMost : ∀ n, Nat.count (fun i => ¬ (nthCall source i).AtEnd) n ≤ source.length
  /-- Behind the end, every call returns the same token. -/
  stays : ∀ m n, (nthCall source m).AtEnd → m ≤ n →
    (nthCall source n).outcome.toToken = (nthCall source m).outcome.toToken
  /-- Collecting the tokens takes at most one call more than there are bytes.  All calls but the
  last find tokens, and the last finds the end or an error. -/
  stops : ∃ n ts, n ≤ source.length ∧
    ((List.range n).map fun i => (nthCall source i).outcome) = ts.map .token ∧
    ((nthCall source n).AtEnd ∧ tokenize source = .ok ts ∨
      ∃ e, (nthCall source n).outcome = .error e ∧ tokenize source = .error e)

/-- **The scanner makes progress** on every text, whatever the calls find in it. -/
theorem makes_progress (source : Bytes) : Progresses source where
  outcomes n := outcomes_eq n (ofSource source)
  bounded n := ⟨(atOffset_after source n).bound, (atOffset_after source n).rest⟩
  made n := ⟨nthCall_madeAt source n, stop_nthCall source n⟩
  takes n h := by
    have hlt := start_lt_stop_nthCall h
    have hmade := nthCall_madeAt source n
    obtain ⟨b, hb⟩ : ∃ b, source[(nthCall source n).start]? = some b :=
      ⟨_, List.getElem?_eq_getElem (hlt.trans_le hmade.stop_le.2)⟩
    have hmem := mem_extract hb le_rfl hlt
    exact ⟨b, hmem, hmade.solid b hmem⟩
  inOrder m n h := by
    rw [stop_nthCall]
    exact (cursorAfter_mono h).trans (nthCall_madeAt source n).start_le
  separated n := by
    rw [stop_nthCall]
    exact (nthCall_madeAt source (n + 1)).gap
  atMost n := (count_le_cursor n).trans (atOffset_after source n).bound
  stays m n h hmn := by
    show ((ofSource source).after n).next.1.toToken = ((ofSource source).after m).next.1.toToken
    rw [next_after_of_atEnd h hmn]
  stops := by
    obtain ⟨n, ts, hfound, hlast⟩ := exists_stop (ofSource source)
    refine ⟨n, ts, ?_, hfound, ?_⟩
    · -- none of the first `n` calls finds the end, so that each of them has taken a byte
      have hcount : Nat.count (fun i => ¬ (nthCall source i).AtEnd) n = n := by
        rw [Nat.count_iff_forall]
        intro i hi hend
        obtain ⟨p, hp⟩ := atEnd_iff.1 hend
        have hmem : ((ofSource source).after i).next.1 ∈ ts.map Outcome.token := by
          rw [← hfound]
          exact List.mem_map_of_mem (List.mem_range.2 hi)
        rw [hp] at hmem
        simp at hmem
      rw [← hcount]
      exact (count_le_cursor n).trans (atOffset_after source n).bound
    · rcases hlast with ⟨hend, htokens⟩ | ⟨e, herror, htokens⟩
      · exact .inl ⟨atEnd_iff.2 hend, htokens⟩
      · exact .inr ⟨e, herror, htokens⟩

end Scanner
end StoreLint
