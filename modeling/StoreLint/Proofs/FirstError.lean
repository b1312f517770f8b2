import Mathlib.Data.List.Basic
import StoreLint.Proofs.Flattening
import StoreLint.Proofs.Grammar

/-!
# Errors of grammar are at the first offending token

The parser reads from left to right and stops at the first token that it cannot read.  This file
shows that it stops neither too late nor too early: some program begins with the tokens before the
error, and none begins with these tokens and the offending one.

* `State.completable`: whatever the parser has read, some tokens complete it to a program.
* `run_error`: a run fails where it is stuck, after tokens that it has read.
* `LoneMinus`: the one place where the parser looks ahead.  A minus where an operand is due has to
  be the sign of a number, and only the token after it tells.  The error is at the minus then.
* `error_at_first_offender` puts these together.

A token for the end of the input is ignored in the last place and refused in any other.  So there
are lists that are accepted, while a longer list is refused at their last token:
`ending_inside_refused`.
-/

namespace StoreLint

open StoreLint.Parser

namespace Parser

/-! ## Completing what has been read -/

namespace State

/-- Some tokens complete what has been read to a program. -/
def Completable (s : State) : Prop :=
  ∃ us s' done, Reads s us s' ∧ s'.settled = ⟨[], done, .statement⟩ ∧ done.isEmpty = false

theorem Completable.of_reads {s s' : State} {ts : List Token} (h : Reads s ts s')
    (h' : s'.Completable) : s.Completable := by
  obtain ⟨us, s'', done, hreads, hsettled, hsome⟩ := h'
  exact ⟨ts ++ us, s'', done, h.append hreads, hsettled, hsome⟩

/-- In a list of statements that is not empty, all open statements can be closed. -/
theorem completable_of_some (frames : List Frame) : ∀ (s : State) (done : Block),
    s.settled = ⟨frames, done, .statement⟩ → done.isEmpty = false → s.Completable := by
  induction frames with
  | nil =>
      intro s done hs hsome
      exact ⟨[], s, done, .nil s, hs, hsome⟩
  | cons frame frames ih =>
      intro s done hs hsome
      have hend : ∃ done', Moves (.ofKind .endWord) s.settled ⟨frames, done', .statement⟩ ∧
          done'.isEmpty = false := by
        rw [hs]
        cases frame with
        | yes line cond before => exact ⟨_, .endYes hsome rfl, rfl⟩
        | no line cond yes before => exact ⟨_, .endNo hsome rfl, rfl⟩
        | body line cond before => exact ⟨_, .endBody hsome rfl, rfl⟩
      obtain ⟨done', hmove, hsome'⟩ := hend
      have hreads : Reads s [.ofKind .endWord] ⟨frames, done', .statement⟩ :=
        .cons_settled rfl hmove (.nil _)
      exact .of_reads hreads (ih _ done' rfl hsome')

/-- The variable `a` is an expression. -/
theorem derives_name : Grammar.Derives .expression [.ofName 0x61] :=
  .operand (.letter ⟨rfl, 0x61, rfl, rfl⟩)

/-- In a list of statements one more statement can come, and then the list can be closed. -/
theorem completable_of_settled {s : State} {frames : List Frame} {done : Block}
    (hs : s.settled = ⟨frames, done, .statement⟩) : s.Completable := by
  have hstmt : Grammar.Derives .statement [.ofName 0x61, .ofKind .assign, .ofName 0x61] :=
    .assign ⟨rfl, 0x61, rfl, rfl⟩ rfl derives_name
  obtain ⟨s', done', hreads, hs', hsome⟩ := hstmt.accepted s frames done hs
  exact .of_reads hreads (completable_of_some frames s' done' hs' hsome)

/-- After an operand the open brackets can be closed, and then the statement goes on. -/
theorem completable_operator (frames : List Frame) (done : Block) (purpose : Purpose)
    (outer : List Operands) : ∀ (before : Operands) (last : Expr),
      Completable ⟨frames, done, .operator purpose outer before last⟩ := by
  induction outer with
  | nil =>
      intro before last
      cases purpose with
      | value position target => exact completable_of_settled rfl
      | branch line => exact completable_of_settled rfl
      | loop line => exact completable_of_settled rfl
  | cons around outer ih =>
      intro before last
      have hclose : Moves (.ofKind .closeBracket)
          ⟨frames, done, .operator purpose (around :: outer) before last⟩
          ⟨frames, done, .operator purpose outer around (.bracket (Chain.group before last))⟩ :=
        .closeBracket rfl
      exact .of_reads (.single hclose) (ih _ _)

theorem completable_operand (frames : List Frame) (done : Block) (purpose : Purpose)
    (outer : List Operands) (before : Operands) :
    Completable ⟨frames, done, .operand purpose outer before⟩ := by
  obtain ⟨before', last, hname⟩ := derives_name.accepted frames done purpose outer before
  exact .of_reads hname (completable_operator frames done purpose outer before' last)

/-- **Whatever the parser has read can be completed to a program.** -/
theorem completable (s : State) : s.Completable := by
  obtain ⟨frames, done, phase⟩ := s
  cases phase with
  | statement => exact completable_of_settled rfl
  | target position name =>
      have hassign : Moves (.ofKind .assign) ⟨frames, done, .target position name⟩
          ⟨frames, done, .operand (.value position name) [] []⟩ := .assign rfl
      exact .of_reads (.single hassign) (completable_operand _ _ _ _ _)
  | operand purpose outer before => exact completable_operand frames done purpose outer before
  | negative purpose outer before minus =>
      -- only a number can follow the sign
      obtain ⟨value, hvalue⟩ : ∃ value, Number.read? (utf8 "-" ++ [0x31]) = some value :=
        Option.isSome_iff_exists.1 (by decide +kernel)
      have hnumber : Moves (.ofNumeral [0x31]) ⟨frames, done, .negative purpose outer before minus⟩
          ⟨frames, done, .operator purpose outer before (.number (utf8 "-" ++ [0x31]) value)⟩ :=
        .negative rfl hvalue
      exact .of_reads (.single hnumber) (completable_operator _ _ _ _ _ _)
  | operator purpose outer before last =>
      exact completable_operator frames done purpose outer before last

end State

/-! ## Where a run is stuck -/

/-- The parser cannot read the first of the tokens, or the end of the input if there is none. -/
inductive Stuck (ending : Token) : State → List Token → Failure → Prop
  | finish {s : State} {f : Failure} (failed : s.finish ending = .error f) : Stuck ending s [] f
  | step {s : State} {t : Token} {ts : List Token} {f : Failure} (failed : s.step t = .error f) :
      Stuck ending s (t :: ts) f

/-- A run that fails has read tokens and is stuck after them. -/
theorem run_error {ending : Token} {index : Nat} {s : State} {ts : List Token} {e : GrammarError}
    (h : run ending index s ts = .error e) :
    ∃ pre post s' f, ts = pre ++ post ∧ Reads s pre s' ∧ Stuck ending s' post f ∧
      e = f.at (index + pre.length) := by
  induction ts generalizing index s with
  | nil =>
      rw [run] at h
      cases hfinish : s.finish ending with
      | ok b =>
          rw [hfinish] at h
          cases h
      | error f =>
          rw [hfinish] at h
          cases h
          exact ⟨[], [], s, f, rfl, .nil s, .finish hfinish, rfl⟩
  | cons t ts ih =>
      rw [run] at h
      cases hstep : s.step t with
      | ok s₁ =>
          rw [hstep] at h
          obtain ⟨pre, post, s', f, rfl, hreads, hstuck, rfl⟩ := ih h
          refine ⟨t :: pre, post, s', f, rfl, .cons hstep hreads, hstuck, ?_⟩
          rw [List.length_cons, Nat.add_assoc, Nat.add_comm 1]
      | error f =>
          rw [hstep] at h
          cases h
          exact ⟨[], t :: ts, s, f, rfl, .nil s, .step hstep, rfl⟩

namespace State

/-- The minus that was read last, if it was read where an operand is due. -/
def minus? (s : State) : Option Token :=
  match s.phase with
  | .negative _ _ _ minus => some minus
  | _ => none

theorem closeList_error {s : State} {t : Token} {f : Failure} (h : s.closeList t = .error f) :
    ∃ cause, f = .here cause t := by
  unfold closeList at h
  repeat' split at h
  all_goals cases h
  all_goals exact ⟨_, rfl⟩

theorem stepStatement_error {s : State} {t : Token} {f : Failure}
    (h : s.stepStatement t = .error f) : ∃ cause, f = .here cause t := by
  unfold stepStatement at h
  split at h
  · split at h
    · cases h
    · cases h
      exact ⟨_, rfl⟩
  · cases h
  · cases h
  · exact closeList_error h

theorem stepNumber_error {s : State} {purpose : Purpose} {outer : List Operands}
    {before : Operands} {text : Bytes} {t : Token} {f : Failure}
    (h : s.stepNumber purpose outer before text t = .error f) : ∃ cause, f = .here cause t := by
  unfold stepNumber at h
  split at h
  · cases h
  · cases h
    exact ⟨_, rfl⟩

theorem stepOperand_error {s : State} {purpose : Purpose} {outer : List Operands}
    {before : Operands} {t : Token} {f : Failure}
    (h : s.stepOperand purpose outer before t = .error f) : ∃ cause, f = .here cause t := by
  unfold stepOperand at h
  split at h
  · split at h
    · cases h
    · cases h
      exact ⟨_, rfl⟩
  · exact stepNumber_error h
  · cases h
  · cases h
  · cases h
    exact ⟨_, rfl⟩
  · cases h
    exact ⟨_, rfl⟩

theorem stepOperator_error {s : State} {purpose : Purpose} {outer : List Operands}
    {before : Operands} {last : Expr} {t : Token} {f : Failure}
    (h : s.stepOperator purpose outer before last t = .error f) : ∃ cause, f = .here cause t := by
  unfold stepOperator at h
  split at h
  · cases h
  · dsimp only at h
    split at h
    · exact stepStatement_error h
    · split at h
      · cases h
      · cases h
        exact ⟨_, rfl⟩

theorem finishList_error {s : State} {ending : Token} {f : Failure}
    (h : s.finishList ending = .error f) : ∃ cause, f = .here cause ending := by
  unfold finishList at h
  repeat' split at h
  all_goals cases h
  all_goals exact ⟨_, rfl⟩

/-- A step fails at its own token, or at a minus of which that token shows that it is no sign. -/
theorem step_error {s : State} {t : Token} {f : Failure} (h : s.step t = .error f) :
    (∃ cause, f = .here cause t) ∨
      ∃ cause minus, f = ⟨cause, minus, true⟩ ∧ s.minus? = some minus ∧ t.kind ≠ .number := by
  obtain ⟨frames, done, phase⟩ := s
  cases phase with
  | statement => exact .inl (stepStatement_error h)
  | target position name =>
      simp only [step] at h
      split at h
      · cases h
      · cases h
        exact .inl ⟨_, rfl⟩
  | operand purpose outer before => exact .inl (stepOperand_error h)
  | negative purpose outer before minus =>
      simp only [step] at h
      split at h
      · exact .inl (stepNumber_error h)
      · rename_i hkind
        cases h
        exact .inr ⟨_, minus, rfl, rfl, hkind⟩
  | operator purpose outer before last => exact .inl (stepOperator_error h)

/-- The end of the input fails at itself, or at a minus that nothing follows. -/
theorem finish_error {s : State} {ending : Token} {f : Failure} (h : s.finish ending = .error f) :
    (∃ cause, f = .here cause ending) ∨
      ∃ cause minus, f = ⟨cause, minus, true⟩ ∧ s.minus? = some minus := by
  obtain ⟨frames, done, phase⟩ := s
  cases phase with
  | statement => exact .inl (finishList_error h)
  | target position name =>
      cases h
      exact .inl ⟨_, rfl⟩
  | operand purpose outer before =>
      cases h
      exact .inl ⟨_, rfl⟩
  | negative purpose outer before minus =>
      cases h
      exact .inr ⟨_, minus, rfl, rfl⟩
  | operator purpose outer before last =>
      cases outer with
      | nil => exact .inl (finishList_error h)
      | cons around outer =>
          cases h
          exact .inl ⟨_, rfl⟩

end State

/-- The offending token is the first that cannot be read, or the end of the input if there is none.
Otherwise it is a minus that was read before, and no number follows it. -/
theorem Stuck.cases {ending : Token} {s : State} {post : List Token} {f : Failure}
    (h : Stuck ending s post f) :
    (∃ cause, f = .here cause (post.headD ending)) ∨
      ∃ cause minus, f = ⟨cause, minus, true⟩ ∧ s.minus? = some minus ∧
        ∀ t, post.head? = some t → t.kind ≠ .number := by
  cases h with
  | finish failed =>
      rcases State.finish_error failed with here | ⟨cause, minus, hf, hminus⟩
      · exact .inl here
      · exact .inr ⟨cause, minus, hf, hminus, fun t ht => by cases ht⟩
  | step failed =>
      rcases State.step_error failed with here | ⟨cause, minus, hf, hminus, hkind⟩
      · exact .inl here
      · refine .inr ⟨cause, minus, hf, hminus, ?_⟩
        rintro u ⟨⟩
        exact hkind

/-! ## A minus where an operand is due -/

end Parser

/-- Is an operand due after a token of this kind? -/
def Token.Kind.awaitsOperand (kind : Token.Kind) : Bool :=
  kind.isOperator || kind == .assign || kind == .openBracket || kind == .ifWord ||
    kind == .whileWord

namespace Parser

/-- The token with number `i` is a minus where an operand is due, and no number follows it. -/
structure LoneMinus (ts : List Token) (i : Nat) : Prop where
  minus : ∃ t, ts[i]? = some t ∧ t.kind = .minus
  due : ∃ t, (ts.take i).getLast? = some t ∧ t.kind.awaitsOperand = true
  alone : ∀ t, ts[i + 1]? = some t → t.kind ≠ .number

namespace State

/-- Is an operand due? -/
def due (s : State) : Bool :=
  match s.phase with
  | .operand _ _ _ => true
  | _ => false

end State

namespace Moves

variable {t : Token} {s s' : State}

/-- An operand is due only after certain tokens. -/
theorem awaitsOperand_of_due (h : Moves t s s') (hdue : s'.due = true) :
    t.kind.awaitsOperand = true := by
  induction h with
  | branch kind | loop kind | assign kind | openBracket kind => rw [kind]; rfl
  | @operator _ _ _ _ _ _ op kind =>
      have hop : t.kind.isOperator = true := by rw [← Grammar.isSome_operator?, kind]; rfl
      simp [Token.Kind.awaitsOperand, hop]
  | deliver _ _ ih => exact ih hdue
  | _ => cases hdue

/-- A minus is remembered only where an operand was due. -/
theorem eq_of_minus? {minus : Token} (h : Moves t s s') (hminus : s'.minus? = some minus) :
    minus = t ∧ t.kind = .minus ∧ s.due = true := by
  induction h with
  | minus kind =>
      cases hminus
      exact ⟨rfl, kind, rfl⟩
  | deliver _ _ ih =>
      have hdue := (ih hminus).2.2
      rw [State.due, State.deliver_phase] at hdue
      cases hdue
  | _ => cases hminus

end Moves

/-- The parser that remembers a minus has just read it, and an operand was due before. -/
theorem Reads.exists_minus {ts : List Token} {s : State} {minus : Token} (h : Reads .start ts s)
    (hminus : s.minus? = some minus) :
    ∃ us s', ts = us ++ [minus] ∧ minus.kind = .minus ∧ Reads .start us s' ∧
      ∃ t, us.getLast? = some t ∧ t.kind.awaitsOperand = true := by
  rcases List.eq_nil_or_concat' ts with rfl | ⟨us, t, rfl⟩
  · cases h
    cases hminus
  · obtain ⟨s', hus, hmove⟩ := h.exists_last_move
    obtain ⟨rfl, hkind, hdue⟩ := hmove.eq_of_minus? hminus
    refine ⟨us, s', rfl, hkind, hus, ?_⟩
    -- the start is no place for an operand, so there is a token before the minus
    rcases List.eq_nil_or_concat' us with rfl | ⟨vs, u, rfl⟩
    · cases hus
      cases hdue
    · obtain ⟨s'', -, hmove'⟩ := hus.exists_last_move
      exact ⟨u, by simp, hmove'.awaitsOperand_of_due hdue⟩

/-! ## What accepted lists begin with -/

/-- Some accepted list begins with the tokens. -/
def Viable (ts : List Token) : Prop :=
  ∃ us b, ts <+: us ∧ parse us = .ok b

/-- At most a token for the end of the input is dropped. -/
theorem dropEnding_cases (ts : List Token) :
    dropEnding ts = ts ∨ ∃ t, t.kind = .endOfInput ∧ ts = dropEnding ts ++ [t] := by
  rcases List.eq_nil_or_concat' ts with rfl | ⟨us, t, rfl⟩
  · exact .inl rfl
  · unfold dropEnding
    rw [List.getLast?_concat, List.dropLast_concat]
    dsimp only
    by_cases hkind : t.kind = .endOfInput
    · exact .inr ⟨t, hkind, by rw [if_pos hkind]⟩
    · exact .inl (if_neg hkind)

/-- Tokens that can be read have no token for the end of the input. -/
theorem Reads.dropEnding_eq {s s' : State} {ts : List Token} (h : Reads s ts s') :
    dropEnding ts = ts := by
  rcases dropEnding_cases ts with heq | ⟨t, hkind, hts⟩
  · exact heq
  · rw [hts] at h
    obtain ⟨_, -, hmove⟩ := h.exists_last_move
    exact absurd hkind (hmove.ne_stray (.inr (.inl rfl)))

/-- What can be read is the beginning of an accepted list. -/
theorem Reads.viable {ts : List Token} {s : State} (h : Reads .start ts s) : Viable ts := by
  obtain ⟨us, s', done, hreads, hsettled, hsome⟩ := s.completable
  have hall := h.append hreads
  refine ⟨ts ++ us, done.reverse, List.prefix_append ts us, ?_⟩
  rw [parse, hall.dropEnding_eq]
  exact run_ok_iff.2 ⟨s', done, hall, hsettled, hsome, rfl⟩

/-- The beginning of an accepted list can be read, unless it is the whole list with a token for the
end of the input in the last place. -/
theorem reads_of_begins {ts us : List Token} {t : Token} {b : Block} (hbegins : ts ++ [t] <+: us)
    (h : parse us = .ok b) :
    (∃ s, Reads .start (ts ++ [t]) s) ∨
      us = ts ++ [t] ∧ t.kind = .endOfInput ∧
        ∃ s done, Reads .start ts s ∧ s.settled = ⟨[], done, .statement⟩ := by
  obtain ⟨s, done, hreads, hsettled, -, -⟩ := run_ok_iff.1 h
  have hread : ts ++ [t] <+: dropEnding us → ∃ s, Reads .start (ts ++ [t]) s := by
    rintro ⟨vs, hvs⟩
    rw [← hvs] at hreads
    obtain ⟨s', hs', -⟩ := hreads.of_append
    exact ⟨s', hs'⟩
  rcases dropEnding_cases us with heq | ⟨u, hkind, hus⟩
  · rw [heq] at hread
    exact .inl (hread hbegins)
  · rw [hus, List.prefix_concat_iff] at hbegins
    rcases hbegins with hwhole | hbegins
    · obtain ⟨rfl, hu⟩ := List.append_inj' hwhole rfl
      cases hu
      exact .inr ⟨hus, hkind, s, done, hreads, hsettled⟩
    · exact .inl (hread hbegins)

/-- After a minus where an operand is due, the input cannot end. -/
theorem State.minus?_of_settled {s : State} {frames : List Frame} {done : Block}
    (h : s.settled = ⟨frames, done, .statement⟩) : s.minus? = none := by
  obtain ⟨frames', done', phase⟩ := s
  cases phase with
  | negative purpose outer before minus => cases h
  | _ => rfl

/-! ## The error of a token list -/

end Parser

/-- The error is at one of the tokens, or at the end of the input. -/
structure GrammarError.PlacedIn (e : GrammarError) (ts : List Token) : Prop where
  within : e.index ≤ ts.length
  /-- It has the place of that token. -/
  placed : e.position = (ts[e.index]?.getD (ending ts)).position

/-- The error is where the tokens stop being the beginning of a program. -/
structure GrammarError.FirstIn (e : GrammarError) (ts : List Token) : Prop
    extends e.PlacedIn ts where
  /-- An accepted list begins with the tokens before it. -/
  viable : Viable (ts.take e.index)
  /-- No accepted list begins with the tokens up to it.  Only when it is at a token for the end of
  the input, these tokens may themselves be an accepted list. -/
  refused : e.index < ts.length → ¬ LoneMinus ts e.index →
    ∀ us b, ts.take (e.index + 1) <+: us → parse us = .ok b →
      us = ts.take (e.index + 1) ∧ ∃ t, ts[e.index]? = some t ∧ t.kind = .endOfInput
  /-- After a minus that is the sign of no number, it is the token after the minus with which no
  accepted list begins. -/
  refusedAfterMinus : e.index + 1 < ts.length → LoneMinus ts e.index →
    ¬ Viable (ts.take (e.index + 2))

namespace Parser

/-- The error of a parser that is stuck is at the next token, or at a minus right before. -/
theorem Stuck.placedIn {pre post : List Token} {s : State} {f : Failure}
    (hreads : Reads .start pre s) (hstuck : Stuck (ending (pre ++ post)) s post f) :
    (f.at pre.length).PlacedIn (pre ++ post) := by
  rcases hstuck.cases with ⟨cause, rfl⟩ | ⟨cause, minus, rfl, hminus, -⟩
  · refine ⟨by simp [Failure.at, Failure.here], ?_⟩
    cases post <;> simp [Failure.at, Failure.here]
  · obtain ⟨before, s', rfl, -⟩ := hreads.exists_minus hminus
    exact ⟨by simp [Failure.at], by simp [Failure.at]⟩

/-- The error of a token list is at one of its tokens, or at its end. -/
theorem parse_error_placedIn {ts : List Token} {e : GrammarError} (h : parse ts = .error e) :
    e.PlacedIn (dropEnding ts) := by
  obtain ⟨pre, post, s, f, hbody, hreads, hstuck, rfl⟩ := run_error h
  rw [hbody] at hstuck ⊢
  rw [Nat.zero_add]
  exact hstuck.placedIn hreads

/-- In the tokens of a text, none is left out. -/
theorem placedIn_of_tokenize {source : Bytes} {ts : List Token} {e : GrammarError}
    (htokens : tokenize source = .ok ts) (hparse : parse ts = .error e) : e.PlacedIn ts := by
  have hplaced := parse_error_placedIn hparse
  rwa [dropEnding_of_lexical (tokenize_ok_iff.1 htokens).lexical] at hplaced

/-- A parser that is stuck has not got past the next token. -/
theorem Stuck.not_reads {ending' t : Token} {pre ts : List Token} {s s' : State} {f : Failure}
    (hreads : Reads .start pre s) (hstuck : Stuck ending' s (t :: ts) f) :
    ¬ Reads .start (pre ++ [t]) s' := by
  intro hread
  obtain ⟨s₁, hpre, hmove⟩ := hread.exists_last_move
  cases hreads.unique hpre
  cases hstuck with
  | step failed =>
      rw [step_ok_iff.2 hmove] at failed
      cases failed

/-- A parser that is stuck at the next token is stuck where no accepted list goes on. -/
theorem Stuck.firstIn {ending' : Token} {pre post : List Token} {s : State}
    {cause : GrammarError.Cause} {p : Position} (hreads : Reads .start pre s) {f : Failure}
    (hstuck : Stuck ending' s post f)
    (hplaced : GrammarError.PlacedIn ⟨cause, pre.length, p⟩ (pre ++ post)) :
    GrammarError.FirstIn ⟨cause, pre.length, p⟩ (pre ++ post) := by
  have hrefused : pre.length < (pre ++ post).length →
      ∀ us b, (pre ++ post).take (pre.length + 1) <+: us → parse us = .ok b →
        us = (pre ++ post).take (pre.length + 1) ∧
          ∃ t, (pre ++ post)[pre.length]? = some t ∧ t.kind = .endOfInput := by
    intro hlength us b hbegins hparse
    cases post with
    | nil => simp at hlength
    | cons t ts =>
        have htake : (pre ++ t :: ts).take (pre.length + 1) = pre ++ [t] :=
          List.take_length_add_append 1
        rw [htake] at hbegins ⊢
        rcases reads_of_begins hbegins hparse with ⟨s', hread⟩ | ⟨hus, hkind, -⟩
        · exact absurd hread (hstuck.not_reads hreads)
        · exact ⟨hus, t, by simp, hkind⟩
  refine ⟨hplaced, by simpa using hreads.viable, fun hlength _ => hrefused hlength, ?_⟩
  rintro hlength - ⟨us, b, hbegins, hparse⟩
  -- a list that begins with two tokens more is longer than the only one that could be accepted
  have hshort : (pre ++ post).take (pre.length + 1) <+: us :=
    (List.take_prefix_take_left (Nat.le_succ _)).trans hbegins
  have hus := (hrefused (Nat.lt_of_succ_lt hlength) us b hshort hparse).1
  have hlong := hbegins.length_le
  rw [hus] at hlong
  simp only [List.length_take, List.length_append] at hlong hlength
  omega

/-- A parser that is stuck after a minus is stuck where no accepted list goes on after that
minus. -/
theorem Stuck.firstIn_minus {ending' minus : Token} {pre post : List Token} {s : State}
    {f : Failure} (hreads : Reads .start (pre ++ [minus]) s) (hstuck : Stuck ending' s post f)
    (hminus : s.minus? = some minus) {s' : State} (hbefore : Reads .start pre s')
    (hlone : LoneMinus (pre ++ minus :: post) pre.length) {cause : GrammarError.Cause}
    {p : Position}
    (hplaced : GrammarError.PlacedIn ⟨cause, pre.length, p⟩ (pre ++ minus :: post)) :
    GrammarError.FirstIn ⟨cause, pre.length, p⟩ (pre ++ minus :: post) := by
  refine ⟨hplaced, by simpa using hbefore.viable, fun _ hnot => absurd hlone hnot, ?_⟩
  rintro hlength - ⟨us, b, hbegins, hparse⟩
  cases post with
  | nil => simp at hlength
  | cons t ts =>
      have htake : (pre ++ minus :: t :: ts).take (pre.length + 2) = pre ++ [minus] ++ [t] := by
        rw [List.take_length_add_append 2, List.append_assoc]
        rfl
      rw [htake] at hbegins
      rcases reads_of_begins hbegins hparse with ⟨s₁, hread⟩ | ⟨-, -, s₁, done, hread, hsettled⟩
      · exact absurd hread (hstuck.not_reads hreads)
      · -- the input would have to end right after the minus
        cases hreads.unique hread
        rw [State.minus?_of_settled hsettled] at hminus
        cases hminus

end Parser

/-- **The error of a token list is at the first offending token.**  An accepted list begins with the
tokens before it, and none begins with these and the offending token.  The exceptions are a minus
that is the sign of no number, where it takes one more token, and a token for the end of the input,
which ends an accepted list when nothing follows it. -/
theorem error_at_first_offender {ts : List Token} {e : GrammarError} (h : parse ts = .error e) :
    e.FirstIn (dropEnding ts) := by
  obtain ⟨pre, post, s, f, hbody, hreads, hstuck, rfl⟩ := run_error h
  rw [hbody] at hstuck ⊢
  rw [Nat.zero_add]
  have hplaced := hstuck.placedIn hreads
  rcases hstuck.cases with ⟨cause, rfl⟩ | ⟨cause, minus, rfl, hminus, halone⟩
  · exact Stuck.firstIn hreads hstuck hplaced
  · obtain ⟨before, s', rfl, hkind, hbefore, hdue⟩ := hreads.exists_minus hminus
    have hlone : LoneMinus (before ++ minus :: post) before.length := by
      refine ⟨⟨minus, by simp, hkind⟩, by simpa using hdue, ?_⟩
      intro t ht
      rw [List.getElem?_append_right (by omega), Nat.add_sub_cancel_left] at ht
      exact halone t (by simpa [List.head?_eq_getElem?] using ht)
    rw [List.append_assoc, List.singleton_append] at hplaced ⊢
    have hindex : (before ++ [minus]).length - 1 = before.length := by simp
    rw [Failure.at, if_pos rfl, hindex] at hplaced ⊢
    exact Stuck.firstIn_minus hreads hstuck hminus hbefore hlone hplaced

/-- The tokens of `while x`, `y = (-z`. -/
def strayMinus : List Token :=
  [⟨.whileWord, utf8 "while", ⟨1, 1⟩⟩, ⟨.variable, utf8 "x", ⟨1, 7⟩⟩, ⟨.variable, utf8 "y", ⟨2, 1⟩⟩,
    ⟨.assign, utf8 "=", ⟨2, 3⟩⟩, ⟨.openBracket, utf8 "(", ⟨2, 5⟩⟩, ⟨.minus, utf8 "-", ⟨2, 6⟩⟩,
    ⟨.variable, utf8 "z", ⟨2, 7⟩⟩]

theorem error_at_first_offender_minus :
    parse strayMinus = .error ⟨.noExpression ⟨.minus, utf8 "-", ⟨2, 6⟩⟩, 5, ⟨2, 6⟩⟩ ∧
      GrammarError.FirstIn ⟨.noExpression ⟨.minus, utf8 "-", ⟨2, 6⟩⟩, 5, ⟨2, 6⟩⟩
        (dropEnding strayMinus) :=
  ⟨rfl, error_at_first_offender rfl⟩

/-- The tokens of `x = y z` with a token for the end of the input in front of the last one. -/
def endingInside : List Token :=
  [⟨.variable, utf8 "x", ⟨1, 1⟩⟩, ⟨.assign, utf8 "=", ⟨1, 3⟩⟩, ⟨.variable, utf8 "y", ⟨1, 5⟩⟩,
    ⟨.endOfInput, [], ⟨1, 6⟩⟩, ⟨.variable, utf8 "z", ⟨1, 7⟩⟩]

/-- The error is at the token for the end of the input, though the tokens up to that one are
accepted. -/
theorem ending_inside_refused :
    dropEnding endingInside = endingInside ∧
      parse endingInside = .error ⟨.trailing ⟨.endOfInput, [], ⟨1, 6⟩⟩, 3, ⟨1, 6⟩⟩ ∧
      3 < endingInside.length ∧ ¬ LoneMinus endingInside 3 ∧
      parse (endingInside.take 4) = .ok (.assign ⟨⟨1, 1⟩, 0x78, .variable 0x79⟩ .empty) ∧
      Viable (endingInside.take 4) := by
  refine ⟨rfl, rfl, by decide, ?_, rfl, _, _, List.prefix_rfl, rfl⟩
  rintro ⟨⟨t, ht, hkind⟩, -, -⟩
  cases ht
  cases hkind

end StoreLint
