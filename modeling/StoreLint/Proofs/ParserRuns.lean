import StoreLint.Program.Parser

/-!
# Runs of the parser

The parser is a machine that reads one token at a time.  This file says once what a token can do to
it; everything that is proved about parsing starts from here.

* `Moves t s s'`: the token `t` takes the parser from `s` to `s'`.  There is one rule for each thing
  that a token can do, and `step_ok_iff` says that these are the successful steps.
* `State.settled`: an expression outside of brackets ends only when the next token does not continue
  it.  A settled state has such an expression delivered already; only an operator could tell it from
  the state itself (`step_settled`).
* `Reads s ts s'`: the tokens `ts` take the parser from `s` to `s'`.
* `run_ok_iff`: a run succeeds if its tokens can be read, and then, once settled, no statement is
  open and there is at least one.
-/

namespace StoreLint
namespace Parser

/-! ## Single tokens -/

/-- What a token can do to the parser. -/
inductive Moves (t : Token) : State → State → Prop
  /-- A variable starts an assignment. -/
  | target {frames : List Frame} {done : Block} {name : UInt8} (kind : t.kind = .variable)
      (letter : letter? t = some name) :
      Moves t ⟨frames, done, .statement⟩ ⟨frames, done, .target t.position name⟩
  /-- The keyword `if` starts a statement. -/
  | branch {frames : List Frame} {done : Block} (kind : t.kind = .ifWord) :
      Moves t ⟨frames, done, .statement⟩
        ⟨frames, done, .operand (.branch t.position.line) [] []⟩
  /-- The keyword `while` starts a statement. -/
  | loop {frames : List Frame} {done : Block} (kind : t.kind = .whileWord) :
      Moves t ⟨frames, done, .statement⟩
        ⟨frames, done, .operand (.loop t.position.line) [] []⟩
  /-- The keyword `else` ends the first branch of an `if`. -/
  | otherwise {frames : List Frame} {done before : Block} {line : Int} {cond : Expr}
      (some : done.isEmpty = false) (kind : t.kind = .elseWord) :
      Moves t ⟨.yes line cond before :: frames, done, .statement⟩
        ⟨.no line cond done.reverse before :: frames, .empty, .statement⟩
  /-- The keyword `end` ends an `if` with one branch. -/
  | endYes {frames : List Frame} {done before : Block} {line : Int} {cond : Expr}
      (some : done.isEmpty = false) (kind : t.kind = .endWord) :
      Moves t ⟨.yes line cond before :: frames, done, .statement⟩
        ⟨frames, .branch line cond done.reverse .empty before, .statement⟩
  /-- The keyword `end` ends an `if` with two branches. -/
  | endNo {frames : List Frame} {done yes before : Block} {line : Int} {cond : Expr}
      (some : done.isEmpty = false) (kind : t.kind = .endWord) :
      Moves t ⟨.no line cond yes before :: frames, done, .statement⟩
        ⟨frames, .branch line cond yes done.reverse before, .statement⟩
  /-- The keyword `end` ends a `while`. -/
  | endBody {frames : List Frame} {done before : Block} {line : Int} {cond : Expr}
      (some : done.isEmpty = false) (kind : t.kind = .endWord) :
      Moves t ⟨.body line cond before :: frames, done, .statement⟩
        ⟨frames, .loop line cond done.reverse before, .statement⟩
  /-- The sign of assignment follows its variable. -/
  | assign {frames : List Frame} {done : Block} {position : Position} {name : UInt8}
      (kind : t.kind = .assign) :
      Moves t ⟨frames, done, .target position name⟩
        ⟨frames, done, .operand (.value position name) [] []⟩
  /-- A variable is an operand. -/
  | name {frames : List Frame} {done : Block} {purpose : Purpose} {outer : List Operands}
      {before : Operands} {name : UInt8} (kind : t.kind = .variable)
      (letter : letter? t = some name) :
      Moves t ⟨frames, done, .operand purpose outer before⟩
        ⟨frames, done, .operator purpose outer before (.variable name)⟩
  /-- A number is an operand. -/
  | number {frames : List Frame} {done : Block} {purpose : Purpose} {outer : List Operands}
      {before : Operands} {value : Binary64} (kind : t.kind = .number)
      (read : Number.read? t.value = some value) :
      Moves t ⟨frames, done, .operand purpose outer before⟩
        ⟨frames, done, .operator purpose outer before (.number t.value value)⟩
  /-- A minus where an operand is due has to be the sign of a number. -/
  | minus {frames : List Frame} {done : Block} {purpose : Purpose} {outer : List Operands}
      {before : Operands} (kind : t.kind = .minus) :
      Moves t ⟨frames, done, .operand purpose outer before⟩
        ⟨frames, done, .negative purpose outer before t⟩
  /-- A number after its sign. -/
  | negative {frames : List Frame} {done : Block} {purpose : Purpose} {outer : List Operands}
      {before : Operands} {minus : Token} {value : Binary64} (kind : t.kind = .number)
      (read : Number.read? (utf8 "-" ++ t.value) = some value) :
      Moves t ⟨frames, done, .negative purpose outer before minus⟩
        ⟨frames, done, .operator purpose outer before (.number (utf8 "-" ++ t.value) value)⟩
  /-- A bracket is opened where an operand is due. -/
  | openBracket {frames : List Frame} {done : Block} {purpose : Purpose} {outer : List Operands}
      {before : Operands} (kind : t.kind = .openBracket) :
      Moves t ⟨frames, done, .operand purpose outer before⟩
        ⟨frames, done, .operand purpose (before :: outer) []⟩
  /-- An operator follows an operand. -/
  | operator {frames : List Frame} {done : Block} {purpose : Purpose} {outer : List Operands}
      {before : Operands} {last : Expr} {op : Operator} (kind : operator? t.kind = some op) :
      Moves t ⟨frames, done, .operator purpose outer before last⟩
        ⟨frames, done, .operand purpose outer ((last, op) :: before)⟩
  /-- A bracket is closed, and the expression in it is an operand. -/
  | closeBracket {frames : List Frame} {done : Block} {purpose : Purpose} {outer : List Operands}
      {around before : Operands} {last : Expr} (kind : t.kind = .closeBracket) :
      Moves t ⟨frames, done, .operator purpose (around :: outer) before last⟩
        ⟨frames, done, .operator purpose outer around (.bracket (Chain.group before last))⟩
  /-- A token that does not continue an expression comes after it. -/
  | deliver {frames : List Frame} {done : Block} {purpose : Purpose} {before : Operands}
      {last : Expr} {s : State} (kind : operator? t.kind = none)
      (after : Moves t (State.deliver ⟨frames, done, .operator purpose [] before last⟩
        (Chain.group before last) purpose) s) :
      Moves t ⟨frames, done, .operator purpose [] before last⟩ s

namespace State

@[simp] theorem deliver_phase (s : State) (e : Expr) (purpose : Purpose) :
    (s.deliver e purpose).phase = .statement := by
  cases purpose <;> rfl

theorem moves_of_closeList {frames : List Frame} {done : Block} {t : Token} {s : State}
    (h : closeList ⟨frames, done, .statement⟩ t = .ok s) :
    Moves t ⟨frames, done, .statement⟩ s := by
  unfold closeList at h
  split at h
  · cases h
  · rename_i hdone
    have hsome : done.isEmpty = false := by simpa using hdone
    split at h
    · cases h
    · rename_i line cond before frames hframes
      cases hframes
      split at h
      · rename_i hkind
        cases h
        exact .otherwise hsome hkind
      · split at h
        · rename_i hkind
          cases h
          exact .endYes hsome hkind
        · cases h
    · rename_i line cond yes before frames hframes
      cases hframes
      split at h
      · rename_i hkind
        cases h
        exact .endNo hsome hkind
      · cases h
    · rename_i line cond before frames hframes
      cases hframes
      split at h
      · rename_i hkind
        cases h
        exact .endBody hsome hkind
      · cases h

theorem moves_of_stepStatement {frames : List Frame} {done : Block} {t : Token} {s : State}
    (h : stepStatement ⟨frames, done, .statement⟩ t = .ok s) :
    Moves t ⟨frames, done, .statement⟩ s := by
  unfold stepStatement at h
  split at h
  · rename_i hkind
    split at h
    · rename_i name hletter
      cases h
      exact .target hkind hletter
    · cases h
  · rename_i hkind
    cases h
    exact .branch hkind
  · rename_i hkind
    cases h
    exact .loop hkind
  · exact moves_of_closeList h

theorem moves_of_stepOperand {frames : List Frame} {done : Block} {purpose : Purpose}
    {outer : List Operands} {before : Operands} {t : Token} {s : State}
    (h : stepOperand ⟨frames, done, .operand purpose outer before⟩ purpose outer before t = .ok s) :
    Moves t ⟨frames, done, .operand purpose outer before⟩ s := by
  unfold stepOperand at h
  split at h
  · rename_i hkind
    split at h
    · rename_i name hletter
      cases h
      exact .name hkind hletter
    · cases h
  · rename_i hkind
    unfold stepNumber at h
    split at h
    · rename_i value hread
      cases h
      exact .number hkind hread
    · cases h
  · rename_i hkind
    cases h
    exact .minus hkind
  · rename_i hkind
    cases h
    exact .openBracket hkind
  · cases h
  · cases h

theorem moves_of_stepOperator {frames : List Frame} {done : Block} {purpose : Purpose}
    {outer : List Operands} {before : Operands} {last : Expr} {t : Token} {s : State}
    (h : stepOperator ⟨frames, done, .operator purpose outer before last⟩ purpose outer before last
      t = .ok s) :
    Moves t ⟨frames, done, .operator purpose outer before last⟩ s := by
  unfold stepOperator at h
  split at h
  · rename_i op hop
    cases h
    exact .operator hop
  · rename_i hop
    dsimp only at h
    split at h
    · refine .deliver hop ?_
      cases purpose <;> exact moves_of_stepStatement h
    · split at h
      · rename_i hkind
        cases h
        exact .closeBracket hkind
      · cases h

end State

/-- The successful steps are the moves. -/
theorem step_ok_iff {s s' : State} {t : Token} : s.step t = .ok s' ↔ Moves t s s' := by
  constructor
  · intro h
    obtain ⟨frames, done, phase⟩ := s
    cases phase with
    | statement => exact State.moves_of_stepStatement h
    | target position name =>
        simp only [State.step] at h
        split at h
        · rename_i hkind
          cases h
          exact .assign hkind
        · cases h
    | operand purpose outer before => exact State.moves_of_stepOperand h
    | negative purpose outer before minus =>
        simp only [State.step, State.stepNumber] at h
        split at h
        · rename_i hkind
          split at h
          · rename_i value hread
            cases h
            exact .negative hkind hread
          · cases h
        · cases h
    | operator purpose outer before last => exact State.moves_of_stepOperator h
  · intro h
    induction h with
    | target kind letter => simp [State.step, State.stepStatement, kind, letter, State.toPhase]
    | branch kind => simp [State.step, State.stepStatement, kind, State.toPhase]
    | loop kind => simp [State.step, State.stepStatement, kind, State.toPhase]
    | otherwise some kind => simp [State.step, State.stepStatement, State.closeList, kind, some]
    | endYes some kind => simp [State.step, State.stepStatement, State.closeList, kind, some]
    | endNo some kind => simp [State.step, State.stepStatement, State.closeList, kind, some]
    | endBody some kind => simp [State.step, State.stepStatement, State.closeList, kind, some]
    | assign kind => simp [State.step, kind, State.toPhase]
    | name kind letter => simp [State.step, State.stepOperand, kind, letter, State.toPhase]
    | number kind read =>
        simp [State.step, State.stepOperand, State.stepNumber, kind, read, State.toPhase]
    | minus kind => simp [State.step, State.stepOperand, kind, State.toPhase]
    | negative kind read => simp [State.step, State.stepNumber, kind, read, State.toPhase]
    | openBracket kind => simp [State.step, State.stepOperand, kind, State.toPhase]
    | operator kind => simp [State.step, State.stepOperator, kind, State.toPhase]
    | closeBracket kind =>
        simp [State.step, State.stepOperator, kind, operator?, State.toPhase]
    | @deliver frames done purpose before last s kind after ih =>
        rw [State.step, State.deliver_phase] at ih
        simpa [State.step, State.stepOperator, kind] using ih

/-! ## What a token has to be -/

theorem letter?_eq_some {t : Token} {name : UInt8} :
    letter? t = some name ↔ isLetter name = true ∧ t.value = [name] := by
  unfold letter?
  split
  · rename_i b hvalue
    rw [hvalue]
    by_cases hb : isLetter b = true
    · simp only [if_pos hb, Option.some.injEq, List.cons.injEq, and_true]
      constructor
      · rintro rfl
        exact ⟨hb, rfl⟩
      · exact fun h => h.2
    · simp only [if_neg hb, List.cons.injEq, and_true]
      constructor
      · intro h
        cases h
      · rintro ⟨hname, rfl⟩
        exact absurd hname hb
  · rename_i hne
    constructor
    · intro h
      cases h
    · rintro ⟨-, hvalue⟩
      exact absurd hvalue (hne name)

namespace Moves

variable {t : Token} {s s' : State}

/-- A variable is a single letter. -/
theorem exists_letter (h : Moves t s s') (hkind : t.kind = .variable) :
    ∃ name, letter? t = some name := by
  induction h with
  | target _ letter => exact ⟨_, letter⟩
  | name _ letter => exact ⟨_, letter⟩
  | deliver _ _ ih => exact ih
  | branch kind | loop kind | assign kind | minus kind | openBracket kind | operator kind
  | closeBracket kind =>
      rw [hkind] at kind
      cases kind
  | otherwise _ kind | endYes _ kind | endNo _ kind | endBody _ kind | number kind _
  | negative kind _ =>
      rw [hkind] at kind
      cases kind

/-- A token that stands for an error or for the end of the input is not read, nor is one of a kind
beyond the known ones. -/
theorem ne_stray {kind : Token.Kind}
    (stray : kind = .error ∨ kind = .endOfInput ∨ kind = .unknown) (h : Moves t s s') :
    t.kind ≠ kind := by
  rintro rfl
  induction h with
  | deliver _ _ ih => exact ih
  | operator kind => rcases stray with hkind | hkind | hkind <;> rw [hkind] at kind <;> cases kind
  | branch kind | loop kind | assign kind | minus kind | openBracket kind | closeBracket kind =>
      simp [kind] at stray
  | target kind _ | otherwise _ kind | endYes _ kind | endNo _ kind | endBody _ kind | name kind _
  | number kind _ | negative kind _ =>
      simp [kind] at stray

/-- Where an operand is due, a number has a value. -/
theorem exists_value {frames : List Frame} {done : Block} {purpose : Purpose}
    {outer : List Operands} {before : Operands}
    (h : Moves t ⟨frames, done, .operand purpose outer before⟩ s') (hkind : t.kind = .number) :
    ∃ value, Number.read? t.value = some value := by
  cases h with
  | number _ read => exact ⟨_, read⟩
  | name kind _ =>
      rw [hkind] at kind
      cases kind
  | minus kind | openBracket kind =>
      rw [hkind] at kind
      cases kind

theorem some_of_closing {frames : List Frame} {done : Block}
    (h : Moves t ⟨frames, done, .statement⟩ s')
    (hkind : t.kind = .elseWord ∨ t.kind = .endWord) : done.isEmpty = false := by
  cases h with
  | otherwise some _ | endYes some _ | endNo some _ | endBody some _ => exact some
  | target kind _ => simp [kind] at hkind
  | branch kind | loop kind => simp [kind] at hkind

end Moves

/-! ## The end of an expression -/

namespace State

/-- The state in which an expression that may end here has ended. -/
def settled (s : State) : State :=
  match s.phase with
  | .operator purpose [] before last => s.deliver (Chain.group before last) purpose
  | _ => s

/-- Only an operator tells a state from the settled one. -/
theorem step_settled {t : Token} (h : operator? t.kind = none) (s : State) :
    s.settled.step t = s.step t := by
  obtain ⟨frames, done, phase⟩ := s
  cases phase with
  | operator purpose outer before last =>
      cases outer with
      | nil =>
          rw [settled, step, deliver_phase]
          simp [step, stepOperator, h]
      | cons around outer => rfl
  | _ => rfl

/-- The end of the input does not tell a state from the settled one. -/
theorem finish_settled (s : State) (ending : Token) :
    s.settled.finish ending = s.finish ending := by
  obtain ⟨frames, done, phase⟩ := s
  cases phase with
  | operator purpose outer before last =>
      cases outer with
      | nil =>
          rw [settled, finish, deliver_phase]
          rfl
      | cons around outer => rfl
  | _ => rfl

/-- The input may end in a list of at least one statement with no statement open around it. -/
theorem finish_ok_iff {s : State} {ending : Token} {b : Block} :
    s.finish ending = .ok b ↔
      ∃ done, s.settled = ⟨[], done, .statement⟩ ∧ done.isEmpty = false ∧ done.reverse = b := by
  rw [← finish_settled]
  generalize hs : s.settled = s'
  obtain ⟨frames, done, phase⟩ := s'
  constructor
  · intro h
    cases phase with
    | statement =>
        simp only [finish, finishList] at h
        split at h
        · cases h
        · rename_i hdone
          cases frames with
          | nil =>
              cases h
              exact ⟨done, rfl, by simpa using hdone, rfl⟩
          | cons frame frames => cases h
    | operator purpose outer before last =>
        cases outer with
        | nil =>
            -- a settled state is never right after such an operand
            exfalso
            unfold settled at hs
            split at hs
            · exact absurd (congrArg State.phase hs) (by simp)
            · rename_i hne
              rw [hs] at hne
              exact hne _ _ _ rfl
        | cons around outer => cases h
    | _ => cases h
  · rintro ⟨done', heq, hsome, rfl⟩
    cases heq
    simp [finish, finishList, hsome]

end State

/-! ## Many tokens -/

/-- The tokens take the parser from the first state to the second. -/
inductive Reads : State → List Token → State → Prop
  | nil (s : State) : Reads s [] s
  | cons {s s' s'' : State} {t : Token} {ts : List Token} (first : s.step t = .ok s')
      (rest : Reads s' ts s'') : Reads s (t :: ts) s''

namespace Reads

theorem single {s s' : State} {t : Token} (h : Moves t s s') : Reads s [t] s' :=
  .cons (step_ok_iff.2 h) (.nil s')

theorem append {s s' s'' : State} {ts us : List Token} (h : Reads s ts s') (h' : Reads s' us s'') :
    Reads s (ts ++ us) s'' := by
  induction h with
  | nil s => exact h'
  | cons first rest ih => exact .cons first (ih h')

theorem of_append {s s'' : State} {ts us : List Token} (h : Reads s (ts ++ us) s'') :
    ∃ s', Reads s ts s' ∧ Reads s' us s'' := by
  induction ts generalizing s with
  | nil => exact ⟨s, .nil s, h⟩
  | cons t ts ih =>
      cases h with
      | cons first rest =>
          obtain ⟨s', hts, hus⟩ := ih rest
          exact ⟨s', .cons first hts, hus⟩

/-- The tokens determine the state after them. -/
theorem unique {s s' s'' : State} {ts : List Token} (h : Reads s ts s') (h' : Reads s ts s'') :
    s' = s'' := by
  induction h with
  | nil s =>
      cases h'
      rfl
  | cons first rest ih =>
      cases h' with
      | cons first' rest' =>
          rw [first] at first'
          cases first'
          exact ih rest'

/-- A token that is no operator takes a state where it takes the settled state. -/
theorem cons_settled {s s' s'' : State} {t : Token} {ts : List Token}
    (hop : operator? t.kind = none) (first : Moves t s.settled s') (rest : Reads s' ts s'') :
    Reads s (t :: ts) s'' :=
  .cons (by rw [← State.step_settled hop, step_ok_iff.2 first]) rest

/-- What a first token can do is what it does. -/
theorem after {s s' s'' : State} {t : Token} {ts : List Token} (h : Reads s (t :: ts) s'')
    (move : Moves t s s') : Reads s' ts s'' := by
  cases h with
  | cons first rest =>
      rw [step_ok_iff.2 move] at first
      cases first
      exact rest

theorem after_settled {s s' s'' : State} {t : Token} {ts : List Token}
    (hop : operator? t.kind = none) (h : Reads s (t :: ts) s'') (move : Moves t s.settled s') :
    Reads s' ts s'' := by
  cases h with
  | cons first rest =>
      rw [← State.step_settled hop, step_ok_iff.2 move] at first
      cases first
      exact rest

/-- Only a list with statements is closed. -/
theorem some_of_closing {s s' : State} {frames : List Frame} {done : Block} {t : Token}
    {ts : List Token} (hs : s.settled = ⟨frames, done, .statement⟩)
    (hkind : t.kind = .elseWord ∨ t.kind = .endWord) (h : Reads s (t :: ts) s') :
    done.isEmpty = false := by
  cases h with
  | cons first _ =>
      have hop : operator? t.kind = none := by
        rcases hkind with hkind | hkind <;> rw [hkind] <;> rfl
      rw [← State.step_settled hop, hs] at first
      exact (step_ok_iff.1 first).some_of_closing hkind

theorem exists_moves {s s'' : State} {t : Token} {ts : List Token} (h : Reads s (t :: ts) s'') :
    ∃ s', Moves t s s' := by
  cases h with
  | cons first _ => exact ⟨_, step_ok_iff.1 first⟩

/-- The last token read is a move of its own. -/
theorem exists_last_move {s s'' : State} {ts : List Token} {t : Token}
    (h : Reads s (ts ++ [t]) s'') :
    ∃ s', Reads s ts s' ∧ Moves t s' s'' := by
  obtain ⟨s', hts, hlast⟩ := h.of_append
  cases hlast with
  | cons first rest =>
      cases rest
      exact ⟨s', hts, step_ok_iff.1 first⟩

end Reads

/-- A run succeeds exactly if its tokens can be read and the input may end after them. -/
theorem run_ok_iff {ending : Token} {index : Nat} {s : State} {ts : List Token} {b : Block} :
    run ending index s ts = .ok b ↔
      ∃ s' done, Reads s ts s' ∧ s'.settled = ⟨[], done, .statement⟩ ∧ done.isEmpty = false ∧
        done.reverse = b := by
  induction ts generalizing index s with
  | nil =>
      have hfinish : run ending index s [] = .ok b ↔ s.finish ending = .ok b := by
        simp only [run]
        split
        · rename_i c h; simp [h]
        · rename_i f h; simp [h]
      rw [hfinish, State.finish_ok_iff]
      constructor
      · rintro ⟨done, h⟩
        exact ⟨s, done, .nil s, h⟩
      · rintro ⟨s', done, hreads, h⟩
        cases hreads
        exact ⟨done, h⟩
  | cons t ts ih =>
      simp only [run]
      split
      · rename_i s₁ hstep
        rw [ih]
        constructor
        · rintro ⟨s', done, hreads, h⟩
          exact ⟨s', done, .cons hstep hreads, h⟩
        · rintro ⟨s', done, hreads, h⟩
          cases hreads with
          | cons first rest =>
              rw [hstep] at first
              cases first
              exact ⟨s', done, rest, h⟩
      · rename_i f hstep
        constructor
        · intro h
          cases h
        · rintro ⟨s', done, hreads, h⟩
          cases hreads with
          | cons first rest =>
              rw [hstep] at first
              cases first

end Parser
end StoreLint
