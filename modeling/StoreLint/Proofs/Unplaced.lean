import StoreLint.Program.Layout
import StoreLint.Program.Parser

/-!
# Programs without their places

Tokens and statements carry the places where they stand in a text.  Places are for reports; what a
program is does not depend on them.  This file forgets them, in tokens, in statements, and in all
that the parser holds, and shows that parsing commutes with it.

* `Token.unplaced`, `Block.unplaced`: a token keeps its kind and its text, a program keeps
  everything but lines and columns.
* `step_unplaced`: a step of the parser without places is a step with places, forgotten afterwards.
* `parse_congr_unplaced`: so token lists with the same kinds and texts give the same program or the
  same error, up to places.
* `Layout.program_unplaced`: printing does not look at places.
-/

namespace StoreLint

/-- The place that stands for none. -/
def Position.nowhere : Position := ⟨0, 0⟩

/-- The kind and the text of a token. -/
def Token.unplaced (t : Token) : Token :=
  { t with position := .nowhere }

@[simp] theorem Token.kind_unplaced (t : Token) : t.unplaced.kind = t.kind := rfl

/-- An assignment without its place. -/
def Assign.unplaced (a : Assign) : Assign :=
  { a with position := .nowhere }

/-- A program without its lines and columns. -/
def Block.unplaced : Block → Block
  | .empty => .empty
  | .assign write rest => .assign write.unplaced rest.unplaced
  | .branch _ cond yes no rest => .branch 0 cond yes.unplaced no.unplaced rest.unplaced
  | .loop _ cond body rest => .loop 0 cond body.unplaced rest.unplaced
  | .missing rest => .missing rest.unplaced

/-! ## Lists of statements -/

namespace Block

@[simp] theorem isEmpty_unplaced (b : Block) : b.unplaced.isEmpty = b.isEmpty := by
  cases b <;> rfl

@[simp] theorem size_unplaced (b : Block) : b.unplaced.size = b.size := by
  induction b with
  | empty => rfl
  | assign write rest ih => simp [unplaced, size, ih]
  | branch line cond yes no rest ihyes ihno ih => simp [unplaced, size, ihyes, ihno, ih]
  | loop line cond body rest ihbody ih => simp [unplaced, size, ihbody, ih]
  | missing rest ih => simp [unplaced, size, ih]

@[simp] theorem assignments_unplaced (b : Block) : b.unplaced.assignments = b.assignments := by
  induction b with
  | empty => rfl
  | assign write rest ih => simp [unplaced, assignments, ih]
  | branch line cond yes no rest ihyes ihno ih => simp [unplaced, assignments, ihyes, ihno, ih]
  | loop line cond body rest ihbody ih => simp [unplaced, assignments, ihbody, ih]
  | missing rest ih => simp [unplaced, assignments, ih]

theorem reverseOnto_unplaced (b onto : Block) :
    b.unplaced.reverseOnto onto.unplaced = (b.reverseOnto onto).unplaced := by
  induction b generalizing onto with
  | empty => rfl
  | assign write rest ih => exact ih (.assign write onto)
  | branch line cond yes no rest _ _ ih => exact ih (.branch line cond yes no onto)
  | loop line cond body rest _ ih => exact ih (.loop line cond body onto)
  | missing rest ih => exact ih (.missing onto)

@[simp] theorem reverse_unplaced (b : Block) : b.unplaced.reverse = b.reverse.unplaced :=
  reverseOnto_unplaced b .empty

end Block

/-! ## The parser -/

/-- An error of grammar that speaks of tokens without places. -/
def GrammarError.Cause.unplaced : GrammarError.Cause → GrammarError.Cause
  | .badVariable name => .badVariable name
  | .noMoreInput => .noMoreInput
  | .missingAssign target found => .missingAssign target found.unplaced
  | .missingBracket found => .missingBracket found.unplaced
  | .missingEnd opener found => .missingEnd opener found.unplaced
  | .noExpression found => .noExpression found.unplaced
  | .badNumber text => .badNumber text
  | .noStatement found => .noStatement found.unplaced
  | .trailing found => .trailing found.unplaced

/-- An error of grammar without its place. -/
def GrammarError.unplaced (e : GrammarError) : GrammarError :=
  ⟨e.cause.unplaced, e.index, .nowhere⟩

/-- Messages do not speak of places. -/
theorem GrammarError.Cause.message_unplaced (c : GrammarError.Cause) :
    c.unplaced.message = c.message := by
  cases c <;> rfl

theorem GrammarError.Cause.kind_unplaced (c : GrammarError.Cause) : c.unplaced.kind = c.kind := by
  cases c <;> rfl

/-- Changes a result, whether it is an error or not. -/
def mapResult {ε α : Type} (onError : ε → ε) (onOk : α → α) : Except ε α → Except ε α
  | .error e => .error (onError e)
  | .ok a => .ok (onOk a)

theorem mapResult_ite {ε α : Type} (onError : ε → ε) (onOk : α → α) (c : Prop) [Decidable c]
    (x y : Except ε α) :
    mapResult onError onOk (if c then x else y) =
      if c then mapResult onError onOk x else mapResult onError onOk y :=
  apply_ite (mapResult onError onOk) c x y

namespace Parser

/-- What an expression is read for, without places. -/
def Purpose.unplaced : Purpose → Purpose
  | .value _ target => .value .nowhere target
  | .branch _ => .branch 0
  | .loop _ => .loop 0

/-- An open statement without places. -/
def Frame.unplaced : Frame → Frame
  | .yes _ cond before => .yes 0 cond before.unplaced
  | .no _ cond first before => .no 0 cond first.unplaced before.unplaced
  | .body _ cond before => .body 0 cond before.unplaced

/-- What the next token has to continue, without places. -/
def Phase.unplaced : Phase → Phase
  | .statement => .statement
  | .target _ name => .target .nowhere name
  | .operand purpose outer before => .operand purpose.unplaced outer before
  | .negative purpose outer before minus => .negative purpose.unplaced outer before minus.unplaced
  | .operator purpose outer before last => .operator purpose.unplaced outer before last

/-- The parser between two tokens, without places. -/
def State.unplaced (s : State) : State :=
  ⟨s.frames.map Frame.unplaced, s.done.unplaced, s.phase.unplaced⟩

/-- A failure that speaks of tokens without places. -/
def Failure.unplaced (f : Failure) : Failure :=
  ⟨f.cause.unplaced, f.token.unplaced, f.earlier⟩

theorem letter?_unplaced (t : Token) : letter? t.unplaced = letter? t := rfl

theorem Frame.opener_unplaced (f : Frame) : f.unplaced.opener = f.opener := by
  cases f <;> rfl

namespace State

theorem deliver_unplaced (s : State) (e : Expr) (purpose : Purpose) :
    s.unplaced.deliver e purpose.unplaced = (s.deliver e purpose).unplaced := by
  cases purpose <;> rfl

theorem closeList_unplaced (s : State) (t : Token) :
    s.unplaced.closeList t.unplaced =
      mapResult Failure.unplaced State.unplaced (s.closeList t) := by
  obtain ⟨frames, done, phase⟩ := s
  unfold closeList
  simp only [unplaced, Block.isEmpty_unplaced, Block.reverse_unplaced, mapResult_ite]
  congr 1
  cases frames with
  | nil => rfl
  | cons frame frames =>
      cases frame with
      | yes line cond before =>
          simp only [mapResult_ite]
          rfl
      | no line cond first before =>
          simp only [mapResult_ite]
          rfl
      | body line cond before =>
          simp only [mapResult_ite]
          rfl

theorem stepStatement_unplaced (s : State) (t : Token) :
    s.unplaced.stepStatement t.unplaced =
      mapResult Failure.unplaced State.unplaced (s.stepStatement t) := by
  unfold stepStatement
  simp only [Token.kind_unplaced, letter?_unplaced]
  cases hkind : t.kind with
  | «variable» =>
      cases hletter : letter? t with
      | none => rfl
      | some name => rfl
  | ifWord => rfl
  | whileWord => rfl
  | _ => exact closeList_unplaced s t

theorem stepNumber_unplaced (s : State) (purpose : Purpose) (outer : List Operands)
    (before : Operands) (text : Bytes) (t : Token) :
    s.unplaced.stepNumber purpose.unplaced outer before text t.unplaced =
      mapResult Failure.unplaced State.unplaced (s.stepNumber purpose outer before text t) := by
  unfold stepNumber
  cases Number.read? text <;> rfl

theorem stepOperand_unplaced (s : State) (purpose : Purpose) (outer : List Operands)
    (before : Operands) (t : Token) :
    s.unplaced.stepOperand purpose.unplaced outer before t.unplaced =
      mapResult Failure.unplaced State.unplaced (s.stepOperand purpose outer before t) := by
  unfold stepOperand
  simp only [Token.kind_unplaced, letter?_unplaced]
  cases hkind : t.kind with
  | «variable» =>
      cases hletter : letter? t with
      | none => rfl
      | some name => rfl
  | number => exact stepNumber_unplaced s purpose outer before t.value t
  | _ => rfl

theorem stepOperator_unplaced (s : State) (purpose : Purpose) (outer : List Operands)
    (before : Operands) (last : Expr) (t : Token) :
    s.unplaced.stepOperator purpose.unplaced outer before last t.unplaced =
      mapResult Failure.unplaced State.unplaced (s.stepOperator purpose outer before last t) := by
  unfold stepOperator
  simp only [Token.kind_unplaced]
  cases operator? t.kind with
  | some op => rfl
  | none =>
      cases outer with
      | nil =>
          simp only [deliver_unplaced]
          exact stepStatement_unplaced _ t
      | cons around outer =>
          simp only [mapResult_ite]
          rfl

/-- Reading a token commutes with forgetting places. -/
theorem step_unplaced (s : State) (t : Token) :
    s.unplaced.step t.unplaced = mapResult Failure.unplaced State.unplaced (s.step t) := by
  obtain ⟨frames, done, phase⟩ := s
  cases phase with
  | statement => exact stepStatement_unplaced _ t
  | target position name =>
      simp only [step, mapResult_ite]
      rfl
  | operand purpose outer before => exact stepOperand_unplaced _ purpose outer before t
  | negative purpose outer before minus =>
      simp only [step, mapResult_ite, ← stepNumber_unplaced]
      rfl
  | operator purpose outer before last => exact stepOperator_unplaced _ purpose outer before last t

theorem finishList_unplaced (s : State) (ending : Token) :
    s.unplaced.finishList ending.unplaced =
      mapResult Failure.unplaced Block.unplaced (s.finishList ending) := by
  obtain ⟨frames, done, phase⟩ := s
  unfold finishList
  simp only [unplaced, Block.isEmpty_unplaced, Block.reverse_unplaced, mapResult_ite]
  congr 1
  cases frames with
  | nil => rfl
  | cons frame frames =>
      simp only [List.map_cons, Frame.opener_unplaced]
      rfl

/-- Ending the input commutes with forgetting places. -/
theorem finish_unplaced (s : State) (ending : Token) :
    s.unplaced.finish ending.unplaced =
      mapResult Failure.unplaced Block.unplaced (s.finish ending) := by
  obtain ⟨frames, done, phase⟩ := s
  cases phase with
  | statement => exact finishList_unplaced _ ending
  | operator purpose outer before last =>
      cases outer with
      | nil =>
          simp only [finish]
          rw [← finishList_unplaced, ← deliver_unplaced]
          rfl
      | cons around outer => rfl
  | _ => rfl

end State

/-- Reading any number of tokens commutes with forgetting places. -/
theorem run_unplaced (ending : Token) (index : Nat) (s : State) (ts : List Token) :
    run ending.unplaced index s.unplaced (ts.map Token.unplaced) =
      mapResult GrammarError.unplaced Block.unplaced (run ending index s ts) := by
  induction ts generalizing index s with
  | nil =>
      simp only [List.map_nil, run, State.finish_unplaced]
      cases s.finish ending <;> rfl
  | cons t ts ih =>
      simp only [List.map_cons, run, State.step_unplaced]
      cases s.step t with
      | error f => rfl
      | ok s' => exact ih (index + 1) s'

theorem dropEnding_unplaced (ts : List Token) :
    dropEnding (ts.map Token.unplaced) = (dropEnding ts).map Token.unplaced := by
  unfold dropEnding
  simp only [List.getLast?_map]
  cases ts.getLast? with
  | none => rfl
  | some t =>
      simp only [Option.map_some, apply_ite (List.map Token.unplaced), List.map_dropLast]
      rfl

theorem ending_unplaced (ts : List Token) : (ending ts).unplaced = ⟨.endOfInput, [], .nowhere⟩ := by
  unfold ending
  cases ts.getLast? <;> rfl

end Parser

/-- Up to places, the parser returns what it returns for tokens without places. -/
theorem parse_unplaced (ts : List Token) :
    mapResult GrammarError.unplaced Block.unplaced (parse ts) =
      Parser.run ⟨.endOfInput, [], .nowhere⟩ 0 .start
        (Parser.dropEnding (ts.map Token.unplaced)) := by
  rw [Parser.dropEnding_unplaced, ← Parser.ending_unplaced (Parser.dropEnding ts)]
  exact (Parser.run_unplaced _ 0 .start _).symm

/-- Token lists with the same kinds and texts give the same program or the same error, up to
places. -/
theorem parse_congr_unplaced {ts us : List Token}
    (h : ts.map Token.unplaced = us.map Token.unplaced) :
    mapResult GrammarError.unplaced Block.unplaced (parse ts) =
      mapResult GrammarError.unplaced Block.unplaced (parse us) := by
  rw [parse_unplaced, parse_unplaced, h]

theorem parse_ok_congr {ts us : List Token} (h : ts.map Token.unplaced = us.map Token.unplaced)
    {b : Block} (hb : parse ts = .ok b) : ∃ c, parse us = .ok c ∧ c.unplaced = b.unplaced := by
  have hsame := parse_congr_unplaced h
  rw [hb] at hsame
  cases hc : parse us with
  | error e =>
      rw [hc] at hsame
      cases hsame
  | ok c =>
      rw [hc] at hsame
      exact ⟨c, rfl, (Except.ok.inj hsame).symm⟩

theorem parse_error_congr {ts us : List Token} (h : ts.map Token.unplaced = us.map Token.unplaced)
    {e : GrammarError} (he : parse ts = .error e) :
    ∃ f, parse us = .error f ∧ f.unplaced = e.unplaced := by
  have hsame := parse_congr_unplaced h
  rw [he] at hsame
  cases hf : parse us with
  | error f =>
      rw [hf] at hsame
      exact ⟨f, rfl, (Except.error.inj hsame).symm⟩
  | ok c =>
      rw [hf] at hsame
      cases hsame

/-! ## Printing -/

theorem Assign.print_unplaced (l : Layout) (a : Assign) : a.unplaced.print l = a.print l := rfl

theorem Block.print_unplaced (l : Layout) (b : Block) (depth : Nat) :
    b.unplaced.print l depth = b.print l depth := by
  induction b generalizing depth with
  | empty => rfl
  | assign write rest ih =>
      simp only [unplaced, print, separator, isEmpty_unplaced, ih, Assign.print_unplaced]
  | branch line cond yes no rest ihyes ihno ih =>
      simp only [unplaced, print, separator, isEmpty_unplaced, ihyes, ihno, ih]
  | loop line cond body rest ihbody ih =>
      simp only [unplaced, print, separator, isEmpty_unplaced, ihbody, ih]
  | missing rest ih => simp only [unplaced, print, separator, isEmpty_unplaced, ih]

/-- Programs that are the same up to places print the same. -/
theorem Layout.program_unplaced (l : Layout) (b : Block) : l.program b.unplaced = l.program b := by
  simp only [Layout.program, Block.print_unplaced]

end StoreLint
