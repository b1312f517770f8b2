import StoreLint.Number.Literal
import StoreLint.Program.Block
import StoreLint.Program.Chain
import StoreLint.Program.GrammarError
import StoreLint.Token.Scanner

/-!
# From tokens to statements

The grammar:

    program   = statements
    statements = statement { statement }
    statement = variable "=" expr
              | "if" expr statements [ "else" statements ] "end"
              | "while" expr statements "end"
    expr      = primary { operator primary }
    primary   = variable | number | "-" number | "(" expr ")"

The parser reads the tokens from the left, one `step` each, and keeps what is open: the enclosing
`if` and `while` statements as a stack of frames, and for an expression the enclosing brackets.  A
step depends on the state and the token alone, so an error arises at the first token that no program
has after the tokens before it.  The one exception is a minus where an operand is due: whether it
starts a number shows only at the next token.

* `State.step` reads a token, `State.finish` ends the input.
* `parse` runs them over a token list; `parseSource` starts from the bytes of a program.
-/

namespace StoreLint

namespace Parser

/-- Operands that have been read, each with the operator after it, from the last to the first. -/
abbrev Operands := List (Expr × Operator)

/-- What an expression is read for. -/
inductive Purpose where
  /-- The value of an assignment to a variable at a place. -/
  | value (position : Position) (target : UInt8)
  /-- The condition of an `if` on a line. -/
  | branch (line : Int)
  /-- The condition of a `while` on a line. -/
  | loop (line : Int)
  deriving DecidableEq, Repr

/-- An open statement, with the statements before it in its own list, from the last to the first. -/
inductive Frame where
  /-- An `if` whose first branch is being read. -/
  | yes (line : Int) (cond : Expr) (before : Block)
  /-- An `if` whose second branch is being read. -/
  | no (line : Int) (cond : Expr) (yes before : Block)
  /-- A `while` whose body is being read. -/
  | body (line : Int) (cond : Expr) (before : Block)
  deriving DecidableEq, Repr

/-- What the next token has to continue.  Inside an expression, `outer` holds what was read of the
expressions around the open brackets, from the innermost outwards. -/
inductive Phase where
  /-- A list of statements. -/
  | statement
  /-- An assignment whose variable has been read. -/
  | target (position : Position) (name : UInt8)
  /-- An expression in which an operand is due. -/
  | operand (purpose : Purpose) (outer : List Operands) (before : Operands)
  /-- An expression in which a minus was read where an operand is due. -/
  | negative (purpose : Purpose) (outer : List Operands) (before : Operands) (minus : Token)
  /-- An expression in which an operand has been read. -/
  | operator (purpose : Purpose) (outer : List Operands) (before : Operands) (last : Expr)
  deriving DecidableEq, Repr

/-- The parser between two tokens: the open statements from the innermost outwards, the statements
of the innermost list from the last to the first, and what comes next. -/
structure State where
  frames : List Frame
  done : Block
  phase : Phase
  deriving DecidableEq, Repr

/-- A failure to go on: its cause, and the offending token, which is the current one or, when
`earlier`, the one before it. -/
structure Failure where
  cause : GrammarError.Cause
  token : Token
  earlier : Bool
  deriving DecidableEq, Repr

/-- The failure with a cause at the current token. -/
def Failure.here (cause : GrammarError.Cause) (t : Token) : Failure :=
  ⟨cause, t, false⟩

/-- The variable that a token names, if its text is a single letter. -/
def letter? (t : Token) : Option UInt8 :=
  match t.value with
  | [b] => if isLetter b then some b else none
  | _ => none

/-- The operator of a token. -/
def operator? : Token.Kind → Option Operator
  | .plus => some .add
  | .minus => some .sub
  | .star => some .mul
  | .slash => some .div
  | .less => some .less
  | .greater => some .greater
  | _ => none

/-- The opening keyword of an open statement. -/
def Frame.opener : Frame → GrammarError.Opener
  | .yes _ _ _ | .no _ _ _ _ => .branch
  | .body _ _ _ => .loop

namespace State

/-- The parser before the first token. -/
def start : State :=
  ⟨[], .empty, .statement⟩

/-- The state with another phase. -/
def toPhase (s : State) (phase : Phase) : State :=
  { s with phase }

/-- The state after a whole expression. -/
def deliver (s : State) (e : Expr) : Purpose → State
  | .value position target => ⟨s.frames, .assign ⟨position, target, e⟩ s.done, .statement⟩
  | .branch line => ⟨.yes line e s.done :: s.frames, .empty, .statement⟩
  | .loop line => ⟨.body line e s.done :: s.frames, .empty, .statement⟩

/-- Reads a token that starts no statement, after the last statement of a list. -/
def closeList (s : State) (t : Token) : Except Failure State :=
  if s.done.isEmpty then .error (.here (.noStatement t) t)
  else
    match s.frames with
    | [] => .error (.here (.trailing t) t)
    | .yes line cond before :: frames =>
      if t.kind = .elseWord then
        .ok ⟨.no line cond s.done.reverse before :: frames, .empty, .statement⟩
      else if t.kind = .endWord then
        .ok ⟨frames, .branch line cond s.done.reverse .empty before, .statement⟩
      else .error (.here (.missingEnd .branch t) t)
    | .no line cond yes before :: frames =>
      if t.kind = .endWord then
        .ok ⟨frames, .branch line cond yes s.done.reverse before, .statement⟩
      else .error (.here (.missingEnd .branch t) t)
    | .body line cond before :: frames =>
      if t.kind = .endWord then
        .ok ⟨frames, .loop line cond s.done.reverse before, .statement⟩
      else .error (.here (.missingEnd .loop t) t)

/-- Reads a token in a list of statements. -/
def stepStatement (s : State) (t : Token) : Except Failure State :=
  match t.kind with
  | .variable =>
    match letter? t with
    | some name => .ok (s.toPhase (.target t.position name))
    | none => .error (.here (.badVariable t.value) t)
  | .ifWord => .ok (s.toPhase (.operand (.branch t.position.line) [] []))
  | .whileWord => .ok (s.toPhase (.operand (.loop t.position.line) [] []))
  | _ => s.closeList t

/-- Reads a number literal where an operand is due. -/
def stepNumber (s : State) (purpose : Purpose) (outer : List Operands) (before : Operands)
    (text : Bytes) (t : Token) : Except Failure State :=
  match Number.read? text with
  | some value => .ok (s.toPhase (.operator purpose outer before (.number text value)))
  | none => .error (.here (.badNumber text) t)

/-- Reads a token where an operand is due. -/
def stepOperand (s : State) (purpose : Purpose) (outer : List Operands) (before : Operands)
    (t : Token) : Except Failure State :=
  match t.kind with
  | .variable =>
    match letter? t with
    | some name => .ok (s.toPhase (.operator purpose outer before (.variable name)))
    | none => .error (.here (.badVariable t.value) t)
  | .number => s.stepNumber purpose outer before t.value t
  | .minus => .ok (s.toPhase (.negative purpose outer before t))
  | .openBracket => .ok (s.toPhase (.operand purpose (before :: outer) []))
  | .endOfInput => .error (.here .noMoreInput t)
  | _ => .error (.here (.noExpression t) t)

/-- Reads a token after an operand. -/
def stepOperator (s : State) (purpose : Purpose) (outer : List Operands) (before : Operands)
    (last : Expr) (t : Token) : Except Failure State :=
  match operator? t.kind with
  | some op => .ok (s.toPhase (.operand purpose outer ((last, op) :: before)))
  | none =>
    let whole := Chain.group before last
    match outer with
    | [] => (s.deliver whole purpose).stepStatement t
    | around :: outer =>
      if t.kind = .closeBracket then
        .ok (s.toPhase (.operator purpose outer around (.bracket whole)))
      else .error (.here (.missingBracket t) t)

/-- Reads a token. -/
def step (s : State) (t : Token) : Except Failure State :=
  match s.phase with
  | .statement => s.stepStatement t
  | .target position name =>
    if t.kind = .assign then .ok (s.toPhase (.operand (.value position name) [] []))
    else .error (.here (.missingAssign name t) t)
  | .operand purpose outer before => s.stepOperand purpose outer before t
  | .negative purpose outer before minus =>
    if t.kind = .number then s.stepNumber purpose outer before (utf8 "-" ++ t.value) t
    else .error ⟨.noExpression minus, minus, true⟩
  | .operator purpose outer before last => s.stepOperator purpose outer before last t

/-- Ends the input in a list of statements. -/
def finishList (s : State) (ending : Token) : Except Failure Block :=
  if s.done.isEmpty then .error (.here (.noStatement ending) ending)
  else
    match s.frames with
    | [] => .ok s.done.reverse
    | frame :: _ => .error (.here (.missingEnd frame.opener ending) ending)

/-- Ends the input; `ending` is the token that stands for its end. -/
def finish (s : State) (ending : Token) : Except Failure Block :=
  match s.phase with
  | .statement => s.finishList ending
  | .target _ name => .error (.here (.missingAssign name ending) ending)
  | .operand _ _ _ => .error (.here .noMoreInput ending)
  | .negative _ _ _ minus => .error ⟨.noExpression minus, minus, true⟩
  | .operator purpose [] before last =>
    (s.deliver (Chain.group before last) purpose).finishList ending
  | .operator _ (_ :: _) _ _ => .error (.here (.missingBracket ending) ending)

end State

/-- The error of a failure at the token with number `index`. -/
def Failure.at (f : Failure) (index : Nat) : GrammarError :=
  ⟨f.cause, if f.earlier then index - 1 else index, f.token.position⟩

/-- Reads tokens from the one with number `index` on, and then the end of the input. -/
def run (ending : Token) : (index : Nat) → State → List Token → Except GrammarError Block
  | index, s, [] =>
    match s.finish ending with
    | .ok b => .ok b
    | .error f => .error (f.at index)
  | index, s, t :: ts =>
    match s.step t with
    | .ok s' => run ending (index + 1) s' ts
    | .error f => .error (f.at index)

/-- The tokens without a token for the end of the input in the last place. -/
def dropEnding (ts : List Token) : List Token :=
  match ts.getLast? with
  | some t => if t.kind = .endOfInput then ts.dropLast else ts
  | none => ts

/-- The token that stands for the end of the input, just after the last token. -/
def ending (ts : List Token) : Token :=
  match ts.getLast? with
  | some t => ⟨.endOfInput, [], t.position.shifted t.value.length⟩
  | none => ⟨.endOfInput, [], .start⟩

end Parser

/-- The program that a token list spells. -/
def parse (ts : List Token) : Except GrammarError Block :=
  let body := Parser.dropEnding ts
  Parser.run (Parser.ending body) 0 .start body

/-- Why a text is no program. -/
inductive ParseError where
  | lexical (e : LexicalError)
  | grammar (e : GrammarError)
  deriving DecidableEq, Repr

namespace ParseError

/-- The place of an error. -/
def position : ParseError → Position
  | .lexical e => e.position
  | .grammar e => e.position

/-- The message of an error. -/
def message : ParseError → Bytes
  | .lexical e => e.cause.message
  | .grammar e => e.cause.message

/-- The message with its place in front. -/
def text (e : ParseError) : Bytes :=
  e.position.label ++ e.message

end ParseError

/-- The program that a text spells. -/
def parseSource (source : Bytes) : Except ParseError Block :=
  match tokenize source with
  | .error e => .error (.lexical e)
  | .ok ts =>
    match parse ts with
    | .error e => .error (.grammar e)
    | .ok b => .ok b

end StoreLint
