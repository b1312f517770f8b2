import StoreLint.Token.Basic

/-!
# Errors of grammar

The parser stops at the first token that cannot continue a program.  The error names its cause, and
the cause gives both the kind of the error and the message.
-/

namespace StoreLint

namespace GrammarError

/-- The kinds of errors of grammar. -/
inductive Kind where
  | unexpectedToken
  | unexpectedEnd
  | missingAssign
  | missingBracket
  | missingEnd
  | invalidExpression
  | emptyStatementList
  | trailingTokens
  /-- A kind beyond the known ones. -/
  | unknown
  deriving DecidableEq, Repr, Inhabited

namespace Kind

/-- The known kinds, in the order of their numbers from one on. -/
def known : List Kind :=
  [.unexpectedToken, .unexpectedEnd, .missingAssign, .missingBracket, .missingEnd,
    .invalidExpression, .emptyStatementList, .trailingTokens]

/-- The kind with a given number. -/
def ofCode : Nat → Kind
  | 0 => .unknown
  | n + 1 => known.getD n .unknown

/-- The name of a kind. -/
def name : Kind → String
  | .unexpectedToken => "unexpected token"
  | .unexpectedEnd => "unexpected end of input"
  | .missingAssign => "missing assignment"
  | .missingBracket => "missing closing bracket"
  | .missingEnd => "missing end"
  | .invalidExpression => "invalid expression"
  | .emptyStatementList => "empty statement list"
  | .trailingTokens => "trailing tokens"
  | .unknown => "syntax error"

end Kind

/-- The statements that are closed by `end`. -/
inductive Opener where
  | branch
  | loop
  deriving DecidableEq, Repr

/-- The keyword that opens a statement. -/
def Opener.word : Opener → String
  | .branch => "if"
  | .loop => "while"

/-- Why a token cannot continue a program. -/
inductive Cause where
  /-- A variable whose name is not a single letter. -/
  | badVariable (name : Bytes)
  /-- The input ends where an expression has to start. -/
  | noMoreInput
  /-- A variable at the start of a statement without the sign of assignment after it. -/
  | missingAssign (target : UInt8) (found : Token)
  /-- A bracket that is not closed. -/
  | missingBracket (found : Token)
  /-- An `if` or `while` that is not closed. -/
  | missingEnd (opener : Opener) (found : Token)
  /-- A token that starts no expression. -/
  | noExpression (found : Token)
  /-- A number literal that has no value. -/
  | badNumber (text : Bytes)
  /-- A list of statements with none in it. -/
  | noStatement (found : Token)
  /-- A token after the end of the program. -/
  | trailing (found : Token)
  deriving DecidableEq, Repr

namespace Cause

/-- The kind of an error with this cause. -/
def kind : Cause → Kind
  | .badVariable _ => .unexpectedToken
  | .noMoreInput => .unexpectedEnd
  | .missingAssign _ _ => .missingAssign
  | .missingBracket _ => .missingBracket
  | .missingEnd _ _ => .missingEnd
  | .noExpression _ | .badNumber _ => .invalidExpression
  | .noStatement _ => .emptyStatementList
  | .trailing _ => .trailingTokens

/-- The message about an error with this cause. -/
def message : Cause → Bytes
  | .badVariable name => utf8 "invalid variable name " ++ quoted name
  | .noMoreInput =>
    utf8 "expecting an expression, did not encounter valid one: reached end of input"
  | .missingAssign target found =>
    utf8 "expected = after variable " ++ target :: utf8 ", got " ++ found.describe
  | .missingBracket found => utf8 "expected ) to close bracket, got " ++ found.describe
  | .missingEnd opener found =>
    utf8 "expected end to close " ++ utf8 opener.word ++ utf8 ", got " ++ found.describe
  | .noExpression found =>
    utf8 "expecting an expression, did not encounter valid one: got " ++ found.describe
  | .badNumber text => utf8 "invalid number " ++ text
  | .noStatement found => utf8 "expected a statement, got " ++ found.describe
  | .trailing found =>
    utf8 "did not consume all tokens, stopped at " ++ found.describe

end Cause

end GrammarError

/-- An error of grammar: its cause, the number of the offending token counted from zero, and the
place of that token.  The end of the input counts as a token after the last one. -/
structure GrammarError where
  cause : GrammarError.Cause
  index : Nat
  position : Position
  deriving DecidableEq, Repr

namespace GrammarError

/-- The message with its place in front. -/
def text (e : GrammarError) : Bytes :=
  e.position.label ++ e.cause.message

end GrammarError

end StoreLint
