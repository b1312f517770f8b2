import StoreLint.Text.Quoted

/-!
# Tokens

A program is a sequence of tokens: keywords, single-letter variables, numbers, operators, the sign
of assignment and brackets.  Each token carries its text and the place where it starts.

Tokens come from the scanner, or are put together by a caller.  So there are kinds that the scanner
never hands to the parser: a scanning error, the end of the input, and the kinds beyond the known
ones.
-/

namespace StoreLint

/-- A place in a program: line and column, counted from one; columns count bytes.  A caller may make
up places of its own. -/
structure Position where
  line : Int
  column : Int
  deriving DecidableEq, Repr, Inhabited

namespace Position

/-- The place of the first byte of a program. -/
def start : Position := ⟨1, 1⟩

/-- The place `n` bytes further on the same line. -/
def right (p : Position) (n : Nat) : Position :=
  ⟨p.line, p.column + n⟩

/-- The place `n` columns further on the same line, for a place that a caller may have made up:
columns are words of 64 bits, and after the greatest of them comes the least. -/
def shifted (p : Position) (n : Int) : Position :=
  ⟨p.line, (p.column + n).bmod 0x10000000000000000⟩

/-- A column that fits into a word is shifted without turning round. -/
theorem shifted_of_fits (p : Position) (n : Int) (low : -0x8000000000000000 ≤ p.column + n)
    (high : p.column + n < 0x8000000000000000) : p.shifted n = ⟨p.line, p.column + n⟩ := by
  rw [shifted, Int.bmod_eq_of_le (by omega) (by omega)]

/-- The place of the first byte of the next line. -/
def nextLine (p : Position) : Position :=
  ⟨p.line + 1, 1⟩

/-- A place in front of a message: `line:column: `. -/
def label (p : Position) : Bytes :=
  decimal p.line ++ utf8 ":" ++ decimal p.column ++ utf8 ": "

end Position

namespace Token

/-- The kinds of tokens. -/
inductive Kind where
  | error
  | endOfInput
  | number
  | variable
  | ifWord
  | elseWord
  | endWord
  | whileWord
  | plus
  | minus
  | star
  | slash
  | less
  | greater
  | assign
  | openBracket
  | closeBracket
  /-- A kind beyond the known ones. -/
  | unknown
  deriving DecidableEq, Repr, Inhabited

namespace Kind

/-- The known kinds, in the order of their numbers from zero on. -/
def known : List Kind :=
  [.error, .endOfInput, .number, .variable, .ifWord, .elseWord, .endWord, .whileWord, .plus, .minus,
    .star, .slash, .less, .greater, .assign, .openBracket, .closeBracket]

/-- The kind with a given number. -/
def ofCode (n : Nat) : Kind :=
  known.getD n .unknown

/-- The name of a kind.  For keywords, operators and signs it is their text. -/
def name : Kind → String
  | .error => "error"
  | .endOfInput => "EOF"
  | .number => "number"
  | .variable => "variable"
  | .ifWord => "if"
  | .elseWord => "else"
  | .endWord => "end"
  | .whileWord => "while"
  | .plus => "+"
  | .minus => "-"
  | .star => "*"
  | .slash => "/"
  | .less => "<"
  | .greater => ">"
  | .assign => "="
  | .openBracket => "("
  | .closeBracket => ")"
  | .unknown => "unknown"

/-- Is the kind one of the four keywords? -/
def isKeyword : Kind → Bool
  | .ifWord | .elseWord | .endWord | .whileWord => true
  | _ => false

/-- Is the kind one of the six operators? -/
def isOperator : Kind → Bool
  | .plus | .minus | .star | .slash | .less | .greater => true
  | _ => false

end Kind

end Token

/-- A token: its kind, its text, and the place where it starts. -/
structure Token where
  kind : Token.Kind
  value : Bytes
  position : Position
  deriving DecidableEq, Repr, Inhabited

namespace Token

/-- A token as shown to a reader: its own text for numbers and variables, else the name of its
kind. -/
def text (t : Token) : Bytes :=
  match t.kind with
  | .number | .variable => t.value
  | kind => utf8 kind.name

/-- A token as messages speak of it. -/
def describe (t : Token) : Bytes :=
  match t.kind with
  | .endOfInput => utf8 "end of input"
  | .variable => utf8 "variable " ++ quoted t.value
  | .number => utf8 "number " ++ t.value
  | kind =>
    if kind.isKeyword then utf8 "keyword " ++ quoted t.value
    else quoted (utf8 kind.name)

end Token

end StoreLint
