import StoreLint.Token.Basic

/-!
# From bytes to tokens

The scanner cuts a program into tokens from the left.  Between tokens it skips spaces, tabs and line
ends; a line ends at a line feed, at a carriage return, or at the two together.  Then it reads one
lexeme:

* a run of letters `a` to `z` is a keyword, or else a variable if it is a single letter;
* a run of digits, with an optional point and further digits, is a number;
* each of `+ - * / < > = ( )` is a token of its own.

Anything else is an error.  A scanner goes on after an error, and after the end it stays there:
`Scanner.next` always gives an outcome and the scanner after it, and `Scanner.next_length_lt` says
that the rest gets shorter unless the end is reached.  `tokenize` collects the tokens up to the end,
or stops at the first error.
-/

namespace StoreLint

/-- Why a piece of a program is no token. -/
inductive LexicalCause where
  /-- A byte that starts no token. -/
  | unrecognized (byte : UInt8)
  /-- Digits and a point without digits after it, or with a second point. -/
  | malformedNumber (text : Bytes)
  /-- A run of letters that is no keyword and not a single letter. -/
  | longIdentifier (word : Bytes)
  deriving DecidableEq, Repr

namespace LexicalCause

/-- The message about an error.  A byte is shown as the character with its number. -/
def message : LexicalCause → Bytes
  | .unrecognized byte => utf8 "unrecognized character " ++ quotedChar (Char.ofNat byte.toNat)
  | .malformedNumber text => utf8 "malformed number " ++ quoted text
  | .longIdentifier word => utf8 "identifiers must be a single character, got " ++ quoted word

end LexicalCause

/-- An error of the scanner, at the place where the rejected piece starts. -/
structure LexicalError where
  cause : LexicalCause
  position : Position
  deriving DecidableEq, Repr

namespace LexicalError

/-- The message with its place in front. -/
def text (e : LexicalError) : Bytes :=
  e.position.label ++ e.cause.message

/-- The token that stands for an error: its text is the message. -/
def token (e : LexicalError) : Token :=
  ⟨.error, e.cause.message, e.position⟩

end LexicalError

/-! ## Bytes of the language -/

/-- Is the byte a letter `a` to `z`? -/
def isLetter (b : UInt8) : Bool :=
  0x61 ≤ b && b ≤ 0x7A

/-- Is the byte a digit? -/
def isDigit (b : UInt8) : Bool :=
  0x30 ≤ b && b ≤ 0x39

/-- The byte of the decimal point. -/
def pointByte : UInt8 := 0x2E

/-- The byte that ends a line. -/
def lineFeed : UInt8 := 0x0A

/-- The byte that ends a line, alone or together with a line feed after it. -/
def carriageReturn : UInt8 := 0x0D

/-- The kind of a token of one byte. -/
def signKind? (b : UInt8) : Option Token.Kind :=
  if b = 0x2B then some .plus
  else if b = 0x2D then some .minus
  else if b = 0x2A then some .star
  else if b = 0x2F then some .slash
  else if b = 0x3C then some .less
  else if b = 0x3E then some .greater
  else if b = 0x3D then some .assign
  else if b = 0x28 then some .openBracket
  else if b = 0x29 then some .closeBracket
  else none

/-- The kind of a keyword. -/
def keyword? (word : Bytes) : Option Token.Kind :=
  if word = utf8 "if" then some .ifWord
  else if word = utf8 "else" then some .elseWord
  else if word = utf8 "end" then some .endWord
  else if word = utf8 "while" then some .whileWord
  else none

/-! ## Lexemes -/

/-- A lexeme at the front of a text: what it is, and the text after it. -/
structure Lexeme where
  outcome : Except LexicalCause (Token.Kind × Bytes)
  rest : Bytes

namespace Lexeme

/-- The lexeme of a run of letters. -/
def word (text : Bytes) : Lexeme :=
  let run := text.takeWhile isLetter
  let outcome :=
    match keyword? run with
    | some kind => .ok (kind, run)
    | none => if run.length = 1 then .ok (.variable, run) else .error (.longIdentifier run)
  ⟨outcome, text.dropWhile isLetter⟩

/-- The lexeme of a number.  After a second point the rest starts at that point, though the message
shows it. -/
def number (text : Bytes) : Lexeme :=
  let whole := text.takeWhile isDigit
  match text.dropWhile isDigit with
  | b :: afterPoint =>
    if b = pointByte then
      let fraction := afterPoint.takeWhile isDigit
      let literal := whole ++ b :: fraction
      let rest := afterPoint.dropWhile isDigit
      if fraction = [] then ⟨.error (.malformedNumber literal), rest⟩
      else if rest.head? = some pointByte then
        ⟨.error (.malformedNumber (literal ++ [pointByte])), rest⟩
      else ⟨.ok (.number, literal), rest⟩
    else ⟨.ok (.number, whole), b :: afterPoint⟩
  | [] => ⟨.ok (.number, whole), []⟩

/-- The lexeme of a single byte. -/
def sign (b : UInt8) (rest : Bytes) : Lexeme :=
  match signKind? b with
  | some kind => ⟨.ok (kind, [b]), rest⟩
  | none => ⟨.error (.unrecognized b), rest⟩

/-- The lexeme at the front of a text that starts with `b`. -/
def read (b : UInt8) (rest : Bytes) : Lexeme :=
  if isLetter b then word (b :: rest)
  else if isDigit b then number (b :: rest)
  else sign b rest

theorem length_dropWhile_le {α : Type} (p : α → Bool) (xs : List α) :
    (xs.dropWhile p).length ≤ xs.length :=
  (List.dropWhile_sublist p).length_le

/-- A lexeme takes at least one byte. -/
theorem read_length_lt (b : UInt8) (rest : Bytes) :
    (read b rest).rest.length < (b :: rest).length := by
  have hdrop : ∀ p : UInt8 → Bool, p b = true →
      ((b :: rest).dropWhile p).length < (b :: rest).length := by
    intro p hp
    rw [List.dropWhile_cons_of_pos hp]
    exact Nat.lt_succ_of_le (length_dropWhile_le p rest)
  unfold read
  by_cases hl : isLetter b = true
  · rw [if_pos hl]
    exact hdrop isLetter hl
  · rw [if_neg hl]
    by_cases hd : isDigit b = true
    · rw [if_pos hd]
      have hlt := hdrop isDigit hd
      unfold number
      split
      · rename_i c afterPoint hrest
        rw [hrest] at hlt
        have htail := length_dropWhile_le isDigit afterPoint
        simp only [List.length_cons] at hlt ⊢
        split
        · split
          · exact Nat.lt_of_le_of_lt htail (by omega)
          · split
            · exact Nat.lt_of_le_of_lt htail (by omega)
            · exact Nat.lt_of_le_of_lt htail (by omega)
        · simpa using hlt
      · simp
    · rw [if_neg hd]
      unfold sign
      split <;> simp

end Lexeme

/-! ## Scanners -/

/-- A scanner: the bytes still to read, and the place of the first of them. -/
structure Scanner where
  rest : Bytes
  position : Position

namespace Scanner

/-- The scanner at the beginning of a program. -/
def ofSource (source : Bytes) : Scanner :=
  ⟨source, .start⟩

/-- Moves past the spaces, tabs and line ends at the front. -/
def skipGap : Bytes → Position → Scanner
  | [], p => ⟨[], p⟩
  | b :: rest, p =>
    if b = 0x20 ∨ b = 0x09 then skipGap rest (p.right 1)
    else if b = lineFeed then skipGap rest p.nextLine
    else if b = carriageReturn then
      match rest with
      | [] => ⟨[], p.nextLine⟩
      | c :: rest' =>
        if c = lineFeed then skipGap rest' p.nextLine else skipGap (c :: rest') p.nextLine
    else ⟨b :: rest, p⟩

/-- What a scanner finds next. -/
inductive Outcome where
  | token (t : Token)
  | error (e : LexicalError)
  | finished (position : Position)

/-- The next outcome, and the scanner after it. -/
def next (s : Scanner) : Outcome × Scanner :=
  let here := skipGap s.rest s.position
  match here.rest with
  | [] => (.finished here.position, here)
  | b :: rest =>
    let lexeme := Lexeme.read b rest
    let taken := (b :: rest).length - lexeme.rest.length
    let after : Scanner := ⟨lexeme.rest, here.position.right taken⟩
    match lexeme.outcome with
    | .ok (kind, value) => (.token ⟨kind, value, here.position⟩, after)
    | .error cause => (.error ⟨cause, here.position⟩, after)

theorem skipGap_length_le (rest : Bytes) (p : Position) :
    (skipGap rest p).rest.length ≤ rest.length := by
  fun_induction skipGap rest p <;> simp_all <;> omega

/-- Unless the end is reached, the scanner moves on. -/
theorem next_length_lt (s : Scanner) (h : ∀ p, (next s).1 ≠ .finished p) :
    (next s).2.rest.length < s.rest.length := by
  have hgap := skipGap_length_le s.rest s.position
  unfold next at h ⊢
  generalize skipGap s.rest s.position = here at h hgap ⊢
  obtain ⟨rest, p⟩ := here
  cases rest with
  | nil => exact absurd rfl (h p)
  | cons b rest =>
    have hlt := Lexeme.read_length_lt b rest
    dsimp only at h hgap ⊢
    split <;> exact Nat.lt_of_lt_of_le hlt hgap

/-- The token that stands for an outcome; the end is a token without text. -/
def Outcome.toToken : Outcome → Token
  | .token t => t
  | .error e => e.token
  | .finished p => ⟨.endOfInput, [], p⟩

/-- The first `n` outcomes, going on after errors and after the end. -/
def outcomes : Nat → Scanner → List Outcome
  | 0, _ => []
  | n + 1, s => (next s).1 :: outcomes n (next s).2

/-- The tokens up to the end, or the first error. -/
def tokens (s : Scanner) : Except LexicalError (List Token) :=
  match _h : (next s).1 with
  | .finished _ => .ok []
  | .error e => .error e
  | .token t =>
    match tokens (next s).2 with
    | .ok ts => .ok (t :: ts)
    | .error e => .error e
termination_by s.rest.length
decreasing_by exact next_length_lt s (by simp [_h])

end Scanner

/-- The tokens of a program, or the first error in it. -/
def tokenize (source : Bytes) : Except LexicalError (List Token) :=
  (Scanner.ofSource source).tokens

end StoreLint
