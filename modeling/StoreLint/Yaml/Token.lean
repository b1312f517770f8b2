import StoreLint.Yaml.Meaning
import StoreLint.Yaml.Source

/-!
# Reading characters of a YAML stream

The signs of which a stream is made, and the state of reading them: the place in the text, the
columns at which lists are open, and the signs that were found but not used yet.

A key is known as such only by the colon behind it.  So a place where a key may have started is
remembered, one for each level of brackets, until the colon comes or cannot come any more.

* `Token` are the signs.
* `Scanner` is the state, and `Scan` a step of reading that may fail.
* `ensure`, `skip`, `read`, `skipLine` and `readLine` are the smallest steps.
-/

namespace StoreLint.Yaml

/-- A sign of a stream. -/
inductive Token where
  /-- A directive that tells the version; is it the one that is known here? -/
  | version (known : Bool)
  /-- A directive that tells what a handle of tags stands for. -/
  | handle (name meaning : Bytes)
  | documentStart
  | documentEnd
  | streamEnd
  | blockSequenceStart
  | blockMappingStart
  | blockEnd
  | flowSequenceStart
  | flowSequenceEnd
  | flowMappingStart
  | flowMappingEnd
  | blockEntry
  | flowEntry
  | key
  | value
  | alias (name : String)
  | anchor (name : String)
  | tag (handle rest : Bytes)
  | scalar (plain : Bool) (text : List Char)
  deriving DecidableEq, Repr

/-! ## Characters -/

/-- What is read where the text has ended. -/
def endOfText : Char := '\x00'

/-- Does the character end a line? -/
def isBreak (c : Char) : Bool :=
  c = '\n' || c = '\r' || c.toNat = 0x85 || c.toNat = 0x2028 || c.toNat = 0x2029

/-- Does the character end a line or the text? -/
def isBreakOrEnd (c : Char) : Bool :=
  isBreak c || c = endOfText

/-- Is the character a blank, or does it end a line or the text? -/
def isGap (c : Char) : Bool :=
  isBlank c || isBreakOrEnd c

/-- May the character stand in the name of an anchor? -/
def isWordChar (c : Char) : Bool :=
  c.isAlphanum || c = '_' || c = '-'

/-! ## The state of reading -/

/-- A place in a text, counted from zero. -/
structure Mark where
  index : Nat
  line : Nat
  column : Nat
  deriving DecidableEq, Repr

/-- A place where a key may have started. -/
structure Candidate where
  /-- May a colon still come? -/
  possible : Bool
  /-- Must it come? -/
  required : Bool
  /-- The number of the sign that starts there. -/
  token : Nat
  mark : Mark
  /-- Is the sign held back until it is known whether it starts a key? -/
  held : Bool
  deriving DecidableEq, Repr

/-- The state of reading a stream. -/
structure Scanner where
  /-- The characters that were turned from bytes and not read yet. -/
  ahead : List Char
  /-- The pieces after them. -/
  pieces : List Piece
  /-- Did `ahead` start with a byte order mark when characters were last added? -/
  startsWithMark : Bool
  mark : Mark
  /-- Has a line ended since the last character that is no blank? -/
  lineEnded : Bool
  /-- The column of the list that is open, or minus one. -/
  indent : Int
  /-- The columns of the lists around it. -/
  indents : List Int
  /-- Where a key may have started on the innermost level of brackets. -/
  candidate : Candidate
  /-- The same for the levels around it. -/
  outer : List Candidate
  /-- May a key start here? -/
  keyAllowed : Bool
  /-- The signs that were found and not used yet. -/
  queue : List Token
  /-- The number of the signs that were used. -/
  used : Nat
  /-- More than the number of steps that the text can take. -/
  bound : Nat

/-- A step of reading, which may fail. -/
abbrev Scan (α : Type) := StateT Scanner Option α

/-- A place where no key has started. -/
def Candidate.unset (token : Nat) (mark : Mark) : Candidate :=
  ⟨false, false, token, mark, false⟩

/-- The state before the first character. -/
def Scanner.start (stream : Bytes) : Scanner where
  ahead := []
  pieces := Yaml.pieces stream
  startsWithMark := false
  mark := ⟨0, 0, 0⟩
  lineEnded := false
  indent := -1
  indents := []
  candidate := .unset 0 ⟨0, 0, 0⟩
  outer := []
  keyAllowed := true
  queue := []
  used := 0
  bound := 2 * stream.length + 16

/-- Is reading between brackets? -/
def Scanner.inFlow (s : Scanner) : Bool :=
  !s.outer.isEmpty

/-- The number of the next sign that is found. -/
def Scanner.nextToken (s : Scanner) : Nat :=
  s.used + s.queue.length

namespace Scan

/-- Repeats a step on a value as long as it tells that there is more to do, at most `bound`
times. -/
def repeatUpTo {σ : Type} (step : σ → Scan (σ × Bool)) : (bound : Nat) → σ → Scan σ
  | 0, _ => failure
  | bound + 1, x => do
    let (x, more) ← step x
    if more then repeatUpTo step bound x else return x

/-- Repeats a step on a value as long as it tells that there is more to do.  Each step has to read a
character. -/
def iterate {σ : Type} (x : σ) (step : σ → Scan (σ × Bool)) : Scan σ := do
  repeatUpTo step (← get).bound x

/-- Repeats a step as long as it tells that there is more to do. -/
def loop (step : Scan Bool) : Scan Unit :=
  iterate () fun _ => return ((), ← step)

/-- Adds pieces to characters until there are `n` of them; where the stream has ended, the end of
the text is added once. -/
def fill? (n : Nat) (ahead : List Char) : List Piece → Option (List Char × List Piece)
  | [] => some (ahead ++ [endOfText], [])
  | none :: _ => none
  | some cs :: pieces =>
    if n ≤ (ahead ++ cs).length then some (ahead ++ cs, pieces) else fill? n (ahead ++ cs) pieces

/-- Makes sure that the next `n` characters can be looked at. -/
def ensure (n : Nat) : Scan Unit := do
  let s ← get
  if (s.ahead.drop (n - 1)).isEmpty then
    let (ahead, pieces) ← fill? n s.ahead s.pieces
    set { s with
      ahead, pieces, startsWithMark := ahead.head?.map Char.toNat = some 0xFEFF }

/-- The character at a distance. -/
def look (distance : Nat) : Scan Char :=
  return (← get).ahead.getD distance endOfText

/-- Passes over a character. -/
def skip : Scan Unit := do
  let c ← look 0
  modify fun s => { s with
    ahead := s.ahead.drop 1
    mark := { s.mark with index := s.mark.index + 1, column := s.mark.column + 1 }
    lineEnded := s.lineEnded && isBlank c }

/-- Passes over `n` characters. -/
def skipMany : Nat → Scan Unit
  | 0 => pure ()
  | n + 1 => do
    skip
    skipMany n

/-- Takes a character. -/
def read : Scan Char := do
  let c ← look 0
  skip
  return c

/-- Takes the end of a line, if it stands here; gives the characters that stand for it in a text. -/
def readLine : Scan (List Char) := do
  let c ← look 0
  if isBreak c then
    let width := if c = '\r' && (← look 1) = '\n' then 2 else 1
    modify fun s => { s with
      ahead := s.ahead.drop width
      mark := ⟨s.mark.index + width, s.mark.line + 1, 0⟩
      lineEnded := true }
    return if c.toNat = 0x2028 || c.toNat = 0x2029 then [c] else ['\n']
  else return []

/-- Passes over the end of a line. -/
def skipLine : Scan Unit := do
  let _ ← readLine

/-- Passes over characters as long as they satisfy `p`. -/
def skipWhile (p : Char → Bool) : Scan Unit :=
  loop do
    if p (← look 0) then
      skip
      ensure 1
      return true
    else return false

/-- Takes characters as long as they satisfy `p`. -/
def readWhile (p : Char → Bool) : Scan (List Char) := do
  let taken ← iterate [] fun taken => do
    if p (← look 0) then
      let c ← read
      ensure 1
      return (c :: taken, true)
    else return (taken, false)
  return taken.reverse

/-- Does a mark between documents stand here?  Four characters must have been ensured. -/
def atDocumentMark : Scan Bool := do
  let s ← get
  let three := s.ahead.take 3
  return s.mark.column = 0 && (three = ['-', '-', '-'] || three = ['.', '.', '.'])
    && isGap (← look 3)

/-- Adds a sign behind the others. -/
def push (t : Token) : Scan Unit :=
  modify fun s => { s with queue := s.queue ++ [t] }

/-- Adds a sign before the one with a number, if that is not used yet, or else behind the others. -/
def insertBefore (number : Nat) (t : Token) : Scan Unit :=
  modify fun s =>
    let place := if number < s.used then s.queue.length else number - s.used
    { s with queue := s.queue.take place ++ t :: s.queue.drop place }

end Scan

end StoreLint.Yaml
