import StoreLint.Text.Reader
import StoreLint.Yaml.Token

/-!
# Scalars of a YAML stream

A scalar is written plain, between quotes, or as a block of indented lines.  A plain or quoted one
may go on in the next lines: a single line end in it stands for a space, and of several the first is
left out.  The separators U+2028 and U+2029 end lines too, but stand for themselves.

* `plainScalar`, `quotedScalar` and `blockScalar` read one scalar each.
-/

namespace StoreLint.Yaml

open Scan

/-! ## Comments -/

/-- Passes over the rest of a line. -/
def restOfLine : Scan Unit := do
  ensure 1
  skipWhile fun c => !isBreakOrEnd c

/-- The distance over blanks to the sign of a comment, if it comes next on this line; `bound` bounds
how far is looked. -/
def lineComment? (distance : Nat) : (bound : Nat) → Scan (Option Nat)
  | 0 => return none
  | bound + 1 => do
    ensure (distance + 1)
    let c ← look distance
    if isBlank c then lineComment? (distance + 1) bound
    else return if c = '#' then some distance else none

/-- Passes over a comment that stands behind a sign on the same line. -/
def lineComment : Scan Unit := do
  if !(← get).lineEnded then
    match ← lineComment? 0 512 with
    | some distance =>
      skipMany distance
      restOfLine
    | none => pure ()

/-! ## Folding -/

/-- A scalar as far as it has been read, last character first, and the white space after that. -/
structure Folding where
  text : List Char := []
  /-- The blanks after it on the same line. -/
  blanks : List Char := []
  /-- The first line end after it. -/
  firstBreak : List Char := []
  /-- The other line ends after it. -/
  otherBreaks : List Char := []
  /-- Has a line ended after it? -/
  broken : Bool := false

namespace Folding

/-- What the white space after a text stands for, if the text goes on. -/
def gap (f : Folding) : List Char :=
  if f.broken then
    match f.firstBreak with
    | '\n' :: _ => if f.otherBreaks.isEmpty then [' '] else f.otherBreaks
    | first => first ++ f.otherBreaks
  else f.blanks

/-- The text with the white space after it. -/
def joined (f : Folding) : Folding :=
  { text := f.gap.reverse ++ f.text }

/-- The text with characters behind it. -/
def add (f : Folding) (cs : List Char) : Folding :=
  { f with text := cs.reverse ++ f.text }

/-- Passes over blanks and line ends.  In a line that is indented by fewer than `indent` columns, a
tab is no indentation. -/
def whiteSpace (f : Folding) (indent : Int) : Scan Folding :=
  iterate f fun f => do
    let c ← look 0
    if isBlank c then
      if f.broken ∧ (← get).mark.column < indent ∧ c = '\t' then failure
      skip
      ensure 1
      return (if f.broken then f else { f with blanks := f.blanks ++ [c] }, true)
    else if isBreak c then
      ensure 2
      let line ← readLine
      ensure 1
      if f.broken then return ({ f with otherBreaks := f.otherBreaks ++ line }, true)
      else return ({ f with blanks := [], firstBreak := line, broken := true }, true)
    else return (f, false)

end Folding

/-! ## Plain scalars -/

/-- Does the character have a meaning between brackets? -/
def isFlowSign (c : Char) : Bool :=
  c = ',' || c = '?' || c = '[' || c = ']' || c = '\x7b' || c = '\x7d'

/-- The part of a plain scalar up to a blank, a line end, or a sign that ends it. -/
def plainPart (f : Folding) : Scan Folding :=
  iterate f fun f => do
    let c ← look 0
    if isGap c || (c = ':' && isGap (← look 1)) || ((← get).inFlow && isFlowSign c) then
      return (f, false)
    else
      skip
      ensure 2
      return (f.joined.add [c], true)

/-- A plain scalar.  After one that is followed by a line end, a key may start. -/
def plainScalar : Scan Token := do
  let indent := (← get).indent + 1
  let f ← iterate ({} : Folding) fun f => do
    ensure 4
    if (← atDocumentMark) || (← look 0) = '#' then return (f, false)
    else
      let f ← plainPart f
      let c ← look 0
      if isBlank c || isBreak c then
        ensure 1
        let f ← f.whiteSpace indent
        let s ← get
        return (f, s.inFlow || indent ≤ s.mark.column)
      else return (f, false)
  if f.broken then modify fun s => { s with keyAllowed := true }
  return .scalar true f.text.reverse

/-! ## Quoted scalars -/

/-- The character with a number of so many hexadecimal digits. -/
def numbered (digits : Nat) : Scan Char := do
  ensure digits
  let cs := (← get).ahead.take digits
  match (hexNumber? cs).bind char? with
  | some c =>
    if cs.length = digits then
      skipMany digits
      return c
    else failure
  | none => failure

/-- The character that is meant by one after a backslash. -/
def escaped? (c : Char) : Option Char :=
  match c with
  | '0' => some '\x00'
  | 'a' => some '\x07'
  | 'b' => some '\x08'
  | 't' => some '\t'
  | '\t' => some '\t'
  | 'n' => some '\n'
  | 'v' => some '\x0b'
  | 'f' => some '\x0c'
  | 'r' => some '\r'
  | 'e' => some '\x1b'
  | ' ' => some ' '
  | '"' => some '"'
  | '\'' => some '\''
  | '\\' => some '\\'
  | 'N' => some (Char.ofNat 0x85)
  | '_' => some (Char.ofNat 0xA0)
  | 'L' => some (Char.ofNat 0x2028)
  | 'P' => some (Char.ofNat 0x2029)
  | _ => none

/-- The character after a backslash. -/
def escape : Scan Char := do
  let c ← look 1
  skipMany 2
  match c with
  | 'x' => numbered 2
  | 'u' => numbered 4
  | 'U' => numbered 8
  | c =>
    match escaped? c with
    | some c => return c
    | none => failure

/-- The part of a quoted scalar up to a blank, a line end or the quote.  A line end after a
backslash stands for nothing. -/
def quotedPart (quote : Char) (f : Folding) : Scan Folding :=
  iterate f fun f => do
    let c ← look 0
    let after ← look 1
    if isGap c then return (f, false)
    else if quote = '\'' ∧ c = quote ∧ after = quote then
      skipMany 2
      ensure 2
      return (f.add [quote], true)
    else if c = quote then return (f, false)
    else if quote = '"' ∧ c = '\\' ∧ isBreak after then
      ensure 3
      skip
      skipLine
      return ({ f with broken := true }, false)
    else if quote = '"' ∧ c = '\\' then
      let c ← escape
      ensure 2
      return (f.add [c], true)
    else
      skip
      ensure 2
      return (f.add [c], true)

/-- A scalar between quotes. -/
def quotedScalar (quote : Char) : Scan Token := do
  skip
  let f ← iterate ({} : Folding) fun f => do
    ensure 4
    if (← atDocumentMark) || (← look 0) = endOfText then failure
    let f ← quotedPart quote f
    ensure 1
    if (← look 0) = quote then return (f, false)
    else return ((← f.whiteSpace 0).joined, true)
  skip
  return .scalar false f.text.reverse

/-! ## Block scalars -/

/-- What becomes of the line ends behind a block. -/
inductive Chomping where
  /-- They are left out. -/
  | strip
  /-- The first one stays. -/
  | clip
  /-- All stay. -/
  | keep
  deriving DecidableEq, Repr

/-- The sign that tells what becomes of the line ends, if it stands here. -/
def chomping? : Scan (Option Chomping) := do
  match ← look 0 with
  | '+' => skip; return some .keep
  | '-' => skip; return some .strip
  | _ => return none

/-- The digit that tells the indentation, if it stands here; it is not zero. -/
def increment : Scan Nat := do
  let c ← look 0
  if c = '0' then failure
  else if c.isDigit then
    skip
    return c.toNat - 48
  else return 0

/-- The signs behind the one that starts a block, in either order. -/
def blockHeader : Scan (Chomping × Nat) := do
  ensure 1
  match ← chomping? with
  | some chomping =>
    ensure 1
    return (chomping, ← increment)
  | none =>
    let digit ← increment
    if digit = 0 then return (.clip, 0)
    else
      ensure 1
      return ((← chomping?).getD .clip, digit)

/-- Passes over the indentation of a line, up to a column if there is one. -/
def indentation (indent : Nat) : Scan Unit := do
  ensure 1
  loop do
    if (indent = 0 || (← get).mark.column < indent) && (← look 0) = ' ' then
      skip
      ensure 1
      return true
    else return false

/-- Passes over empty lines and over the indentation of the next one.  Gives the line ends and the
indentation of the block: the given one, or, if that is zero, the greatest one that was seen. -/
def blockBreaks (indent : Nat) : Scan (List Char × Nat) := do
  let (breaks, widest) ← iterate (([] : List Char), 0) fun (breaks, widest) => do
    indentation indent
    let column := (← get).mark.column
    let c ← look 0
    if (indent = 0 ∨ column < indent) ∧ c = '\t' then failure
    if isBreak c then
      ensure 2
      return ((breaks ++ (← readLine), max widest column), true)
    else return ((breaks, max widest column), false)
  if indent = 0 then return (breaks, max (max widest ((← get).indent + 1).toNat) 1)
  else return (breaks, indent)

/-- A block as far as it has been read, last character first. -/
structure Block where
  text : List Char
  /-- The line end of the last line. -/
  lineBreak : List Char
  /-- The line ends after it. -/
  breaks : List Char
  /-- Did the last line start with a blank? -/
  startsBlank : Bool

/-- The line ends before a line of a block.  When lines are folded, one between two lines that start
with no blank stands for a space, or for nothing if empty lines follow it. -/
def Block.gap (b : Block) (literal startsBlank : Bool) : List Char :=
  if !literal && !b.startsBlank && !startsBlank && b.lineBreak.head? = some '\n' then
    if b.breaks.isEmpty then [' '] else b.breaks
  else b.lineBreak ++ b.breaks

/-- A line of a block and the line ends after it. -/
def Block.addLine (literal : Bool) (indent : Nat) (b : Block) : Scan Block := do
  let startsBlank := isBlank (← look 0)
  let line ← readWhile fun c => !isBreakOrEnd c
  ensure 2
  let lineBreak ← readLine
  let (breaks, _) ← blockBreaks indent
  return ⟨line.reverse ++ (b.gap literal startsBlank).reverse ++ b.text, lineBreak, breaks,
    startsBlank⟩

/-- A scalar of indented lines, taken as they are or folded. -/
def blockScalar (literal : Bool) : Scan Token := do
  skip
  let (chomping, increment) ← blockHeader
  ensure 1
  skipWhile isBlank
  if (← look 0) = '#' then
    lineComment
    skipWhile fun c => !isBreakOrEnd c
  if !isBreakOrEnd (← look 0) then failure
  if isBreak (← look 0) then
    ensure 2
    skipLine
  let s ← get
  let given := if increment = 0 then 0 else (max s.indent 0).toNat + increment
  let (breaks, indent) ← blockBreaks given
  ensure 1
  let b ← iterate (⟨[], [], breaks, false⟩ : Block) fun b => do
    if (← get).mark.column = indent && (← look 0) != endOfText then
      return (← b.addLine literal indent, true)
    else return (b, false)
  let tail := match chomping with
    | .strip => []
    | .clip => b.lineBreak
    | .keep => b.lineBreak ++ b.breaks
  return .scalar false (b.text.reverse ++ tail)

end StoreLint.Yaml
