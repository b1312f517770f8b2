import StoreLint.Yaml.Scalar

/-!
# Signs of a YAML stream

Finds the signs of a stream one after the other.  Lists outside brackets have no closing sign of
their own: they end where a line is indented by less, and signs for that are added here.  When the
colon behind a key is found, the sign for the key is put before the sign with which the key started.

* `fetch` finds the next sign.
* `peek` is the first sign that is not used yet, and `advance` uses it.
-/

namespace StoreLint.Yaml

open Scan

/-! ## Keys -/

/-- The greatest number of characters from the start of a key to its colon. -/
def keyLength : Nat := 1024

/-- Has reading left the line of the candidate, or gone too far? -/
def Candidate.isStale (c : Candidate) (mark : Mark) : Bool :=
  c.mark.line < mark.line || c.mark.index + keyLength < mark.index

/-- Does a key start at the candidate, if a colon stands here?  It is given up if that cannot be. -/
def Candidate.check? (c : Candidate) (mark : Mark) : Option Candidate :=
  if c.possible && c.isStale mark then
    if c.required then none else some { c with possible := false }
  else some c

/-- Gives up the candidate of the innermost level. -/
def dropCandidate : Scan Unit := do
  let c := (← get).candidate
  if c.possible && c.required then failure
  modify fun s => { s with candidate := { c with possible := false } }

/-- Notes that a key may start here. -/
def noteCandidate : Scan Unit := do
  let s ← get
  if s.keyAllowed then
    dropCandidate
    let required := !s.inFlow && s.indent = s.mark.column
    modify fun s => { s with candidate := ⟨true, required, s.nextToken, s.mark, true⟩ }

/-- Tells whether a key may start at the next sign. -/
def allowKey (allowed : Bool) : Scan Unit :=
  modify fun s => { s with keyAllowed := allowed }

/-! ## Lists outside brackets -/

/-- The greatest number of lists, or of brackets, inside each other. -/
def maxDepth : Nat := 10000

/-- Opens a list at a column that is further to the right than the one that is open, with its sign
before the one with a number or behind all others. -/
def openList (column : Nat) (before : Option Nat) (t : Token) : Scan Unit := do
  let s ← get
  if !s.inFlow && s.indent < column then
    if maxDepth < s.indents.length + 1 then failure
    set { s with indents := s.indent :: s.indents, indent := column }
    match before with
    | some number => insertBefore number t
    | none => push t

/-- Closes the lists that are further to the right than a column. -/
def closeLists (column : Int) : Scan Unit := do
  let s ← get
  if !s.inFlow then
    let closed := (s.indent :: s.indents).takeWhile (column < ·)
    let left := (s.indent :: s.indents).dropWhile (column < ·)
    set { s with
      queue := s.queue ++ closed.map fun _ => Token.blockEnd
      indent := left.headD (-1)
      indents := left.tail }

/-! ## White space -/

/-- The distance to the sign of a comment in one of the next lines, if there are only blanks and
line ends before it; `bound` bounds how far is looked. -/
def nextComment? (distance : Nat) : (bound : Nat) → Scan (Option Nat)
  | 0 => return none
  | bound + 1 => do
    ensure (distance + 1)
    let c ← look distance
    if isBlank c || c = '\n' || c = '\r' then nextComment? (distance + 1) bound
    else if isBreak c then
      ensure (distance + 2)
      return none
    else return if c = '#' then some distance else none

/-- Passes over blanks and line ends up to an index. -/
def skipTo (index : Nat) : Scan Unit :=
  loop do
    ensure 1
    if (← get).mark.index < index then
      if isBreak (← look 0) then
        ensure 2
        skipLine
      else skip
      return true
    else return false

/-- Passes over a comment, and over those in the next lines. -/
def comments : Scan Unit := do
  restOfLine
  loop do
    let c ← look 0
    if isBreak c && c != '\n' && c != '\r' then
      ensure 2
      return false
    else
      match ← nextComment? 1 511 with
      | some distance =>
        skipTo ((← get).mark.index + distance)
        restOfLine
        return true
      | none => return false

/-- Passes over white space and comments up to the next sign.  Tabs are passed over only where no
key may start. -/
def toNextSign : Scan Unit :=
  loop do
    ensure 1
    if (← get).mark.column = 0 && (← get).startsWithMark then skip
    ensure 1
    let s ← get
    skipWhile fun c => c = ' ' || (c = '\t' && (s.inFlow || !s.keyAllowed))
    if (← look 0) = '#' then comments
    if isBreak (← look 0) then
      ensure 2
      skipLine
      if !s.inFlow then allowKey true
      return true
    else return false

/-! ## Directives and tags -/

/-- The bytes of ASCII characters. -/
def asciiBytes (cs : List Char) : Bytes :=
  cs.map fun c => c.toNat.toUInt8

/-- A part of a version: one or two digits. -/
def versionNumber : Scan Nat := do
  ensure 1
  let digits ← readWhile Char.isDigit
  if digits.isEmpty || 2 < digits.length then failure
  return Calendar.decimalValue digits

/-- Takes the handle of a tag: an exclamation mark, or a word between two of them.  As part of a
tag, a word after one of them may also be the beginning of the tag itself. -/
def tagHandle (inDirective : Bool) : Scan (List Char) := do
  ensure 1
  if (← look 0) != '!' then failure
  skip
  ensure 1
  let word ← readWhile isWordChar
  if (← look 0) = '!' then
    skip
    return '!' :: word ++ ['!']
  else if inDirective && !word.isEmpty then failure
  else return '!' :: word

/-- May the character stand in a tag? -/
def isTagChar (c : Char) : Bool :=
  isWordChar c || ";/?:@&=+$,.!~*'()[]%".toList.contains c

/-- A byte written as a percent sign and two hexadecimal digits. -/
def tagByte : Scan UInt8 := do
  ensure 3
  let a ← look 1
  let b ← look 2
  if (← look 0) != '%' then failure
  match hexNumber? [a, b] with
  | some n =>
    skipMany 3
    return n.toUInt8
  | none => failure

/-- So many bytes that continue a character, each written with a percent sign. -/
def tagTail : Nat → Scan Bytes
  | 0 => return []
  | n + 1 => do
    let b ← tagByte
    if !Utf8.isTail b then failure
    return b :: (← tagTail n)

/-- A character of a tag; after a percent sign stand the bytes of one. -/
def tagChar : Scan Bytes := do
  if (← look 0) = '%' then
    let first ← tagByte
    match Front.width? first with
    | some width => return first :: (← tagTail (width - 1))
    | none => failure
  else return asciiBytes [← read]

/-- Takes the rest of a tag after its handle; it is not empty, unless something stands before it. -/
def tagRest (before : List Char) : Scan Bytes := do
  ensure 1
  let parts ← iterate ([] : List Bytes) fun parts => do
    if isTagChar (← look 0) then
      let part ← tagChar
      ensure 1
      return (part :: parts, true)
    else return (parts, false)
  if before.isEmpty && parts.isEmpty then failure
  return asciiBytes (before.drop 1) ++ parts.reverse.flatten

/-- A tag: its handle and the rest. -/
def tag : Scan Token := do
  ensure 2
  let found ←
    if (← look 1) = '<' then do
      skipMany 2
      let rest ← tagRest []
      if (← look 0) != '>' then failure
      skip
      pure (Token.tag [] rest)
    else do
      let handle ← tagHandle false
      if 1 < handle.length && handle.getLast? = some '!' then
        pure (Token.tag (asciiBytes handle) (← tagRest []))
      else
        let rest ← tagRest handle
        pure (if rest.isEmpty then .tag [] (asciiBytes handle) else .tag (asciiBytes ['!']) rest)
  ensure 1
  if !isGap (← look 0) then failure
  return found

/-- What a directive says after its name. -/
def directiveBody (name : String) : Scan Token := do
  ensure 1
  skipWhile isBlank
  if name = "YAML" then
    let major ← versionNumber
    if (← look 0) != '.' then failure
    skip
    let minor ← versionNumber
    return .version (major = 1 && minor = 1)
  else if name = "TAG" then
    let handle ← tagHandle true
    ensure 1
    if !isBlank (← look 0) then failure
    skipWhile isBlank
    let meaning ← tagRest []
    ensure 1
    if !isGap (← look 0) then failure
    return .handle (asciiBytes handle) meaning
  else failure

/-- A directive, which takes a line. -/
def directive : Scan Token := do
  skip
  ensure 1
  let name ← readWhile isWordChar
  if name.isEmpty || !isGap (← look 0) then failure
  let t ← directiveBody (String.ofList name)
  ensure 1
  skipWhile isBlank
  if (← look 0) = '#' then skipWhile fun c => !isBreakOrEnd c
  if !isBreakOrEnd (← look 0) then failure
  if isBreak (← look 0) then
    ensure 2
    skipLine
  return t

/-- The name of an anchor or an alias, after its sign. -/
def anchorName : Scan String := do
  skip
  ensure 1
  let name ← readWhile isWordChar
  let c ← look 0
  if name.isEmpty || !(isGap c || "?:,]\x7d%@\x60".toList.contains c) then failure
  return String.ofList name

/-! ## Signs -/

/-- Ends all that is open outside brackets. -/
def endLists : Scan Unit := do
  closeLists (-1)
  dropCandidate
  allowKey false

/-- The end of the stream. -/
def fetchEnd : Scan Unit := do
  modify fun s =>
    if s.mark.column = 0 then s
    else { s with mark := { s.mark with column := 0, line := s.mark.line + 1 } }
  endLists
  push .streamEnd

/-- A mark between documents. -/
def fetchDocumentMark (t : Token) : Scan Unit := do
  endLists
  skipMany 3
  push t

/-- An opening bracket. -/
def fetchOpening (t : Token) : Scan Unit := do
  noteCandidate
  let s ← get
  if maxDepth < s.outer.length + 1 then failure
  set { s with
    outer := s.candidate :: s.outer
    candidate := .unset s.nextToken s.mark
    keyAllowed := true }
  skip
  push t

/-- A closing bracket.  If nothing between the brackets could start a key, the sign of the opening
one is not held back any longer. -/
def fetchClosing (t : Token) : Scan Unit := do
  dropCandidate
  let s ← get
  match s.outer with
  | [] => pure ()
  | around :: outer =>
    set { s with
      candidate := { around with held := around.held && around.token != s.candidate.token }
      outer }
  allowKey false
  skip
  push t

/-- A comma between brackets. -/
def fetchComma : Scan Unit := do
  dropCandidate
  allowKey true
  skip
  push .flowEntry

/-- The dash before an item. -/
def fetchDash : Scan Unit := do
  let s ← get
  if !s.inFlow then
    if !s.keyAllowed then failure
    openList s.mark.column none .blockSequenceStart
  dropCandidate
  allowKey true
  skip
  push .blockEntry

/-- The question mark before a key. -/
def fetchQuestion : Scan Unit := do
  let s ← get
  if !s.inFlow then
    if !s.keyAllowed then failure
    openList s.mark.column none .blockMappingStart
  dropCandidate
  allowKey !s.inFlow
  skip
  push .key

/-- The colon before a value. -/
def fetchColon : Scan Unit := do
  let s ← get
  let c ← s.candidate.check? s.mark
  if c.possible then
    insertBefore c.token .key
    openList c.mark.column (some c.token) .blockMappingStart
    modify fun s => { s with candidate := { c with possible := false }, keyAllowed := false }
  else
    set { s with candidate := c }
    if !s.inFlow then
      if !s.keyAllowed then failure
      openList s.mark.column none .blockMappingStart
    allowKey !s.inFlow
  skip
  push .value

/-- A sign with which a key may start. -/
def fetchStart (sign : Scan Token) : Scan Unit := do
  noteCandidate
  allowKey false
  push (← sign)

/-- A block scalar. -/
def fetchBlock (literal : Bool) : Scan Unit := do
  dropCandidate
  allowKey true
  push (← blockScalar literal)

/-- May a plain scalar start with the character, if the next one is `after`? -/
def startsPlain (inFlow : Bool) (c after : Char) : Bool :=
  if c = '-' then !isBlank after
  else if c = '?' || c = ':' then !inFlow && !isGap after
  else !isGap c && !indicators.contains c

/-- Any sign but an end, a mark between documents or a directive. -/
def fetchSign : Scan Unit := do
  let c ← look 0
  let after ← look 1
  let inFlow := (← get).inFlow
  if c = '[' then fetchOpening .flowSequenceStart
  else if c = '\x7b' then fetchOpening .flowMappingStart
  else if c = ']' then fetchClosing .flowSequenceEnd
  else if c = '\x7d' then fetchClosing .flowMappingEnd
  else if c = ',' then fetchComma
  else if c = '-' && isGap after then fetchDash
  else if c = '?' && (inFlow || isGap after) then fetchQuestion
  else if c = ':' && (inFlow || isGap after) then fetchColon
  else if c = '*' then fetchStart (return .alias (← anchorName))
  else if c = '&' then fetchStart (return .anchor (← anchorName))
  else if c = '!' then fetchStart tag
  else if c = '|' && !inFlow then fetchBlock true
  else if c = '>' && !inFlow then fetchBlock false
  else if c = '\'' || c = '"' then fetchStart (quotedScalar c)
  else if startsPlain inFlow c after then fetchStart plainScalar
  else failure
  if (← get).queue.getLast? != some .blockEntry then lineComment

/-- Finds the next sign, and with it those that follow from it. -/
def fetch : Scan Unit := do
  ensure 1
  toNextSign
  closeLists (← get).mark.column
  ensure 4
  let c ← look 0
  let atStart := (← get).mark.column = 0
  if c = endOfText then fetchEnd
  else if atStart && c = '%' then
    endLists
    push (← directive)
  else if ← atDocumentMark then
    fetchDocumentMark (if c = '-' then .documentStart else .documentEnd)
  else fetchSign

/-! ## The first sign -/

/-- The number of signs that are found before one of them is used. -/
def lookahead : Nat := 3

/-- Is the first sign still held back?  A candidate that has become stale is given up. -/
def isHeld : Scan Bool := do
  let s ← get
  let holds (c : Candidate) : Bool := c.possible && c.held && c.token = s.used
  let check (c : Candidate) : Scan Candidate :=
    if holds c then
      match c.check? s.mark with
      | some c => return c
      | none => failure
    else return c
  let candidate ← check s.candidate
  let outer ← s.outer.mapM check
  set { s with candidate, outer }
  return (candidate :: outer).any holds

/-- The first sign that is not used. -/
def peek : Scan Token := do
  loop do
    if (← get).queue.length < lookahead || (← isHeld) then
      fetch
      return true
    else return false
  match (← get).queue with
  | t :: _ => return t
  | [] => failure

/-- Uses the first sign. -/
def advance : Scan Unit :=
  modify fun s => { s with queue := s.queue.drop 1, used := s.used + 1 }

end StoreLint.Yaml
