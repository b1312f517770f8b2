import StoreLint.Number.Calendar
import StoreLint.Number.Integer
import StoreLint.Text.Reader
import StoreLint.Text.Utf8
import StoreLint.Toml.Basic

/-!
# Reading TOML

A document is a sequence of lines, each a key with a value, a header, or nothing, with a comment
after it if there is one.  Values that can stretch over lines are arrays and texts between three
quotes.
-/

namespace StoreLint.Toml

open Reader

/-! ## Blanks and comments -/

/-- Is the character a blank inside a line? -/
def isBlank (c : Char) : Bool :=
  c = ' ' || c = '\t'

/-- Passes over blanks. -/
def blanks : Reader Char Unit := do
  let _ ← takeWhile isBlank

/-- Passes over a comment, if there is one. -/
def comment : Reader Char Unit := do
  if (← peek?) = some '#' then
    let _ ← takeWhile (· != '\n')

/-- Passes over blanks, comments and line ends. -/
def gap : Reader Char Unit := do
  let _ ← loop do
    let _ ← takeWhile fun c => isBlank c || c = '\n' || c = '\r'
    comment
    return ((), (← peek?) = some '\n')

/-- Passes over the rest of a line, which must be blank but for a comment. -/
def lineEnd : Reader Char Unit := do
  blanks
  comment
  let _ ← optional (· = '\r')
  if (← peek?).isSome then word ['\n']

/-- May the text stand in a document?  It has no control characters but tabs and line ends, and a
carriage return is always followed by a line feed. -/
def isClean : List Char → Bool
  | [] => true
  | '\r' :: cs => cs.head? = some '\n' && isClean cs
  | c :: cs => (0x20 ≤ c.toNat && c != '\x7f' || c = '\t' || c = '\n') && isClean cs

/-! ## Strings -/

/-- The character after a backslash. -/
def escape : Reader Char Char := do
  match ← next with
  | 'b' => return '\x08'
  | 't' => return '\t'
  | 'n' => return '\n'
  | 'f' => return '\x0c'
  | 'r' => return '\r'
  | '"' => return '"'
  | '\\' => return '\\'
  | 'u' => ofOption ((hexNumber? (← take 4)).bind char?)
  | 'U' => ofOption ((hexNumber? (← take 8)).bind char?)
  | _ => fail

/-- The rest of a text on one line, up to the quote; a backslash escapes if `escapes` is set. -/
def lineString (quote : Char) (escapes : Bool) : Reader Char String := do
  let parts ← loop do
    let c ← next
    if c = quote then return ([], false)
    else if c = '\\' ∧ escapes then return ([← escape], true)
    else if c = '\n' ∨ c = '\r' then fail
    else return ([c], true)
  return String.ofList parts.flatten

/-- Is the character a blank or part of a line end? -/
def isSpace (c : Char) : Bool :=
  isBlank c || c = '\n' || c = '\r'

/-- Text with the line ends that a backslash takes back, and the white space around them, left out;
`gap` tells whether such white space is being passed over. -/
def joinLines : (gap : Bool) → List Char → List Char
  | _, [] => []
  | _, '\\' :: '\\' :: cs => '\\' :: '\\' :: joinLines false cs
  | gap, c :: cs =>
    if gap && isSpace c then joinLines true cs
    else if c = '\\' && (cs.takeWhile isSpace).contains '\n' then joinLines true cs
    else c :: joinLines false cs

/-- Text with its escapes replaced. -/
def unescape? (cs : List Char) : Option (List Char) := do
  let (parts, _) ← (loop do
    match ← get with
    | [] => return ([], false)
    | c :: cs =>
      set cs
      if c = '\\' then return ([← escape], true) else return ([c], true)).run cs
  return parts.flatten

/-- Does the text, last character first, end in two quotes that leave no room for three more and one
after them?  A backslash before them makes room. -/
def isFull (quote : Char) (escapes : Bool) : List Char → Bool
  | a :: b :: before => a = quote && b = quote && !(escapes && before.head? = some '\\')
  | _ => false

/-- The rest of a text over several lines as it is written, up to the last three quotes of a row;
what was read before is given last character first, and `bound` bounds what is left. -/
def longBody (quote : Char) (escapes : Bool) (before : List Char) : (bound : Nat) →
    Reader Char (List Char)
  | 0 => fail
  | bound + 1 => do
    let c ← next
    if c = '\\' ∧ escapes then
      let d ← next
      longBody quote escapes (d :: c :: before) bound
    else if c = quote then
      match ← get with
      | a :: b :: after =>
        if a = quote ∧ b = quote then
          if after.head? = some quote then
            require !isFull quote escapes before
            longBody quote escapes (c :: before) bound
          else
            set after
            return before.reverse
        else longBody quote escapes (c :: before) bound
      | _ => longBody quote escapes (c :: before) bound
    else longBody quote escapes (c :: before) bound

/-- The rest of a text over several lines, up to three quotes; a line feed at its front does not
belong to it. -/
def longString (quote : Char) (escapes : Bool) : Reader Char String := do
  let written ← longBody quote escapes [] ((← get).length + 1)
  let body := match written with
    | '\n' :: cs => cs
    | cs => cs
  if escapes then return String.ofList (← ofOption (unescape? (joinLines false body)))
  else return String.ofList body

/-- A text after its first quote. -/
def quotedString (quote : Char) : Reader Char String := do
  let escapes := quote = '"'
  match ← rest with
  | a :: b :: cs =>
    if a = quote ∧ b = quote then
      set cs
      longString quote escapes
    else lineString quote escapes
  | _ => lineString quote escapes

/-! ## Keys -/

/-- May the character stand in a key without quotes? -/
def isBare (c : Char) : Bool :=
  c.isAlphanum || c = '_' || c = '-'

/-- A part of a key. -/
def keyPart : Reader Char String := do
  match ← peek? with
  | some '"' => skip 1; lineString '"' true
  | some '\'' => skip 1; lineString '\'' false
  | _ => return String.ofList (← takeSome isBare)

/-- A key: parts between dots. -/
def key : Reader Char (List String) :=
  loop do
    blanks
    let part ← keyPart
    blanks
    let dot ← optional (· = '.')
    return (part, !dot.isEmpty)

/-! ## Numbers and dates -/

/-- Does the text consist of characters that satisfy `p`, with single underscores between them? -/
def isSpaced (p : Char → Bool) : List Char → Bool
  | [] => false
  | [c] => p c
  | c :: '_' :: cs => p c && isSpaced p cs
  | c :: cs => p c && isSpaced p cs

/-- The text without underscores. -/
def joined (cs : List Char) : List Char :=
  cs.filter (· != '_')

/-- A whole number of 64 bits. -/
def integerOf? (base : Nat) (cs : List Char) : Option Toml :=
  (Number.integer (some base) ((joined cs).flatMap utf8Char)).toOption.map .integer

/-- Is the text a whole number without sign, with no zero in front of other digits? -/
def isWhole (cs : List Char) : Bool :=
  isSpaced Char.isDigit cs && (cs.length = 1 || cs.head? != some '0')

/-- The text without the sign at its front. -/
def withoutSign : List Char → List Char
  | c :: cs => if c = '+' ∨ c = '-' then cs else c :: cs
  | [] => []

/-- Is the text a number with a fraction, an exponent or both? -/
def isFloat (cs : List Char) : Bool :=
  let isMark (c : Char) : Bool := c = 'e' || c = 'E'
  let body := withoutSign cs
  let mantissa := body.takeWhile fun c => !isMark c
  let exponent := body.dropWhile fun c => !isMark c
  let whole := mantissa.takeWhile (· != '.')
  let fraction := mantissa.dropWhile (· != '.')
  isWhole whole
    && (fraction.isEmpty || isSpaced Char.isDigit (fraction.drop 1))
    && (exponent.isEmpty || isSpaced Char.isDigit (withoutSign (exponent.drop 1)))
    && !(fraction.isEmpty && exponent.isEmpty)
    && (Number.read? ((joined cs).flatMap utf8Char)).isSome

/-- Is the text a day? -/
def isDay : List Char → Bool
  | [a, b, c, d, '-', e, f, '-', g, h] =>
    [a, b, c, d, e, f, g, h].all Char.isDigit
      && Calendar.isDate (Calendar.decimalValue [a, b, c, d]) (Calendar.decimalValue [e, f])
        (Calendar.decimalValue [g, h])
  | _ => false

/-- Is the text a time of day? -/
def isClock (cs : List Char) : Bool :=
  match cs.take 8, cs.drop 8 with
  | [a, b, ':', c, d, ':', e, f], fraction =>
    [a, b, c, d, e, f].all Char.isDigit
      && Calendar.isTime (Calendar.decimalValue [a, b]) (Calendar.decimalValue [c, d])
        (Calendar.decimalValue [e, f])
      && match fraction with
        | [] => true
        | '.' :: digits => !digits.isEmpty && digits.all Char.isDigit
        | _ => false
  | _, _ => false

/-- Is the text a time of day, perhaps with a time zone? -/
def isZoned (cs : List Char) : Bool :=
  let isMark (c : Char) : Bool := c = 'Z' || c = 'z' || c = '+' || c = '-'
  isClock (cs.takeWhile fun c => !isMark c)
    && match cs.dropWhile fun c => !isMark c with
      | [] => true
      | [c] => c = 'Z' || c = 'z'
      | [s, a, b, ':', c, d] =>
        (s = '+' || s = '-') && [a, b, c, d].all Char.isDigit
          && Calendar.isOffset (Calendar.decimalValue [a, b]) (Calendar.decimalValue [c, d])
      | _ => false

/-- Is the text a day, a time of day, or both? -/
def isDateTime (cs : List Char) : Bool :=
  isClock cs || isDay cs
    || (isDay (cs.take 10) && isZoned (cs.drop 11)
      && match (cs.drop 10).head? with
        | some c => c = 'T' || c = 't' || c = ' '
        | none => false)

/-- The number or date that a text is. -/
def numberOrDate? (cs : List Char) : Option Toml :=
  match cs with
  | '0' :: 'x' :: digits =>
    if isSpaced (fun c => (hexValue? c).isSome) digits then integerOf? 16 digits else none
  | '0' :: 'o' :: digits =>
    if isSpaced (fun c => '0' ≤ c && c ≤ '7') digits then integerOf? 8 digits else none
  | '0' :: 'b' :: digits =>
    if isSpaced (fun c => c = '0' || c = '1') digits then integerOf? 2 digits else none
  | _ =>
    let body := withoutSign cs
    if isWhole body then integerOf? 10 cs
    else if isFloat cs || body = "inf".toList || body = "nan".toList then some .float
    else if isDateTime cs then some .date
    else none

/-- May the character stand in a number or a date? -/
def isNumeric (c : Char) : Bool :=
  c.isAlphanum || c = '_' || c = '+' || c = '-' || c = '.' || c = ':'

/-- A number or a date.  A blank may stand between a day and a time. -/
def numberOrDate : Reader Char Toml := do
  let first ← takeSome isNumeric
  match ← rest with
  | ' ' :: c :: cs =>
    if isDay first ∧ c.isDigit then
      set (c :: cs)
      let time ← takeWhile isNumeric
      ofOption (numberOrDate? (first ++ ' ' :: time))
    else ofOption (numberOrDate? first)
  | _ => ofOption (numberOrDate? first)

/-! ## Values -/

/-- The greatest number of arrays and tables inside each other. -/
def maxDepth : Nat := 10000

/-- The rest of an array after its bracket; a comma may stand after the last item. -/
def arrayBody (item : Reader Char Value) : Reader Char (List Value) := do
  let items ← loop do
    gap
    if (← peek?) = some ']' then
      skip 1
      return ([], false)
    else
      let value ← item
      gap
      let c ← next
      if c = ',' then return ([value], true)
      else if c = ']' then return ([value], false)
      else fail
  return items.flatten

/-- A key and a value with an equals sign between them. -/
def pair (item : Reader Char Value) : Reader Char (Path × Value) := do
  let path ← key
  word ['=']
  blanks
  return (path, ← item)

/-- The rest of a table after its brace, on one line. -/
def tableBody (item : Reader Char Value) : Reader Char (List (Path × Value)) := do
  blanks
  if (← peek?) = some '\x7d' then
    skip 1
    return []
  else
    loop do
      let field ← pair item
      blanks
      let c ← next
      if c = ',' then return (field, true)
      else if c = '\x7d' then return (field, false)
      else fail

/-- A value; `depth` bounds the arrays and tables inside each other. -/
def value (depth : Nat) : Reader Char Value := do
  match ← peek? with
  | some '"' => skip 1; return .simple (.string (← quotedString '"'))
  | some '\'' => skip 1; return .simple (.string (← quotedString '\''))
  | some '[' =>
    match depth with
    | 0 => fail
    | depth + 1 => skip 1; return .array (← arrayBody (value depth))
  | some '\x7b' =>
    match depth with
    | 0 => fail
    | depth + 1 => skip 1; return .braces (← tableBody (value depth))
  | some 't' => word "true".toList; return .simple (.boolean true)
  | some 'f' => word "false".toList; return .simple (.boolean false)
  | _ => return .simple (← numberOrDate)

/-! ## Documents -/

/-- A line, after the gap before it. -/
def line : Reader Char Line := do
  match ← rest with
  | '[' :: '[' :: cs =>
    set cs
    let path ← key
    word [']', ']']
    lineEnd
    return .item path
  | '[' :: cs =>
    set cs
    let path ← key
    word [']']
    lineEnd
    return .header path
  | _ =>
    let (path, value) ← pair (value maxDepth)
    lineEnd
    return .field path value

/-- The lines of a document. -/
def lines : Reader Char (List Line) := do
  let found ← loop do
    gap
    if (← peek?).isNone then return ([], false)
    else return ([← line], true)
  return found.flatten

/-- The bytes of a document without the mark of an encoding that may stand in front of it. -/
def withoutMark : Bytes → Bytes
  | 0xFF :: 0xFE :: text => text
  | 0xFE :: 0xFF :: text => text
  | 0xEF :: 0xBB :: 0xBF :: text => text
  | text => text

/-- The document that a text is. -/
def parse? (text : Bytes) : Option Table := do
  let cs ← Utf8.chars? (withoutMark text)
  guard (isClean cs)
  let (found, _) ← lines.run cs
  build? found

end StoreLint.Toml
