import StoreLint.Text.Reader
import StoreLint.Text.Utf8

/-!
# Reading JSON

A document is one value, with nothing around it but white space.  The grammar is taken strictly: no
comments, no comma after the last item, no control characters in strings.  A byte of a string that
is not part of a character is read as the replacement character.
-/

namespace StoreLint

/-- A JSON value.  A number is kept as it is written. -/
inductive Json where
  | null
  | boolean (b : Bool)
  | number (literal : List Char)
  | string (s : String)
  | array (items : List Json)
  | object (fields : List (String × Json))
  deriving Inhabited

namespace Json

open Reader

/-! ## Reading -/

/-- The greatest number of arrays and objects inside each other. -/
def maxDepth : Nat := 10000

/-- Passes over white space. -/
def space : Reader Char Unit := do
  let _ ← takeWhile fun c => c = ' ' || c = '\t' || c = '\n' || c = '\r'

/-- Four hexadecimal digits. -/
def hexQuad : Reader Char Nat := do
  ofOption (hexNumber? (← take 4))

/-- Is the number the first half of a pair that stands for a character beyond four digits? -/
def isHighHalf (n : Nat) : Bool :=
  0xD800 ≤ n && n < 0xDC00

/-- Is the number the second half of such a pair? -/
def isLowHalf (n : Nat) : Bool :=
  0xDC00 ≤ n && n < 0xE000

/-- The character after `\u`.  Two halves that belong together are one character, and a half alone
is the replacement character. -/
def unicodeEscape : Reader Char Char := do
  let n ← hexQuad
  if isHighHalf n then
    match ← get with
    | '\\' :: 'u' :: cs =>
      match hexQuad cs with
      | some (m, cs) =>
        if isLowHalf m then
          set cs
          return Char.ofNat (0x10000 + (n - 0xD800) * 0x400 + (m - 0xDC00))
        else return '�'
      | none => fail
    | _ => return '�'
  else if isLowHalf n then return '�'
  else return Char.ofNat n

/-- The character after a backslash. -/
def escape : Reader Char Char := do
  match ← next with
  | '"' => return '"'
  | '\\' => return '\\'
  | '/' => return '/'
  | 'b' => return '\x08'
  | 'f' => return '\x0c'
  | 'n' => return '\n'
  | 'r' => return '\r'
  | 't' => return '\t'
  | 'u' => unicodeEscape
  | _ => fail

/-- The next characters of a string, none at its closing quote. -/
def stringPart : Reader Char (List Char × Bool) := do
  match ← next with
  | '"' => return ([], false)
  | '\\' => return ([← escape], true)
  | c => if c.toNat < 0x20 then fail else return ([c], true)

/-- A string after its opening quote. -/
def stringBody : Reader Char String := do
  return String.ofList (← loop stringPart).flatten

/-- A number: no sign but a minus, no zero in front of other digits. -/
def numeral : Reader Char (List Char) := do
  let sign ← optional (· = '-')
  let whole ← takeSome Char.isDigit
  require (whole.length = 1 || whole.head? != some '0')
  let point ← optional (· = '.')
  let fraction ← if point.isEmpty then pure [] else takeSome Char.isDigit
  let mark ← optional fun c => c = 'e' || c = 'E'
  let exponent ←
    if mark.isEmpty then pure []
    else do
      let sign ← optional fun c => c = '+' || c = '-'
      return sign ++ (← takeSome Char.isDigit)
  return sign ++ whole ++ point ++ fraction ++ mark ++ exponent

/-- The rest of a list after its opening bracket: items between commas, up to the closing
bracket. -/
def listBody {α : Type} (item : Reader Char α) (close : Char) : Reader Char (List α) := do
  space
  if (← peek?) = some close then
    skip 1
    return []
  else
    loop do
      let a ← item
      space
      let c ← next
      if c = ',' then return (a, true)
      else if c = close then return (a, false)
      else fail

/-- A field of an object. -/
def field {α : Type} (item : Reader Char α) : Reader Char (String × α) := do
  space
  word ['"']
  let name ← stringBody
  space
  word [':']
  return (name, ← item)

/-- A value; `depth` bounds the arrays and objects inside each other. -/
def value (depth : Nat) : Reader Char Json := do
  space
  match ← peek? with
  | some '"' => skip 1; return .string (← stringBody)
  | some '[' =>
    match depth with
    | 0 => fail
    | depth + 1 => skip 1; return .array (← listBody (value depth) ']')
  | some '\x7b' =>
    match depth with
    | 0 => fail
    | depth + 1 => skip 1; return .object (← listBody (field (value depth)) '\x7d')
  | some 't' => word "true".toList; return .boolean true
  | some 'f' => word "false".toList; return .boolean false
  | some 'n' => word "null".toList; return .null
  | _ => return .number (← numeral)

/-- A document: one value. -/
def document : Reader Char Json := do
  let v ← value maxDepth
  space
  atEnd
  return v

/-- The value that a text is. -/
def parse? (text : Bytes) : Option Json :=
  (document.run (Utf8.lossy text)).map Prod.fst

end Json

end StoreLint
