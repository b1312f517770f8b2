import StoreLint.Number.Calendar
import StoreLint.Number.Integer

/-!
# What a plain YAML scalar stands for

A scalar written without quotes may stand for nothing, a truth value, a number or a date instead of
the text itself.  The reader of settings needs this to know a number when it sees one, and the
writer of reports to know which texts must be quoted.

* `meaning` is what a plain scalar stands for.
* `isPlainText` tells the texts that every reader takes for text.
-/

namespace StoreLint.Yaml

open Calendar

/-- What a plain scalar stands for. -/
inductive Meaning where
  | null
  | boolean (b : Bool)
  | integer (n : Int)
  | float (x : Binary64)
  | timestamp
  | text
  deriving DecidableEq, Repr

/-! ## Signs -/

/-- Is the character a blank inside a line? -/
def isBlank (c : Char) : Bool :=
  c = ' ' || c = '\t'

/-- The signs with which no plain scalar starts. -/
def indicators : List Char :=
  [',', '[', ']', '\x7b', '\x7d', '#', '&', '*', '!', '|', '>', '\'', '"', '%', '@', '\x60']

/-! ## Dates -/

/-- One or two digits at the front of a text, as a number, and the rest. -/
def oneOrTwoDigits? : List Char → Option (Nat × List Char)
  | a :: b :: rest =>
    if a.isDigit then
      if b.isDigit then some (decimalValue [a, b], rest) else some (decimalValue [a], b :: rest)
    else none
  | [a] => if a.isDigit then some (decimalValue [a], []) else none
  | [] => none

/-- A date at the front of a text; gives the rest. -/
def dropDate? (cs : List Char) : Option (List Char) := do
  let year := cs.takeWhile Char.isDigit
  guard (year.length = 4)
  let (month, cs) ← match cs.dropWhile Char.isDigit with
    | '-' :: cs => oneOrTwoDigits? cs
    | _ => none
  let (day, cs) ← match cs with
    | '-' :: cs => oneOrTwoDigits? cs
    | _ => none
  guard (isDate (decimalValue year) month day)
  return cs

/-- A fraction of a second at the front of a text, if there is one; gives the rest. -/
def dropFraction : List Char → List Char
  | p :: d :: rest =>
    if (p = '.' ∨ p = ',') ∧ d.isDigit then rest.dropWhile Char.isDigit else p :: d :: rest
  | cs => cs

/-- A time of day at the front of a text; gives the rest. -/
def dropTime? (cs : List Char) : Option (List Char) := do
  let (hour, cs) ← oneOrTwoDigits? cs
  let (minute, cs) ← match cs with
    | ':' :: cs => oneOrTwoDigits? cs
    | _ => none
  let (second, cs) ← match cs with
    | ':' :: cs => oneOrTwoDigits? cs
    | _ => none
  guard (isTime hour minute second)
  return dropFraction cs

/-- Is the text a time zone? -/
def isZone : List Char → Bool
  | ['Z'] => true
  | [s, a, b, ':', c, d] =>
    (s = '+' || s = '-') && [a, b, c, d].all Char.isDigit
      && isOffset (decimalValue [a, b]) (decimalValue [c, d])
  | _ => false

/-- Is the text a date, or a date and a time? -/
def isTimestamp (cs : List Char) : Bool :=
  match dropDate? cs with
  | none => false
  | some [] => true
  | some (sep :: rest) =>
    match dropTime? rest with
    | none => false
    | some zone => if sep = ' ' then zone.isEmpty else (sep = 'T' || sep = 't') && isZone zone

/-! ## Numbers -/

/-- The text without the sign at its front. -/
def withoutSign : List Char → List Char
  | c :: cs => if c = '+' ∨ c = '-' then cs else c :: cs
  | [] => []

/-- Is the text made of digits, at least one? -/
def isDigits (cs : List Char) : Bool :=
  !cs.isEmpty && cs.all Char.isDigit

/-- Is the text empty or an exponent? -/
def isExponent : List Char → Bool
  | [] => true
  | c :: cs => (c = 'e' || c = 'E') && isDigits (withoutSign cs)

/-- Is the text a decimal number, perhaps with a fraction and an exponent? -/
def isDecimal (cs : List Char) : Bool :=
  let body := withoutSign cs
  let whole := body.takeWhile Char.isDigit
  match body.dropWhile Char.isDigit with
  | '.' :: rest =>
    (!whole.isEmpty || isDigits (rest.takeWhile Char.isDigit))
      && isExponent (rest.dropWhile Char.isDigit)
  | rest => !whole.isEmpty && isExponent rest

/-- The bytes of characters. -/
def bytesOf (cs : List Char) : Bytes :=
  cs.flatMap utf8Char

/-- The number after a mark for base two or eight; the mark may stand behind a minus, and a sign may
stand behind the mark. -/
def markedInteger? (cs : List Char) : Option Int :=
  let read (base : Nat) (digits : List Char) : Option Int :=
    (Number.integer (some base) (bytesOf digits)).toOption
  match cs with
  | '0' :: 'b' :: rest => read 2 rest
  | '-' :: '0' :: 'b' :: rest => read 2 ('-' :: rest)
  | '0' :: 'o' :: rest => read 8 rest
  | '-' :: '0' :: 'o' :: rest => read 8 ('-' :: rest)
  | _ => none

/-- What a scalar stands for that starts with a digit or a sign: underscores do not count. -/
def numberMeaning (cs : List Char) : Meaning :=
  let plain := cs.filter (· != '_')
  match Number.integer none (bytesOf plain), Number.natural none (bytesOf plain) with
  | .ok n, _ => .integer n
  | _, .ok n => .integer n
  | _, _ =>
    match (if isDecimal plain then Number.read? (bytesOf plain) else none) with
    | some x => .float x
    | none =>
      match markedInteger? plain with
      | some n => .integer n
      | none => .text

/-! ## All together -/

/-- The words that stand for something else than themselves. -/
def words : List (String × Meaning) :=
  [("", .null), ("~", .null), ("null", .null), ("Null", .null), ("NULL", .null),
    ("true", .boolean true), ("True", .boolean true), ("TRUE", .boolean true),
    ("false", .boolean false), ("False", .boolean false), ("FALSE", .boolean false),
    (".nan", .float .notANumber), (".NaN", .float .notANumber), (".NAN", .float .notANumber),
    (".inf", .float (.infinity false)), (".Inf", .float (.infinity false)),
    (".INF", .float (.infinity false)), ("+.inf", .float (.infinity false)),
    ("+.Inf", .float (.infinity false)), ("+.INF", .float (.infinity false)),
    ("-.inf", .float (.infinity true)), ("-.Inf", .float (.infinity true)),
    ("-.INF", .float (.infinity true))]

/-- What a plain scalar stands for. -/
def meaning (cs : List Char) : Meaning :=
  match words.lookup (String.ofList cs) with
  | some m => m
  | none =>
    match cs with
    | [] => .null
    | c :: _ =>
      if c = '.' then
        match Number.read? (bytesOf cs) with
        | some x => .float x
        | none => .text
      else if c.isDigit || c = '+' || c = '-' then
        if isTimestamp cs then .timestamp else numberMeaning cs
      else .text

/-! ## Texts that older readers take for something else -/

/-- The words that older readers take for truth values. -/
def oldBooleans : List (String × Bool) :=
  [("y", true), ("Y", true), ("yes", true), ("Yes", true), ("YES", true),
    ("on", true), ("On", true), ("ON", true),
    ("n", false), ("N", false), ("no", false), ("No", false), ("NO", false),
    ("off", false), ("Off", false), ("OFF", false)]

/-- Is the text one or two digits of base sixty? -/
def isSexagesimalDigit : List Char → Bool
  | [a] => a.isDigit
  | [a, b] => '0' ≤ a && a ≤ '5' && b.isDigit
  | _ => false

/-- Is each piece a digit of base sixty, the last one perhaps with a fraction? -/
def isSexagesimalTail : List (List Char) → Bool
  | [] => false
  | [last] =>
    let tail := last.dropWhile (· != '.')
    isSexagesimalDigit (last.takeWhile (· != '.'))
      && (tail.drop 1).all fun c => c.isDigit || c = '_'
  | piece :: pieces => isSexagesimalDigit piece && isSexagesimalTail pieces

/-- Is the text a number in base sixty, such as a time of day? -/
def isSexagesimal (cs : List Char) : Bool :=
  match (withoutSign cs).splitOn ':' with
  | (c :: first) :: pieces =>
    c.isDigit && first.all (fun c => c.isDigit || c = '_') && isSexagesimalTail pieces
  | _ => false

/-- Does every reader take the unquoted text for text? -/
def isPlainText (cs : List Char) : Bool :=
  meaning cs = .text && (oldBooleans.lookup (String.ofList cs)).isNone && !isSexagesimal cs

end StoreLint.Yaml
