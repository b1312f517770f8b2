import StoreLint.Text.Bytes
import StoreLint.Number.Binary64

/-!
# Number literals

The texts that name a double-precision number:

* decimal digits with an optional point and an optional power of ten (`12`, `.5`, `1.5e+2`);
* hexadecimal digits after `0x` with an optional point and a required power of two (`0x1.8p1`);
* `inf` and `infinity` with an optional sign, and `nan` without one, in any case.

A sign may stand in front.  Single underscores may stand between digits, and after `0x`.  A text is
no literal either when it is malformed or when its value is too large for a finite number; a value
too small for one becomes zero.
-/

namespace StoreLint.Number

/-- The bytes of a literal that are looked at. -/
def underscore : UInt8 := 0x5F

/-- The decimal point. -/
def point : UInt8 := 0x2E

/-- A letter of ASCII in lower case; other bytes may change, but never into a letter or digit. -/
def lowered (b : UInt8) : UInt8 :=
  if 0x41 ≤ b && b ≤ 0x5A then b + 0x20 else b

/-- The value of a digit, if it is one in the base. -/
def digit? (base : Nat) (b : UInt8) : Option Nat :=
  let value : Option Nat :=
    if 0x30 ≤ b && b ≤ 0x39 then some (b.toNat - 0x30)
    else if 0x61 ≤ lowered b && lowered b ≤ 0x7A then some ((lowered b).toNat - 0x61 + 10)
    else none
  value.filter (· < base)

/-- A sign in front of a number: is it negative, and what comes after. -/
def takeSign : Bytes → Bool × Bytes
  | b :: rest =>
    if b = 0x2D then (true, rest) else if b = 0x2B then (false, rest) else (false, b :: rest)
  | [] => (false, [])

/-! ## Underscores -/

/-- What stood just before a place in a literal. -/
inductive Before where
  | start
  | digit
  | underscore
  | other
  deriving DecidableEq

/-- Goes through a literal and checks that underscores stand between digits only. -/
def separated (hex : Bool) : Before → Bytes → Bool
  | before, [] => before ≠ .underscore
  | before, b :: rest =>
    if (digit? (if hex then 16 else 10) b).isSome then separated hex .digit rest
    else if b = underscore then before = .digit && separated hex .underscore rest
    else before ≠ .underscore && separated hex .other rest

/-- Does each underscore of a literal stand between two digits?  The marks `0x`, `0o` and `0b` count
as a digit. -/
def underscoresSeparate (text : Bytes) : Bool :=
  match (takeSign text).2 with
  | a :: b :: rest =>
    if a = 0x30 && [0x62, 0x6F, 0x78].contains (lowered b) then
      separated (lowered b = 0x78) .digit rest
    else separated false .start (a :: b :: rest)
  | body => separated false .start body

/-! ## Digits and exponents -/

/-- Digits that have been read: their value as one whole number, how many of them stood after the
point, whether there was a point, and whether there was any digit. -/
structure Digits where
  value : Nat
  places : Nat
  pointed : Bool
  nonempty : Bool

/-- Reads digits, underscores and at most one point. -/
def readDigits (base : Nat) (read : Digits) : Bytes → Digits × Bytes
  | [] => (read, [])
  | b :: rest =>
    if b = underscore then readDigits base read rest
    else if b = point then
      if read.pointed then (read, b :: rest)
      else readDigits base { read with pointed := true } rest
    else
      match digit? base b with
      | some d =>
        readDigits base
          { read with
            value := read.value * base + d
            places := if read.pointed then read.places + 1 else read.places
            nonempty := true } rest
      | none => (read, b :: rest)

/-- Reads the digits of an exponent.  Past ten thousand further digits change nothing: the number is
out of reach either way. -/
def readPower (power : Nat) : Bytes → Option Nat
  | [] => some power
  | b :: rest =>
    if b = underscore then readPower power rest
    else
      match digit? 10 b with
      | some d => readPower (if power < 10000 then power * 10 + d else power) rest
      | none => none

/-- Reads an exponent, up to the end of the text: an optional sign, then a digit, then digits and
underscores. -/
def readExponent (text : Bytes) : Option Int :=
  match takeSign text with
  | (negative, b :: rest) =>
    match digit? 10 b with
    | some _ =>
        (readPower 0 (b :: rest)).map fun power => if negative then -power else (power : Int)
    | none => none
  | (_, []) => none

/-- Reads what may follow the digits: nothing, or `letter` and an exponent. -/
def readScale (letter : UInt8) (required : Bool) : Bytes → Option Int
  | [] => if required then none else some 0
  | b :: rest => if lowered b = letter then readExponent rest else none

/-- The value of a literal without sign, without its word forms, and without regard to where its
underscores stand. -/
def readBody? (negative : Bool) (body : Bytes) : Option Binary64 :=
  let empty : Digits := ⟨0, 0, false, false⟩
  match body with
  | a :: b :: c :: rest =>
    if a = 0x30 && lowered b = 0x78 then
      let (read, rest) := readDigits 16 empty (c :: rest)
      if read.nonempty then
        (readScale 0x70 true rest).bind fun power =>
          Binary64.ofScaled? negative read.value 2 (power - 4 * read.places)
      else none
    else decimalBody empty
  | _ => decimalBody empty
where
  /-- The value of a decimal literal. -/
  decimalBody (empty : Digits) : Option Binary64 :=
    let (read, rest) := readDigits 10 empty body
    if read.nonempty then
      (readScale 0x65 false rest).bind fun power =>
        Binary64.ofScaled? negative read.value 10 (power - read.places)
    else none

/-! ## Literals -/

/-- The values with names. -/
def readWord? (text : Bytes) : Option Binary64 :=
  let (negative, word) := takeSign text
  if [utf8 "inf", utf8 "infinity"].contains (word.map lowered) then some (.infinity negative)
  else if text.map lowered = utf8 "nan" then some .notANumber
  else none

/-- The number that a text names. -/
def read? (text : Bytes) : Option Binary64 :=
  match readWord? text with
  | some value => some value
  | none =>
    if text.contains underscore && !underscoresSeparate text then none
    else readBody? (takeSign text).1 (takeSign text).2

end StoreLint.Number
