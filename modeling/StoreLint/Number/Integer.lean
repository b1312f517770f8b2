import StoreLint.Number.Literal

/-!
# Whole numbers of 64 bits

Whole numbers are read with or without a known base.  Without one, the base follows from the front
of the text: `0x`, `0o`, `0b`, a leading `0` for base eight, else ten; then underscores may separate
digits.  A text can fail to be a number, or be a number out of range; digits are read from the left,
so that a number already out of range wins over a bad character after it.
-/

namespace StoreLint.Number

/-- Why a text gives no whole number. -/
inductive IntegerError where
  /-- It is not written as a whole number. -/
  | malformed
  /-- It does not fit into 64 bits. -/
  | outOfRange
  deriving DecidableEq, Repr

/-- The number of words of 64 bits. -/
def words : Nat := 0x10000000000000000

/-- Half of the words of 64 bits, which is one more than the greatest signed number in them. -/
def halfWord : Nat := 0x8000000000000000

/-- Reads digits up to the end of the text. -/
def readNat (base : Nat) (underscores : Bool) (value : Nat) : Bytes → Except IntegerError Nat
  | [] => .ok value
  | b :: rest =>
    if underscores && b = underscore then readNat base underscores value rest
    else
      match digit? base b with
      | none => .error .malformed
      | some d =>
        if value * base + d < words then readNat base underscores (value * base + d) rest
        else .error .outOfRange

/-- The base that the front of a text announces, and the digits after the announcement. -/
def announcedBase : Bytes → Nat × Bytes
  | a :: b :: c :: rest =>
    if a ≠ 0x30 then (10, a :: b :: c :: rest)
    else if lowered b = 0x62 then (2, c :: rest)
    else if lowered b = 0x6F then (8, c :: rest)
    else if lowered b = 0x78 then (16, c :: rest)
    else (8, b :: c :: rest)
  | a :: rest => if a = 0x30 then (8, rest) else (10, a :: rest)
  | [] => (10, [])

/-- A natural number of 64 bits, in the given base or in the one that the text announces. -/
def natural (base : Option Nat) (text : Bytes) : Except IntegerError Nat :=
  if text = [] then .error .malformed
  else
    match base with
    | some base => readNat base false 0 text
    | none =>
      let (base, body) := announcedBase text
      match readNat base true 0 body with
      | .error e => .error e
      | .ok n =>
        if text.contains underscore && !underscoresSeparate text then .error .malformed else .ok n

/-- A signed whole number of 64 bits, with an optional sign in front. -/
def integer (base : Option Nat) (text : Bytes) : Except IntegerError Int :=
  let (negative, body) := takeSign text
  match natural base body with
  | .error e => .error e
  | .ok n =>
    if negative then
      if n ≤ halfWord then .ok (-(n : Int)) else .error .outOfRange
    else if n < halfWord then .ok n
    else .error .outOfRange

end StoreLint.Number
