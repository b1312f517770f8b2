/-!
# Double-precision numbers

A number literal stands for the double-precision binary number nearest to it.  The nearest number is
found by exact arithmetic on natural numbers: the literal is a ratio, the ratio is scaled to the
grid of numbers with 53 binary places, and rounded there, a tie going to the even neighbour.

* `roundHalfEven` rounds a ratio to a whole number.
* `ratioLog2` is the position of the first binary place of a ratio.
* `Binary64.ofRatio?` is the nearest number, if the ratio is not too large to have one.
-/

namespace StoreLint

/-- A double-precision binary number, given by the 64 bits of its encoding. -/
structure Binary64 where
  bits : UInt64
  deriving DecidableEq, Repr, Inhabited

/-- The whole number nearest to `num / den`; of two equally near ones the even one. -/
def roundHalfEven (num den : Nat) : Nat :=
  if 2 * (num % den) < den then num / den
  else if den < 2 * (num % den) then num / den + 1
  else if num / den % 2 = 0 then num / den
  else num / den + 1

/-- The greatest `k` such that `2 ^ k` is at most `num / den`, for positive `num` and `den`. -/
def ratioLog2 (num den : Nat) : Int :=
  let k : Int := (num.log2 : Int) - den.log2
  if num * Nat.pow 2 (-k).toNat < den * Nat.pow 2 k.toNat then k - 1 else k

namespace Binary64

/-- The weight of the first of 53 binary places. -/
def leadingPlace : Nat := 0x10000000000000

/-- The bit that is set in negative numbers. -/
def signBit (negative : Bool) : Nat :=
  if negative then 0x8000000000000000 else 0

/-- Infinity of either sign. -/
def infinity (negative : Bool) : Binary64 :=
  ⟨UInt64.ofNat (signBit negative + 0x7FF0000000000000)⟩

/-- The value that is not a number. -/
def notANumber : Binary64 :=
  ⟨0x7FF8000000000001⟩

/-- The weight, as a power of two, of the last place of the numbers around `num / den`. -/
def lastPlace (num den : Nat) : Int :=
  max (ratioLog2 num den) (-1022) - 52

/-- The encoding of the positive number nearest to `num / den`, unbounded above. -/
def magnitude (num den : Nat) : Nat :=
  if num = 0 then 0
  else
    let q := lastPlace num den
    (q + 1074).toNat * leadingPlace
      + roundHalfEven (num * Nat.pow 2 (-q).toNat) (den * Nat.pow 2 q.toNat)

/-- The number nearest to `num / den`, with the given sign; there is none when the nearest number
would lie beyond the greatest finite one. -/
def ofRatio? (negative : Bool) (num den : Nat) : Option Binary64 :=
  if magnitude num den < 0x7FF0000000000000 then
    some ⟨UInt64.ofNat (signBit negative + magnitude num den)⟩
  else none

/-- `num * base ^ exponent`, with the given sign. -/
def ofScaled? (negative : Bool) (num base : Nat) (exponent : Int) : Option Binary64 :=
  ofRatio? negative (num * Nat.pow base exponent.toNat) (Nat.pow base (-exponent).toNat)

/-- The absolute value of a finite number without its fraction. -/
def wholePart (x : Binary64) : Nat :=
  let body := x.bits.toNat % signBit true
  let exponent := body / leadingPlace
  let significand := body % leadingPlace + if exponent = 0 then 0 else leadingPlace
  significand * Nat.pow 2 (exponent - 1075) / Nat.pow 2 (1075 - max exponent 1)

/-- The number as a signed whole number of 64 bits, its fraction cut off.  There is none above these
and for what is not a number.  What lies below them counts as the least of them, and so does the
first number above them. -/
def toInt64? (x : Binary64) : Option Int :=
  let least : Int := -9223372036854775808
  let negative : Bool := signBit true ≤ x.bits.toNat
  if x.bits.toNat % signBit true ≤ (infinity false).bits.toNat ∧ negative then
    if x.wholePart ≤ signBit true then some (-(x.wholePart : Int)) else some least
  else if (infinity false).bits.toNat ≤ x.bits.toNat % signBit true then none
  else if x.wholePart < signBit true then some x.wholePart
  else if x.wholePart = signBit true then some least
  else none

end Binary64

end StoreLint
