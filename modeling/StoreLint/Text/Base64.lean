import StoreLint.Text.Bytes

/-!
# Bytes in base 64

Three bytes are written as four of sixty-four signs.  A last group of one or two bytes is filled up
with equals signs.
-/

namespace StoreLint.Base64

/-- The value of a sign. -/
def digit? (c : Char) : Option Nat :=
  if 'A' ≤ c ∧ c ≤ 'Z' then some (c.toNat - 65)
  else if 'a' ≤ c ∧ c ≤ 'z' then some (c.toNat - 71)
  else if c.isDigit then some (c.toNat + 4)
  else if c = '+' then some 62
  else if c = '/' then some 63
  else none

/-- The bytes of groups of four signs. -/
def groups? : List Char → Option Bytes
  | [] => some []
  | [a, b, '=', '='] => do
    return [((← digit? a) * 4 + (← digit? b) / 16).toUInt8]
  | [a, b, c, '='] => do
    let n := (← digit? a) * 1024 + (← digit? b) * 16 + (← digit? c) / 4
    return [(n / 256).toUInt8, n.toUInt8]
  | a :: b :: c :: d :: rest => do
    let n := (← digit? a) * 262144 + (← digit? b) * 4096 + (← digit? c) * 64 + (← digit? d)
    return [(n / 65536).toUInt8, (n / 256).toUInt8, n.toUInt8] ++ (← groups? rest)
  | _ => none

/-- The bytes that a text stands for; its line ends do not count. -/
def decode? (text : List Char) : Option Bytes :=
  groups? (text.filter fun c => c != '\n' && c != '\r')

end StoreLint.Base64
