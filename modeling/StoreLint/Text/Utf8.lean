import StoreLint.Text.Bytes

/-!
# Reading UTF-8

A byte sequence is read from the left as characters.  A byte that starts no well-formed character is
*stray*: it is reported as such, and reading goes on at the next byte.

* `firstChar?` is the character at the front of a text, with its width in bytes.
* `scalars` is the whole text, as characters and stray bytes.
* `toString?` is the text as a string, when no byte of it is stray.
-/

namespace StoreLint.Utf8

/-- A unit of a text that is read as UTF-8. -/
inductive Scalar where
  /-- A well-formed character. -/
  | char (c : Char)
  /-- A byte that belongs to no well-formed character. -/
  | stray (b : UInt8)
  deriving DecidableEq, Repr

/-- Is the byte one that continues a character? -/
def isTail (b : UInt8) : Bool :=
  0x80 ≤ b && b ≤ 0xBF

/-- The least and the greatest second byte that may follow a first byte of a character of three or
four bytes: overlong forms, surrogates and numbers above the last code point are excluded here. -/
def secondRange (a : UInt8) : UInt8 × UInt8 :=
  if a = 0xE0 then (0xA0, 0xBF)
  else if a = 0xED then (0x80, 0x9F)
  else if a = 0xF0 then (0x90, 0xBF)
  else if a = 0xF4 then (0x80, 0x8F)
  else (0x80, 0xBF)

/-- May `b` be the byte after `a`? -/
def isSecond (a b : UInt8) : Bool :=
  (secondRange a).1 ≤ b && b ≤ (secondRange a).2

/-- The character at the front of a text and the number of bytes it takes. -/
def firstChar? : Bytes → Option (Char × Nat)
  | [] => none
  | a :: rest =>
    if a < 0x80 then some (Char.ofNat a.toNat, 1)
    else if 0xC2 ≤ a && a ≤ 0xDF then
      match rest with
      | b :: _ =>
        if isTail b then some (Char.ofNat ((a.toNat - 0xC0) * 64 + (b.toNat - 0x80)), 2) else none
      | _ => none
    else if 0xE0 ≤ a && a ≤ 0xEF then
      match rest with
      | b :: c :: _ =>
        if isSecond a b && isTail c then
          some (Char.ofNat
            ((a.toNat - 0xE0) * 4096 + (b.toNat - 0x80) * 64 + (c.toNat - 0x80)), 3)
        else none
      | _ => none
    else if 0xF0 ≤ a && a ≤ 0xF4 then
      match rest with
      | b :: c :: d :: _ =>
        if isSecond a b && isTail c && isTail d then
          some (Char.ofNat
            ((a.toNat - 0xF0) * 262144 + (b.toNat - 0x80) * 4096 + (c.toNat - 0x80) * 64
              + (d.toNat - 0x80)), 4)
        else none
      | _ => none
    else none

/-- Reads a text after dropping the first `skip` bytes, which belong to a character already read. -/
def scalarsAfter : (skip : Nat) → Bytes → List Scalar
  | _, [] => []
  | skip + 1, _ :: rest => scalarsAfter skip rest
  | 0, b :: rest =>
    match firstChar? (b :: rest) with
    | some (c, width) => .char c :: scalarsAfter (width - 1) rest
    | none => .stray b :: scalarsAfter 0 rest

/-- A text as characters and stray bytes. -/
def scalars (text : Bytes) : List Scalar :=
  scalarsAfter 0 text

/-- A text as characters, a stray byte being read as the replacement character U+FFFD. -/
def lossy (text : Bytes) : List Char :=
  (scalars text).map fun
    | .char c => c
    | .stray _ => '�'

/-- The characters of a text without stray bytes. -/
def chars? (text : Bytes) : Option (List Char) :=
  (scalars text).mapM fun
    | .char c => some c
    | .stray _ => none

/-- The text as a string, unless some byte of it is stray. -/
def toString? (text : Bytes) : Option String :=
  (chars? text).map String.ofList

end StoreLint.Utf8
