import StoreLint.Text.Utf8

/-!
# The text of a YAML stream

A stream is read piece by piece: its bytes are turned into characters 512 at a time, and a piece is
looked at only when the characters before it do not suffice.  So a byte that makes no character, or
a character that must not stand in a stream, is a fault only if reading gets as far as its piece.

* `Encoding.ofMark` is the encoding that the first bytes of a stream tell.
* `pieces` are the pieces of a stream.
-/

namespace StoreLint.Yaml

/-- How characters are written as bytes. -/
inductive Encoding where
  | utf8
  /-- Units of two bytes, the lower one first or last. -/
  | utf16 (lowFirst : Bool)
  deriving DecidableEq, Repr

/-- The encoding of a stream, and the number of bytes that do nothing but tell it. -/
def Encoding.ofMark : Bytes → Encoding × Nat
  | 0xFF :: 0xFE :: _ => (.utf16 true, 2)
  | 0xFE :: 0xFF :: _ => (.utf16 false, 2)
  | 0xEF :: 0xBB :: 0xBF :: _ => (.utf8, 3)
  | _ => (.utf8, 0)

/-- What stands at the front of some bytes. -/
inductive Front where
  /-- A character that takes so many bytes. -/
  | char (c : Char) (width : Nat)
  /-- The beginning of a character that goes on. -/
  | partOfChar
  /-- No character. -/
  | fault
  deriving DecidableEq, Repr

namespace Front

/-- The number of bytes of a character, by the first of them. -/
def width? (first : UInt8) : Option Nat :=
  if first < 0x80 then some 1
  else if first &&& 0xE0 = 0xC0 then some 2
  else if first &&& 0xF0 = 0xE0 then some 3
  else if first &&& 0xF8 = 0xF0 then some 4
  else none

/-- What stands at the front of bytes in UTF-8. -/
def utf8 (bytes : Bytes) : Front :=
  match bytes.head?.bind width? with
  | none => .fault
  | some width =>
    if bytes.length < width then .partOfChar
    else
      match Utf8.firstChar? bytes with
      | some (c, width) => .char c width
      | none => .fault

/-- A unit of two bytes. -/
def unit (lowFirst : Bool) (a b : UInt8) : Nat :=
  if lowFirst then a.toNat + b.toNat * 256 else b.toNat + a.toNat * 256

/-- Is the unit the first half of a character of two units? -/
def isHigh (n : Nat) : Bool :=
  0xD800 ≤ n && n < 0xDC00

/-- Is the unit the second half of such a character? -/
def isLow (n : Nat) : Bool :=
  0xDC00 ≤ n && n < 0xE000

/-- What stands at the front of bytes in units of two. -/
def utf16 (lowFirst : Bool) : Bytes → Front
  | a :: b :: rest =>
    let n := unit lowFirst a b
    if isLow n then .fault
    else if isHigh n then
      match rest with
      | c :: d :: _ =>
        let m := unit lowFirst c d
        if isLow m then .char (Char.ofNat (0x10000 + (n - 0xD800) * 0x400 + (m - 0xDC00))) 4
        else .fault
      | _ => .partOfChar
    else .char (Char.ofNat n) 2
  | _ => .partOfChar

end Front

/-- What stands at the front of some bytes. -/
def Encoding.front : Encoding → Bytes → Front
  | .utf8 => Front.utf8
  | .utf16 lowFirst => Front.utf16 lowFirst

/-- May the character stand in a stream? -/
def isAllowed (c : Char) : Bool :=
  let n := c.toNat
  n = 0x09 || n = 0x0A || n = 0x0D || (0x20 ≤ n && n ≤ 0x7E) || n = 0x85
    || (0xA0 ≤ n && n ≤ 0xFFFD) || 0x10000 ≤ n

/-- The characters of some bytes after the first `skip` of them, and the bytes at the end that are
the beginning of a character; none if there is a fault. -/
def Encoding.decode? (e : Encoding) : (skip : Nat) → Bytes → Option (List Char × Bytes)
  | _, [] => some ([], [])
  | skip + 1, _ :: rest => e.decode? skip rest
  | 0, b :: rest =>
    match e.front (b :: rest) with
    | .char c width =>
      if isAllowed c then (e.decode? (width - 1) rest).map fun (cs, left) => (c :: cs, left)
      else none
    | .partOfChar => some ([], b :: rest)
    | .fault => none

/-- A piece of a stream: its characters, or none if there is a fault in it. -/
abbrev Piece := Option (List Char)

/-- The greatest number of bytes that are turned into characters at a time. -/
def pieceSize : Nat := 512

/-- The pieces of some bytes; `left` are the bytes at the end of the piece before, which begin a
character, and `bound` bounds the number of pieces. -/
def Encoding.pieces (e : Encoding) (left : Bytes) : (bound : Nat) → Bytes → List Piece
  | 0, _ => []
  | bound + 1, bytes =>
    if bytes.isEmpty then
      if left.isEmpty then [] else [none]
    else
      let room := pieceSize - left.length
      match e.decode? 0 (left ++ bytes.take room) with
      | some (cs, left) => some cs :: e.pieces left bound (bytes.drop room)
      | none => [none]

/-- The pieces of a stream.  An empty stream is an empty line. -/
def pieces (stream : Bytes) : List Piece :=
  let stream := if stream.isEmpty then [0x0A] else stream
  let (e, width) := Encoding.ofMark stream
  match e.decode? 0 ((stream.take pieceSize).drop width) with
  | some (cs, left) => some cs :: e.pieces left (stream.length + 1) (stream.drop pieceSize)
  | none => [none]

end StoreLint.Yaml
