/-!
# White space around a word

The space characters are those of the Unicode property *White_Space*.  The zero-width space and the
byte order mark do not have it.
-/

namespace StoreLint

/-- Does the character have the property *White_Space*? -/
def isSpace (c : Char) : Bool :=
  (0x09 ≤ c.toNat && c.toNat ≤ 0x0D) || c.toNat == 0x20 || c.toNat == 0x85 || c.toNat == 0xA0 ||
  c.toNat == 0x1680 || (0x2000 ≤ c.toNat && c.toNat ≤ 0x200A) || c.toNat == 0x2028 ||
  c.toNat == 0x2029 || c.toNat == 0x202F || c.toNat == 0x205F || c.toNat == 0x3000

/-- A word without the space characters at its two ends. -/
def trimSpace (word : List Char) : List Char :=
  ((word.dropWhile isSpace).reverse.dropWhile isSpace).reverse

end StoreLint
