import StoreLint.Text.Utf8
import StoreLint.Text.Printable

/-!
# Quoted text

Messages show a text between double quotes and a single character between single quotes.  Printable
characters stand for themselves; the rest is escaped, so that a quoted text is always one printable
line.

* `quoted` quotes a text, a stray byte becoming `\x` and two digits.
* `quotedChar` quotes one character.
-/

namespace StoreLint

/-- The letter after the backslash for the control characters that have one. -/
def controlLetter? (c : Char) : Option Char :=
  match c.toNat with
  | 0x07 => some 'a'
  | 0x08 => some 'b'
  | 0x09 => some 't'
  | 0x0A => some 'n'
  | 0x0B => some 'v'
  | 0x0C => some 'f'
  | 0x0D => some 'r'
  | _ => none

/-- A character that is not printable: a letter where there is one, else its number with two, four
or eight hexadecimal digits. -/
def escapedControl (c : Char) : Bytes :=
  match controlLetter? c with
  | some letter => utf8 "\\" ++ utf8Char letter
  | none =>
    if c.toNat < 0x20 || c.toNat == 0x7F then utf8 "\\x" ++ hexDigits 2 c.toNat
    else if c.toNat < 0x10000 then utf8 "\\u" ++ hexDigits 4 c.toNat
    else utf8 "\\U" ++ hexDigits 8 c.toNat

/-- One character between quotes of the kind `quote`. -/
def escapedChar (quote c : Char) : Bytes :=
  if c = quote ∨ c = '\\' then utf8 "\\" ++ utf8Char c
  else if isPrintable c then utf8Char c
  else escapedControl c

/-- One unit of a text between double quotes. -/
def escapedScalar : Utf8.Scalar → Bytes
  | .char c => escapedChar '"' c
  | .stray b => utf8 "\\x" ++ hexDigits 2 b.toNat

/-- A text between double quotes. -/
def quoted (text : Bytes) : Bytes :=
  utf8 "\"" ++ (Utf8.scalars text).flatMap escapedScalar ++ utf8 "\""

/-- A character between single quotes. -/
def quotedChar (c : Char) : Bytes :=
  utf8 "'" ++ escapedChar '\'' c ++ utf8 "'"

end StoreLint
