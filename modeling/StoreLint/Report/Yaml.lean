import StoreLint.Report.Data
import StoreLint.Text.Utf8
import StoreLint.Yaml.Meaning

/-!
# Reports as YAML

Records are written one field a line and lists one item after a dash, two spaces for each level, a
list inside a record standing one level deeper than its name.  A text of one line is written without
quotes if it can be read back so; between single quotes if only its punctuation stands in the way;
else between double quotes.  A text of several lines is written as a block below its name, if it can
be.
-/

namespace StoreLint.Yaml

/-! ## Texts -/

/-- Is the character a blank, or is there none? -/
def isBlankOrEnd : Option Char → Bool
  | none => true
  | some c => isBlank c

/-- Does the character end a line, and can it be written as it is? -/
def endsLine (c : Char) : Bool :=
  c = '\n' || c.toNat = 0x2028 || c.toNat = 0x2029

/-- Can the character only be written as an escape? -/
def isSpecial (c : Char) : Bool :=
  let n := c.toNat
  !(n = 0x0A || (0x20 ≤ n && n ≤ 0x7E) || (0xA0 ≤ n && n < 0xFFFE && n != 0xFEFF))

/-- Do two characters of the given kinds stand one after the other? -/
def hasPair (first second : Char → Bool) : List Char → Bool
  | a :: b :: cs => (first a && second b) || hasPair first second (b :: cs)
  | _ => false

/-- Does the character at the front start something else than a plain text? -/
def isIndicator (c : Char) (next : Option Char) : Bool :=
  indicators.contains c || ((c = '?' || c = ':' || c = '-') && isBlankOrEnd next)

/-- Does a colon or a comment sign end the text too early?  The flag tells whether a blank stands
before it. -/
def isCutShort : (blank : Bool) → List Char → Bool
  | _, [] => false
  | blank, c :: cs =>
    (c = ':' && isBlankOrEnd cs.head?) || (c = '#' && blank) || isCutShort (isBlank c) cs

/-- Can a text without special characters stand without quotes, as far as its punctuation goes? -/
def isPlainAllowed (cs : List Char) : Bool :=
  match cs with
  | [] => true
  | c :: rest =>
    !isIndicator c rest.head? && !isCutShort false rest && c != ' ' && cs.getLast? != some ' '
      && !cs.any endsLine
      && !(cs.take 3 = ['-', '-', '-']) && !(cs.take 3 = ['.', '.', '.'])

/-- The last `width` hexadecimal digits of `n`, in upper case. -/
def upperHexDigits (width n : Nat) : Bytes :=
  (hexDigits width n).map fun b => if 0x61 ≤ b then b - 0x20 else b

/-- The letter after the backslash for the characters that have one. -/
def escapeLetter? (c : Char) : Option Char :=
  match c.toNat with
  | 0x00 => some '0'
  | 0x07 => some 'a'
  | 0x08 => some 'b'
  | 0x09 => some 't'
  | 0x0A => some 'n'
  | 0x0B => some 'v'
  | 0x0C => some 'f'
  | 0x0D => some 'r'
  | 0x1B => some 'e'
  | 0x22 => some '"'
  | 0x5C => some '\\'
  | 0x85 => some 'N'
  | 0xA0 => some '_'
  | 0x2028 => some 'L'
  | 0x2029 => some 'P'
  | _ => none

/-- A character between double quotes. -/
def doubleQuotedChar (c : Char) : Bytes :=
  if isSpecial c ∨ endsLine c ∨ c = '"' ∨ c = '\\' then
    match escapeLetter? c with
    | some letter => utf8 "\\" ++ utf8Char letter
    | none =>
      if c.toNat ≤ 0xFF then utf8 "\\x" ++ upperHexDigits 2 c.toNat
      else if c.toNat ≤ 0xFFFF then utf8 "\\u" ++ upperHexDigits 4 c.toNat
      else utf8 "\\U" ++ upperHexDigits 8 c.toNat
  else utf8Char c

/-- A text between double quotes. -/
def doubleQuoted (cs : List Char) : Bytes :=
  utf8 "\"" ++ cs.flatMap doubleQuotedChar ++ utf8 "\""

/-- The characters of a text over several lines, each line indented.  The flag tells whether a line
has just begun. -/
def indented (indent : Nat) (put : Char → Bytes) : (fresh : Bool) → List Char → Bytes
  | _, [] => []
  | fresh, c :: cs =>
    if endsLine c then utf8Char c ++ indented indent put true cs
    else (if fresh then List.replicate indent 0x20 else []) ++ put c ++ indented indent put false cs

/-- A text between single quotes. -/
def singleQuoted (indent : Nat) (cs : List Char) : Bytes :=
  utf8 "'" ++ indented indent (fun c => if c = '\'' then utf8 "''" else utf8Char c) false cs ++
    utf8 "'"

/-- The sign of a block that tells how it ends: with no line end, with one, or with several. -/
def blockEnding (cs : List Char) : String :=
  match cs.reverse with
  | [] => "-"
  | [c] => if endsLine c then "+" else "-"
  | c :: before :: _ => if !endsLine c then "-" else if endsLine before then "+" else ""

/-- A text as a block, with its last line end.  The depth is told if the first line does not show
it, and a line end at the front is the one after the signs. -/
def block (indent : Nat) (cs : List Char) : Bytes :=
  let starts := cs.head?.any endsLine
  utf8 "|" ++ utf8 (if starts || cs.head? = some ' ' then "2" else "") ++ utf8 (blockEnding cs)
    ++ utf8 (if starts then "" else "\n") ++ indented indent utf8Char true cs
    ++ utf8 (if cs.getLast?.any endsLine then "" else "\n")

/-- Can a text be written as a block? -/
def isBlockAllowed (cs : List Char) : Bool :=
  !cs.any (fun c => isSpecial c && c != '\t') && !hasPair (· = ' ') endsLine cs
    && cs.getLast? != some ' '

/-- Can a text stand between single quotes? -/
def isSingleAllowed (cs : List Char) : Bool :=
  !cs.any isSpecial && !hasPair (· = ' ') endsLine cs && !hasPair endsLine (· = ' ') cs

/-- A text with the quotes that it needs, and the end of its line. -/
def scalar (indent : Nat) (cs : List Char) : Bytes :=
  if cs.contains '\n' then
    if isBlockAllowed cs then block indent cs else doubleQuoted cs ++ utf8 "\n"
  else if !isPlainText cs || !isSingleAllowed cs then doubleQuoted cs ++ utf8 "\n"
  else if isPlainAllowed cs then bytesOf cs ++ utf8 "\n"
  else singleQuoted indent cs ++ utf8 "\n"

end StoreLint.Yaml

namespace StoreLint.Data

/-! ## Lists and records -/

/-- Does the report have lines of its own below a name? -/
def isNested : Data → Bool
  | .list (_ :: _) => true
  | .record (_ :: _) => true
  | _ => false

/-- The blanks in front of a line. -/
def yamlMargin (indent : Nat) : Bytes :=
  List.replicate indent 0x20

/-- A name, and what stands between it and its value. -/
def yamlName (indent : Nat) (name : String) (value : Data) : Bytes :=
  utf8 name ++ utf8 ":" ++ if value.isNested then utf8 "\n" ++ yamlMargin (indent + 2) else utf8 " "

mutual

/-- A report.  Its first line is indented already. -/
def yaml (indent : Nat) : Data → Bytes
  | .number n => decimal n ++ utf8 "\n"
  | .text t => Yaml.scalar indent (Utf8.lossy t)
  | .list [] => utf8 "[]\n"
  | .list (item :: items) => utf8 "- " ++ yaml (indent + 2) item ++ yamlItems indent items
  | .record [] => utf8 "\x7b\x7d\n"
  | .record ((name, value) :: fields) =>
    yamlName indent name value ++ yaml (indent + 2) value ++ yamlFields indent fields

/-- The items of a list after the first. -/
def yamlItems (indent : Nat) : List Data → Bytes
  | [] => []
  | item :: items =>
    yamlMargin indent ++ utf8 "- " ++ yaml (indent + 2) item ++ yamlItems indent items

/-- The fields of a record after the first. -/
def yamlFields (indent : Nat) : List (String × Data) → Bytes
  | [] => []
  | (name, value) :: fields =>
    yamlMargin indent ++ yamlName indent name value ++ yaml (indent + 2) value
      ++ yamlFields indent fields

end

/-- A report as a YAML document. -/
def toYaml (d : Data) : Bytes :=
  d.yaml 0

end StoreLint.Data
