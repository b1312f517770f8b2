import StoreLint.Program.Parser

/-!
# Printing programs

A program is printed in one of two layouts: one statement a line, with the lists inside statements
indented, or all on one line with as few spaces as the grammar allows.  Brackets are printed where
the tree has them and nowhere else.
-/

namespace StoreLint

/-- How a program is laid out. -/
structure Layout where
  /-- Is all on one line, without spaces around operators? -/
  minified : Bool
  /-- Spaces for each level of indentation; four when the number is not positive. -/
  indent : Int
  deriving DecidableEq, Repr

namespace Layout

/-- One statement a line, indented by four spaces. -/
def pretty : Layout := ⟨false, 4⟩

/-- The spaces of one level. -/
def unit (l : Layout) : Bytes :=
  List.replicate (if l.indent ≤ 0 then 4 else l.indent.toNat) 0x20

/-- What stands between two statements at a depth. -/
def newline (l : Layout) (depth : Nat) : Bytes :=
  if l.minified then [0x20] else lineFeed :: (List.replicate depth l.unit).flatten
where
  /-- The byte that ends a line. -/
  lineFeed : UInt8 := 0x0A

/-- A sign between two operands. -/
def sign (l : Layout) (text : String) : Bytes :=
  if l.minified then utf8 text else utf8 " " ++ utf8 text ++ utf8 " "

end Layout

/-- Prints an expression. -/
def Expr.print (l : Layout) : Expr → Bytes
  | .missing => []
  | .number text _ => text
  | .variable name => [name]
  | .bracket inner => utf8 "(" ++ inner.print l ++ utf8 ")"
  | .binary left op right => left.print l ++ l.sign op.sign ++ right.print l

/-- Prints an assignment. -/
def Assign.print (l : Layout) (a : Assign) : Bytes :=
  a.target :: l.sign "=" ++ a.value.print l

namespace Block

/-- What stands between a statement and the statements after it. -/
def separator (l : Layout) (depth : Nat) (rest : Block) : Bytes :=
  if rest.isEmpty then [] else l.newline depth

/-- Prints a list of statements at a depth. -/
def print (l : Layout) (depth : Nat) : Block → Bytes
  | .empty => []
  | .assign write rest => write.print l ++ rest.separator l depth ++ rest.print l depth
  | .branch _ cond yes no rest =>
    utf8 "if " ++ cond.print l
      ++ (l.newline (depth + 1) ++ yes.print l (depth + 1) ++ l.newline depth)
      ++ (if no.isEmpty then []
          else utf8 "else" ++ l.newline (depth + 1) ++ no.print l (depth + 1) ++ l.newline depth)
      ++ utf8 "end" ++ rest.separator l depth ++ rest.print l depth
  | .loop _ cond body rest =>
    utf8 "while " ++ cond.print l
      ++ (l.newline (depth + 1) ++ body.print l (depth + 1) ++ l.newline depth)
      ++ utf8 "end" ++ rest.separator l depth ++ rest.print l depth
  | .missing rest => rest.separator l depth ++ rest.print l depth

end Block

namespace Layout

/-- Prints a program; on several lines, the last one is ended too. -/
def program (l : Layout) (b : Block) : Bytes :=
  if l.minified then b.print l 0 else b.print l 0 ++ [0x0A]

/-- Prints a program that may be missing. -/
def program? (l : Layout) : Option Block → Bytes
  | none => []
  | some b => l.program b

/-- Reads a program and prints it. -/
def format (l : Layout) (source : Bytes) : Except ParseError Bytes :=
  (parseSource source).map l.program

end Layout

end StoreLint
