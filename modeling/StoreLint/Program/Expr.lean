import StoreLint.Text.Bytes
import StoreLint.Number.Binary64

/-!
# Expressions

Expressions are built from number literals and single-letter variables with six binary operators and
brackets.  Brackets are kept in the tree.  A tree may also have missing parts, which print as
nothing and read nothing.

* `Operator.precedence`: comparisons bind tighter than multiplication and division, and those
  tighter than addition and subtraction.
* `Expr.reads`: the variables that an expression reads, each once and in ascending order.
-/

namespace StoreLint

/-- Binary operators. -/
inductive Operator where
  | add
  | sub
  | mul
  | div
  | less
  | greater
  /-- An operator beyond the known ones. -/
  | unknown
  deriving DecidableEq, Repr, Inhabited

namespace Operator

/-- The known operators, in the order of their numbers from zero on. -/
def known : List Operator :=
  [.add, .sub, .mul, .div, .less, .greater]

/-- The operator with a given number. -/
def ofCode (n : Nat) : Operator :=
  known.getD n .unknown

/-- The sign of an operator. -/
def sign : Operator → String
  | .add => "+"
  | .sub => "-"
  | .mul => "*"
  | .div => "/"
  | .less => "<"
  | .greater => ">"
  | .unknown => "?"

/-- How tightly an operator binds; the greater number binds tighter. -/
def precedence : Operator → Nat
  | .less | .greater => 3
  | .mul | .div => 2
  | _ => 1

end Operator

/-- Expressions. -/
inductive Expr where
  /-- A part that is missing. -/
  | missing
  /-- A number literal as it was written, with its value. -/
  | number (text : Bytes) (value : Binary64)
  /-- A read of a variable. -/
  | variable (name : UInt8)
  /-- An expression in brackets. -/
  | bracket (inner : Expr)
  /-- Two operands with an operator between them. -/
  | binary (left : Expr) (op : Operator) (right : Expr)
  deriving DecidableEq, Repr, Inhabited

namespace Expr

/-- Adds a variable to those in an ascending list, unless it is there. -/
def addName (v : UInt8) : List UInt8 → List UInt8
  | [] => [v]
  | u :: rest =>
    if v < u then v :: u :: rest
    else if u = v then u :: rest
    else u :: addName v rest

/-- Adds the variables that the expression reads to those that have been seen. -/
def collectReads : Expr → List UInt8 → List UInt8
  | .missing, seen | .number _ _, seen => seen
  | .variable name, seen => addName name seen
  | .bracket inner, seen => inner.collectReads seen
  | .binary left _ right, seen => right.collectReads (left.collectReads seen)

/-- The variables that the expression reads, in ascending order. -/
def reads (e : Expr) : List UInt8 :=
  e.collectReads []

/-! ## What is collected -/

theorem mem_addName {u v : UInt8} {seen : List UInt8} :
    u ∈ addName v seen ↔ u ∈ seen ∨ u = v := by
  induction seen with
  | nil => simp [addName]
  | cons w rest ih =>
      unfold addName
      split
      · simp [or_comm]
      · split
        · rename_i heq
          subst heq
          simp only [List.mem_cons]
          exact ⟨Or.inl, fun h => h.elim id Or.inl⟩
        · simp [ih, or_assoc]

theorem pairwise_addName (v : UInt8) {seen : List UInt8} (h : seen.Pairwise (· < ·)) :
    (addName v seen).Pairwise (· < ·) := by
  induction seen with
  | nil => exact List.pairwise_singleton _ _
  | cons w rest ih =>
      obtain ⟨hw, hrest⟩ := List.pairwise_cons.1 h
      unfold addName
      split
      · rename_i hlt
        refine List.pairwise_cons.2 ⟨?_, h⟩
        intro u hu
        rcases List.mem_cons.1 hu with rfl | hu
        · exact hlt
        · exact UInt8.lt_trans hlt (hw u hu)
      · rename_i hnlt
        split
        · exact h
        · rename_i hne
          refine List.pairwise_cons.2 ⟨?_, ih hrest⟩
          intro u hu
          rcases mem_addName.1 hu with hu | rfl
          · exact hw u hu
          · exact UInt8.lt_of_le_of_ne (UInt8.not_lt.1 hnlt) hne

theorem pairwise_collectReads (e : Expr) {seen : List UInt8} (h : seen.Pairwise (· < ·)) :
    (e.collectReads seen).Pairwise (· < ·) := by
  induction e generalizing seen with
  | missing => exact h
  | number text value => exact h
  | «variable» name => exact pairwise_addName name h
  | bracket inner ih => exact ih h
  | binary left op right ihleft ihright => exact ihright (ihleft h)

/-- Each variable is listed once, behind the smaller ones. -/
theorem pairwise_reads (e : Expr) : e.reads.Pairwise (· < ·) :=
  e.pairwise_collectReads .nil

/-- Does the expression read the variable? -/
def mentions (v : UInt8) : Expr → Bool
  | .missing | .number _ _ => false
  | .variable name => name == v
  | .bracket inner => inner.mentions v
  | .binary left _ right => left.mentions v || right.mentions v

theorem mem_collectReads {e : Expr} {v : UInt8} {seen : List UInt8} :
    v ∈ e.collectReads seen ↔ v ∈ seen ∨ e.mentions v = true := by
  induction e generalizing seen with
  | missing => simp [collectReads, mentions]
  | number text value => simp [collectReads, mentions]
  | «variable» name => simp [collectReads, mentions, mem_addName, @eq_comm _ name]
  | bracket inner ih => exact ih
  | binary left op right ihleft ihright =>
      simp only [collectReads, ihright, ihleft, mentions, Bool.or_eq_true, or_assoc]

/-- The variables of `reads` are those that the expression reads. -/
@[simp] theorem mem_reads {e : Expr} {v : UInt8} : v ∈ e.reads ↔ e.mentions v = true := by
  simp [reads, mem_collectReads]

end Expr

end StoreLint
