import StoreLint.Program.Expr

/-!
# Grouping a chain of operators

`x₀ op₀ x₁ op₁ … xₙ` is grouped by precedence, operators of equal precedence from the left.  The
tree is built from the right: the chain holds the tree for a tail of the sequence, open at its
leftmost operand.  Putting `left op` in front of it closes the links that bind tighter than `op`;
they become the right operand of `op`.  The other links stay open above the new one.

Each operator is put onto the open links once and taken off at most once, so the work is linear in
the length of the sequence.
-/

namespace StoreLint

/-- A tree that is open at its leftmost operand: that operand, and the operators above it with their
right operands, from the innermost outwards. -/
structure Chain where
  operand : Expr
  links : List (Operator × Expr)
  deriving DecidableEq, Repr

namespace Chain

/-- Applies links, from the innermost outwards, to the operand on their left. -/
def close (operand : Expr) (links : List (Operator × Expr)) : Expr :=
  links.foldl (fun left link => .binary left link.1 link.2) operand

/-- The tree of a chain. -/
def toExpr (c : Chain) : Expr :=
  close c.operand c.links

/-- The chain of a single operand. -/
def single (operand : Expr) : Chain :=
  ⟨operand, []⟩

/-- Does a link bind tighter than the operator? -/
def tighter (op : Operator) (link : Operator × Expr) : Bool :=
  op.precedence < link.1.precedence

/-- Puts `left op` in front of a chain. -/
def prepend (left : Expr) (op : Operator) (c : Chain) : Chain :=
  let right := close c.operand (c.links.takeWhile (tighter op))
  ⟨left, (op, right) :: c.links.dropWhile (tighter op)⟩

/-- The tree of a sequence: its last operand, and the operands before it, each with the operator
after it, from the last to the first. -/
def group (before : List (Expr × Operator)) (last : Expr) : Expr :=
  (before.foldl (fun c link => c.prepend link.1 link.2) (single last)).toExpr

end Chain

end StoreLint
