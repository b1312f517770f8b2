import StoreLint.Program.Expr
import StoreLint.Token.Basic

/-!
# Statements

A program is a list of statements: assignments, `if` with two lists, and `while` with one.  Lists
and statements are a single type: every constructor of `Block` but `empty` puts one statement in
front of a list, so that each function on programs is one structural recursion.

The assignments of a program are numbered from zero in the order in which they are written.  Two
assignments that look the same are told apart by their numbers.
-/

namespace StoreLint

/-- An assignment: the place of its variable, the variable, and the value. -/
structure Assign where
  position : Position
  target : UInt8
  value : Expr
  deriving DecidableEq, Repr, Inhabited

/-- A list of statements. -/
inductive Block where
  /-- No statement. -/
  | empty
  /-- An assignment, and the statements after it. -/
  | assign (write : Assign) (rest : Block)
  /-- An `if` with its line, its condition and its two branches, and the statements after it. -/
  | branch (line : Int) (cond : Expr) (yes no rest : Block)
  /-- A `while` with its line, its condition and its body, and the statements after it. -/
  | loop (line : Int) (cond : Expr) (body rest : Block)
  /-- A statement that is missing, and the statements after it. -/
  | missing (rest : Block)
  deriving DecidableEq, Repr, Inhabited

namespace Block

/-- Is there no statement? -/
def isEmpty : Block → Bool
  | .empty => true
  | _ => false

/-- Two lists, one after the other. -/
def append : Block → Block → Block
  | .empty, after => after
  | .assign write rest, after => .assign write (rest.append after)
  | .branch line cond yes no rest, after => .branch line cond yes no (rest.append after)
  | .loop line cond body rest, after => .loop line cond body (rest.append after)
  | .missing rest, after => .missing (rest.append after)

instance : Append Block := ⟨append⟩

/-- The statements of the first list, last to first, and then those of the second.  The lists inside
statements stay as they are. -/
def reverseOnto : Block → Block → Block
  | .empty, onto => onto
  | .assign write rest, onto => rest.reverseOnto (.assign write onto)
  | .branch line cond yes no rest, onto => rest.reverseOnto (.branch line cond yes no onto)
  | .loop line cond body rest, onto => rest.reverseOnto (.loop line cond body onto)
  | .missing rest, onto => rest.reverseOnto (.missing onto)

/-- The statements of a list, last to first. -/
def reverse (b : Block) : Block :=
  b.reverseOnto .empty

/-- The statements of a list, each as a list of its own. -/
def statements : Block → List Block
  | .empty => []
  | .assign write rest => .assign write .empty :: rest.statements
  | .branch line cond yes no rest => .branch line cond yes no .empty :: rest.statements
  | .loop line cond body rest => .loop line cond body .empty :: rest.statements
  | .missing rest => .missing .empty :: rest.statements

/-- The number of assignments, at any depth. -/
def assignments : Block → Nat
  | .empty => 0
  | .assign _ rest => rest.assignments + 1
  | .branch _ _ yes no rest => yes.assignments + no.assignments + rest.assignments
  | .loop _ _ body rest => body.assignments + rest.assignments
  | .missing rest => rest.assignments

/-- The number of statements, at any depth. -/
def size : Block → Nat
  | .empty => 0
  | .assign _ rest => rest.size + 1
  | .branch _ _ yes no rest => yes.size + no.size + rest.size + 1
  | .loop _ _ body rest => body.size + rest.size + 1
  | .missing rest => rest.size + 1

/-- Are all statements there, at any depth? -/
def complete : Block → Bool
  | .empty => true
  | .assign _ rest => rest.complete
  | .branch _ _ yes no rest => yes.complete && no.complete && rest.complete
  | .loop _ _ body rest => body.complete && rest.complete
  | .missing _ => false

/-! ## Lists in reverse -/

@[simp] theorem append_empty (b : Block) : b.append .empty = b := by
  induction b with
  | empty => rfl
  | assign write rest ih => rw [append, ih]
  | branch line cond yes no rest _ _ ih => rw [append, ih]
  | loop line cond body rest _ ih => rw [append, ih]
  | missing rest ih => rw [append, ih]

theorem append_reverseOnto (b c d : Block) :
    (b.reverseOnto c).append d = b.reverseOnto (c.append d) := by
  induction b generalizing c with
  | empty => rfl
  | assign write rest ih => exact ih (.assign write c)
  | branch line cond yes no rest _ _ ih => exact ih (.branch line cond yes no c)
  | loop line cond body rest _ ih => exact ih (.loop line cond body c)
  | missing rest ih => exact ih (.missing c)

theorem reverseOnto_eq (b onto : Block) : b.reverseOnto onto = b.reverse.append onto :=
  (append_reverseOnto b .empty onto).symm

theorem reverseOnto_reverseOnto (b c d : Block) :
    (b.reverseOnto c).reverseOnto d = c.reverseOnto (b.append d) := by
  induction b generalizing c with
  | empty => rfl
  | assign write rest ih => exact ih (.assign write c)
  | branch line cond yes no rest _ _ ih => exact ih (.branch line cond yes no c)
  | loop line cond body rest _ ih => exact ih (.loop line cond body c)
  | missing rest ih => exact ih (.missing c)

@[simp] theorem reverse_reverse (b : Block) : b.reverse.reverse = b := by
  rw [reverse, reverse, reverseOnto_reverseOnto, append_empty, reverseOnto]

theorem isEmpty_reverseOnto (b onto : Block) :
    (b.reverseOnto onto).isEmpty = (b.isEmpty && onto.isEmpty) := by
  induction b generalizing onto with
  | empty => rfl
  | assign write rest ih => exact (ih _).trans (Bool.and_false _)
  | branch line cond yes no rest _ _ ih => exact (ih _).trans (Bool.and_false _)
  | loop line cond body rest _ ih => exact (ih _).trans (Bool.and_false _)
  | missing rest ih => exact (ih _).trans (Bool.and_false _)

@[simp] theorem isEmpty_reverse (b : Block) : b.reverse.isEmpty = b.isEmpty := by
  rw [reverse, isEmpty_reverseOnto, isEmpty, Bool.and_true]

end Block

end StoreLint
