/-!
# Reading from the front of a sequence

A reader takes something from the front of a sequence of signs, or fails.  Readers are put together
in `do` blocks; a failure of one part is a failure of the whole, with no way back.  A reader that
repeats another one is bounded by the length of what is left, because each round takes a sign.
-/

namespace StoreLint

/-- Takes a value of type `α` from the front of a sequence of signs of type `τ`, or fails. -/
abbrev Reader (τ α : Type) := StateT (List τ) Option α

namespace Reader

variable {τ α : Type}

/-- Takes nothing, and always fails. -/
def fail : Reader τ α :=
  fun _ => none

/-- What is left to be read. -/
def rest : Reader τ (List τ) :=
  get

/-- The sign at the front, which stays there. -/
def peek? : Reader τ (Option τ) :=
  return (← get).head?

/-- Takes the sign at the front; fails at the end. -/
def next : Reader τ τ := do
  match ← get with
  | [] => fail
  | x :: xs => set xs; return x

/-- Takes `n` signs, or fewer when fewer are left. -/
def skip (n : Nat) : Reader τ Unit :=
  modify (List.drop n)

/-- Takes exactly `n` signs. -/
def take (n : Nat) : Reader τ (List τ) := do
  let xs := (← get).take n
  if xs.length = n then
    skip n
    return xs
  else fail

/-- Takes the longest run of signs that satisfy `p`. -/
def takeWhile (p : τ → Bool) : Reader τ (List τ) :=
  modifyGet fun xs => (xs.takeWhile p, xs.dropWhile p)

/-- Fails unless the test holds. -/
def require (p : Bool) : Reader τ Unit :=
  if p then pure () else fail

/-- Fails unless nothing is left. -/
def atEnd : Reader τ Unit := do
  require (← get).isEmpty

/-- Takes exactly the given signs. -/
def word [BEq τ] (w : List τ) : Reader τ Unit := do
  require (w.isPrefixOf (← get))
  skip w.length

/-- Takes the next sign if it satisfies `p`; gives what was taken. -/
def optional (p : τ → Bool) : Reader τ (List τ) := do
  match ← get with
  | x :: xs =>
    if p x then
      set xs
      return [x]
    else return []
  | [] => return []

/-- Takes the longest run of signs that satisfy `p`, which must not be empty. -/
def takeSome (p : τ → Bool) : Reader τ (List τ) := do
  let xs ← takeWhile p
  require !xs.isEmpty
  return xs

/-- Fails where there is no value. -/
def ofOption : Option α → Reader τ α
  | some a => pure a
  | none => fail

/-- Repeats a step, each round of which tells whether there is another one, at most `bound` times;
collects what the rounds read. -/
def rounds (step : Reader τ (α × Bool)) : (bound : Nat) → Reader τ (List α)
  | 0 => fail
  | bound + 1 => do
    let (a, more) ← step
    if more then return a :: (← rounds step bound) else return [a]

/-- Repeats a step as long as it tells that there is another round.  Each round has to take a
sign. -/
def loop (step : Reader τ (α × Bool)) : Reader τ (List α) := do
  rounds step ((← get).length + 1)

end Reader

/-- The value of a hexadecimal digit. -/
def hexValue? (c : Char) : Option Nat :=
  if c.isDigit then some (c.toNat - 48)
  else if 'a' ≤ c ∧ c ≤ 'f' then some (c.toNat - 87)
  else if 'A' ≤ c ∧ c ≤ 'F' then some (c.toNat - 55)
  else none

/-- The value of hexadecimal digits. -/
def hexNumber? (cs : List Char) : Option Nat :=
  cs.foldlM (fun n c => (hexValue? c).map (n * 16 + ·)) 0

/-- The character with a given number, if there is one. -/
def char? (n : Nat) : Option Char :=
  if n.isValidChar then some (Char.ofNat n) else none

end StoreLint
