import StoreLint.Findings.Pending

/-!
# Assignments that are never read

A program is walked once.  An assignment is *dead* when the variable is written again, or the
program ends, while the assignment still waits for a read.

* At an `if` both branches are walked from the same waiting assignments, and what waits after either
  of them waits after the `if`.
* The body of a `while` is walked once.  Then everything that the body or the condition reads is
  taken as read: the next round may read it.

Each dead assignment is reported once, with the assignment that overwrote it first, if one did.  The
report is in the order of discovery, or by line and, within a line, in the order of the text.
-/

namespace StoreLint

/-- A dead assignment, and the one that overwrote it. -/
structure Finding where
  dead : Site
  overwriter : Option Site
  deriving DecidableEq, Repr

namespace Finding

/-- Does the first assignment come before the second, by line and then in the text? -/
def before (a b : Finding) : Bool :=
  a.dead.write.position.line < b.dead.write.position.line ||
    (a.dead.write.position.line == b.dead.write.position.line && a.dead.number ≤ b.dead.number)

end Finding

/-- The order of a report. -/
inductive ReportOrder where
  /-- By line, and within a line in the order of the text. -/
  | byLine
  /-- As found: what was overwritten first, then what waits at the end of the program. -/
  | discovery
  deriving DecidableEq, Repr

/-- Why a program cannot be checked. -/
inductive CheckError where
  /-- A statement is missing. -/
  | unknownStatement
  deriving DecidableEq, Repr

/-- The message about a program that cannot be checked. -/
def CheckError.message : CheckError → Bytes
  | .unknownStatement => utf8 "unknown statement type: <nil>"

/-- What a walk has seen: the number of the next assignment, and the findings so far. -/
structure Log where
  next : Nat
  found : List Finding
  deriving DecidableEq, Repr

namespace Log

/-- Nothing has been seen. -/
def start : Log := ⟨0, []⟩

/-- Has the assignment been reported? -/
def has (log : Log) (s : Site) : Bool :=
  log.found.any fun f => f.dead.number == s.number

/-- Reports an assignment, unless it has been reported. -/
def report (overwriter : Option Site) (log : Log) (s : Site) : Log :=
  if log.has s then log else { log with found := log.found ++ [⟨s, overwriter⟩] }

/-- Reports assignments in order. -/
def reportAll (log : Log) (sites : List Site) (overwriter : Option Site) : Log :=
  sites.foldl (report overwriter) log

end Log

namespace Block

/-- Takes everything that the statements read as read. -/
def replay : Block → Pending → Except CheckError Pending
  | .empty, p => .ok p
  | .assign write rest, p => rest.replay (p.clear write.value.reads)
  | .branch _ cond yes no rest, p => do
    let p ← yes.replay (p.clear cond.reads)
    let p ← no.replay p
    rest.replay p
  | .loop _ cond body rest, p => do
    let p ← body.replay (p.clear cond.reads)
    rest.replay p
  | .missing _, _ => .error .unknownStatement

/-- Walks statements: from what waits before them to what waits after them. -/
def walk : Block → Pending → Log → Except CheckError (Pending × Log)
  | .empty, p, log => .ok (p, log)
  | .assign write rest, p, log =>
    let site : Site := ⟨log.next, write⟩
    let p := p.clear write.value.reads
    let log := log.reportAll (p.get write.target) (some site)
    rest.walk (p.put write.target [site]) { log with next := log.next + 1 }
  | .branch _ cond yes no rest, p, log => do
    let p := p.clear cond.reads
    let (afterYes, log) ← yes.walk p log
    let (afterNo, log) ← no.walk p log
    rest.walk (afterYes.merge afterNo) log
  | .loop _ cond body rest, p, log => do
    let (p, log) ← body.walk (p.clear cond.reads) log
    let p ← body.replay p
    rest.walk (p.clear cond.reads) log
  | .missing _, _, _ => .error .unknownStatement

/-- The dead assignments of a program. -/
def check (order : ReportOrder) (b : Block) : Except CheckError (List Finding) := do
  let (p, log) ← b.walk .none .start
  let found := (log.reportAll p.sites none).found
  match order with
  | .byLine => return found.mergeSort Finding.before
  | .discovery => return found

end Block

end StoreLint
